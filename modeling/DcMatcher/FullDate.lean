import DcMatcher.ProofTime

/-!
# Full dates

`is_full_date` of `zkp_req.rs`: the date of a parameter, `YYYY-MM-DD`.

Results:
1. `isFullDate_iff`: what passes is exactly what writes a day of the calendar.
2. `dayNumber_text`: its day number is that of the calendar.
-/

namespace DcMatcher

open Calendar ProofTime

/-- A piece of the right length, all digits. -/
theorem digits_piece_iff {piece : String} {width : Nat} :
    (byteLen piece == width && (utf8 piece).all isAsciiDigit) = true ↔
      Digits width (utf8 piece) := by
  rw [Bool.and_eq_true, beq_iff_eq, List.all_eq_true]
  constructor
  · rintro ⟨hlength, hall⟩
    exact ⟨hlength, fun b hb => isAsciiDigit_iff.mp (hall b hb)⟩
  · rintro ⟨hlength, hdigit⟩
    exact ⟨hlength, fun b hb => isAsciiDigit_iff.mpr (hdigit b hb)⟩

theorem digit_ne_dash {b : UInt8} (h : IsDigit b) : Char.ofNat b.toNat ≠ '-' := by
  obtain ⟨hlow, hhigh⟩ := h
  generalize b.toNat = n at *
  interval_cases n <;> decide

/-- Digits are a text, and it has no dash. -/
theorem exists_digits_text {digits : List UInt8} (h : ∀ b ∈ digits, IsDigit b) :
    ∃ piece : String, utf8 piece = digits ∧ '-' ∉ piece.toList := by
  refine ⟨ascii digits, utf8_ascii fun b hb => ?_, ?_⟩
  · exact Nat.lt_of_le_of_lt (h b hb).2 (by decide)
  · rw [ascii, String.toList_ofList, List.mem_map]
    rintro ⟨b, hb, heq⟩
    exact digit_ne_dash (h b hb) heq

section Pieces

variable {s y m d : String}

/-- The three pieces are judged by their numbers. -/
theorem isFullDate_of_split (hsplit : split '-' s = [y, m, d]) (hy : Digits 4 (utf8 y))
    (hm : Digits 2 (utf8 m)) (hd : Digits 2 (utf8 d)) :
    isFullDate s = true ↔
      (1 ≤ value (utf8 m) ∧ value (utf8 m) ≤ 12) ∧
        1 ≤ value (utf8 d) ∧ value (utf8 d) ≤ daysInMonth (value (utf8 y)) (value (utf8 m)) := by
  have hnum : ∀ {width piece}, Digits width (utf8 piece) → 0 < width → width ≤ 4 →
      parseU32 (utf8 piece) = some (value (utf8 piece)) := fun hpiece hpos hle =>
    parseU32_digits (List.ne_nil_of_length_pos (by rw [hpiece.length]; exact hpos))
      (by rw [hpiece.length]; exact hle) hpiece.digit
  have hpieces : ((byteLen y == 4 && (utf8 y).all isAsciiDigit) &&
      (byteLen m == 2 && (utf8 m).all isAsciiDigit) &&
        (byteLen d == 2 && (utf8 d).all isAsciiDigit)) = true := by
    rw [digits_piece_iff.mpr hy, digits_piece_iff.mpr hm, digits_piece_iff.mpr hd]
    rfl
  unfold isFullDate
  simp only [hsplit, hpieces, Bool.not_true, Bool.false_eq_true, if_false,
    hnum hy (by decide) (by decide), hnum hm (by decide) (by decide),
    hnum hd (by decide) (by decide), monthDays_eq]
  by_cases hmonth : 1 ≤ value (utf8 m) ∧ value (utf8 m) ≤ 12
  · rw [if_pos hmonth]
    simp [hmonth]
  · rw [if_neg hmonth]
    simp [hmonth]

/-- What passes is three runs of digits. -/
theorem pieces_of_isFullDate (h : isFullDate s = true) :
    ∃ y m d, split '-' s = [y, m, d] ∧ Digits 4 (utf8 y) ∧ Digits 2 (utf8 m) ∧
      Digits 2 (utf8 d) := by
  unfold isFullDate at h
  simp only at h
  split at h
  · next y m d hsplit =>
    split at h
    · cases h
    · next hpieces =>
      simp only [Bool.not_eq_true', Bool.not_eq_false, Bool.and_eq_true] at hpieces
      obtain ⟨⟨hy, hm⟩, hd⟩ := hpieces
      exact ⟨y, m, d, hsplit, digits_piece_iff.mp (Bool.and_eq_true_iff.mpr hy),
        digits_piece_iff.mp (Bool.and_eq_true_iff.mpr hm),
        digits_piece_iff.mp (Bool.and_eq_true_iff.mpr hd)⟩
  · cases h

end Pieces

/-- What writes a day is split into its numbers. -/
theorem split_text {s : String} {day : Day} (h : utf8 s = day.text) :
    ∃ y m d, split '-' s = [y, m, d] ∧ utf8 y = decimal 4 day.year ∧
      utf8 m = decimal 2 day.month ∧ utf8 d = decimal 2 day.day := by
  obtain ⟨y, hy, hny⟩ := exists_digits_text (isDigit_decimal 4 day.year)
  obtain ⟨m, hm, hnm⟩ := exists_digits_text (isDigit_decimal 2 day.month)
  obtain ⟨d, hd, hnd⟩ := exists_digits_text (isDigit_decimal 2 day.day)
  have htext : s = y ++ String.singleton '-' ++ m ++ String.singleton '-' ++ d := by
    apply utf8_inj
    rw [h]
    simp [utf8_append, utf8_dash, hy, hm, hd, Day.text]
  exact ⟨y, m, d, htext ▸ split_append hny hnm hnd, hy, hm, hd⟩

/-- `day_number` of what writes a day is its number in the calendar. -/
theorem dayNumber_text {s : String} {day : Day} (h : utf8 s = day.text) :
    dayNumber s = some day.date.number := by
  obtain ⟨y, m, d, hsplit, hy, hm, hd⟩ := split_text h
  have hdays := daysInMonth_le day.year day.month
  have hmonth := day.month_le
  have hle := day.day_le
  have hnum : ∀ {width n : Nat}, 0 < width → width ≤ 4 → n < 10 ^ width →
      parseI64 (decimal width n) = some (n : Int) := fun hpos hwidth hn => by
    rw [(digits_decimal _ _).parse hpos hwidth, value_decimal hn]
  unfold dayNumber
  rw [hsplit]
  simp only [hy, hm, hd, hnum (by decide) (by decide) day.year_lt,
    hnum (by decide) (by decide) (by omega : day.month < 10 ^ 2),
    hnum (by decide) (by decide) (by omega : day.day < 10 ^ 2)]
  exact congrArg some (daysFromCivil_eq day.date)

/-- What passes is exactly what writes a day of the calendar. -/
theorem isFullDate_iff {s : String} : isFullDate s = true ↔ ∃ d : Day, utf8 s = d.text := by
  constructor
  · intro h
    obtain ⟨y, m, d, hsplit, hy, hm, hd⟩ := pieces_of_isFullDate h
    obtain ⟨⟨hm₁, hm₂⟩, hd₁, hd₂⟩ := (isFullDate_of_split hsplit hy hm hd).mp h
    refine ⟨⟨value (utf8 y), value (utf8 m), value (utf8 d), hy.written.2, hm₁, hm₂, hd₁, hd₂⟩, ?_⟩
    show utf8 s = decimal 4 (value (utf8 y)) ++ 0x2D :: (decimal 2 (value (utf8 m)) ++
      0x2D :: decimal 2 (value (utf8 d)))
    rw [hy.written.1, hm.written.1, hd.written.1, split_eq hsplit]
    simp [utf8_append, utf8_dash]
  · rintro ⟨day, hday⟩
    obtain ⟨y, m, d, hsplit, hy, hm, hd⟩ := split_text hday
    have hdays := daysInMonth_le day.year day.month
    have hmonth := day.month_le
    have hle := day.day_le
    refine (isFullDate_of_split hsplit ?_ ?_ ?_).mpr ?_
    · rw [hy]; exact digits_decimal 4 _
    · rw [hm]; exact digits_decimal 2 _
    · rw [hd]; exact digits_decimal 2 _
    · rw [hy, hm, hd, value_decimal day.year_lt, value_decimal (by omega : day.month < 10 ^ 2),
        value_decimal (by omega : day.day < 10 ^ 2)]
      exact ⟨⟨day.month_pos, day.month_le⟩, day.day_pos, day.day_le⟩

end DcMatcher
