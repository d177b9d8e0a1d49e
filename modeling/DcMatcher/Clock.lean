import DcMatcher.FullDate

/-!
# The clock of a presentation

What the times of `proof_time.rs` say about instants: `render` and `parse` turn seconds into text
and back, and `check_tolerance` places an instant in the verifier's window.

Results:
1. `parse_render`: both directions are inverse and keep the order, on real instants only.
2. `checkTolerance_exact`: the window is that of unbounded integers.
-/

namespace DcMatcher

open Calendar

namespace ProofTime

/-! ## 1. Text and instants -/

/-- What is parsed is rendered back. -/
theorem render_of_parse {text : String} {secs : Int} (hparse : parse text = .ok secs)
    (hpos : 0 ≤ secs) : render secs = .ok text := by
  obtain ⟨t, htext, rfl⟩ := parse_eq_ok.mp hparse
  obtain ⟨text', hrender, htext'⟩ := render_seconds t hpos
  rw [hrender, utf8_inj (htext'.trans htext.symm)]

/-- What is rendered is parsed back. -/
theorem exists_render {secs : Int} (hpos : 0 ≤ secs) (hle : secs ≤ MAX_SECS) :
    ∃ text, render secs = .ok text ∧ parse text = .ok secs := by
  have hlow : -62167219200 ≤ secs := Int.le_trans (by decide) hpos
  obtain ⟨t, rfl⟩ := Instant.exists_seconds hlow hle
  obtain ⟨text, hrender, htext⟩ := render_seconds t hpos
  exact ⟨text, hrender, parse_eq_ok.mpr ⟨t, htext, rfl⟩⟩

theorem render_outOfRange {secs : Int} (h : ¬ (0 ≤ secs ∧ secs ≤ MAX_SECS)) :
    render secs = .error .outOfRange := by
  unfold render
  rw [if_pos h]

/-- Texts are in the order of their instants. -/
theorem parse_lt_iff {a b : String} {s t : Int} (ha : parse a = .ok s) (hb : parse b = .ok t) :
    utf8 a < utf8 b ↔ s < t := by
  obtain ⟨x, hx, rfl⟩ := parse_eq_ok.mp ha
  obtain ⟨y, hy, rfl⟩ := parse_eq_ok.mp hb
  rw [hx, hy, Instant.text_lt_iff]

/-- The text of a day's first second. -/
theorem text_midnight (d : Day) :
    (⟨d, 0, 0, 0, by decide, by decide, by decide⟩ : Instant).text =
      d.text ++ utf8 "T00:00:00Z" := by
  have hmidnight : utf8 "T00:00:00Z" =
      0x54 :: (decimal 2 0 ++ 0x3A :: (decimal 2 0 ++ 0x3A :: (decimal 2 0 ++ [0x5A]))) := by
    decide
  rw [hmidnight]
  rfl

/-- The two checks of a date agree. -/
theorem isFullDate_iff_parse {s : String} :
    isFullDate s = true ↔ ∃ secs, parse (s ++ "T00:00:00Z") = .ok secs := by
  rw [isFullDate_iff, parse_ok_iff, utf8_append]
  constructor
  · rintro ⟨d, hd⟩
    exact ⟨⟨d, 0, 0, 0, by decide, by decide, by decide⟩, by rw [text_midnight, hd]⟩
  · rintro ⟨t, ht⟩
    refine ⟨t.toDay, (List.append_inj' ht ?_).1⟩
    simp only [List.length_cons, List.length_append, length_decimal]
    decide

/-- Rendering and parsing are inverse, and keep the order. Only real instants are parsed, and a
day is a full date if its midnight is one of them. -/
theorem parse_render :
    (∀ secs, 0 ≤ secs → secs ≤ MAX_SECS →
      ∃ text, render secs = .ok text ∧ parse text = .ok secs) ∧
    (∀ secs, ¬ (0 ≤ secs ∧ secs ≤ MAX_SECS) → render secs = .error .outOfRange) ∧
    (∀ text secs, parse text = .ok secs → 0 ≤ secs → render secs = .ok text) ∧
    (∀ a b s t, parse a = .ok s → parse b = .ok t → (utf8 a < utf8 b ↔ s < t)) ∧
    (∀ text secs, parse text = .ok secs →
      ∃ t : Instant, utf8 text = t.text ∧ secs = t.seconds) ∧
    (∀ s, isFullDate s = true ↔ ∃ secs, parse (s ++ "T00:00:00Z") = .ok secs) :=
  ⟨fun _ => exists_render, fun _ => render_outOfRange, fun _ _ => render_of_parse,
    fun _ _ _ _ => parse_lt_iff, fun _ _ => parse_eq_ok.mp, fun _ => isFullDate_iff_parse⟩

/-- The leap day of a century. -/
theorem parse_render_leapDay : render 951782400 = .ok "2000-02-29T00:00:00Z" :=
  parse_render.2.2.1 "2000-02-29T00:00:00Z" 951782400 (by decide) (by decide)

/-! ## 2. The window -/

/-- What is parsed is far from the ends of 64 bits. -/
theorem parse_range {text : String} {secs : Int} (hparse : parse text = .ok secs) :
    -(2 ^ 63) < secs ∧ secs < 2 ^ 63 - 1 := by
  obtain ⟨t, -, rfl⟩ := parse_eq_ok.mp hparse
  have hrange := t.seconds_range
  omega

/-- A number within the range is compared with a sum as with the saturated sum. -/
theorem saturate_lt_iff {n t : Int} (hlow : -(2 ^ 63) < t) (hhigh : t < 2 ^ 63 - 1) :
    (saturate n < t ↔ n < t) ∧ (t < saturate n ↔ t < n) := by
  unfold saturate
  omega

/-- Saturation does not change the window. -/
theorem checkTolerance_exact (proofTime : String) (nowSecs skewSecs maxAgeSecs : Int64) :
    (checkTolerance proofTime nowSecs skewSecs maxAgeSecs = .ok () ↔
      ∃ t, parse proofTime = .ok t ∧ nowSecs.toInt - maxAgeSecs.toInt ≤ t ∧
        t ≤ nowSecs.toInt + skewSecs.toInt) ∧
    ∀ t, parse proofTime = .ok t →
      (checkTolerance proofTime nowSecs skewSecs maxAgeSecs = .error .inFuture ↔
        nowSecs.toInt + skewSecs.toInt < t) ∧
      (checkTolerance proofTime nowSecs skewSecs maxAgeSecs = .error .tooOld ↔
        t ≤ nowSecs.toInt + skewSecs.toInt ∧ t < nowSecs.toInt - maxAgeSecs.toInt) := by
  unfold checkTolerance saturatingAdd saturatingSub
  cases hparse : parse proofTime with
  | error e => simp
  | ok t =>
    obtain ⟨hlow, hhigh⟩ := parse_range hparse
    have hskew := (saturate_lt_iff (n := nowSecs.toInt + skewSecs.toInt) hlow hhigh).1
    have hage := (saturate_lt_iff (n := nowSecs.toInt - maxAgeSecs.toInt) hlow hhigh).2
    simp only [gt_iff_lt, hskew, hage, Except.ok.injEq, exists_eq_left', forall_eq']
    split_ifs with hfuture hold
    · simp only [reduceCtorEq, false_iff, true_iff, Except.error.injEq]
      omega
    · simp only [reduceCtorEq, false_iff, true_iff, Except.error.injEq]
      omega
    · simp only [false_iff, true_iff]
      omega

/-- The sum of the clock and the skew is out of range, and the time is too old. -/
theorem checkTolerance_exact_saturated :
    checkTolerance "1970-01-01T00:00:00Z" Int64.maxValue 1 0 = .error .tooOld :=
  ((checkTolerance_exact "1970-01-01T00:00:00Z" Int64.maxValue 1 0).2 0 (by decide)).2.mpr
    (by decide)

end ProofTime

end DcMatcher
