import Mathlib.Data.Int.Interval
import Mathlib.Data.Set.Card
import Mathlib.Tactic.IntervalCases

/-!
# The proleptic Gregorian calendar

Nothing here names a program. Dates of any year, in the order of the calendar, and their day
numbers: 1970-01-01 has number 0, and the next day has the next number.

Results:
1. `number_next`: the day after a date has the next number.
2. `number_lt_iff`, `exists_number`: the numbers are the integers, in the order of the dates.
3. `ncard_span`: how many days there are from one date to another.
-/

namespace Gregorian

/-! ## Dates -/

/-- Every fourth year is a leap year, but of the centuries only every fourth. -/
def IsLeap (year : Int) : Prop := year % 4 = 0 ∧ (year % 100 ≠ 0 ∨ year % 400 = 0)

instance (year : Int) : Decidable (IsLeap year) :=
  inferInstanceAs (Decidable (year % 4 = 0 ∧ (year % 100 ≠ 0 ∨ year % 400 = 0)))

/-- The days of a month. -/
def daysInMonth (year month : Int) : Int :=
  if month = 2 then (if IsLeap year then 29 else 28)
  else if month = 4 ∨ month = 6 ∨ month = 9 ∨ month = 11 then 30
  else 31

/-- A date of the calendar. -/
@[ext]
structure Date where
  year : Int
  month : Int
  day : Int
  month_pos : 1 ≤ month
  month_le : month ≤ 12
  day_pos : 1 ≤ day
  day_le : day ≤ daysInMonth year month

theorem one_le_daysInMonth (year month : Int) : 1 ≤ daysInMonth year month := by
  unfold daysInMonth
  split_ifs <;> decide

namespace Date

/-- The first day of a month. -/
def first (year month : Int) (hpos : 1 ≤ month) (hle : month ≤ 12) : Date :=
  ⟨year, month, 1, hpos, hle, Int.le_refl 1, one_le_daysInMonth year month⟩

/-- The last day of a month. -/
def last (year month : Int) (hpos : 1 ≤ month) (hle : month ≤ 12) : Date :=
  ⟨year, month, daysInMonth year month, hpos, hle, one_le_daysInMonth year month, Int.le_refl _⟩

/-- The date after a date. -/
def next (d : Date) : Date :=
  if hday : d.day < daysInMonth d.year d.month then
    { d with day := d.day + 1, day_pos := Int.le_add_of_nonneg_left (Int.le_of_lt d.day_pos)
             day_le := hday }
  else if hmonth : d.month < 12 then
    first d.year (d.month + 1) (Int.le_add_of_nonneg_left (Int.le_of_lt d.month_pos)) hmonth
  else first (d.year + 1) 1 (by decide) (by decide)

/-- The date before a date. -/
def prev (d : Date) : Date :=
  if hday : 1 < d.day then
    { d with day := d.day - 1, day_pos := Int.le_sub_one_of_lt hday
             day_le := Int.le_trans (Int.sub_le_self _ (by decide)) d.day_le }
  else if hmonth : 1 < d.month then
    last d.year (d.month - 1) (Int.le_sub_one_of_lt hmonth)
      (Int.le_trans (Int.sub_le_self _ (by decide)) d.month_le)
  else last (d.year - 1) 12 (by decide) (by decide)

/-- The order of the calendar. -/
instance : LT Date where
  lt a b := a.year < b.year ∨
    a.year = b.year ∧ (a.month < b.month ∨ a.month = b.month ∧ a.day < b.day)

instance : LE Date where
  le a b := a.year < b.year ∨
    a.year = b.year ∧ (a.month < b.month ∨ a.month = b.month ∧ a.day ≤ b.day)

end Date

/-! ## Day numbers -/

/-- The days before a year, counted from the start of year 1. -/
def daysBeforeYear (year : Int) : Int :=
  365 * (year - 1) + (year - 1) / 4 - (year - 1) / 100 + (year - 1) / 400

/-- The days of a year before a month. From March on, months of 31 and 30 days take turns,
five of them with 153 days. -/
def daysBeforeMonth (year month : Int) : Int :=
  if month ≤ 2 then 31 * (month - 1)
  else (153 * (month - 3) + 2) / 5 + 59 + (if IsLeap year then 1 else 0)

/-- The number of a date. -/
def Date.number (d : Date) : Int :=
  daysBeforeYear d.year + daysBeforeMonth d.year d.month + d.day - 719163

example : (⟨1970, 1, 1, by decide, by decide, by decide, by decide⟩ : Date).number = 0 := by decide

theorem daysBeforeYear_succ (year : Int) :
    daysBeforeYear (year + 1) = daysBeforeYear year + (if IsLeap year then 366 else 365) := by
  unfold daysBeforeYear IsLeap
  split_ifs <;> omega

/-- A month begins where the one before it ends. -/
theorem daysBeforeMonth_succ {year month : Int} (hpos : 1 ≤ month) (hle : month < 12) :
    daysBeforeMonth year (month + 1) = daysBeforeMonth year month + daysInMonth year month := by
  unfold daysBeforeMonth daysInMonth
  interval_cases month <;> simp <;> split_ifs <;> rfl

/-- A year ends where December ends. -/
theorem daysBeforeYear_succ_eq (year : Int) :
    daysBeforeYear (year + 1) =
      daysBeforeYear year + (daysBeforeMonth year 12 + daysInMonth year 12) := by
  rw [daysBeforeYear_succ]
  unfold daysBeforeMonth daysInMonth
  split_ifs <;> simp_all

namespace Date

/-- The day after a date has the next number. -/
theorem number_next (d : Date) : d.next.number = d.number + 1 := by
  have hday := d.day_le
  have hpos := d.month_pos
  have hle := d.month_le
  unfold next
  split
  · simp only [number]
    omega
  · split
    · next hmonth =>
      have hstart := @daysBeforeMonth_succ d.year d.month hpos hmonth
      simp only [number, first, hstart]
      omega
    · next hmonth =>
      have hdec : d.month = 12 := by omega
      have hyear := daysBeforeYear_succ_eq d.year
      have hjan : daysBeforeMonth (d.year + 1) 1 = 0 := rfl
      simp only [number, first, hyear, hjan, hdec] at *
      omega

theorem number_prev (d : Date) : d.prev.number = d.number - 1 := by
  have hday := d.day_pos
  have hpos := d.month_pos
  have hle := d.month_le
  unfold prev
  split
  · simp only [number]
    omega
  · split
    · next hmonth =>
      have hstart := @daysBeforeMonth_succ d.year (d.month - 1) (by omega) (by omega)
      rw [Int.sub_add_cancel] at hstart
      simp only [number, last, hstart]
      omega
    · next hmonth =>
      have hjan : d.month = 1 := by omega
      have hyear := daysBeforeYear_succ_eq (d.year - 1)
      rw [Int.sub_add_cancel] at hyear
      have hzero : daysBeforeMonth d.year 1 = 0 := rfl
      simp only [number, last, hyear, hzero, hjan]
      omega

/-! ## The order of the numbers -/

/-- A date lies within its month. -/
theorem number_le_of_month_lt {a b : Date} (hyear : a.year = b.year) (h : a.month < b.month) :
    a.number < b.number := by
  have hpos := a.month_pos
  have hle := b.month_le
  have hday := a.day_le
  have hfirst := b.day_pos
  have hstart : daysBeforeMonth a.year a.month + daysInMonth a.year a.month ≤
      daysBeforeMonth a.year b.month := by
    rw [← daysBeforeMonth_succ hpos (by omega)]
    unfold daysBeforeMonth
    split_ifs <;> omega
  simp only [number, ← hyear]
  omega

/-- A date lies within its year. -/
theorem number_le_of_year (d : Date) :
    daysBeforeYear d.year < d.number + 719163 ∧
      d.number + 719163 ≤ daysBeforeYear (d.year + 1) := by
  have hpos := d.month_pos
  have hle := d.month_le
  have hday := d.day_pos
  have hlast := d.day_le
  have hstart : 0 ≤ daysBeforeMonth d.year d.month := by
    unfold daysBeforeMonth
    split_ifs <;> omega
  have hend : daysBeforeMonth d.year d.month + daysInMonth d.year d.month ≤
      daysBeforeMonth d.year 12 + daysInMonth d.year 12 := by
    rcases Int.lt_or_eq_of_le hle with hlt | heq
    · rw [← daysBeforeMonth_succ hpos hlt]
      have hdec := one_le_daysInMonth d.year 12
      unfold daysBeforeMonth
      split_ifs <;> omega
    · rw [heq]
  rw [daysBeforeYear_succ_eq]
  simp only [number]
  omega

theorem daysBeforeYear_le {a b : Int} (h : a ≤ b) : daysBeforeYear a ≤ daysBeforeYear b := by
  unfold daysBeforeYear
  omega

/-- Later dates have greater numbers. -/
theorem number_lt {a b : Date} (h : a < b) : a.number < b.number := by
  rcases h with hyear | ⟨hyear, hmonth | ⟨hmonth, hday⟩⟩
  · have ha := a.number_le_of_year.2
    have hb := b.number_le_of_year.1
    have hbetween := daysBeforeYear_le (Int.add_one_le_of_lt hyear)
    omega
  · exact number_le_of_month_lt hyear hmonth
  · simp only [number, hyear, hmonth]
    omega

theorem lt_trichotomy (a b : Date) : a < b ∨ a = b ∨ b < a := by
  rcases Int.lt_trichotomy a.year b.year with hyear | hyear | hyear
  · exact .inl (.inl hyear)
  · rcases Int.lt_trichotomy a.month b.month with hmonth | hmonth | hmonth
    · exact .inl (.inr ⟨hyear, .inl hmonth⟩)
    · rcases Int.lt_trichotomy a.day b.day with hday | hday | hday
      · exact .inl (.inr ⟨hyear, .inr ⟨hmonth, hday⟩⟩)
      · exact .inr (.inl (Date.ext hyear hmonth hday))
      · exact .inr (.inr (.inr ⟨hyear.symm, .inr ⟨hmonth.symm, hday⟩⟩))
    · exact .inr (.inr (.inr ⟨hyear.symm, .inl hmonth⟩))
  · exact .inr (.inr (.inl hyear))

theorem number_lt_iff {a b : Date} : a.number < b.number ↔ a < b := by
  refine ⟨fun h => ?_, number_lt⟩
  rcases lt_trichotomy a b with hlt | rfl | hgt
  · exact hlt
  · exact absurd h (Int.lt_irrefl _)
  · exact absurd (number_lt hgt) (Int.lt_asymm h)

/-- Every date has its own number. -/
theorem number_injective : Function.Injective number := by
  intro a b h
  rcases lt_trichotomy a b with hlt | heq | hgt
  · exact absurd (number_lt hlt) (by rw [h]; exact Int.lt_irrefl _)
  · exact heq
  · exact absurd (number_lt hgt) (by rw [h]; exact Int.lt_irrefl _)

theorem le_iff_lt_or_eq {a b : Date} : a ≤ b ↔ a < b ∨ a = b := by
  constructor
  · rintro (hyear | ⟨hyear, hmonth | ⟨hmonth, hday⟩⟩)
    · exact .inl (.inl hyear)
    · exact .inl (.inr ⟨hyear, .inl hmonth⟩)
    · rcases Int.lt_or_eq_of_le hday with hlt | heq
      · exact .inl (.inr ⟨hyear, .inr ⟨hmonth, hlt⟩⟩)
      · exact .inr (Date.ext hyear hmonth heq)
  · rintro ((hyear | ⟨hyear, hmonth | ⟨hmonth, hday⟩⟩) | rfl)
    · exact .inl hyear
    · exact .inr ⟨hyear, .inl hmonth⟩
    · exact .inr ⟨hyear, .inr ⟨hmonth, Int.le_of_lt hday⟩⟩
    · exact .inr ⟨rfl, .inr ⟨rfl, Int.le_refl _⟩⟩

theorem number_le_iff {a b : Date} : a.number ≤ b.number ↔ a ≤ b := by
  rw [le_iff_lt_or_eq, ← number_lt_iff, ← number_injective.eq_iff]
  exact Int.le_iff_lt_or_eq

/-- Every integer is the number of a date. -/
theorem exists_number (n : Int) : ∃ d : Date, d.number = n := by
  induction n with
  | zero => exact ⟨⟨1970, 1, 1, by decide, by decide, by decide, by decide⟩, by decide⟩
  | succ n ih =>
    obtain ⟨d, hd⟩ := ih
    exact ⟨d.next, by rw [number_next, hd]⟩
  | pred n ih =>
    obtain ⟨d, hd⟩ := ih
    exact ⟨d.prev, by rw [number_prev, hd]⟩

/-! ## Spans -/

/-- The dates from one to another, both included. -/
def span (a b : Date) : Set Date := { d | a ≤ d ∧ d ≤ b }

/-- The number of days of a span. -/
theorem ncard_span (a b : Date) : (span a b).ncard = (b.number - a.number + 1).toNat := by
  have himage : number '' span a b = Set.Icc a.number b.number := by
    ext n
    constructor
    · rintro ⟨d, ⟨hle, hge⟩, rfl⟩
      exact ⟨number_le_iff.mpr hle, number_le_iff.mpr hge⟩
    · rintro ⟨hle, hge⟩
      obtain ⟨d, rfl⟩ := exists_number n
      exact ⟨d, ⟨number_le_iff.mp hle, number_le_iff.mp hge⟩, rfl⟩
  rw [← Set.ncard_image_of_injective _ number_injective, himage, ← Finset.coe_Icc,
    Set.ncard_coe_finset, Int.card_Icc]
  congr 1
  omega

end Date

end Gregorian
