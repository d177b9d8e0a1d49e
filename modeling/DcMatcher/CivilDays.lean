import DcMatcher.ProofTime

/-!
# Civil dates and day numbers

`days_from_civil` and `civil_from_days`, one against the other, and what their `i64` arithmetic
bears.

Results:
1. `daysFromCivilChecked_eq_some`, `civilFromDaysChecked_eq_some`: neither overflows exactly up to
   one number, the same for both.
2. `civil_inverse`: they are inverse to each other, and the next date has the next number.
3. `civil_overflow`: not for every date that three `i64` can write.
-/

namespace DcMatcher

open ProofTime

/-- `days_from_civil` as a build with overflow checks runs it: nothing where an operation
overflows. -/
def daysFromCivilChecked (y m d : Int) : Option Int := do
  let y ← (if m ≤ 2 then inI64 (y - 1) else some y)
  let era := y / 400
  let yoe := y % 400
  let month ← inI64 (m + 9)
  let mp := month.tmod 12
  let day ← inI64 ((153 * mp + 2).tdiv 5 + d)
  let doy ← inI64 (day - 1)
  let doe ← inI64 (yoe * 365 + yoe.tdiv 4 - yoe.tdiv 100 + doy)
  let days ← inI64 (era * 146097)
  let days ← inI64 (days + doe)
  inI64 (days - 719468)

/-- `civil_from_days` as such a build runs it. -/
def civilFromDaysChecked (z : Int) : Option (Int × Int × Int) := do
  let z ← inI64 (z + 719468)
  let era := z / 146097
  let doe := z % 146097
  let yoe := (doe - doe.tdiv 1460 + doe.tdiv 36524 - doe.tdiv 146096).tdiv 365
  let doy := doe - (365 * yoe + yoe.tdiv 4 - yoe.tdiv 100)
  let mp := (5 * doy + 2).tdiv 153
  let d := doy - (153 * mp + 2).tdiv 5 + 1
  let m := if mp < 10 then mp + 3 else mp - 9
  let years ← inI64 (era * 400)
  let year ← inI64 (yoe + years)
  let year ← inI64 (year + (if m ≤ 2 then 1 else 0))
  return (year, m, d)

/-! ## Overflow -/

theorem inI64_eq_some {n k : Int} : inI64 n = some k ↔ n = k ∧ -(2 ^ 63) ≤ k ∧ k < 2 ^ 63 := by
  unfold inI64
  constructor
  · intro h
    split at h
    · next hfits =>
      cases h
      exact ⟨rfl, hfits⟩
    · cases h
  · rintro ⟨rfl, hfits⟩
    exact if_pos hfits

/-- The days from March up to the month of a date, and the number of the date. -/
theorem daysFromCivil_era (date : Gregorian.Date) : ∃ y days : Int,
    y = (if date.month ≤ 2 then date.year - 1 else date.year) ∧
      days = (153 * (date.month + 9).tmod 12 + 2).tdiv 5 ∧ 0 ≤ days ∧ days ≤ 337 ∧
      date.day ≤ 31 ∧
      date.number = y / 400 * 146097 +
        (y % 400 * 365 + (y % 400).tdiv 4 - (y % 400).tdiv 100 + (days + date.day - 1)) -
          719468 := by
  have hpos := date.month_pos
  have hday : date.day ≤ 31 := by
    have hle := date.day_le
    unfold Gregorian.daysInMonth at hle
    split_ifs at hle <;> omega
  have hmp : (date.month + 9).tmod 12 = (date.month + 9) % 12 :=
    Int.tmod_eq_emod_of_nonneg (by omega)
  have htdiv : (153 * ((date.month + 9) % 12) + 2).tdiv 5 =
      (153 * ((date.month + 9) % 12) + 2) / 5 := Int.tdiv_eq_ediv_of_nonneg (by omega)
  refine ⟨_, _, rfl, rfl, ?_, ?_, hday, (daysFromCivil_eq date).symm⟩
  · rw [hmp, htdiv]
    omega
  · rw [hmp, htdiv]
    omega

/-- Up to the number that `civil_from_days` can still shift. -/
theorem daysFromCivilChecked_eq_some (date : Gregorian.Date) {n : Int} :
    daysFromCivilChecked date.year date.month date.day = some n ↔
      date.number = n ∧ -(2 ^ 63) ≤ n ∧ n + 719468 < 2 ^ 63 := by
  obtain ⟨y, days, hy, hdays, hlow, hhigh, hday, hnumber⟩ := daysFromCivil_era date
  have hpos := date.month_pos
  have hle := date.month_le
  have hday' := date.day_pos
  have hyoe : 0 ≤ y % 400 := Int.emod_nonneg y (by decide)
  have htdiv : ∀ k, (y % 400).tdiv k = y % 400 / k := fun k => Int.tdiv_eq_ediv_of_nonneg hyoe
  rw [htdiv, htdiv] at hnumber
  unfold daysFromCivilChecked
  simp only [Option.bind_eq_bind, Option.bind_eq_some_iff, inI64_eq_some]
  constructor
  · rintro ⟨y', hy', _, ⟨rfl, _⟩, _, ⟨rfl, _⟩, _, ⟨rfl, _⟩, _, ⟨rfl, _⟩, _, ⟨rfl, _⟩, _,
      ⟨rfl, _, hmax⟩, hn, hmin, _⟩
    have hsame : y' = y := by
      rw [hy]
      split at hy'
      · next hmonth => rw [if_pos hmonth, (inI64_eq_some.mp hy').1]
      · next hmonth => rw [if_neg hmonth, Option.some.inj hy']
    rw [hsame, htdiv, htdiv, ← hdays] at hn hmax
    exact ⟨hnumber.trans hn, hmin, by omega⟩
  · rintro ⟨rfl, hmin, hmax⟩
    have hyear : (if date.month ≤ 2 then inI64 (date.year - 1) else some date.year) = some y := by
      rw [hy]
      split
      · next hmonth =>
        rw [if_pos hmonth] at hy
        exact inI64_eq_some.mpr ⟨rfl, by omega⟩
      · rfl
    refine ⟨y, hyear, _, ⟨rfl, by omega⟩, _, ⟨rfl, ?_⟩, _, ⟨rfl, ?_⟩, _, ⟨rfl, ?_⟩, _,
      ⟨rfl, by omega⟩, _, ⟨rfl, ?_⟩, ?_⟩ <;> rw [← hdays]
    · omega
    · omega
    · rw [htdiv, htdiv]
      omega
    · rw [htdiv, htdiv]
      omega
    · rw [htdiv, htdiv]
      exact ⟨hnumber.symm, hmin, by omega⟩

/-- The year of an era is small. -/
theorem yearOfEra_le {doe : Int} (h : 0 ≤ doe) (h' : doe < 146097) :
    0 ≤ (doe - doe.tdiv 1460 + doe.tdiv 36524 - doe.tdiv 146096).tdiv 365 ∧
      (doe - doe.tdiv 1460 + doe.tdiv 36524 - doe.tdiv 146096).tdiv 365 ≤ 400 := by
  have htdiv : ∀ k, doe.tdiv k = doe / k := fun k => Int.tdiv_eq_ediv_of_nonneg h
  rw [htdiv, htdiv, htdiv, Int.tdiv_eq_ediv_of_nonneg (by omega)]
  omega

/-- Only the shift of the number can overflow. -/
theorem civilFromDaysChecked_eq (z : Int) :
    civilFromDaysChecked z =
      if -(2 ^ 63) ≤ z + 719468 ∧ z + 719468 < 2 ^ 63 then some (civilFromDays z) else none := by
  obtain ⟨hlow, hhigh⟩ := @yearOfEra_le ((z + 719468) % 146097) (Int.emod_nonneg _ (by decide))
    (Int.emod_lt_of_pos _ (by decide))
  by_cases hfits : -(2 ^ 63) ≤ z + 719468 ∧ z + 719468 < 2 ^ 63
  · rw [if_pos hfits]
    unfold civilFromDaysChecked civilFromDays
    simp only [Option.bind_eq_bind, Option.bind_eq_some_iff, inI64_eq_some]
    refine ⟨_, ⟨rfl, hfits⟩, _, ⟨rfl, by omega⟩, _, ⟨rfl, by omega⟩, _, ⟨rfl, ?_⟩, rfl⟩
    split <;> omega
  · rw [if_neg hfits]
    unfold civilFromDaysChecked inI64
    rw [if_neg hfits]
    rfl

/-! ## One against the other -/

/-- Over the integers the two are inverse to each other, for every date of the calendar and every
number, and the next date has the next number. With the `i64` of the source neither overflows
exactly from `i64::MIN` to the largest number that can be shifted by 719468, and then gives the
same. -/
theorem civil_inverse :
    (∀ date : Gregorian.Date, civilFromDays (daysFromCivil date.year date.month date.day) =
      (date.year, date.month, date.day)) ∧
    (∀ n, ∃ date : Gregorian.Date, civilFromDays n = (date.year, date.month, date.day) ∧
      daysFromCivil date.year date.month date.day = n) ∧
    (∀ date : Gregorian.Date,
      daysFromCivil date.next.year date.next.month date.next.day =
        daysFromCivil date.year date.month date.day + 1) ∧
    (∀ (date : Gregorian.Date) n, daysFromCivilChecked date.year date.month date.day = some n ↔
      daysFromCivil date.year date.month date.day = n ∧
        -(2 ^ 63) ≤ n ∧ n ≤ 2 ^ 63 - 1 - 719468) ∧
    (∀ n civil, civilFromDaysChecked n = some civil ↔ civilFromDays n = civil ∧
      -(2 ^ 63) ≤ n + 719468 ∧ n ≤ 2 ^ 63 - 1 - 719468) := by
  refine ⟨fun date => ?_, fun n => ?_, fun date => ?_, fun date n => ?_, fun n civil => ?_⟩
  · rw [daysFromCivil_eq, civilFromDays_number]
  · obtain ⟨date, rfl⟩ := Gregorian.Date.exists_number n
    exact ⟨date, civilFromDays_number date, daysFromCivil_eq date⟩
  · rw [daysFromCivil_eq, daysFromCivil_eq, Gregorian.Date.number_next]
  · rw [daysFromCivilChecked_eq_some, daysFromCivil_eq]
    omega
  · rw [civilFromDaysChecked_eq]
    split
    · next hfits =>
      rw [Option.some.injEq]
      exact ⟨fun h => ⟨h, by omega⟩, fun h => h.1⟩
    · next hfits =>
      simp only [reduceCtorEq, false_iff]
      omega

/-- The first day of the last year that an `i64` can write has no number that an `i64` can hold,
and no number is taken to it, wrapped or not. -/
theorem civil_overflow :
    (∃ date : Gregorian.Date, (date.year, date.month, date.day) = (2 ^ 63 - 1, 1, 1)) ∧
      daysFromCivilChecked (2 ^ 63 - 1) 1 1 = none ∧
      ∀ n, -(2 ^ 64) ≤ n → n < 2 ^ 63 → civilFromDays n ≠ (2 ^ 63 - 1, 1, 1) := by
  refine ⟨⟨⟨2 ^ 63 - 1, 1, 1, by decide, by decide, by decide, by decide⟩, rfl⟩, by decide, ?_⟩
  intro n _ hn heq
  obtain ⟨date, rfl⟩ := Gregorian.Date.exists_number n
  rw [civilFromDays_number] at heq
  have hnumber := daysFromCivil_eq date
  simp only [Prod.mk.injEq] at heq
  obtain ⟨hyear, hmonth, hday⟩ := heq
  rw [hyear, hmonth, hday] at hnumber
  have hlarge : 2 ^ 63 ≤ daysFromCivil (2 ^ 63 - 1) 1 1 := by decide
  omega

end DcMatcher
