import DcMatcher.Lib.Gregorian
import Mathlib.Algebra.Group.Nat.Defs
import Mathlib.Data.List.Induction

/-!
# Decimal digits and calendar days

Nothing here names a program. Numbers written with a fixed number of decimal digits, and
the days and instants of the proleptic Gregorian calendar.

Results:
1. `value_decimal`, `decimal_value`: digits and the numbers they write determine each other.
2. `decimal_lt_iff`: digits are in the order of the numbers.
3. `Instant.text_lt_iff`: instants are in the order of what writes them.
4. `Instant.exists_seconds`: every second of the years 0 to 9999 is one of an instant.
-/

namespace Calendar

/-! ## Decimal digits -/

/-- An ASCII digit. -/
def IsDigit (b : UInt8) : Prop := 0x30 ≤ b.toNat ∧ b.toNat ≤ 0x39

/-- The number that digits write. -/
def value (digits : List UInt8) : Nat := digits.foldl (fun n b => n * 10 + (b.toNat - 0x30)) 0

/-- The digit of a number below 10. -/
def digit (n : Nat) : UInt8 := UInt8.ofNat (0x30 + n % 10)

/-- The last `width` decimal digits of a number. -/
def decimal : Nat → Nat → List UInt8
  | 0, _ => []
  | width + 1, n => decimal width (n / 10) ++ [digit n]

theorem digit_toNat (n : Nat) : (digit n).toNat = 0x30 + n % 10 :=
  UInt8.toNat_ofNat_of_lt' (show _ < 256 by omega)

theorem isDigit_digit (n : Nat) : IsDigit (digit n) := by
  unfold IsDigit
  rw [digit_toNat]
  omega

theorem value_append (digits : List UInt8) (b : UInt8) :
    value (digits ++ [b]) = value digits * 10 + (b.toNat - 0x30) := by
  simp [value, List.foldl_append]

theorem length_decimal (width n : Nat) : (decimal width n).length = width := by
  induction width generalizing n with
  | zero => rfl
  | succ width ih => rw [decimal, List.length_append, ih, List.length_singleton]

theorem isDigit_decimal (width n : Nat) : ∀ b ∈ decimal width n, IsDigit b := by
  induction width generalizing n with
  | zero => simp [decimal]
  | succ width ih =>
    intro b hb
    rcases List.mem_append.mp hb with hb | hb
    · exact ih (n / 10) b hb
    · rw [List.mem_singleton.mp hb]
      exact isDigit_digit n

theorem value_decimal {width n : Nat} (h : n < 10 ^ width) : value (decimal width n) = n := by
  induction width generalizing n with
  | zero =>
    rw [Nat.pow_zero, Nat.lt_one_iff] at h
    rw [h]
    rfl
  | succ width ih =>
    rw [Nat.pow_succ] at h
    rw [decimal, value_append, ih (by omega), digit_toNat]
    omega

theorem decimal_value {digits : List UInt8} (h : ∀ b ∈ digits, IsDigit b) :
    decimal digits.length (value digits) = digits ∧ value digits < 10 ^ digits.length := by
  induction digits using List.reverseRecOn with
  | nil => exact ⟨rfl, Nat.one_pos⟩
  | append_singleton digits b ih =>
    obtain ⟨hdigits, hvalue⟩ := ih fun c hc => h c (List.mem_append_left _ hc)
    obtain ⟨hlow, hhigh⟩ := h b (List.mem_append_right _ (List.mem_singleton_self b))
    have htail : (value digits * 10 + (b.toNat - 0x30)) / 10 = value digits := by omega
    have hhead : digit (value digits * 10 + (b.toNat - 0x30)) = b := by
      apply UInt8.toNat_inj.mp
      rw [digit_toNat]
      omega
    rw [value_append, List.length_append, List.length_singleton, decimal, htail, hdigits, hhead,
      Nat.pow_succ]
    exact ⟨rfl, by omega⟩

theorem decimal_injective {width m n : Nat} (hm : m < 10 ^ width) (hn : n < 10 ^ width)
    (h : decimal width m = decimal width n) : m = n := by
  rw [← value_decimal hm, h, value_decimal hn]

/-! ### The order of digits -/

/-- Lists of which the first parts are equally long are compared part by part. -/
theorem append_lt_append_iff {a b c d : List UInt8} (h : a.length = b.length) :
    a ++ c < b ++ d ↔ a < b ∨ a = b ∧ c < d := by
  induction a generalizing b with
  | nil =>
    obtain rfl := List.length_eq_zero_iff.mp h.symm
    simp
  | cons x a ih =>
    obtain ⟨y, b, rfl⟩ := List.exists_cons_of_length_eq_add_one h.symm
    rw [List.cons_append, List.cons_append, List.cons_lt_cons_iff, List.cons_lt_cons_iff,
      ih (Nat.succ.inj h), List.cons.injEq]
    tauto

theorem digit_lt_iff {m n : Nat} : digit m < digit n ↔ m % 10 < n % 10 := by
  rw [UInt8.lt_iff_toNat_lt, digit_toNat, digit_toNat]
  omega

theorem decimal_lt_iff {width m n : Nat} (hm : m < 10 ^ width) (hn : n < 10 ^ width) :
    decimal width m < decimal width n ↔ m < n := by
  induction width generalizing m n with
  | zero =>
    rw [Nat.pow_zero, Nat.lt_one_iff] at hm hn
    simp [hm, hn]
  | succ width ih =>
    rw [Nat.pow_succ] at hm hn
    have hm' : m / 10 < 10 ^ width := by omega
    have hn' : n / 10 < 10 ^ width := by omega
    have heq : decimal width (m / 10) = decimal width (n / 10) ↔ m / 10 = n / 10 :=
      ⟨decimal_injective hm' hn', fun h => by rw [h]⟩
    rw [decimal, decimal, append_lt_append_iff (by rw [length_decimal, length_decimal]),
      ih hm' hn', heq, List.cons_lt_cons_iff, digit_lt_iff]
    simp only [List.not_lt_nil, and_false, or_false]
    omega

/-- A number, and what is compared if it is the same. -/
theorem decimal_append_lt_iff {width m n : Nat} (hm : m < 10 ^ width) (hn : n < 10 ^ width)
    {c d : List UInt8} :
    decimal width m ++ c < decimal width n ++ d ↔ m < n ∨ m = n ∧ c < d := by
  have heq : decimal width m = decimal width n ↔ m = n :=
    ⟨decimal_injective hm hn, fun h => by rw [h]⟩
  rw [append_lt_append_iff (by rw [length_decimal, length_decimal]), decimal_lt_iff hm hn, heq]

/-! ## Days and instants -/

/-- Every fourth year is a leap year, but of the centuries only every fourth. -/
def IsLeap (year : Nat) : Prop := year % 4 = 0 ∧ (year % 100 ≠ 0 ∨ year % 400 = 0)

instance (year : Nat) : Decidable (IsLeap year) :=
  inferInstanceAs (Decidable (year % 4 = 0 ∧ (year % 100 ≠ 0 ∨ year % 400 = 0)))

/-- The days of a month. -/
def daysInMonth (year month : Nat) : Nat :=
  if month = 2 then (if IsLeap year then 29 else 28)
  else if month = 4 ∨ month = 6 ∨ month = 9 ∨ month = 11 then 30
  else 31

/-- A day of a year that takes four digits. -/
structure Day where
  year : Nat
  month : Nat
  day : Nat
  year_lt : year < 10 ^ 4
  month_pos : 1 ≤ month
  month_le : month ≤ 12
  day_pos : 1 ≤ day
  day_le : day ≤ daysInMonth year month

/-- A second of such a day. -/
structure Instant extends Day where
  hour : Nat
  minute : Nat
  second : Nat
  hour_lt : hour < 24
  minute_lt : minute < 60
  second_lt : second < 60

theorem daysInMonth_le (year month : Nat) : daysInMonth year month ≤ 31 := by
  unfold daysInMonth
  split_ifs <;> decide

/-- `YYYY-MM-DD`. -/
def Day.text (d : Day) : List UInt8 :=
  decimal 4 d.year ++ 0x2D :: (decimal 2 d.month ++ 0x2D :: decimal 2 d.day)

/-- `YYYY-MM-DDThh:mm:ssZ`. -/
def Instant.text (t : Instant) : List UInt8 :=
  t.toDay.text ++ 0x54 :: (decimal 2 t.hour ++ 0x3A :: (decimal 2 t.minute ++
    0x3A :: (decimal 2 t.second ++ [0x5A])))

/-! ## Dates and seconds -/

theorem isLeap_iff (year : Nat) : Gregorian.IsLeap year ↔ IsLeap year := by
  unfold Gregorian.IsLeap IsLeap
  omega

theorem daysInMonth_eq (year month : Nat) :
    Gregorian.daysInMonth year month = (daysInMonth year month : Int) := by
  unfold Gregorian.daysInMonth daysInMonth
  simp only [isLeap_iff]
  split_ifs <;> omega

/-- A day as a date of the calendar. -/
def Day.date (d : Day) : Gregorian.Date where
  year := d.year
  month := d.month
  day := d.day
  month_pos := Int.ofNat_le.mpr d.month_pos
  month_le := Int.ofNat_le.mpr d.month_le
  day_pos := Int.ofNat_le.mpr d.day_pos
  day_le := by
    rw [daysInMonth_eq]
    exact Int.ofNat_le.mpr d.day_le

/-- The date of a year that takes four digits is a day. -/
theorem Day.exists_date {date : Gregorian.Date} (hpos : 0 ≤ date.year)
    (hlt : date.year < 10 ^ 4) : ∃ d : Day, d.date = date := by
  obtain ⟨year, month, day, hmonth, hmonth', hday, hday'⟩ := date
  obtain ⟨year, rfl⟩ := Int.eq_ofNat_of_zero_le hpos
  obtain ⟨month, rfl⟩ := Int.eq_ofNat_of_zero_le (Int.le_trans (by decide) hmonth)
  obtain ⟨day, rfl⟩ := Int.eq_ofNat_of_zero_le (Int.le_trans (by decide) hday)
  rw [daysInMonth_eq] at hday'
  have hyear : year < 10 ^ 4 := by
    have hcast : (year : Int) < 10 ^ 4 := hlt
    omega
  exact ⟨⟨year, month, day, hyear, Int.ofNat_le.mp hmonth, Int.ofNat_le.mp hmonth',
    Int.ofNat_le.mp hday, Int.ofNat_le.mp hday'⟩, rfl⟩

/-- The seconds from the start of 1970. -/
def Instant.seconds (t : Instant) : Int :=
  t.date.number * 86400 + t.hour * 3600 + t.minute * 60 + t.second

/-- Instants are in the order of what writes them. -/
theorem Instant.text_lt_iff {t u : Instant} : t.text < u.text ↔ t.seconds < u.seconds := by
  have hmonth : ∀ v : Instant, v.month < 10 ^ 2 := fun v =>
    Nat.lt_of_le_of_lt v.month_le (by decide)
  have hday : ∀ v : Instant, v.day < 10 ^ 2 := fun v =>
    Nat.lt_of_le_of_lt (Nat.le_trans v.day_le (daysInMonth_le v.year v.month)) (by decide)
  have hhour : ∀ v : Instant, v.hour < 10 ^ 2 := fun v => Nat.lt_trans v.hour_lt (by decide)
  have hminute : ∀ v : Instant, v.minute < 10 ^ 2 := fun v => Nat.lt_trans v.minute_lt (by decide)
  have hsecond : ∀ v : Instant, v.second < 10 ^ 2 := fun v => Nat.lt_trans v.second_lt (by decide)
  have hnumber : t.date.number < u.date.number ↔ t.year < u.year ∨
      t.year = u.year ∧ (t.month < u.month ∨ t.month = u.month ∧ t.day < u.day) := by
    rw [Gregorian.Date.number_lt_iff]
    show ((t.year : Int) < u.year ∨ (t.year : Int) = u.year ∧
      ((t.month : Int) < u.month ∨ (t.month : Int) = u.month ∧ (t.day : Int) < u.day)) ↔ _
    omega
  have hsame : t.date.number = u.date.number ↔
      t.year = u.year ∧ t.month = u.month ∧ t.day = u.day := by
    rw [Gregorian.Date.number_injective.eq_iff, Gregorian.Date.ext_iff]
    show ((t.year : Int) = u.year ∧ (t.month : Int) = u.month ∧ (t.day : Int) = u.day) ↔ _
    omega
  have hclock := And.intro t.hour_lt (And.intro t.minute_lt t.second_lt)
  have hclock' := And.intro u.hour_lt (And.intro u.minute_lt u.second_lt)
  unfold Instant.text Day.text seconds
  simp only [List.append_assoc, List.cons_append, decimal_append_lt_iff t.year_lt u.year_lt,
    decimal_append_lt_iff (hmonth t) (hmonth u), decimal_append_lt_iff (hday t) (hday u),
    decimal_append_lt_iff (hhour t) (hhour u), decimal_append_lt_iff (hminute t) (hminute u),
    decimal_append_lt_iff (hsecond t) (hsecond u), List.cons_lt_cons_self, List.lt_irrefl,
    and_false, or_false]
  omega

/-- The seconds of the years that take four digits. -/
theorem Instant.seconds_range (t : Instant) :
    -62167219200 ≤ t.seconds ∧ t.seconds ≤ 253402300799 := by
  have hyear := t.date.number_le_of_year
  have hlow : Gregorian.daysBeforeYear 0 ≤ Gregorian.daysBeforeYear t.date.year :=
    Gregorian.Date.daysBeforeYear_le (Int.natCast_nonneg t.year)
  have hhigh : Gregorian.daysBeforeYear (t.date.year + 1) ≤ Gregorian.daysBeforeYear 10000 :=
    Gregorian.Date.daysBeforeYear_le (by have := t.year_lt; show (t.year : Int) + 1 ≤ _; omega)
  have hfirst : Gregorian.daysBeforeYear 0 = -366 := by decide
  have hlast : Gregorian.daysBeforeYear 10000 = 3652059 := by decide
  have hhour := t.hour_lt
  have hminute := t.minute_lt
  have hsecond := t.second_lt
  unfold seconds
  omega

/-- Every second of these years is that of an instant. -/
theorem Instant.exists_seconds {n : Int} (hlow : -62167219200 ≤ n) (hhigh : n ≤ 253402300799) :
    ∃ t : Instant, t.seconds = n := by
  obtain ⟨date, hdate⟩ := Gregorian.Date.exists_number (n / 86400)
  have hyear := date.number_le_of_year
  have hpos : 0 ≤ date.year := by
    by_contra hneg
    have hle := Gregorian.Date.daysBeforeYear_le (show date.year + 1 ≤ 0 by omega)
    have hfirst : Gregorian.daysBeforeYear 0 = -366 := by decide
    omega
  have hlt : date.year < 10 ^ 4 := by
    by_contra hlarge
    have hle := Gregorian.Date.daysBeforeYear_le (show 10000 ≤ date.year by omega)
    have hlast : Gregorian.daysBeforeYear 10000 = 3652059 := by decide
    omega
  obtain ⟨d, rfl⟩ := Day.exists_date hpos hlt
  refine ⟨⟨d, (n % 86400).toNat / 3600, (n % 86400).toNat % 3600 / 60, (n % 86400).toNat % 60,
    by omega, by omega, by omega⟩, ?_⟩
  show d.date.number * 86400 + _ + _ + _ = n
  rw [hdate]
  simp only
  omega

end Calendar
