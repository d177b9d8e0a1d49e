import DcMatcher.ZkpReq
import DcMatcher.Lib.Calendar
import Mathlib.Tactic.IntervalCases

/-!
# `proof_time` of a presentation

`proof_time.rs`: the exact 20-byte form `YYYY-MM-DDThh:mm:ssZ`, and the check of a time against
the verifier's clock.

Results:
1. `daysFromCivil_eq`, `civilFromDays_number`: both conversions are those of the calendar.
2. `ProofTime.parse_eq_ok`: what parses is exactly what writes a real instant, to its second.
-/

namespace DcMatcher

namespace ProofTime

/-- Length in bytes of the exact form. -/
def LEN : Nat := 20

/-- The largest second that renders in four year digits: 9999-12-31T23:59:59Z. -/
def MAX_SECS : Int := 253402300799

/-- Why a `proof_time` was refused. -/
inductive InvalidProofTime
  | form
  | notAnInstant
  | outOfRange
  | inFuture
  | tooOld
deriving DecidableEq, Repr

/-- The shape of the exact form; `d` stands for a digit. -/
def shape : List UInt8 := utf8 "dddd-dd-ddTdd:dd:ddZ"

/-- Whether a byte is as the shape has it. -/
def fits (c s : UInt8) : Bool := if s = 0x64 then isAsciiDigit c else c == s

/-- The end of `parse`: the instant of the numbers, if it is real. -/
def secondsOf (y mo d h mi s : Int) : Except InvalidProofTime Int :=
  match monthDays y mo with
  | none => .error .notAnInstant
  | some days =>
    if ¬ (1 ≤ d ∧ d ≤ days) ∨ h > 23 ∨ mi > 59 ∨ s > 59 then .error .notAnInstant
    else .ok (daysFromCivil y mo d * 86400 + h * 3600 + mi * 60 + s)

/-- `parse`: seconds since the Unix epoch. The slices are taken once all bytes are ASCII. -/
def parse (text : String) : Except InvalidProofTime Int :=
  let b := utf8 text
  if b.length ≠ LEN then .error .form
  else if !(b.zip shape).all fun (c, s) => fits c s then .error .form
  else
    let num (start stop : Nat) : Option Int := parseI64 ((b.take stop).drop start)
    match num 0 4, num 5 7, num 8 10, num 11 13, num 14 16, num 17 19 with
    | some y, some mo, some d, some h, some mi, some s => secondsOf y mo d h mi s
    | _, _, _, _, _, _ => .error .form

example : parse "1970-01-02T00:00:01Z" = .ok 86401 := by decide
example : parse "2026-02-29T00:00:00Z" = .error .notAnInstant := by decide

/-- `civil_from_days`: days since 1970-01-01 to a proleptic Gregorian (year, month, day). -/
def civilFromDays (z : Int) : Int × Int × Int :=
  let z := z + 719468
  let era := z / 146097
  let doe := z % 146097
  let yoe := (doe - doe.tdiv 1460 + doe.tdiv 36524 - doe.tdiv 146096).tdiv 365
  let doy := doe - (365 * yoe + yoe.tdiv 4 - yoe.tdiv 100)
  let mp := (5 * doy + 2).tdiv 153
  let d := doy - (153 * mp + 2).tdiv 5 + 1
  let m := if mp < 10 then mp + 3 else mp - 9
  (yoe + era * 400 + (if m ≤ 2 then 1 else 0), m, d)

/-- `render`: seconds since the Unix epoch as the 20-byte form. -/
def render (secs : Int) : Except InvalidProofTime String :=
  if ¬ (0 ≤ secs ∧ secs ≤ MAX_SECS) then .error .outOfRange
  else
    let days := secs / 86400
    let rem := secs % 86400
    let (y, m, d) := civilFromDays days
    .ok (zeroPadded 4 y ++ "-" ++ zeroPadded 2 m ++ "-" ++ zeroPadded 2 d ++ "T" ++
      zeroPadded 2 (rem.tdiv 3600) ++ ":" ++ zeroPadded 2 ((rem.tmod 3600).tdiv 60) ++ ":" ++
      zeroPadded 2 (rem.tmod 60) ++ "Z")

/-- `check_tolerance`: the tolerance check against the verifier's clock. -/
def checkTolerance (proofTime : String) (nowSecs skewSecs maxAgeSecs : Int64) :
    Except InvalidProofTime Unit :=
  match parse proofTime with
  | .error e => .error e
  | .ok t =>
    if t > saturatingAdd nowSecs skewSecs then .error .inFuture
    else if t < saturatingSub nowSecs maxAgeSecs then .error .tooOld
    else .ok ()

open Calendar

/-! ## The conversions of dates -/

/-- The days before a year that starts in March, by its place in an era of 400 years. -/
theorem daysBeforeMarch_eq (y : Int) :
    y / 400 * 146097 + (y % 400 * 365 + y % 400 / 4 - y % 400 / 100) =
      Gregorian.daysBeforeYear (y + 1) := by
  unfold Gregorian.daysBeforeYear
  omega

/-- `days_from_civil` without its truncating divisions. -/
theorem daysFromCivil_march (y m d : Int) (hm : 1 ≤ m) :
    daysFromCivil y m d =
      Gregorian.daysBeforeYear ((if m ≤ 2 then y - 1 else y) + 1) +
        ((153 * ((m + 9) % 12) + 2) / 5 + d - 1) - 719468 := by
  rw [← daysBeforeMarch_eq]
  unfold daysFromCivil
  generalize (if m ≤ 2 then y - 1 else y) = y'
  have hyoe : 0 ≤ y' % 400 := Int.emod_nonneg y' (by decide)
  have hmp : 0 ≤ (m + 9) % 12 := Int.emod_nonneg (m + 9) (by decide)
  simp only [Int.tmod_eq_emod_of_nonneg (show 0 ≤ m + 9 by omega), Int.tdiv_eq_ediv_of_nonneg hyoe,
    Int.tdiv_eq_ediv_of_nonneg (show 0 ≤ 153 * ((m + 9) % 12) + 2 by omega)]
  omega

/-- `days_from_civil` is the number of the date. -/
theorem daysFromCivil_eq (d : Gregorian.Date) :
    daysFromCivil d.year d.month d.day = d.number := by
  have hpos := d.month_pos
  have hle := d.month_le
  have hyear := Gregorian.daysBeforeYear_succ d.year
  rw [daysFromCivil_march _ _ _ hpos]
  unfold Gregorian.Date.number Gregorian.daysBeforeMonth
  split
  · next hmonth =>
    rw [Int.sub_add_cancel]
    omega
  · next hmonth =>
    rw [hyear]
    split <;> omega

/-- The quotients that count the leap days of each kind before a day of an era. -/
theorem leapDays_eq {c q r doy : Int} (hc : 0 ≤ c) (hc' : c ≤ 3) (hq : 0 ≤ q) (hq' : q ≤ 24)
    (hr : 0 ≤ r) (hr' : r ≤ 3) (hdoy : 0 ≤ doy) (hdoy' : doy ≤ 365) :
    (36524 * c + 1461 * q + 365 * r + doy) / 1460 =
        25 * c + q + (if 1460 ≤ 24 * c + q + 365 * r + doy then 1 else 0) ∧
      (36524 * c + 1461 * q + 365 * r + doy) / 36524 =
        c + (if q = 24 ∧ r = 3 ∧ doy = 365 then 1 else 0) ∧
      (36524 * c + 1461 * q + 365 * r + doy) / 146096 =
        if c = 3 ∧ q = 24 ∧ r = 3 ∧ doy = 365 then 1 else 0 := by
  refine ⟨?_, ?_, ?_⟩ <;> split_ifs <;> omega

/-- The year of an era, counted from March, from the day of the era: each quotient counts the
leap days of a kind. -/
theorem yearOfEra_eq {yoe doy doe : Int} (hyoe : 0 ≤ yoe) (hyoe' : yoe < 400) (hdoy : 0 ≤ doy)
    (hdoy' : doy ≤ 365) (hleap : doy = 365 → Gregorian.IsLeap (yoe + 1))
    (hdoe : doe = yoe * 365 + yoe / 4 - yoe / 100 + doy) :
    (doe - doe / 1460 + doe / 36524 - doe / 146096) / 365 = yoe := by
  unfold Gregorian.IsLeap at hleap
  obtain ⟨c, q, r, hc, hc', hq, hq', hr, hr', heq⟩ : ∃ c q r : Int, 0 ≤ c ∧ c ≤ 3 ∧ 0 ≤ q ∧
      q ≤ 24 ∧ 0 ≤ r ∧ r ≤ 3 ∧ yoe = 100 * c + 4 * q + r :=
    ⟨yoe / 100, yoe % 100 / 4, yoe % 4, by omega, by omega, by omega, by omega, by omega, by omega,
      by omega⟩
  have hlong : doy = 365 → r = 3 ∧ (q < 24 ∨ c = 3) := by omega
  have hdoe' : doe = 36524 * c + 1461 * q + 365 * r + doy := by omega
  obtain ⟨h1460, h36524, h146096⟩ := leapDays_eq hc hc' hq hq' hr hr' hdoy hdoy'
  rw [hdoe', h1460, h36524, h146096, heq]
  clear hleap hdoe hdoe' heq h1460 h36524 h146096
  split_ifs <;> omega

/-- The parts that `civil_from_days` takes a day number apart into. -/
theorem civilFromDays_parts {era yoe mp d : Int} (hyoe : 0 ≤ yoe) (hyoe' : yoe < 400)
    (hmp : 0 ≤ mp) (hmp' : mp ≤ 11) (hd : 1 ≤ d)
    (hd' : (153 * mp + 2) / 5 + d ≤ (153 * (mp + 1) + 2) / 5)
    (hfeb : mp = 11 → d ≤ 29 ∧ (d = 29 → Gregorian.IsLeap (yoe + 1))) :
    civilFromDays (era * 146097 + (yoe * 365 + yoe / 4 - yoe / 100) +
        ((153 * mp + 2) / 5 + d - 1) - 719468) =
      (yoe + era * 400 + (if mp < 10 then 0 else 1), if mp < 10 then mp + 3 else mp - 9, d) := by
  have hdoy : 0 ≤ (153 * mp + 2) / 5 + d - 1 := by omega
  have hdoy' : (153 * mp + 2) / 5 + d - 1 ≤ 365 := by omega
  have hleap : (153 * mp + 2) / 5 + d - 1 = 365 → Gregorian.IsLeap (yoe + 1) := fun h =>
    (hfeb (by omega)).2 (by omega)
  have hmonth : (5 * ((153 * mp + 2) / 5 + d - 1) + 2) / 153 = mp := by omega
  generalize hdoy_eq : (153 * mp + 2) / 5 + d - 1 = doy at *
  rw [Int.add_assoc (era * 146097)]
  have hyear := yearOfEra_eq hyoe hyoe' hdoy hdoy' hleap rfl
  have hdoe : 0 ≤ yoe * 365 + yoe / 4 - yoe / 100 + doy := by omega
  have hdoe' : yoe * 365 + yoe / 4 - yoe / 100 + doy < 146097 := by omega
  generalize hdoe_eq : yoe * 365 + yoe / 4 - yoe / 100 + doy = doe at *
  have hera : (era * 146097 + doe) / 146097 = era := by omega
  have hrest : (era * 146097 + doe) % 146097 = doe := by omega
  have hday : doe - (365 * yoe + yoe / 4 - yoe / 100) = doy := by omega
  have hnum : 0 ≤ doe - doe / 1460 + doe / 36524 - doe / 146096 := by omega
  have htdiv : ∀ {n k : Int}, 0 ≤ n → n.tdiv k = n / k := fun h => Int.tdiv_eq_ediv_of_nonneg h
  have hlast : doy - (153 * mp + 2) / 5 + 1 = d := by omega
  unfold civilFromDays
  simp only [Int.sub_add_cancel, hera, hrest, htdiv hdoe, htdiv hnum, hyear, htdiv hyoe, hday,
    htdiv (show 0 ≤ 5 * doy + 2 by omega), hmonth, htdiv (show 0 ≤ 153 * mp + 2 by omega), hlast]
  by_cases hmp10 : mp < 10
  · simp only [if_pos hmp10, if_neg (show ¬ mp + 3 ≤ 2 by omega)]
  · simp only [if_neg hmp10, if_pos (show mp - 9 ≤ 2 by omega)]

/-- Counted from March, a month ends where the next one begins; only February ends early. -/
theorem marchMonth_le {year m d : Int} (hpos : 1 ≤ m) (hle : m ≤ 12)
    (hd : d ≤ Gregorian.daysInMonth year m) :
    (153 * ((m + 9) % 12) + 2) / 5 + d ≤ (153 * ((m + 9) % 12 + 1) + 2) / 5 := by
  have hend : Gregorian.daysInMonth year m ≤
      (153 * ((m + 9) % 12 + 1) + 2) / 5 - (153 * ((m + 9) % 12) + 2) / 5 := by
    unfold Gregorian.daysInMonth
    interval_cases m <;> simp
    split_ifs <;> decide
  omega

/-- `civil_from_days` gives the date with the number. -/
theorem civilFromDays_number (d : Gregorian.Date) :
    civilFromDays d.number = (d.year, d.month, d.day) := by
  have hpos := d.month_pos
  have hle := d.month_le
  have hday := d.day_le
  have hyear : ∃ y, y = if d.month ≤ 2 then d.year - 1 else d.year := ⟨_, rfl⟩
  obtain ⟨y, hy⟩ := hyear
  have hfeb : (d.month + 9) % 12 = 11 → d.day ≤ 29 ∧
      (d.day = 29 → Gregorian.IsLeap (y % 400 + 1)) := by
    intro hmp
    have hmonth : d.month = 2 := by omega
    rw [hmonth, if_pos (by decide)] at hy
    rw [hmonth, Gregorian.daysInMonth, if_pos rfl] at hday
    have hleap : Gregorian.IsLeap d.year → Gregorian.IsLeap (y % 400 + 1) := by
      unfold Gregorian.IsLeap
      omega
    split_ifs at hday with h
    · exact ⟨hday, fun _ => hleap h⟩
    · exact ⟨by omega, fun _ => by omega⟩
  have hlast : (153 * ((d.month + 9) % 12) + 2) / 5 + d.day ≤
      (153 * ((d.month + 9) % 12 + 1) + 2) / 5 :=
    marchMonth_le hpos hle hday
  have hparts := @civilFromDays_parts (y / 400) (y % 400) ((d.month + 9) % 12) d.day
    (by omega) (by omega) (by omega) (by omega) d.day_pos hlast hfeb
  rw [daysBeforeMarch_eq, hy, ← daysFromCivil_march _ _ _ hpos, daysFromCivil_eq, ← hy] at hparts
  rw [hparts]
  by_cases hmonth : d.month ≤ 2
  · rw [if_pos hmonth] at hy
    rw [if_neg (by omega), if_neg (by omega), Prod.mk.injEq, Prod.mk.injEq]
    omega
  · rw [if_neg hmonth] at hy
    rw [if_pos (by omega), if_pos (by omega), Prod.mk.injEq, Prod.mk.injEq]
    omega

/-! ## What parses -/

theorem isAsciiDigit_iff {b : UInt8} : isAsciiDigit b = true ↔ IsDigit b := by
  unfold isAsciiDigit IsDigit
  simp [UInt8.le_iff_toNat_le]

theorem parseDigits_eq {digits : List UInt8} (hne : digits ≠ []) (h : ∀ b ∈ digits, IsDigit b) :
    parseDigits digits = some (value digits) := by
  have hall : digits.all isAsciiDigit = true :=
    List.all_eq_true.mpr fun b hb => isAsciiDigit_iff.mpr (h b hb)
  unfold parseDigits
  rw [if_neg (by simp [hne, hall])]
  rfl

/-- No digit is a sign. -/
theorem ne_sign {b : UInt8} (h : IsDigit b) : b ≠ 0x2B ∧ b ≠ 0x2D := by
  constructor
  · rintro rfl
    exact absurd h.1 (by decide)
  · rintro rfl
    exact absurd h.1 (by decide)

theorem value_lt {digits : List UInt8} (hlength : digits.length ≤ 4)
    (h : ∀ b ∈ digits, IsDigit b) : value digits < 10 ^ 4 :=
  Nat.lt_of_lt_of_le (decimal_value h).2 (Nat.pow_le_pow_right (by decide) hlength)

/-- A run of digits that is not too long is the number it writes. -/
theorem parseI64_digits {digits : List UInt8} (hne : digits ≠ []) (hlength : digits.length ≤ 4)
    (h : ∀ b ∈ digits, IsDigit b) : parseI64 digits = some (value digits : Int) := by
  have hvalue := value_lt hlength h
  have hrange : inI64 (value digits) = some (value digits : Int) :=
    if_pos ⟨by omega, by omega⟩
  obtain ⟨b, rest, rfl⟩ := List.exists_cons_of_ne_nil hne
  obtain ⟨hplus, hminus⟩ := ne_sign (h b List.mem_cons_self)
  unfold parseI64
  split
  · next heq => exact absurd (List.cons.inj heq).1 hplus
  · next heq => exact absurd (List.cons.inj heq).1 hminus
  · rw [parseDigits_eq hne h, Option.bind_some, hrange]

theorem parseU32_digits {digits : List UInt8} (hne : digits ≠ []) (hlength : digits.length ≤ 4)
    (h : ∀ b ∈ digits, IsDigit b) : parseU32 digits = some (value digits) := by
  have hvalue := value_lt hlength h
  obtain ⟨b, rest, rfl⟩ := List.exists_cons_of_ne_nil hne
  unfold parseU32
  split
  · next heq => exact absurd (List.cons.inj heq).1 (ne_sign (h b List.mem_cons_self)).1
  · rw [parseDigits_eq hne h]
    exact Option.filter_some_pos (by simp only [decide_eq_true_eq]; omega)

theorem leap_eq (year : Nat) :
    ((year : Int).tmod 4 == 0 && ((year : Int).tmod 100 != 0 || (year : Int).tmod 400 == 0)) =
      decide (IsLeap year) := by
  have hmod : ∀ n : Nat, ((year : Int).tmod n == 0) = decide (year % n = 0) := fun n => by
    rw [← Int.ofNat_tmod, beq_eq_decide]
    exact decide_eq_decide.mpr Int.natCast_eq_zero
  have h4 := hmod 4
  have h100 := hmod 100
  have h400 := hmod 400
  simp only [Nat.cast_ofNat] at h4 h100 h400
  rw [bne, h4, h100, h400, Bool.eq_iff_iff, decide_eq_true_iff]
  simp [IsLeap]

/-- `monthDays` gives the days of a month of the calendar. -/
theorem monthDays_eq (year month : Nat) :
    monthDays year month =
      if 1 ≤ month ∧ month ≤ 12 then some (daysInMonth year month : Int) else none := by
  unfold monthDays
  simp only [leap_eq, decide_eq_true_eq]
  by_cases hmonth : month ≤ 12
  · interval_cases month <;> simp [daysInMonth]
  · rw [if_neg (show ¬ (1 ≤ month ∧ month ≤ 12) from fun h => hmonth h.2)]
    split <;> first | rfl | omega

/-- A run of digits of a given length. -/
structure Digits (width : Nat) (digits : List UInt8) : Prop where
  length : digits.length = width
  digit : ∀ b ∈ digits, IsDigit b

/-- The bytes of the form, with the runs of digits between the separators. -/
def form (y mo d h mi s : List UInt8) : List UInt8 :=
  y ++ 0x2D :: (mo ++ 0x2D :: (d ++ 0x54 :: (h ++ 0x3A :: (mi ++ 0x3A :: (s ++ [0x5A])))))

theorem shape_eq : shape = [0x64, 0x64, 0x64, 0x64, 0x2D, 0x64, 0x64, 0x2D, 0x64, 0x64, 0x54,
    0x64, 0x64, 0x3A, 0x64, 0x64, 0x3A, 0x64, 0x64, 0x5A] := by decide

theorem fits_digit {b : UInt8} : fits b 0x64 = true ↔ IsDigit b := isAsciiDigit_iff

section Form

variable {text : String} {y mo d h mi s : List UInt8}

theorem Digits.two (hd : Digits 2 d) : ∃ a b, d = [a, b] ∧ IsDigit a ∧ IsDigit b := by
  obtain ⟨hlength, hdigit⟩ := hd
  match d, hlength with
  | [a, b], _ => exact ⟨a, b, rfl, hdigit a (by simp), hdigit b (by simp)⟩

theorem Digits.four (hd : Digits 4 d) : ∃ a b c e, d = [a, b, c, e] ∧ IsDigit a ∧ IsDigit b ∧
    IsDigit c ∧ IsDigit e := by
  obtain ⟨hlength, hdigit⟩ := hd
  match d, hlength with
  | [a, b, c, e], _ =>
    exact ⟨a, b, c, e, rfl, hdigit a (by simp), hdigit b (by simp), hdigit c (by simp),
      hdigit e (by simp)⟩

theorem Digits.parse {width : Nat} (hd : Digits width d) (hpos : 0 < width) (hle : width ≤ 4) :
    parseI64 d = some (value d : Int) := by
  obtain ⟨hlength, hdigit⟩ := hd
  exact parseI64_digits (List.ne_nil_of_length_pos (by omega)) (by omega) hdigit

/-- Digits are what writes their number. -/
theorem Digits.written {width : Nat} (hd : Digits width d) :
    decimal width (value d) = d ∧ value d < 10 ^ width := by
  obtain ⟨rfl, hdigit⟩ := hd
  exact decimal_value hdigit

theorem secondsOf_eq_ok {y mo d h mi s : Nat} {secs : Int} :
    secondsOf y mo d h mi s = .ok secs ↔
      (1 ≤ mo ∧ mo ≤ 12) ∧ (1 ≤ d ∧ d ≤ daysInMonth y mo) ∧ h < 24 ∧ mi < 60 ∧ s < 60 ∧
        secs = daysFromCivil y mo d * 86400 + h * 3600 + mi * 60 + s := by
  unfold secondsOf
  rw [monthDays_eq]
  by_cases hmonth : 1 ≤ mo ∧ mo ≤ 12
  · rw [if_pos hmonth]
    simp only
    split
    · next hbad =>
      simp only [reduceCtorEq, false_iff]
      omega
    · next hgood =>
      simp only [Except.ok.injEq]
      omega
  · rw [if_neg hmonth]
    simp only [reduceCtorEq, false_iff]
    exact fun h => hmonth h.1

/-- What has the form is judged by its numbers. -/
theorem parse_of_form (htext : utf8 text = form y mo d h mi s) (hy : Digits 4 y)
    (hmo : Digits 2 mo) (hd : Digits 2 d) (hh : Digits 2 h) (hmi : Digits 2 mi)
    (hs : Digits 2 s) :
    parse text = secondsOf (value y) (value mo) (value d) (value h) (value mi) (value s) := by
  have ny := hy.parse (by decide) (by decide)
  have nmo := hmo.parse (by decide) (by decide)
  have nd := hd.parse (by decide) (by decide)
  have nh := hh.parse (by decide) (by decide)
  have nmi := hmi.parse (by decide) (by decide)
  have ns := hs.parse (by decide) (by decide)
  obtain ⟨y₁, y₂, y₃, y₄, rfl, hy₁, hy₂, hy₃, hy₄⟩ := hy.four
  obtain ⟨mo₁, mo₂, rfl, hmo₁, hmo₂⟩ := hmo.two
  obtain ⟨d₁, d₂, rfl, hd₁, hd₂⟩ := hd.two
  obtain ⟨h₁, h₂, rfl, hh₁, hh₂⟩ := hh.two
  obtain ⟨mi₁, mi₂, rfl, hmi₁, hmi₂⟩ := hmi.two
  obtain ⟨s₁, s₂, rfl, hs₁, hs₂⟩ := hs.two
  have hshape : ((utf8 text).zip shape).all (fun (c, s) => fits c s) = true := by
    rw [htext, shape_eq]
    simp only [form, List.cons_append, List.nil_append, List.zip_cons_cons, List.all_cons,
      List.zip_nil_left, List.all_nil, fits_digit.mpr hy₁, fits_digit.mpr hy₂, fits_digit.mpr hy₃,
      fits_digit.mpr hy₄, fits_digit.mpr hmo₁, fits_digit.mpr hmo₂, fits_digit.mpr hd₁,
      fits_digit.mpr hd₂, fits_digit.mpr hh₁, fits_digit.mpr hh₂, fits_digit.mpr hmi₁,
      fits_digit.mpr hmi₂, fits_digit.mpr hs₁, fits_digit.mpr hs₂]
    decide
  have hlength : (utf8 text).length = LEN := by rw [htext]; rfl
  unfold parse
  simp only [hlength, ne_eq, not_true_eq_false, if_false, hshape, Bool.not_true,
    Bool.false_eq_true]
  rw [htext]
  have slice : ∀ start stop digits n,
      ((form [y₁, y₂, y₃, y₄] [mo₁, mo₂] [d₁, d₂] [h₁, h₂] [mi₁, mi₂] [s₁, s₂]).take stop).drop
        start = digits → parseI64 digits = some n → parseI64
      (((form [y₁, y₂, y₃, y₄] [mo₁, mo₂] [d₁, d₂] [h₁, h₂] [mi₁, mi₂] [s₁, s₂]).take stop).drop
        start) = some n := by
    rintro start stop digits n rfl hn
    exact hn
  simp only [slice 0 4 _ _ rfl ny, slice 5 7 _ _ rfl nmo, slice 8 10 _ _ rfl nd,
    slice 11 13 _ _ rfl nh, slice 14 16 _ _ rfl nmi, slice 17 19 _ _ rfl ns]

/-- What fits the shape has the form. -/
theorem form_of_fits {b : List UInt8} (hlength : b.length = LEN)
    (hshape : (b.zip shape).all (fun (c, s) => fits c s) = true) :
    ∃ y mo d h mi s, b = form y mo d h mi s ∧ Digits 4 y ∧ Digits 2 mo ∧ Digits 2 d ∧
      Digits 2 h ∧ Digits 2 mi ∧ Digits 2 s := by
  have htwo : ∀ {a b}, IsDigit a → IsDigit b → Digits 2 [a, b] := fun ha hb =>
    ⟨rfl, by simp [ha, hb]⟩
  match b, hlength with
  | [y₁, y₂, y₃, y₄, c₁, mo₁, mo₂, c₂, d₁, d₂, c₃, h₁, h₂, c₄, mi₁, mi₂, c₅, s₁, s₂, c₆], _ =>
    rw [shape_eq] at hshape
    simp only [List.zip_cons_cons, List.all_cons, List.zip_nil_left, List.all_nil,
      Bool.and_eq_true, fits_digit, and_true] at hshape
    obtain ⟨hy₁, hy₂, hy₃, hy₄, hc₁, hmo₁, hmo₂, hc₂, hd₁, hd₂, hc₃, hh₁, hh₂, hc₄, hmi₁, hmi₂,
      hc₅, hs₁, hs₂, hc₆⟩ := hshape
    obtain rfl : c₁ = 0x2D := eq_of_beq hc₁
    obtain rfl : c₂ = 0x2D := eq_of_beq hc₂
    obtain rfl : c₃ = 0x54 := eq_of_beq hc₃
    obtain rfl : c₄ = 0x3A := eq_of_beq hc₄
    obtain rfl : c₅ = 0x3A := eq_of_beq hc₅
    obtain rfl : c₆ = 0x5A := eq_of_beq hc₆
    exact ⟨[y₁, y₂, y₃, y₄], [mo₁, mo₂], [d₁, d₂], [h₁, h₂], [mi₁, mi₂], [s₁, s₂], rfl,
      ⟨rfl, by simp [hy₁, hy₂, hy₃, hy₄]⟩, htwo hmo₁ hmo₂, htwo hd₁ hd₂, htwo hh₁ hh₂,
      htwo hmi₁ hmi₂, htwo hs₁ hs₂⟩

theorem form_of_ok {secs : Int} (hok : parse text = .ok secs) :
    ∃ y mo d h mi s, utf8 text = form y mo d h mi s ∧ Digits 4 y ∧ Digits 2 mo ∧ Digits 2 d ∧
      Digits 2 h ∧ Digits 2 mi ∧ Digits 2 s := by
  unfold parse at hok
  simp only at hok
  split at hok
  · cases hok
  · next hlength =>
    split at hok
    · cases hok
    · next hshape =>
      exact form_of_fits (not_not.mp hlength) (by simpa using hshape)

end Form

theorem digits_decimal (width n : Nat) : Digits width (decimal width n) :=
  ⟨length_decimal width n, isDigit_decimal width n⟩

theorem Instant.text_eq_form (t : Instant) :
    t.text = form (decimal 4 t.year) (decimal 2 t.month) (decimal 2 t.day) (decimal 2 t.hour)
      (decimal 2 t.minute) (decimal 2 t.second) := by
  simp [Calendar.Instant.text, Day.text, form]

/-- What parses is exactly what writes a real instant, to its second. -/
theorem parse_eq_ok {text : String} {secs : Int} :
    parse text = .ok secs ↔ ∃ t : Instant, utf8 text = t.text ∧ secs = t.seconds := by
  constructor
  · intro hok
    obtain ⟨y, mo, d, h, mi, s, htext, hy, hmo, hd, hh, hmi, hs⟩ := form_of_ok hok
    rw [parse_of_form htext hy hmo hd hh hmi hs, secondsOf_eq_ok] at hok
    obtain ⟨⟨hmo₁, hmo₂⟩, ⟨hd₁, hd₂⟩, hh', hmi', hs', hsecs⟩ := hok
    let t : Instant := ⟨⟨value y, value mo, value d, hy.written.2, hmo₁, hmo₂, hd₁, hd₂⟩, value h,
      value mi, value s, hh', hmi', hs'⟩
    refine ⟨t, ?_, ?_⟩
    · rw [Instant.text_eq_form]
      simp only [t, hy.written.1, hmo.written.1, hd.written.1, hh.written.1, hmi.written.1,
        hs.written.1]
      exact htext
    · rw [hsecs, Instant.seconds, ← daysFromCivil_eq]
      rfl
  · rintro ⟨t, ht, rfl⟩
    rw [Instant.text_eq_form] at ht
    have hday := daysInMonth_le t.year t.month
    have hmonth := t.month_le
    have hdays := t.day_le
    have hhour := t.hour_lt
    have hminute := t.minute_lt
    have hsecond := t.second_lt
    rw [parse_of_form ht (digits_decimal 4 _) (digits_decimal 2 _) (digits_decimal 2 _)
        (digits_decimal 2 _) (digits_decimal 2 _) (digits_decimal 2 _),
      value_decimal t.year_lt, value_decimal (by omega : t.month < 10 ^ 2),
      value_decimal (by omega : t.day < 10 ^ 2), value_decimal (by omega : t.hour < 10 ^ 2),
      value_decimal (by omega : t.minute < 10 ^ 2), value_decimal (by omega : t.second < 10 ^ 2),
      secondsOf_eq_ok, Instant.seconds, ← daysFromCivil_eq]
    exact ⟨⟨t.month_pos, t.month_le⟩, ⟨t.day_pos, t.day_le⟩, t.hour_lt, t.minute_lt, t.second_lt,
      rfl⟩

/-- What parses is exactly what writes a real instant. -/
theorem parse_ok_iff {text : String} :
    (∃ secs, parse text = .ok secs) ↔ ∃ t : Instant, utf8 text = t.text := by
  simp only [parse_eq_ok]
  exact ⟨fun ⟨_, t, ht, _⟩ => ⟨t, ht⟩, fun ⟨t, ht⟩ => ⟨_, t, ht, rfl⟩⟩

/-! ## What is rendered -/

theorem digitChar_eq (n : Nat) : (n % 10).digitChar = Char.ofNat (digit n).toNat := by
  have h : n % 10 < 10 := Nat.mod_lt n (by decide)
  rw [digit_toNat]
  generalize n % 10 = d at *
  interval_cases d <;> decide

/-- Zeros before the digits of a number make them the digits of a width. -/
theorem toDigits_padded {width n : Nat} (h : n < 10 ^ (width + 1)) :
    List.replicate (width + 1 - (Nat.toDigits 10 n).length) '0' ++ Nat.toDigits 10 n =
      (decimal (width + 1) n).map fun b => Char.ofNat b.toNat := by
  induction width generalizing n with
  | zero =>
    rw [Nat.pow_one] at h
    rw [Nat.toDigits_of_lt_base h, ← Nat.mod_eq_of_lt h, digitChar_eq, Nat.mod_eq_of_lt h]
    rfl
  | succ width ih =>
    rw [Nat.pow_succ] at h
    have ih := ih (Nat.div_lt_of_lt_mul (Nat.mul_comm _ 10 ▸ h))
    rw [decimal, List.map_append, ← ih, List.map_singleton, ← digitChar_eq]
    by_cases hsmall : n < 10
    · rw [Nat.div_eq_of_lt hsmall, Nat.toDigits_zero, Nat.toDigits_of_lt_base hsmall,
        Nat.mod_eq_of_lt hsmall]
      congr 1
      exact List.replicate_succ'
    · rw [Nat.toDigits_of_base_le (by decide) (Nat.le_of_not_lt hsmall), List.length_append,
        List.append_assoc]
      congr 2
      exact Nat.add_sub_add_right (width + 1) 1 _

/-- The format `{:0width}` of a number of at most `width` digits. -/
theorem zeroPadded_eq {width : Nat} {n : Int} (hpos : 0 ≤ n) (hlt : n < 10 ^ (width + 1)) :
    zeroPadded (width + 1) n = ascii (decimal (width + 1) n.toNat) := by
  obtain ⟨n, rfl⟩ := Int.eq_ofNat_of_zero_le hpos
  have hn : n < 10 ^ (width + 1) := by exact_mod_cast hlt
  unfold zeroPadded ascii
  have hlength : (Nat.toDigits 10 n).length = n.repr.length := by
    rw [← String.length_toList, Nat.toList_repr]
  simp only [if_neg (Int.not_lt.mpr hpos), Int.natAbs_natCast, Int.toNat_natCast,
    ← toDigits_padded hn, String.ofList_append, ← Nat.repr_eq_ofList_toDigits, hlength,
    Nat.toString_eq_repr, String.empty_append, String.length_empty, Nat.sub_zero]

theorem utf8_dash : utf8 "-" = [0x2D] := by decide

theorem utf8_zeroPadded {width : Nat} {n : Int} (hpos : 0 ≤ n) (hlt : n < 10 ^ (width + 1)) :
    utf8 (zeroPadded (width + 1) n) = decimal (width + 1) n.toNat := by
  rw [zeroPadded_eq hpos hlt]
  refine utf8_ascii fun b hb => ?_
  have hhigh := (isDigit_decimal _ _ b hb).2
  omega

/-- What is rendered writes the instant. -/
theorem render_seconds (t : Instant) (hpos : 0 ≤ t.seconds) :
    ∃ text, render t.seconds = .ok text ∧ utf8 text = t.text := by
  have hyear := t.year_lt
  have hday := daysInMonth_le t.year t.month
  have hmonth := t.month_le
  have hdays := t.day_le
  have hhour := t.hour_lt
  have hminute := t.minute_lt
  have hsecond := t.second_lt
  have hnumber : t.seconds / 86400 = t.date.number := by unfold Instant.seconds; omega
  have hrem : t.seconds % 86400 = t.hour * 3600 + t.minute * 60 + t.second := by
    unfold Instant.seconds
    omega
  have hh : (t.seconds % 86400).tdiv 3600 = t.hour := by
    rw [Int.tdiv_eq_ediv_of_nonneg (by omega)]
    omega
  have hmi : ((t.seconds % 86400).tmod 3600).tdiv 60 = t.minute := by
    rw [Int.tmod_eq_emod_of_nonneg (by omega), Int.tdiv_eq_ediv_of_nonneg (by omega)]
    omega
  have hs : (t.seconds % 86400).tmod 60 = t.second := by
    rw [Int.tmod_eq_emod_of_nonneg (by omega)]
    omega
  unfold render
  rw [if_neg (not_not.mpr ⟨hpos, t.seconds_range.2⟩)]
  simp only [hnumber, civilFromDays_number, hh, hmi, hs]
  refine ⟨_, rfl, ?_⟩
  have hpad : ∀ {width n : Nat}, n < 10 ^ (width + 1) →
      utf8 (zeroPadded (width + 1) n) = decimal (width + 1) n := fun {width n} hn =>
    utf8_zeroPadded (Int.natCast_nonneg n) (by exact_mod_cast hn)
  simp only [utf8_append, Day.date, hpad t.year_lt, hpad (by omega : t.month < 10 ^ 2),
    hpad (by omega : t.day < 10 ^ 2), hpad (by omega : t.hour < 10 ^ 2),
    hpad (by omega : t.minute < 10 ^ 2), hpad (by omega : t.second < 10 ^ 2)]
  have hT : utf8 "T" = [0x54] := by decide
  have hcolon : utf8 ":" = [0x3A] := by decide
  have hZ : utf8 "Z" = [0x5A] := by decide
  rw [Instant.text_eq_form, utf8_dash, hT, hcolon, hZ]
  simp only [form, List.append_assoc, List.cons_append, List.nil_append]

end ProofTime

end DcMatcher
