import Mathlib.Algebra.Group.Nat.Defs
import Mathlib.Data.List.Basic

/-!
# Unpadded base64url

Nothing here names a program. The alphabet of RFC 4648 §5, the encoder, and a decoder
that reads whole quanta.

Results:
1. `value_eq_some`: a character has a value if and only if it is the symbol of it.
2. `decode_eq_some`: the decoder accepts exactly what the encoder writes, and gives back
   what it was written from. So no two texts decode alike.
3. `bits_append`, `bits_mod`: the bits of a number, in parts.
-/

namespace Rfc4648

/-! ## The alphabet -/

/-- The character of a 6-bit value. -/
def symbol (v : Nat) : UInt8 :=
  UInt8.ofNat (if v < 26 then v + 0x41 else if v < 52 then v - 26 + 0x61
    else if v < 62 then v - 52 + 0x30 else if v = 62 then 0x2D else 0x5F)

/-- The 6-bit value of a character. -/
def value (c : UInt8) : Option Nat :=
  let n := c.toNat
  if 0x41 ≤ n ∧ n ≤ 0x5A then some (n - 0x41)
  else if 0x61 ≤ n ∧ n ≤ 0x7A then some (n - 0x61 + 26)
  else if 0x30 ≤ n ∧ n ≤ 0x39 then some (n - 0x30 + 52)
  else if n = 0x2D then some 62
  else if n = 0x5F then some 63
  else none

theorem symbol_toNat (v : Nat) (h : v < 64) :
    (symbol v).toNat = if v < 26 then v + 0x41 else if v < 52 then v - 26 + 0x61
      else if v < 62 then v - 52 + 0x30 else if v = 62 then 0x2D else 0x5F := by
  unfold symbol
  rw [UInt8.toNat_ofNat_of_lt']
  simp only [UInt8.size]
  split_ifs <;> omega

theorem value_eq_some {c : UInt8} {v : Nat} : value c = some v ↔ v < 64 ∧ c = symbol v := by
  constructor
  · intro h
    unfold value at h
    simp only at h
    have hv : v < 64 := by split_ifs at h <;> cases h <;> omega
    refine ⟨hv, UInt8.toNat_inj.mp ?_⟩
    rw [symbol_toNat v hv]
    split_ifs at h <;> cases h <;> split_ifs <;> omega
  · rintro ⟨hv, rfl⟩
    unfold value
    simp only [symbol_toNat v hv]
    split_ifs <;> first | (exfalso; omega) | (congr 1 <;> omega)

theorem value_symbol {v : Nat} (h : v < 64) : value (symbol v) = some v :=
  value_eq_some.mpr ⟨h, rfl⟩

/-! ## Quanta -/

/-- The first character of a quantum: the high bits of its first byte. -/
def first (a : UInt8) : UInt8 := symbol (a.toNat / 4)

/-- The second: the low bits of the first byte and the high bits of the second. -/
def second (a b : UInt8) : UInt8 := symbol (a.toNat % 4 * 16 + b.toNat / 16)

/-- The third: the low bits of the second byte and the high bits of the third. -/
def third (b c : UInt8) : UInt8 := symbol (b.toNat % 16 * 4 + c.toNat / 64)

/-- The fourth: the low bits of the third byte. -/
def fourth (c : UInt8) : UInt8 := symbol (c.toNat % 64)

/-- The encoder. A quantum that is not full is filled up with zero bits. -/
def encode : List UInt8 → List UInt8
  | [] => []
  | [a] => [first a, second a 0]
  | [a, b] => [first a, second a b, third b 0]
  | a :: b :: c :: rest => first a :: second a b :: third b c :: fourth c :: encode rest

/-- The byte two neighbouring values carry, `shift` being the value of the bits of the
second one that belong to it. -/
def join (v high w shift : Nat) : UInt8 := UInt8.ofNat (v % high * (256 / high) + w / shift)

/-- A decoder that reads whole quanta, and refuses bits that carry nothing. -/
def decode : List UInt8 → Option (List UInt8)
  | [] => some []
  | [_] => none
  | [p, q] => do
    let v ← value p
    let w ← value q
    if w % 16 = 0 then some [join v 64 w 16] else none
  | [p, q, r] => do
    let v ← value p
    let w ← value q
    let x ← value r
    if x % 4 = 0 then some [join v 64 w 16, join w 16 x 4] else none
  | p :: q :: r :: s :: rest => do
    let v ← value p
    let w ← value q
    let x ← value r
    let y ← value s
    let bytes ← decode rest
    some (join v 64 w 16 :: join w 16 x 4 :: join x 4 y 1 :: bytes)

/-! ## Decoding what was encoded -/

theorem join_toNat {v high w shift : Nat} (h : v % high * (256 / high) + w / shift < 256) :
    (join v high w shift).toNat = v % high * (256 / high) + w / shift :=
  UInt8.toNat_ofNat_of_lt' h

/-- A byte is put together again from the values it was split into. -/
theorem join_first_second (a b : UInt8) :
    join (a.toNat / 4) 64 (a.toNat % 4 * 16 + b.toNat / 16) 16 = a := by
  have ha := a.toNat_lt
  have hb := b.toNat_lt
  apply UInt8.toNat_inj.mp
  rw [join_toNat] <;> omega

theorem join_second_third (a b c : UInt8) :
    join (a.toNat % 4 * 16 + b.toNat / 16) 16 (b.toNat % 16 * 4 + c.toNat / 64) 4 = b := by
  have hb := b.toNat_lt
  have hc := c.toNat_lt
  apply UInt8.toNat_inj.mp
  rw [join_toNat] <;> omega

theorem join_third_fourth (b c : UInt8) :
    join (b.toNat % 16 * 4 + c.toNat / 64) 4 (c.toNat % 64) 1 = c := by
  have hc := c.toNat_lt
  apply UInt8.toNat_inj.mp
  rw [join_toNat] <;> omega

section Symbols

variable (a b c : UInt8)

theorem value_first : value (first a) = some (a.toNat / 4) :=
  value_symbol (by have := a.toNat_lt; omega)

theorem value_second : value (second a b) = some (a.toNat % 4 * 16 + b.toNat / 16) :=
  value_symbol (by have := b.toNat_lt; omega)

theorem value_third : value (third b c) = some (b.toNat % 16 * 4 + c.toNat / 64) :=
  value_symbol (by have := c.toNat_lt; omega)

theorem value_fourth : value (fourth c) = some (c.toNat % 64) := value_symbol (by omega)

end Symbols

/-- What the encoder writes is decoded to what it was written from. -/
theorem decode_encode (bytes : List UInt8) : decode (encode bytes) = some bytes := by
  induction bytes using encode.induct with
  | case1 => rfl
  | case2 a =>
    have hrest : (a.toNat % 4 * 16 + (0 : UInt8).toNat / 16) % 16 = 0 := by simp
    simp only [encode, decode, value_first, value_second, Option.bind_eq_bind, Option.bind_some,
      if_pos hrest, join_first_second]
  | case3 a b =>
    have hrest : (b.toNat % 16 * 4 + (0 : UInt8).toNat / 64) % 4 = 0 := by simp
    simp only [encode, decode, value_first, value_second, value_third, Option.bind_eq_bind,
      Option.bind_some, if_pos hrest, join_first_second, join_second_third]
  | case4 a b c rest ih =>
    simp only [encode, decode, value_first, value_second, value_third, value_fourth, ih,
      Option.bind_eq_bind, Option.bind_some, join_first_second, join_second_third,
      join_third_fourth]

/-- The symbols are those of the bytes put together from them. -/
theorem symbol_first {v w : Nat} (hv : v < 64) (hw : w < 64) :
    first (join v 64 w 16) = symbol v := by
  unfold first
  rw [join_toNat (by omega)]
  congr 1
  omega

theorem symbol_second {v w x : Nat} (hw : w < 64) (hx : x < 64) :
    second (join v 64 w 16) (join w 16 x 4) = symbol w := by
  unfold second
  rw [join_toNat (by omega), join_toNat (by omega)]
  congr 1
  omega

theorem symbol_third {w x y : Nat} (hx : x < 64) (hy : y < 64) :
    third (join w 16 x 4) (join x 4 y 1) = symbol x := by
  unfold third
  rw [join_toNat (by omega), join_toNat (by omega)]
  congr 1
  omega

theorem symbol_fourth {x y : Nat} (hy : y < 64) : fourth (join x 4 y 1) = symbol y := by
  unfold fourth
  rw [join_toNat (by omega)]
  congr 1
  omega

/-- With nothing left over, the last symbols are those of a quantum filled with zeros. -/
theorem symbol_second_zero {v w : Nat} (hw : w < 64) (h : w % 16 = 0) :
    second (join v 64 w 16) 0 = symbol w := by
  unfold second
  rw [join_toNat (by omega)]
  congr 1
  show _ + 0 / 16 = w
  omega

theorem symbol_third_zero {w x : Nat} (hx : x < 64) (h : x % 4 = 0) :
    third (join w 16 x 4) 0 = symbol x := by
  unfold third
  rw [join_toNat (by omega)]
  congr 1
  show _ + 0 / 64 = x
  omega

/-- What the decoder accepts, the encoder writes. -/
theorem encode_of_decode {text bytes : List UInt8} (h : decode text = some bytes) :
    encode bytes = text := by
  induction text using decode.induct generalizing bytes with
  | case1 =>
    cases h
    rfl
  | case2 => cases h
  | case3 p q =>
    simp only [decode, Option.bind_eq_bind, Option.bind_eq_some_iff] at h
    obtain ⟨v, hp, w, hq, h⟩ := h
    obtain ⟨hv, rfl⟩ := value_eq_some.mp hp
    obtain ⟨hw, rfl⟩ := value_eq_some.mp hq
    split at h
    · next hzero =>
      cases h
      simp only [encode, symbol_first hv hw, symbol_second_zero hw hzero]
    · cases h
  | case4 p q r =>
    simp only [decode, Option.bind_eq_bind, Option.bind_eq_some_iff] at h
    obtain ⟨v, hp, w, hq, x, hr, h⟩ := h
    obtain ⟨hv, rfl⟩ := value_eq_some.mp hp
    obtain ⟨hw, rfl⟩ := value_eq_some.mp hq
    obtain ⟨hx, rfl⟩ := value_eq_some.mp hr
    split at h
    · next hzero =>
      cases h
      simp only [encode, symbol_first hv hw, symbol_second hw hx,
        symbol_third_zero hx hzero]
    · cases h
  | case5 p q r s rest ih =>
    simp only [decode, Option.bind_eq_bind, Option.bind_eq_some_iff, Option.some.injEq] at h
    obtain ⟨v, hp, w, hq, x, hr, y, hs, tail, htail, rfl⟩ := h
    obtain ⟨hv, rfl⟩ := value_eq_some.mp hp
    obtain ⟨hw, rfl⟩ := value_eq_some.mp hq
    obtain ⟨hx, rfl⟩ := value_eq_some.mp hr
    obtain ⟨hy, rfl⟩ := value_eq_some.mp hs
    simp only [encode, symbol_first hv hw, symbol_second hw hx, symbol_third hx hy,
      symbol_fourth hy, ih htail]

/-- The decoder accepts exactly what the encoder writes. -/
theorem decode_eq_some {text bytes : List UInt8} :
    decode text = some bytes ↔ encode bytes = text :=
  ⟨encode_of_decode, fun h => h ▸ decode_encode bytes⟩

/-- No text the encoder writes is one character longer than whole quanta. -/
theorem length_encode (bytes : List UInt8) : (encode bytes).length % 4 ≠ 1 := by
  induction bytes using encode.induct with
  | case1 => decide
  | case2 a => simp [encode]
  | case3 a b => simp [encode]
  | case4 a b c rest ih =>
    simp only [encode, List.length_cons]
    omega

/-- Four characters stand for three bytes, and a quantum that is not full is not filled up. -/
theorem length_encode_le (bytes : List UInt8) :
    3 * (encode bytes).length ≤ 4 * bytes.length + 2 := by
  induction bytes using encode.induct with
  | case1 => decide
  | case2 a => simp [encode]
  | case3 a b => simp [encode]
  | case4 a b c rest ih =>
    simp only [encode, List.length_cons]
    omega

/-- Every symbol is an ASCII character. -/
theorem symbol_lt (v : Nat) : (symbol v).toNat < 0x80 := by
  unfold symbol
  rw [UInt8.toNat_ofNat']
  refine Nat.lt_of_le_of_lt (Nat.mod_le _ _) ?_
  split_ifs <;> omega

theorem encode_lt (bytes : List UInt8) : ∀ c ∈ encode bytes, c.toNat < 0x80 := by
  induction bytes using encode.induct with
  | case1 => simp [encode]
  | case2 a => simp [encode, first, second, symbol_lt]
  | case3 a b => simp [encode, first, second, third, symbol_lt]
  | case4 a b c rest ih =>
    simp only [encode, List.forall_mem_cons]
    exact ⟨symbol_lt _, symbol_lt _, symbol_lt _, symbol_lt _, ih⟩

/-! ## Bits -/

/-- The last `width` bits of a number, the highest one first. -/
def bits : Nat → Nat → List Bool
  | 0, _ => []
  | width + 1, n => bits width (n / 2) ++ [n % 2 == 1]

theorem bits_append (a b n : Nat) : bits (a + b) n = bits a (n / 2 ^ b) ++ bits b n := by
  induction b generalizing n with
  | zero => rw [Nat.add_zero, Nat.pow_zero, Nat.div_one, bits, List.append_nil]
  | succ b ih =>
    rw [← Nat.add_assoc, bits, ih, bits, Nat.div_div_eq_div_mul, Nat.pow_succ, Nat.mul_comm 2,
      List.append_assoc]

/-- Bits above those that are taken do not count. -/
theorem bits_mod {width high : Nat} (h : width ≤ high) (n : Nat) :
    bits width (n % 2 ^ high) = bits width n := by
  induction width generalizing high n with
  | zero => rfl
  | succ width ih =>
    obtain ⟨high, rfl⟩ := Nat.exists_eq_succ_of_ne_zero (Nat.ne_zero_of_lt h)
    have hhalf : n % 2 ^ (high + 1) / 2 = n / 2 % 2 ^ high := by
      rw [Nat.pow_succ', Nat.mod_mul_right_div_self]
    have hlast : n % 2 ^ (high + 1) % 2 = n % 2 :=
      Nat.mod_mod_of_dvd n ⟨2 ^ high, Nat.pow_succ'⟩
    rw [bits, bits, Nat.succ_eq_add_one, hhalf, hlast, ih (Nat.le_of_succ_le_succ h)]

end Rfc4648
