import DcMatcher.Text
import DcMatcher.Lib.Rfc4648

/-!
# Unpadded base64url, decode only

`base64url.rs`: a loop over the characters with a 32-bit accumulator.

Results:
1. `decodeLoop_eq`: whatever the accumulator holds above its current bits, the loop
   decodes whole quanta.
2. `Base64url.decodeWithLimit_eq_some`: what is decoded is exactly what RFC 4648 §5
   encodes, within the limit.
3. `Base64url.decodeLoop_bits`: no bit is lost before it was emitted or checked.
4. `Base64url.decodeWithLimit_canonical`: decoding inverts encoding.
-/

namespace DcMatcher

namespace Base64url

/-- The largest input `decode` attempts, in encoded bytes. -/
def MAX_INPUT : Nat := 256 * 1024

/-- The 6-bit value of one base64url character. -/
def sextet (c : UInt8) : Option UInt8 :=
  if 0x41 ≤ c ∧ c ≤ 0x5A then some (c - 0x41)
  else if 0x61 ≤ c ∧ c ≤ 0x7A then some (c - 0x61 + 26)
  else if 0x30 ≤ c ∧ c ≤ 0x39 then some (c - 0x30 + 52)
  else if c = 0x2D then some 62
  else if c = 0x5F then some 63
  else none

/-- The loop of `decode_with_limit`, on `(acc, bits)`, with what it pushes. The result is
the output and the accumulator and bits after the last character. -/
def decodeLoop (acc : UInt32) (bits : Nat) : List UInt8 → Option (List UInt8 × UInt32 × Nat)
  | [] => some ([], acc, bits)
  | b :: rest =>
    match sextet b with
    | none => none
    | some value =>
      let acc := (acc <<< 6) ||| value.toUInt32
      let bits := bits + 6
      if bits ≥ 8 then
        (decodeLoop acc (bits - 8) rest).map fun (out, last) =>
          ((acc >>> UInt32.ofNat (bits - 8)).toUInt8 :: out, last)
      else decodeLoop acc bits rest

/-- What is left over after the loop must be zero. -/
def finish : List UInt8 × UInt32 × Nat → Option (List UInt8)
  | (out, acc, bits) =>
    if bits > 0 ∧ acc &&& ((1 <<< UInt32.ofNat bits) - 1) ≠ 0 then none else some out

/-- `decode_with_limit`. -/
def decodeWithLimit (input : String) (maxInput : Nat) : Option (List UInt8) :=
  let bytes := utf8 input
  if bytes.length > maxInput then none
  else if bytes.length % 4 = 1 then none
  else (decodeLoop 0 0 bytes).bind finish

/-- `decode`. -/
def decode (input : String) : Option (List UInt8) := decodeWithLimit input MAX_INPUT

example : decode "aGk" = some [0x68, 0x69] := by decide
example : decode "aGk=" = none := by decide
example : decode "Zh" = none := by decide

/-! ## The accumulator -/

/-- The values are those of the alphabet. -/
theorem sextet_eq (c : UInt8) : sextet c = (Rfc4648.value c).map UInt8.ofNat := by
  have hall : ∀ n : Fin 256, sextet (UInt8.ofFin n) =
      (Rfc4648.value (UInt8.ofFin n)).map UInt8.ofNat := by decide +kernel
  exact hall c.toFin

/-- The accumulator after one more value. -/
def push (acc : UInt32) (v : Nat) : UInt32 := (acc <<< 6) ||| (UInt8.ofNat v).toUInt32

/-- A value is appended to the accumulator, which loses its highest bits. -/
theorem push_toNat (acc : UInt32) {v : Nat} (hv : v < 64) :
    (push acc v).toNat = acc.toNat % 2 ^ 26 * 64 + v := by
  have hbyte : (UInt8.ofNat v).toNat = v := UInt8.toNat_ofNat_of_lt' (Nat.lt_trans hv (by decide))
  have hshift : acc.toNat <<< 6 % 2 ^ 32 = (acc.toNat % 2 ^ 26) <<< 6 := by
    rw [Nat.shiftLeft_eq, Nat.shiftLeft_eq]
    omega
  unfold push
  rw [UInt32.toNat_or, UInt32.toNat_shiftLeft, UInt8.toNat_toUInt32, hbyte]
  show acc.toNat <<< 6 % 2 ^ 32 ||| v = _
  rw [hshift, ← Nat.shiftLeft_add_eq_or_of_lt hv, Nat.shiftLeft_eq]

theorem byte_toNat (acc : UInt32) {n : Nat} (hn : n < 32) :
    (acc >>> UInt32.ofNat n).toUInt8.toNat = acc.toNat / 2 ^ n % 256 := by
  have hword : (UInt32.ofNat n).toNat = n :=
    UInt32.toNat_ofNat_of_lt' (Nat.lt_trans hn (by decide))
  rw [UInt32.toNat_toUInt8, UInt32.toNat_shiftRight, hword, Nat.mod_eq_of_lt hn,
    Nat.shiftRight_eq_div_pow]

section Quantum

open Rfc4648 (value value_eq_some join join_toNat)

variable {v w : Nat}

/-- The byte that two neighbouring values carry, whatever was there before them. Of the
second value, `n` bits stay behind. -/
theorem byte_of_push (acc : UInt32) (hv : v < 64) (hw : w < 64) :
    (push (push acc v) w >>> 4).toUInt8 = join v 64 w 16 ∧
      (push (push acc v) w >>> 2).toUInt8 = join v 16 w 4 ∧
      (push (push acc v) w >>> 0).toUInt8 = join v 4 w 1 := by
  have hacc : (push (push acc v) w).toNat =
      (acc.toNat % 2 ^ 26 * 64 + v) % 2 ^ 26 * 64 + w := by
    rw [push_toNat _ hw, push_toNat _ hv]
  refine ⟨UInt8.toNat_inj.mp ?_, UInt8.toNat_inj.mp ?_, UInt8.toNat_inj.mp ?_⟩
  · rw [join_toNat (by omega)]
    refine (byte_toNat _ (by decide : 4 < 32)).trans ?_
    rw [hacc]
    omega
  · rw [join_toNat (by omega)]
    refine (byte_toNat _ (by decide : 2 < 32)).trans ?_
    rw [hacc]
    omega
  · rw [join_toNat (by omega)]
    refine (byte_toNat _ (by decide : 0 < 32)).trans ?_
    rw [hacc]
    omega

/-- The bits left over after a last value. -/
theorem finish_push (acc : UInt32) (out : List UInt8) (hv : v < 64) :
    finish (out, push acc v, 4) = (if v % 16 = 0 then some out else none) ∧
      finish (out, push acc v, 2) = (if v % 4 = 0 then some out else none) := by
  have hmask : ∀ n, (push acc v).toNat &&& (2 ^ n - 1) = (push acc v).toNat % 2 ^ n := fun n =>
    Nat.and_two_pow_sub_one_eq_mod _ n
  have hrest : (push acc v &&& 15 = 0 ↔ v % 16 = 0) ∧ (push acc v &&& 3 = 0 ↔ v % 4 = 0) := by
    have h4 := hmask 4
    have h2 := hmask 2
    rw [push_toNat acc hv] at h4 h2
    constructor
    · rw [← UInt32.toNat_inj, UInt32.toNat_and, push_toNat acc hv]
      show _ &&& (2 ^ 4 - 1) = 0 ↔ _
      omega
    · rw [← UInt32.toNat_inj, UInt32.toNat_and, push_toNat acc hv]
      show _ &&& (2 ^ 2 - 1) = 0 ↔ _
      omega
  constructor
  · show (if 4 > 0 ∧ push acc v &&& 15 ≠ 0 then none else some out) = _
    by_cases hzero : v % 16 = 0 <;> simp [hrest.1, hzero]
  · show (if 2 > 0 ∧ push acc v &&& 3 ≠ 0 then none else some out) = _
    by_cases hzero : v % 4 = 0 <;> simp [hrest.2, hzero]

/-! ## Whole quanta -/

section Steps

variable {p : UInt8} (acc : UInt32) (rest : List UInt8)

theorem decodeLoop_none {bits : Nat} (hp : value p = none) :
    decodeLoop acc bits (p :: rest) = none := by
  rw [decodeLoop, sextet_eq, hp]
  rfl

theorem decodeLoop_first (hp : value p = some v) :
    decodeLoop acc 0 (p :: rest) = decodeLoop (push acc v) 6 rest := by
  rw [decodeLoop, sextet_eq, hp]
  rfl

theorem decodeLoop_second (hp : value p = some v) :
    decodeLoop acc 6 (p :: rest) = (decodeLoop (push acc v) 4 rest).map fun last =>
      ((push acc v >>> 4).toUInt8 :: last.1, last.2) := by
  rw [decodeLoop, sextet_eq, hp]
  rfl

theorem decodeLoop_third (hp : value p = some v) :
    decodeLoop acc 4 (p :: rest) = (decodeLoop (push acc v) 2 rest).map fun last =>
      ((push acc v >>> 2).toUInt8 :: last.1, last.2) := by
  rw [decodeLoop, sextet_eq, hp]
  rfl

theorem decodeLoop_fourth (hp : value p = some v) :
    decodeLoop acc 2 (p :: rest) = (decodeLoop (push acc v) 0 rest).map fun last =>
      ((push acc v >>> 0).toUInt8 :: last.1, last.2) := by
  rw [decodeLoop, sextet_eq, hp]
  rfl

end Steps

/-- What is pushed before the end is in front of what the rest decodes to. -/
theorem finish_cons (b : UInt8) (result : Option (List UInt8 × UInt32 × Nat)) :
    (result.map fun last => (b :: last.1, last.2)).bind finish =
      (result.bind finish).map (b :: ·) := by
  cases result with
  | none => rfl
  | some last =>
    obtain ⟨out, acc, bits⟩ := last
    simp only [Option.map_some, Option.bind_some, finish]
    split <;> rfl

/-- Whatever the accumulator holds when no bits are pending, the loop decodes whole
quanta. A single character more is refused before the loop. -/
theorem decodeLoop_eq (acc : UInt32) (text : List UInt8) (hlength : text.length % 4 ≠ 1) :
    (decodeLoop acc 0 text).bind finish = Rfc4648.decode text := by
  induction text using Rfc4648.decode.induct generalizing acc with
  | case1 => rfl
  | case2 p => exact absurd rfl hlength
  | case3 p q =>
    rw [Rfc4648.decode]
    cases hp : value p with
    | none => rw [decodeLoop_none _ _ hp]; rfl
    | some v =>
      rw [decodeLoop_first _ _ hp]
      cases hq : value q with
      | none => rw [decodeLoop_none _ _ hq]; rfl
      | some w =>
        obtain ⟨hv, -⟩ := value_eq_some.mp hp
        obtain ⟨hw, -⟩ := value_eq_some.mp hq
        rw [decodeLoop_second _ _ hq, finish_cons, (byte_of_push acc hv hw).1]
        show (finish ([], push (push acc v) w, 4)).map _ = _
        rw [(finish_push _ _ hw).1]
        simp only [Option.bind_eq_bind, Option.bind_some]
        split <;> rfl
  | case4 p q r =>
    rw [Rfc4648.decode]
    cases hp : value p with
    | none => rw [decodeLoop_none _ _ hp]; rfl
    | some v =>
      rw [decodeLoop_first _ _ hp]
      cases hq : value q with
      | none => rw [decodeLoop_none _ _ hq]; rfl
      | some w =>
        rw [decodeLoop_second _ _ hq]
        cases hr : value r with
        | none => rw [decodeLoop_none _ _ hr]; rfl
        | some x =>
          obtain ⟨hv, -⟩ := value_eq_some.mp hp
          obtain ⟨hw, -⟩ := value_eq_some.mp hq
          obtain ⟨hx, -⟩ := value_eq_some.mp hr
          rw [decodeLoop_third _ _ hr, finish_cons, finish_cons, (byte_of_push acc hv hw).1,
            (byte_of_push _ hw hx).2.1]
          show ((finish ([], push (push (push acc v) w) x, 2)).map _).map _ = _
          rw [(finish_push _ _ hx).2]
          simp only [Option.bind_eq_bind, Option.bind_some]
          split <;> rfl
  | case5 p q r s rest ih =>
    have hrest : rest.length % 4 ≠ 1 := by
      simp only [List.length_cons] at hlength
      omega
    rw [Rfc4648.decode]
    cases hp : value p with
    | none => rw [decodeLoop_none _ _ hp]; rfl
    | some v =>
      rw [decodeLoop_first _ _ hp]
      cases hq : value q with
      | none => rw [decodeLoop_none _ _ hq]; rfl
      | some w =>
        rw [decodeLoop_second _ _ hq]
        cases hr : value r with
        | none => rw [decodeLoop_none _ _ hr]; rfl
        | some x =>
          rw [decodeLoop_third _ _ hr]
          cases hs : value s with
          | none => rw [decodeLoop_none _ _ hs]; rfl
          | some y =>
            obtain ⟨hv, -⟩ := value_eq_some.mp hp
            obtain ⟨hw, -⟩ := value_eq_some.mp hq
            obtain ⟨hx, -⟩ := value_eq_some.mp hr
            obtain ⟨hy, -⟩ := value_eq_some.mp hs
            rw [decodeLoop_fourth _ _ hs, finish_cons, finish_cons, finish_cons, ih _ hrest,
              (byte_of_push acc hv hw).1, (byte_of_push _ hw hx).2.1, (byte_of_push _ hx hy).2.2]
            cases Rfc4648.decode rest <;> rfl

end Quantum

/-- What is decoded is exactly what RFC 4648 §5 encodes, within the limit. -/
theorem decodeWithLimit_eq_some {input : String} {maxInput : Nat} {bytes : List UInt8} :
    decodeWithLimit input maxInput = some bytes ↔
      byteLen input ≤ maxInput ∧ Rfc4648.encode bytes = utf8 input := by
  unfold decodeWithLimit byteLen
  simp only
  by_cases hlimit : (utf8 input).length > maxInput
  · rw [if_pos hlimit]
    simp only [reduceCtorEq, false_iff]
    exact fun h => absurd h.1 (Nat.not_le_of_gt hlimit)
  · rw [if_neg hlimit]
    by_cases hsingle : (utf8 input).length % 4 = 1
    · rw [if_pos hsingle]
      simp only [reduceCtorEq, false_iff]
      intro h
      have hencoded := Rfc4648.length_encode bytes
      rw [h.2] at hencoded
      exact hencoded hsingle
    · rw [if_neg hsingle, decodeLoop_eq 0 _ hsingle, Rfc4648.decode_eq_some]
      exact ⟨fun h => ⟨Nat.le_of_not_gt hlimit, h⟩, fun h => h.2⟩

/-! ## What is never lost -/

section Bits

open Rfc4648 (bits bits_append bits_mod)

/-- One more value makes the pending bits longer, whatever the accumulator held before them. -/
theorem bits_push (acc : UInt32) {pending v : Nat} (hpending : pending ≤ 26) (hv : v < 64) :
    bits (pending + 6) (push acc v).toNat = bits pending acc.toNat ++ bits 6 v := by
  have hhigh : (acc.toNat % 2 ^ 26 * 64 + v) / 2 ^ 6 = acc.toNat % 2 ^ 26 := by omega
  have hlow : (acc.toNat % 2 ^ 26 * 64 + v) % 2 ^ 6 = v := by omega
  rw [push_toNat acc hv, bits_append, hhigh, bits_mod hpending,
    ← bits_mod (Nat.le_refl 6) (acc.toNat % 2 ^ 26 * 64 + v), hlow]

/-- The byte that is emitted and the bits that stay behind are what was pending. -/
theorem bits_emit (acc : UInt32) {pending : Nat} (hpending : pending < 32) :
    bits 8 (acc >>> UInt32.ofNat pending).toUInt8.toNat ++ bits pending acc.toNat =
      bits (8 + pending) acc.toNat := by
  have hbyte : bits 8 (acc.toNat / 2 ^ pending % 256) = bits 8 (acc.toNat / 2 ^ pending) :=
    bits_mod (Nat.le_refl 8) _
  rw [bits_append, byte_toNat acc hpending, hbyte]

/-- The bits of the characters read are those of the bytes emitted and those still pending. -/
theorem decodeLoop_bits {acc acc' : UInt32} {pending pending' : Nat} {text out : List UInt8}
    (hpending : pending < 8)
    (h : decodeLoop acc pending text = some (out, acc', pending')) :
    pending' < 8 ∧ ∃ values, List.Forall₂ (fun c v => Rfc4648.value c = some v) text values ∧
      bits pending acc.toNat ++ values.flatMap (bits 6) =
        out.flatMap (fun b => bits 8 b.toNat) ++ bits pending' acc'.toNat := by
  induction text generalizing acc pending out with
  | nil =>
    cases h
    exact ⟨hpending, [], .nil, by simp⟩
  | cons c text ih =>
    rw [decodeLoop, sextet_eq] at h
    cases hc : Rfc4648.value c with
    | none =>
      rw [hc] at h
      cases h
    | some v =>
      rw [hc] at h
      have hv := (Rfc4648.value_eq_some.mp hc).1
      have hpush := @bits_push acc pending v (by omega) hv
      simp only [Option.map_some] at h
      change (if pending + 6 ≥ 8 then
          (decodeLoop (push acc v) (pending + 6 - 8) text).map fun last =>
            ((push acc v >>> UInt32.ofNat (pending + 6 - 8)).toUInt8 :: last.1, last.2)
        else decodeLoop (push acc v) (pending + 6) text) = _ at h
      split at h
      · next hemit =>
        obtain ⟨⟨out', last⟩, hrest, heq⟩ := Option.map_eq_some_iff.mp h
        cases heq
        obtain ⟨hlast, values, hvalues, hbits⟩ := ih (by omega) hrest
        refine ⟨hlast, v :: values, .cons hc hvalues, ?_⟩
        have hwhole := bits_emit (push acc v) (show pending + 6 - 8 < 32 by omega)
        rw [show 8 + (pending + 6 - 8) = pending + 6 by omega] at hwhole
        rw [List.flatMap_cons, List.flatMap_cons, ← List.append_assoc, ← hpush, List.append_assoc,
          ← hbits, ← List.append_assoc, hwhole]
      · obtain ⟨hlast, values, hvalues, hbits⟩ := ih (by omega) h
        refine ⟨hlast, v :: values, .cons hc hvalues, ?_⟩
        rw [List.flatMap_cons, ← List.append_assoc, ← hpush, hbits]

end Bits

/-! ## The inverse of encoding -/

/-- The unpadded base64url encoding of bytes. -/
def encode (bytes : List UInt8) : String := ascii (Rfc4648.encode bytes)

theorem utf8_encode (bytes : List UInt8) : utf8 (encode bytes) = Rfc4648.encode bytes :=
  utf8_ascii (Rfc4648.encode_lt bytes)

/-- What is decoded is what the bytes are encoded to, within the limit. -/
theorem decodeWithLimit_eq_encode {input : String} {limit : Nat} {bytes : List UInt8} :
    decodeWithLimit input limit = some bytes ↔
      input = encode bytes ∧ byteLen (encode bytes) ≤ limit := by
  rw [decodeWithLimit_eq_some]
  constructor
  · rintro ⟨hlength, hencoded⟩
    have hinput : input = encode bytes :=
      utf8_inj (hencoded.symm.trans (utf8_encode bytes).symm)
    rw [← hinput]
    exact ⟨rfl, hlength⟩
  · rintro ⟨rfl, hlength⟩
    exact ⟨hlength, (utf8_encode bytes).symm⟩

/-- Decoding inverts encoding within the limit, accepts nothing else, and so no two texts alike,
and refuses what is longer than the limit. After any text that the loop reads, the bits of its
characters are those of the bytes emitted and those pending in the accumulator, fewer than
eight. -/
theorem decodeWithLimit_canonical (limit : Nat) :
    (∀ bytes, byteLen (encode bytes) ≤ limit →
      decodeWithLimit (encode bytes) limit = some bytes) ∧
    (∀ input bytes, decodeWithLimit input limit = some bytes → input = encode bytes) ∧
    (∀ input input' bytes, decodeWithLimit input limit = some bytes →
      decodeWithLimit input' limit = some bytes → input = input') ∧
    (∀ input, limit < byteLen input → decodeWithLimit input limit = none) ∧
    ∀ text out acc pending, decodeLoop 0 0 text = some (out, acc, pending) →
      pending < 8 ∧ ∃ values, List.Forall₂ (fun c v => Rfc4648.value c = some v) text values ∧
        values.flatMap (Rfc4648.bits 6) =
          out.flatMap (fun b => Rfc4648.bits 8 b.toNat) ++ Rfc4648.bits pending acc.toNat := by
  have hcanonical : ∀ input bytes, decodeWithLimit input limit = some bytes →
      input = encode bytes := fun input bytes h => (decodeWithLimit_eq_encode.mp h).1
  refine ⟨fun bytes hlength => ?_, hcanonical, fun input input' bytes h h' => ?_,
    fun input hlong => ?_, fun text out acc pending h => ?_⟩
  · exact decodeWithLimit_eq_encode.mpr ⟨rfl, hlength⟩
  · rw [hcanonical input bytes h, hcanonical input' bytes h']
  · exact if_pos hlong
  · exact decodeLoop_bits (by decide) h

/-- Two bytes leave two bits over, and the text that sets one of them is not decoded. -/
theorem decodeWithLimit_canonical_leftover :
    decodeWithLimit (encode [0x68, 0x69]) 3 = some [0x68, 0x69] ∧ decodeWithLimit "aGl" 3 = none :=
  ⟨(decodeWithLimit_canonical 3).1 [0x68, 0x69] (by decide), by decide⟩

end Base64url

end DcMatcher
