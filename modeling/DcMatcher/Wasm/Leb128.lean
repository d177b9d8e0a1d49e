import DcMatcher.Lib.Leb128
import DcMatcher.Wasm.Binary

/-!
# LEB128, exactly

What `_leb128` accepts, of every width and signedness.

Results:
1. `reads_leb128Loop_number`, `leb128Loop_eq_some`: the loop takes the bytes of one number, if it
   may take that many.
2. `leb128_eq_ok`: a read gives the value of these bytes, if that fits.
3. `reads_u32`, `u32_refuses`: what `encode_u32` writes is read back, if it fits.
4. `leb128_exact`: the readers of the source, and what `encode_u32` writes.
-/

namespace DcMatcher.Wasm

open Readers

open Leb128 (unsignedValue signedValue_append)

/-! ## The loop -/

/-- The loop takes one byte, and goes on where its high bit is set. -/
theorem leb128Loop_cons (n shift acc offset : Nat) (b : UInt8) (rest : List UInt8) :
    leb128Loop (n + 1) shift acc ⟨offset, b :: rest⟩ =
      if b.toNat < 128 then
        .ok (some (acc ||| (b.toNat % 128) <<< shift, shift + 7, b), ⟨offset + 1, rest⟩)
      else leb128Loop n (shift + 7) (acc ||| (b.toNat % 128) <<< shift) ⟨offset + 1, rest⟩ := by
  have hlow : b.toNat &&& 0x7F = b.toNat % 128 := Nat.and_two_pow_sub_one_eq_mod b.toNat 7
  have hbytes : ∀ n : Fin 256, n.val &&& 0x80 = 0 ↔ n.val < 128 := by decide +kernel
  have hhigh : b.toNat &&& 0x80 = 0 ↔ b.toNat < 128 := hbytes ⟨b.toNat, b.toNat_lt⟩
  show (if b.toNat &&& 0x80 = 0 then
      (pure (some (acc ||| (b.toNat &&& 0x7F) <<< shift, shift + 7, b)) : Read _)
    else leb128Loop n (shift + 7) (acc ||| (b.toNat &&& 0x7F) <<< shift)) ⟨offset + 1, rest⟩ = _
  simp only [hlow, hhigh]
  split <;> rfl

/-- Seven bits, and the bits above them. -/
theorem or_shiftLeft_div (v shift : Nat) :
    (v % 128) <<< shift ||| (v / 128) <<< (shift + 7) = v <<< shift := by
  apply Nat.eq_of_testBit_eq
  intro i
  have hmod : (v % 128).testBit (i - shift) = (decide (i - shift < 7) && v.testBit (i - shift)) :=
    Nat.testBit_mod_two_pow v 7 _
  have hdiv : (v / 128).testBit (i - (shift + 7)) = v.testBit (i - (shift + 7) + 7) :=
    @Nat.testBit_div_two_pow 7 v _
  rw [Nat.testBit_or, Nat.testBit_shiftLeft, Nat.testBit_shiftLeft, Nat.testBit_shiftLeft, hmod,
    hdiv]
  by_cases hi : shift + 7 ≤ i
  · have hsame : i - (shift + 7) + 7 = i - shift := by omega
    have hge : shift ≤ i := by omega
    have hlt : ¬ i - shift < 7 := by omega
    simp [hsame, hi, hge, hlt]
  · by_cases hge : shift ≤ i
    · have hlt : i - shift < 7 := by omega
      simp [hi, hge, hlt]
    · simp [hi, hge]

theorem reads_leb128Loop_number {n shift acc : Nat} {init : List UInt8} {last : UInt8}
    (hinit : ∀ b ∈ init, 128 ≤ b.toNat) (hlast : last.toNat < 128) (hn : init.length < n) :
    Reads (leb128Loop n shift acc) (init ++ [last])
      (some (acc ||| unsignedValue (init ++ [last]) <<< shift, shift + 7 * (init.length + 1),
        last)) := by
  intro offset tail
  induction init generalizing n shift acc offset with
  | nil =>
    obtain ⟨n, rfl⟩ := Nat.exists_eq_succ_of_ne_zero (Nat.ne_of_gt hn)
    rw [List.nil_append, List.singleton_append, leb128Loop_cons, if_pos hlast]
    rfl
  | cons b init ih =>
    obtain ⟨n, rfl⟩ := Nat.exists_eq_succ_of_ne_zero (Nat.ne_of_gt (Nat.zero_lt_of_lt hn))
    obtain ⟨hb, hinit⟩ := List.forall_mem_cons.mp hinit
    have hlow := or_shiftLeft_div (unsignedValue (b :: (init ++ [last]))) shift
    have hmod : unsignedValue (b :: (init ++ [last])) % 128 = b.toNat % 128 := by
      rw [unsignedValue]
      omega
    have hdiv : unsignedValue (b :: (init ++ [last])) / 128 = unsignedValue (init ++ [last]) := by
      rw [unsignedValue]
      omega
    rw [hmod, hdiv] at hlow
    rw [List.cons_append, List.cons_append, leb128Loop_cons, if_neg (Nat.not_lt_of_le hb),
      ih hinit (Nat.lt_of_succ_lt_succ hn), Nat.or_assoc, hlow, List.length_cons, List.length_cons,
      Nat.mul_add 7 (init.length + 1) 1, Nat.add_right_comm, Nat.add_assoc shift,
      Nat.add_right_comm offset]
    rfl

/-- The loop ends at the first byte without the high bit. -/
theorem leb128Loop_eq_some {n shift acc offset : Nat} {rest : List UInt8}
    {x : Nat × Nat × UInt8} {r' : Reader}
    (h : leb128Loop n shift acc ⟨offset, rest⟩ = .ok (some x, r')) :
    ∃ init last tail, rest = init ++ [last] ++ tail ∧ (∀ b ∈ init, 128 ≤ b.toNat) ∧
      last.toNat < 128 ∧ init.length < n := by
  induction n generalizing shift acc offset rest with
  | zero => cases h
  | succ n ih =>
    cases rest with
    | nil => cases h
    | cons b rest =>
      rw [leb128Loop_cons] at h
      by_cases hb : b.toNat < 128
      · exact ⟨[], b, rest, rfl, fun c hc => absurd hc List.not_mem_nil, hb, Nat.zero_lt_succ n⟩
      · rw [if_neg hb] at h
        obtain ⟨init, last, tail, rfl, hinit, hlast, hn⟩ := ih h
        exact ⟨b :: init, last, tail, rfl,
          List.forall_mem_cons.mpr ⟨Nat.le_of_not_lt hb, hinit⟩, hlast, Nat.succ_lt_succ hn⟩

/-! ## The value -/

/-- The sign bit that the source tests. -/
theorem sign_bit (b : UInt8) : b.toNat &&& 0x40 ≠ 0 ↔ ¬ b.toNat % 128 < 64 := by
  have hbytes : ∀ n : Fin 256, n.val &&& 0x40 ≠ 0 ↔ ¬ n.val % 128 < 64 := by decide +kernel
  exact hbytes ⟨b.toNat, b.toNat_lt⟩

/-- The sign and the range of the source are those of the definition. -/
theorem leb128Value_eq_ok {bits : Nat} {signed : Bool} {init : List UInt8} {last : UInt8}
    {v : Int} :
    leb128Value bits signed
        (some (unsignedValue (init ++ [last]), 7 * (init.length + 1), last)) = .ok v ↔
      Leb128.value signed (init ++ [last]) = v ∧ Leb128.Fits bits signed v := by
  have hvalue : (if (signed && last.toNat &&& 0x40 ≠ 0) = true then
      (unsignedValue (init ++ [last]) : Int) - 2 ^ (7 * (init.length + 1))
      else unsignedValue (init ++ [last])) = Leb128.value signed (init ++ [last]) := by
    cases signed with
    | false => rfl
    | true =>
      show _ = Leb128.signedValue _
      rw [signedValue_append]
      simp only [Bool.true_and, decide_eq_true_eq, sign_bit]
      by_cases hsign : last.toNat % 128 < 64
      · rw [if_neg (not_not_intro hsign), if_pos hsign]
      · rw [if_pos hsign, if_neg hsign]
  have hrange : ((if signed then -(2 ^ (bits - 1)) else 0) ≤ Leb128.value signed (init ++ [last]) ∧
      Leb128.value signed (init ++ [last]) < if signed then 2 ^ (bits - 1) else 2 ^ bits) ↔
      Leb128.Fits bits signed (Leb128.value signed (init ++ [last])) := by
    cases signed <;> exact Iff.rfl
  unfold leb128Value
  simp only [hvalue, hrange]
  constructor
  · intro h
    split at h
    · next hfits =>
      cases h
      exact ⟨rfl, hfits⟩
    · cases h
  · rintro ⟨rfl, hfits⟩
    exact if_pos hfits

/-! ## The readers -/

theorem leb128_eq_ok {bits : Nat} {signed : Bool} {offset : Nat} {rest : List UInt8} {v : Int}
    {r' : Reader} :
    leb128 bits signed ⟨offset, rest⟩ = .ok (v, r') ↔
      ∃ block tail, rest = block ++ tail ∧ Leb128.Number block ∧ block.length ≤ (bits + 6) / 7 ∧
        Leb128.value signed block = v ∧ Leb128.Fits bits signed v ∧
        r' = ⟨offset + block.length, tail⟩ := by
  constructor
  · intro h
    obtain ⟨x, hloop, hvalue⟩ := checked_eq_ok.mp h
    cases x with
    | none => cases hvalue
    | some x =>
      obtain ⟨init, last, tail, rfl, hinit, hlast, hn⟩ := leb128Loop_eq_some hloop
      cases (reads_leb128Loop_number hinit hlast hn offset tail).symm.trans hloop
      rw [Nat.zero_or, Nat.shiftLeft_zero, Nat.zero_add] at hvalue
      obtain ⟨hv, hfits⟩ := leb128Value_eq_ok.mp hvalue
      refine ⟨init ++ [last], tail, rfl, ⟨init, last, rfl, hinit, hlast⟩, ?_, hv, hfits, rfl⟩
      rw [List.length_append]
      exact hn
  · rintro ⟨block, tail, rfl, ⟨init, last, rfl, hinit, hlast⟩, hn, hv, hfits, rfl⟩
    rw [List.length_append] at hn
    have hloop := @reads_leb128Loop_number ((bits + 6) / 7) 0 0 init last hinit hlast hn offset tail
    rw [Nat.zero_or, Nat.shiftLeft_zero, Nat.zero_add] at hloop
    exact checked_eq_ok.mpr ⟨_, hloop, leb128Value_eq_ok.mpr ⟨hv, hfits⟩⟩

theorem leb128_local (bits : Nat) (signed : Bool) : Local (leb128 bits signed) := by
  rintro ⟨offset, rest⟩ v r' h
  obtain ⟨block, tail, rfl, hnumber, hlength, hvalue, hfits, rfl⟩ := leb128_eq_ok.mp h
  exact ⟨block, rfl, rfl, fun offset tail =>
    leb128_eq_ok.mpr ⟨block, tail, rfl, hnumber, hlength, hvalue, hfits, rfl⟩⟩

theorem u32_local : Local u32 := (leb128_local 32 false).map

/-- What is read fits, and is what `_leb128` gives. -/
theorem u32_eq_ok {r r' : Reader} {v : Nat} :
    u32 r = .ok (v, r') ↔ leb128 32 false r = .ok ((v : Int), r') := by
  constructor
  · intro h
    obtain ⟨value, r₁, hleb, hpure⟩ := bind_eq_ok.mp h
    cases pure_eq_ok.mp hpure
    obtain ⟨block, tail, _, _, _, _, hfits, _⟩ := leb128_eq_ok.mp hleb
    rw [Int.toNat_of_nonneg hfits.1]
    exact hleb
  · intro h
    exact bind_eq_ok.mpr ⟨_, _, h, pure_eq_ok.mpr (by rw [Int.toNat_natCast])⟩

theorem u32_lt {r r' : Reader} {v : Nat} (h : u32 r = .ok (v, r')) : v < 2 ^ 32 := by
  obtain ⟨block, tail, _, _, _, _, hfits, _⟩ := leb128_eq_ok.mp (u32_eq_ok.mp h)
  exact_mod_cast hfits.2

theorem lt_of_reads_u32 {bytes : List UInt8} {v : Nat} (h : Reads u32 bytes v) : v < 2 ^ 32 :=
  u32_lt (h 0 [])

/-! ## `encode_u32` -/

theorem encodeU32_eq (v : Nat) : encodeU32 v =
    if v < 128 then [UInt8.ofNat v]
    else UInt8.ofNat (v % 128 ||| 0x80) :: encodeU32 (v / 128) := by
  have hlow : v &&& 0x7F = v % 128 := Nat.and_two_pow_sub_one_eq_mod v 7
  have hhigh : v >>> 7 = v / 128 := Nat.shiftRight_eq_div_pow v 7
  rw [encodeU32, hlow, hhigh]
  by_cases hv : v < 128
  · rw [if_pos (Nat.div_eq_of_lt hv), if_pos hv, Nat.mod_eq_of_lt hv]
  · have hne : ¬ v / 128 = 0 := fun h => hv ((Nat.div_eq_zero_iff_lt (by decide)).mp h)
    rw [if_neg hne, if_neg hv]

/-- What is written is a number, and its value is what was to be written. -/
theorem encodeU32_number (v : Nat) :
    Leb128.Number (encodeU32 v) ∧ unsignedValue (encodeU32 v) = v := by
  induction v using Nat.strongRecOn with
  | ind v ih =>
    rw [encodeU32_eq]
    by_cases hv : v < 128
    · have hbyte : (UInt8.ofNat v).toNat = v :=
        UInt8.toNat_ofNat_of_lt' (Nat.lt_trans hv (by decide))
      rw [if_pos hv]
      refine ⟨Leb128.number_singleton (by rw [hbyte]; exact hv), ?_⟩
      rw [unsignedValue, hbyte, Nat.mod_eq_of_lt hv]
      rfl
    · have hbyte : ∀ low < 128, (UInt8.ofNat (low ||| 0x80)).toNat = low + 128 := by decide
      have hmore := hbyte (v % 128) (Nat.mod_lt v (by decide))
      obtain ⟨hnumber, hvalue⟩ := ih (v / 128) (by omega)
      rw [if_neg hv]
      refine ⟨hnumber.cons (by omega), ?_⟩
      rw [unsignedValue, hmore, hvalue]
      omega

theorem length_encodeU32_le {n v : Nat} (hv : v < 128 ^ (n + 1)) :
    (encodeU32 v).length ≤ n + 1 := by
  induction n generalizing v with
  | zero =>
    have hlow : v < 128 := hv
    rw [encodeU32_eq, if_pos hlow]
    exact Nat.le_refl 1
  | succ n ih =>
    rw [encodeU32_eq]
    split
    · exact Nat.succ_le_succ (Nat.zero_le _)
    · rw [List.length_cons]
      refine Nat.succ_le_succ (ih ?_)
      rw [Nat.div_lt_iff_lt_mul (by decide), ← Nat.pow_succ]
      exact hv

/-- A number that can be read takes at most five bytes. -/
theorem length_encodeU32_le_five {v : Nat} (hv : v < 2 ^ 32) : (encodeU32 v).length ≤ 5 :=
  length_encodeU32_le (by omega)

/-- What `encodeU32` writes is read back. -/
theorem reads_u32 {v : Nat} (hv : v < 2 ^ 32) : Reads u32 (encodeU32 v) v := by
  obtain ⟨hnumber, hvalue⟩ := encodeU32_number v
  intro offset tail
  refine u32_eq_ok.mpr (leb128_eq_ok.mpr ⟨encodeU32 v, tail, rfl, hnumber,
    length_encodeU32_le_five hv, ?_, ⟨Int.natCast_nonneg v, by exact_mod_cast hv⟩, rfl⟩)
  exact congrArg Nat.cast hvalue

/-- From `2 ^ 32` on it is refused. -/
theorem u32_refuses {v offset : Nat} {tail : List UInt8} (hv : 2 ^ 32 ≤ v) {out : Nat × Reader} :
    u32 ⟨offset, encodeU32 v ++ tail⟩ ≠ .ok out := by
  intro h
  obtain ⟨hnumber, hvalue⟩ := encodeU32_number v
  obtain ⟨block, tail', hsplit, hblock, _, hread, _⟩ := leb128_eq_ok.mp (u32_eq_ok.mp h)
  rw [← hnumber.unique hblock hsplit] at hread
  have hsame : v = out.1 := hvalue.symm.trans (Int.ofNat.inj hread)
  exact Nat.not_lt_of_le hv (hsame ▸ u32_lt h)

/-! ## The readers of the source -/

/-- `encode_u32` is read back, whatever follows. Of every width and signedness, a read succeeds
exactly if a number ends within `⌈bits / 7⌉` bytes and its value fits, and then gives this value and
moves past these bytes. The readers of the source are of this kind. -/
theorem leb128_exact :
    (∀ v < 2 ^ 32, ∀ offset tail, u32 ⟨offset, encodeU32 v ++ tail⟩ =
      .ok (v, ⟨offset + (encodeU32 v).length, tail⟩)) ∧
    (∀ bits signed offset rest v r', leb128 bits signed ⟨offset, rest⟩ = .ok (v, r') ↔
      ∃ block tail, rest = block ++ tail ∧ Leb128.Number block ∧ block.length ≤ (bits + 6) / 7 ∧
        Leb128.value signed block = v ∧ Leb128.Fits bits signed v ∧
        r' = ⟨offset + block.length, tail⟩) ∧
    (∀ r (v : Nat) r', u32 r = .ok (v, r') ↔ leb128 32 false r = .ok ((v : Int), r')) ∧
    s32 = leb128 32 true ∧ s33 = leb128 33 true ∧ s64 = leb128 64 true := by
  exact ⟨fun v hv => reads_u32 hv, fun _ _ _ _ _ _ => leb128_eq_ok, fun _ _ _ => u32_eq_ok, rfl,
    rfl, rfl⟩

/-- The encoding of 300, and what follows it. -/
theorem leb128_exact_300 : 300 < 2 ^ 32 ∧
    u32 ⟨7, encodeU32 300 ++ [0x0B]⟩ = .ok (300, ⟨7 + (encodeU32 300).length, [0x0B]⟩) :=
  ⟨by decide, leb128_exact.1 300 (by decide) 7 [0x0B]⟩

/-- One byte more than needed is legal; a fifth byte with bits above the 32nd is not. -/
example : s32 ⟨0, [0xFF, 0x7F]⟩ = .ok (-1, ⟨2, []⟩) ∧
    u32 ⟨0, [0xFF, 0xFF, 0xFF, 0xFF, 0x1F]⟩ =
      .error ⟨0, "8589934591 does not fit 32 bits"⟩ := by decide

end DcMatcher.Wasm
