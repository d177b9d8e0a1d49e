import Mathlib.Data.List.Basic
import Mathlib.Algebra.Group.Int.Defs
import Mathlib.Algebra.Group.Nat.Defs

/-!
# LEB128

Nothing here names a program. A number is a run of bytes with the high bit set and a last byte
without it, seven bits a byte from the lowest, in two's complement where it is signed. A number
may take more bytes than it needs.

Results:
1. `signedValue_append`: the sign is the second highest bit of the last byte, and it weighs as
   much as the bit above all that were read.
2. `Number.unique`: bytes start with at most one number.
-/

namespace Leb128

/-- The bytes of one number: the last one, and no other, is below `0x80`. -/
def Number (block : List UInt8) : Prop :=
  ∃ init last, block = init ++ [last] ∧ (∀ b ∈ init, 128 ≤ b.toNat) ∧ last.toNat < 128

/-- What the bytes are without a sign. -/
def unsignedValue : List UInt8 → Nat
  | [] => 0
  | b :: block => b.toNat % 128 + 128 * unsignedValue block

/-- What they are in two's complement: of seven bits at the last byte. -/
def signedValue : List UInt8 → Int
  | [] => 0
  | [last] => if last.toNat % 128 < 64 then last.toNat % 128 else last.toNat % 128 - 128
  | b :: c :: block => b.toNat % 128 + 128 * signedValue (c :: block)

def value (signed : Bool) (block : List UInt8) : Int :=
  if signed then signedValue block else unsignedValue block

/-- The range of an integer type of so many bits. -/
def Fits (bits : Nat) (signed : Bool) (v : Int) : Prop :=
  if signed then -(2 ^ (bits - 1)) ≤ v ∧ v < 2 ^ (bits - 1) else 0 ≤ v ∧ v < 2 ^ bits

instance (bits : Nat) (signed : Bool) (v : Int) : Decidable (Fits bits signed v) := by
  unfold Fits
  infer_instance

theorem signedValue_cons {b : UInt8} {block : List UInt8} (h : block ≠ []) :
    signedValue (b :: block) = b.toNat % 128 + 128 * signedValue block := by
  cases block with
  | nil => exact absurd rfl h
  | cons c block => rfl

/-- The sign weighs as much as the bit above all that were read. -/
theorem signedValue_append (init : List UInt8) (last : UInt8) :
    signedValue (init ++ [last]) =
      if last.toNat % 128 < 64 then (unsignedValue (init ++ [last]) : Int)
      else unsignedValue (init ++ [last]) - 2 ^ (7 * (init.length + 1)) := by
  induction init with
  | nil =>
    show (if last.toNat % 128 < 64 then _ else _) = _
    split
    · show ((last.toNat % 128 : Nat) : Int) = ((last.toNat % 128 + 128 * 0 : Nat) : Int)
      rfl
    · show ((last.toNat % 128 : Nat) : Int) - 128 = ((last.toNat % 128 + 128 * 0 : Nat) : Int) - 128
      rfl
  | cons b init ih =>
    have hpow : (2 : Int) ^ (7 * (init.length + 1 + 1)) = 128 * 2 ^ (7 * (init.length + 1)) := by
      rw [Nat.mul_add 7 (init.length + 1) 1, Int.pow_add]
      exact Int.mul_comm _ _
    have hvalue : (unsignedValue (b :: (init ++ [last])) : Int) =
        b.toNat % 128 + 128 * unsignedValue (init ++ [last]) := by
      rw [unsignedValue]
      push_cast
      rfl
    rw [List.cons_append, signedValue_cons (by simp), ih, hvalue, List.length_cons, hpow]
    split <;> omega

theorem number_singleton {last : UInt8} (h : last.toNat < 128) : Number [last] :=
  ⟨[], last, rfl, fun _ hb => absurd hb List.not_mem_nil, h⟩

theorem Number.cons {b : UInt8} {block : List UInt8} (hb : 128 ≤ b.toNat) (h : Number block) :
    Number (b :: block) := by
  obtain ⟨init, last, rfl, hinit, hlast⟩ := h
  exact ⟨b :: init, last, rfl, List.forall_mem_cons.mpr ⟨hb, hinit⟩, hlast⟩

/-- Bytes start with at most one number. -/
theorem Number.unique {block block' tail tail' : List UInt8} (h : Number block)
    (h' : Number block') (heq : block ++ tail = block' ++ tail') : block = block' := by
  obtain ⟨init, last, rfl, hinit, hlast⟩ := h
  obtain ⟨init', last', rfl, hinit', hlast'⟩ := h'
  induction init generalizing init' with
  | nil =>
    cases init' with
    | nil =>
      obtain ⟨rfl, _⟩ := List.cons.inj heq
      rfl
    | cons b' init' =>
      obtain ⟨rfl, _⟩ := List.cons.inj heq
      exact absurd (hinit' last List.mem_cons_self) (Nat.not_le_of_lt hlast)
  | cons b init ih =>
    cases init' with
    | nil =>
      obtain ⟨rfl, _⟩ := List.cons.inj heq
      exact absurd (hinit b List.mem_cons_self) (Nat.not_le_of_lt hlast')
    | cons b' init' =>
      obtain ⟨rfl, hrest⟩ := List.cons.inj heq
      have hsame := ih (fun c hc => hinit c (List.mem_cons_of_mem b hc)) init' hrest
        fun c hc => hinit' c (List.mem_cons_of_mem b hc)
      rw [List.cons_append, List.cons_append, hsame]

end Leb128
