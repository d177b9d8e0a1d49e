import Mathlib.Algebra.Group.Int.Defs
import Mathlib.Algebra.Group.Nat.Defs
import Mathlib.Data.List.Basic

/-!
# Text as bytes and characters

The operations on `str` the sources use. A string is its Unicode scalar values;
where a source function works on bytes, they are the bytes of its UTF-8 form.

Result: `ofUtf8_eq_some`: `String::from_utf8` accepts exactly the UTF-8 form of a string,
and gives that string.
-/

namespace DcMatcher

/-! ## UTF-8 -/

/-- `str::as_bytes`. -/
def utf8 (s : String) : List UInt8 := s.toByteArray.data.toList

/-- `String::from_utf8`. -/
def ofUtf8 (bytes : List UInt8) : Option String := String.fromUTF8? ⟨bytes.toArray⟩

/-- `str::len`. -/
def byteLen (s : String) : Nat := (utf8 s).length

theorem ofUtf8_eq_some {bytes : List UInt8} {s : String} :
    ofUtf8 bytes = some s ↔ utf8 s = bytes := by
  unfold ofUtf8 utf8 String.fromUTF8?
  constructor
  · intro h
    split at h
    · next hv =>
      cases h
      rfl
    · exact absurd h (by simp)
  · rintro rfl
    have hv : ByteArray.IsValidUTF8 ⟨s.toByteArray.data.toList.toArray⟩ := s.isValidUTF8
    rw [dif_pos hv]
    rfl

theorem utf8_append (a b : String) : utf8 (a ++ b) = utf8 a ++ utf8 b := by
  unfold utf8
  simp

theorem utf8_inj {a b : String} (h : utf8 a = utf8 b) : a = b := by
  have hb : ofUtf8 (utf8 a) = some b := ofUtf8_eq_some.mpr h.symm
  rw [ofUtf8_eq_some.mpr rfl] at hb
  exact Option.some.inj hb

/-- The bytes of a text, character by character. -/
theorem utf8_ofList (text : List Char) :
    utf8 (String.ofList text) = text.flatMap String.utf8EncodeChar := by
  unfold utf8
  rw [String.toByteArray_ofList]
  simp [List.utf8Encode]

/-- The text of ASCII bytes. -/
def ascii (bytes : List UInt8) : String := String.ofList (bytes.map fun b => Char.ofNat b.toNat)

/-- An ASCII character is one byte. -/
theorem utf8EncodeChar_ascii {b : UInt8} (h : b.toNat < 0x80) :
    String.utf8EncodeChar (Char.ofNat b.toNat) = [b] := by
  have hvalid : b.toNat.isValidChar := .inl (Nat.lt_trans h (by decide))
  have hval : (Char.ofNat b.toNat).val.toNat = b.toNat := by
    rw [Char.ofNat, dif_pos hvalid]
    rfl
  unfold String.utf8EncodeChar
  simp only [hval, if_pos (Nat.le_of_lt_succ h), UInt8.ofNat_toNat]

theorem utf8_ascii {bytes : List UInt8} (h : ∀ b ∈ bytes, b.toNat < 0x80) :
    utf8 (ascii bytes) = bytes := by
  rw [ascii, utf8_ofList, List.flatMap_map]
  induction bytes with
  | nil => rfl
  | cons b bytes ih =>
    rw [List.flatMap_cons, utf8EncodeChar_ascii (h b List.mem_cons_self),
      ih fun c hc => h c (List.mem_cons_of_mem b hc)]
    rfl

/-! ## White space -/

/-- `char::is_whitespace`: the Unicode `White_Space` property. -/
def isWhitespace (c : Char) : Bool :=
  let n := c.toNat
  (0x9 ≤ n && n ≤ 0xD) || n == 0x20 || n == 0x85 || n == 0xA0 || n == 0x1680 ||
    (0x2000 ≤ n && n ≤ 0x200A) || n == 0x2028 || n == 0x2029 || n == 0x202F ||
    n == 0x205F || n == 0x3000

/-- `str::trim`. -/
def trim (s : String) : String :=
  String.ofList ((s.toList.dropWhile isWhitespace).reverse.dropWhile isWhitespace).reverse

/-- `str::split` on one character. -/
def split (sep : Char) (s : String) : List String :=
  (s.toList.splitOn sep).map String.ofList

/-- What is split is put together again. -/
theorem split_eq {sep : Char} {s a b c : String} (h : split sep s = [a, b, c]) :
    s = a ++ String.singleton sep ++ b ++ String.singleton sep ++ c := by
  unfold split at h
  obtain ⟨x, xs, hsplit, rfl, hxs⟩ := List.map_eq_cons_iff.mp h
  obtain ⟨y, ys, rfl, rfl, hys⟩ := List.map_eq_cons_iff.mp hxs
  obtain ⟨z, zs, rfl, rfl, hzs⟩ := List.map_eq_cons_iff.mp hys
  obtain rfl := List.map_eq_nil_iff.mp hzs
  have hback : [sep].intercalate (s.toList.splitOn sep) = s.toList :=
    List.intercalate_splitOn sep
  rw [hsplit] at hback
  apply String.toList_inj.mp
  rw [← hback]
  simp [List.intercalate]

/-- Three texts without the separator are what they are split into. -/
theorem split_append {sep : Char} {a b c : String} (ha : sep ∉ a.toList) (hb : sep ∉ b.toList)
    (hc : sep ∉ c.toList) :
    split sep (a ++ String.singleton sep ++ b ++ String.singleton sep ++ c) = [a, b, c] := by
  have htext : (a ++ String.singleton sep ++ b ++ String.singleton sep ++ c).toList =
      a.toList ++ sep :: (b.toList ++ sep :: c.toList) := by simp
  unfold split
  rw [htext, List.splitOn_append_cons_self_of_not_mem ha,
    List.splitOn_append_cons_self_of_not_mem hb, List.splitOn_eq_singleton hc]
  simp

/-- `str::splitn` on one character: at most `count` pieces, the last one with whatever is
left. -/
def splitn (sep : Char) : Nat → List Char → List String
  | 0, _ => []
  | 1, text => [String.ofList text]
  | count + 2, text =>
    match text.dropWhile (· ≠ sep) with
    | [] => [String.ofList text]
    | _ :: rest => String.ofList (text.takeWhile (· ≠ sep)) :: splitn sep (count + 1) rest

/-- Without the separator the text is one piece. -/
theorem splitn_of_not_mem {sep : Char} {count : Nat} {text : List Char} (h : sep ∉ text) :
    splitn sep (count + 1) text = [String.ofList text] := by
  cases count with
  | zero => rfl
  | succ count =>
    have hall : ∀ c ∈ text, (decide (c ≠ sep)) = true := fun c hc =>
      decide_eq_true fun heq => h (heq ▸ hc)
    have hnil : text.dropWhile (· ≠ sep) = [] := by
      rw [← List.append_nil text, List.dropWhile_append_of_pos hall]
      rfl
    rw [splitn, hnil]

/-- The piece before the first separator, then those of the rest. -/
theorem splitn_append_cons {sep : Char} {count : Nat} {piece rest : List Char} (h : sep ∉ piece) :
    splitn sep (count + 2) (piece ++ sep :: rest) =
      String.ofList piece :: splitn sep (count + 1) rest := by
  have hall : ∀ c ∈ piece, (decide (c ≠ sep)) = true := fun c hc =>
    decide_eq_true fun heq => h (heq ▸ hc)
  rw [splitn, List.dropWhile_append_of_pos hall, List.takeWhile_append_of_pos hall,
    List.dropWhile_cons_of_neg (by simp), List.takeWhile_cons_of_neg (by simp), List.append_nil]

/-- There is one piece more than there are separators. -/
theorem length_splitOn (sep : Char) (text : List Char) :
    (text.splitOn sep).length = text.count sep + 1 := by
  induction text with
  | nil => rfl
  | cons c text ih =>
    rw [List.splitOn_cons_eq_if_modifyHead, List.count_cons]
    split
    · rw [List.length_cons, ih]
    · rw [List.length_modifyHead, ih]

/-- Both find the first separator at the same place. -/
theorem splitn_eq_splitOn (sep : Char) (count : Nat) (text : List Char) :
    (splitn sep (count + 1) text).length = min (count + 1) (text.splitOn sep).length ∧
      ((text.splitOn sep).length ≤ count + 1 →
        splitn sep (count + 1) text = (text.splitOn sep).map String.ofList) := by
  induction count generalizing text with
  | zero =>
    have hpos : 0 < (text.splitOn sep).length :=
      List.length_pos_iff.mpr (List.splitOn_ne_nil sep text)
    refine ⟨(Nat.min_eq_left hpos).symm, fun h => ?_⟩
    have hnone : sep ∉ text := by
      rw [length_splitOn] at h
      exact List.count_eq_zero.mp (Nat.le_zero.mp (Nat.le_of_succ_le_succ h))
    rw [List.splitOn_eq_singleton hnone]
    rfl
  | succ count ih =>
    by_cases hmem : sep ∈ text
    · obtain ⟨piece, rest, rfl, hpiece⟩ := List.eq_append_cons_of_mem hmem
      obtain ⟨hlength, heq⟩ := ih rest
      rw [splitn_append_cons hpiece, List.splitOn_append_cons_self_of_not_mem hpiece,
        List.length_cons, List.length_cons, hlength]
      refine ⟨by omega, fun h => ?_⟩
      rw [heq (Nat.le_of_succ_le_succ h)]
      rfl
    · rw [splitn_of_not_mem hmem, List.splitOn_eq_singleton hmem]
      exact ⟨(Nat.min_eq_right (Nat.le_add_left 1 _)).symm, fun _ => rfl⟩

/-! ## Numbers -/

/-- `u8::is_ascii_digit`. -/
def isAsciiDigit (b : UInt8) : Bool := 0x30 ≤ b && b ≤ 0x39

/-- The number a run of ASCII digits writes. -/
def digitsValue (digits : List UInt8) : Nat :=
  digits.foldl (fun n b => n * 10 + (b.toNat - 0x30)) 0

/-- At least one digit, and digits only. -/
def parseDigits (digits : List UInt8) : Option Nat :=
  if digits.isEmpty || !digits.all isAsciiDigit then none else some (digitsValue digits)

/-- A number in the range of `i64`. -/
def inI64 (n : Int) : Option Int := if -(2 ^ 63) ≤ n ∧ n < 2 ^ 63 then some n else none

/-- `str::parse::<i64>`: an optional sign and digits, within range. -/
def parseI64 : List UInt8 → Option Int
  | 0x2B :: digits => (parseDigits digits).bind fun n => inI64 n
  | 0x2D :: digits => (parseDigits digits).bind fun n => inI64 (-n)
  | digits => (parseDigits digits).bind fun n => inI64 n

/-- `str::parse::<u32>`: an optional `+` and digits, within range. -/
def parseU32 : List UInt8 → Option Nat
  | 0x2B :: digits => (parseDigits digits).filter (· < 2 ^ 32)
  | digits => (parseDigits digits).filter (· < 2 ^ 32)

/-- An `i64` with the format `{:0width}`: zeros between the sign and the digits. -/
def zeroPadded (width : Nat) (n : Int) : String :=
  let sign := if n < 0 then "-" else ""
  let digits := toString n.natAbs
  sign ++ String.ofList (List.replicate (width - sign.length - digits.length) '0') ++ digits

example : zeroPadded 4 (-7) = "-007" := by decide

/-! ## 64-bit arithmetic -/

/-- The nearest number in the range of `i64`. -/
def saturate (n : Int) : Int := max (-(2 ^ 63)) (min n (2 ^ 63 - 1))

/-- `i64::saturating_add`. -/
def saturatingAdd (a b : Int64) : Int := saturate (a.toInt + b.toInt)

/-- `i64::saturating_sub`. -/
def saturatingSub (a b : Int64) : Int := saturate (a.toInt - b.toInt)

end DcMatcher
