import DcMatcher.Json

/-!
# Text for the host and the user

`purpose.rs`, how a verifier's purpose is shown, and the host strings of
`android-credman/src/text.rs`, which hold no NUL.
-/

namespace DcMatcher

/-! ## Purposes -/

namespace Purpose

/-- `display`: one purpose as a string. -/
def display (sj : SerdeJson) : Value → String
  | .string s => s
  | other => sj.write other

/-- A purpose that can be shown on the consent screen: a string with visible text. -/
def visible (purpose : Value) : Option String :=
  (purpose.asStr.map trim).filter fun p => !p.isEmpty

/-- `line`: every purpose behind one combination, as a single line. -/
def line (purposes : List Value) : Option String :=
  let joined := " · ".intercalate (purposes.filterMap visible)
  if joined.isEmpty then none else some joined

end Purpose

/-! ## Host strings -/

/-- The character a host string cannot contain. -/
def NUL : Char := Char.ofNat 0

/-- `C8Str` of the crate `c8str`: UTF-8 text that ends at a NUL, so without a NUL of its own.
`push_str` refuses a text with one (`text.rs`). -/
structure C8Str where
  text : String
  noNul : NUL ∉ text.toList
deriving DecidableEq

/-- What `push_str_lossy` appends for a character. -/
def lossyChar (ch : Char) : Char := if ch = NUL then Char.ofNat 0x20 else ch

theorem lossyChar_ne_nul (ch : Char) : lossyChar ch ≠ NUL := by
  unfold lossyChar
  split
  · decide
  · assumption

/-- `C8String::from_str_lossy`: each NUL is replaced by a space. -/
def C8Str.ofLossy (text : String) : C8Str where
  text := String.ofList (text.toList.map lossyChar)
  noNul := by
    rw [String.toList_ofList]
    intro h
    obtain ⟨ch, _, hch⟩ := List.mem_map.mp h
    exact lossyChar_ne_nul ch hch

/-- A text without a NUL is kept. -/
theorem C8Str.text_ofLossy {text : String} (h : NUL ∉ text.toList) :
    (C8Str.ofLossy text).text = text := by
  have hkeep : text.toList.map lossyChar = text.toList := by
    refine (List.map_congr_left fun ch hch => ?_).trans (List.map_id _)
    exact if_neg fun (hnul : ch = NUL) => h (hnul ▸ hch)
  show String.ofList (text.toList.map lossyChar) = text
  rw [hkeep, String.ofList_toList]

end DcMatcher
