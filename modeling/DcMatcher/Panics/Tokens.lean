import DcMatcher.Lib.Brackets

/-!
# Tokens of Rust source

`rust_tokens.py`: what its readers see of a source file, and the scan for a closing bracket.
-/

namespace DcMatcher.Panics

inductive Kind
  | ident
  | lifetime
  | number
  | string
  | char
  | punct
deriving DecidableEq, Repr

structure Token where
  kind : Kind
  text : String
  line : Nat
deriving DecidableEq, Repr

namespace Token

def isPunct (t : Token) (text : String) : Bool := t.kind == .punct && t.text == text

def isIdent (t : Token) (text : String) : Bool := t.kind == .ident && t.text == text

/-- A punctuation token among `OPENERS`. -/
def opens (t : Token) : Bool := t.kind == .punct && ["(", "[", "\x7b"].contains t.text

/-- A punctuation token among `CLOSERS`. -/
def closes (t : Token) : Bool := t.kind == .punct && [")", "]", "\x7d"].contains t.text

end Token

/-- Source that ends inside a comment, a literal or a bracket opened on `line`. -/
structure LexError where
  line : Nat
  message : String
deriving DecidableEq, Repr

/-- `matching_closer`. -/
def matchingCloser (items : List Token) (opener : Nat) : Except LexError Nat :=
  match Brackets.closer Token.opens Token.closes (items.drop opener) 0 opener with
  | some closer => .ok closer
  | none =>
    match items[opener]? with
    | some t => .error ⟨t.line, "unclosed " ++ t.text⟩
    | none => .error ⟨0, "no such token"⟩

/-- The tokens of `items[start:stop]`. -/
def slice (items : List Token) (start stop : Nat) : List Token :=
  (items.drop start).take (stop - start)

/-- The text of a token, without the quotes around a literal: `strip('"')`. -/
def unquoted (text : String) : String :=
  .ofList ((text.toList.dropWhile (· == '"')).reverse.dropWhile (· == '"')).reverse

section Lemmas

theorem Token.isPunct_iff {t : Token} {text : String} :
    t.isPunct text = true ↔ t.kind = .punct ∧ t.text = text := by
  simp [Token.isPunct]

theorem Token.isIdent_iff {t : Token} {text : String} :
    t.isIdent text = true ↔ t.kind = .ident ∧ t.text = text := by
  simp [Token.isIdent]

/-- An identifier or a literal is no bracket. -/
theorem Token.plain {t : Token} (h : t.kind ≠ .punct) : t.opens = false ∧ t.closes = false := by
  simp [Token.opens, Token.closes, h]

/-- What is found is a closing bracket further on. -/
theorem matchingCloser_ok {items : List Token} {opener closer : Nat}
    (h : matchingCloser items opener = .ok closer) :
    opener ≤ closer ∧ ∃ t, items[closer]? = some t ∧ t.closes = true := by
  unfold matchingCloser at h
  split at h
  · next found hfound =>
    cases h
    obtain ⟨n, t, rfl, ht, hcloses, _⟩ := Brackets.closer_spec hfound
    rw [List.getElem?_drop] at ht
    exact ⟨Nat.le_add_right opener n, t, ht, hcloses⟩
  · split at h <;> cases h

/-- The brackets of a group match. -/
theorem matchingCloser_group {pre inner post : List Token} {o c : Token}
    (hinner : Brackets.Balanced Token.opens Token.closes inner) (ho : o.isPunct "(" = true)
    (hc : c.isPunct ")" = true) :
    matchingCloser (pre ++ o :: (inner ++ c :: post)) pre.length =
      .ok (pre.length + inner.length + 1) := by
  obtain ⟨hokind, hotext⟩ := Token.isPunct_iff.mp ho
  obtain ⟨hckind, hctext⟩ := Token.isPunct_iff.mp hc
  unfold matchingCloser
  rw [List.drop_left, Brackets.closer_group hinner (by simp [Token.opens, hokind, hotext])
    (by simp [Token.opens, hctext]) (by simp [Token.closes, hckind, hctext])]

/-- A literal without quotes inside is its text between quotes. -/
theorem unquoted_quoted {text : String} (h : '"' ∉ text.toList) :
    unquoted ("\"" ++ text ++ "\"") = text := by
  have hdrop : ∀ {chars : List Char}, '"' ∉ chars → chars.dropWhile (· == '"') = chars := by
    intro chars hchars
    cases chars with
    | nil => rfl
    | cons c chars =>
      have hc : c ≠ '"' := fun heq => hchars (heq ▸ List.mem_cons_self)
      rw [List.dropWhile_cons_of_neg (by simpa using hc)]
  have hlist : ("\"" ++ text ++ "\"").toList = '"' :: (text.toList ++ ['"']) := by
    simp [String.toList_append]
  unfold unquoted
  rw [hlist, List.dropWhile_cons_of_pos (by rfl)]
  cases hchars : text.toList with
  | nil => rw [← String.ofList_toList (s := text), hchars]; rfl
  | cons c chars =>
    rw [hchars] at h
    have hc : c ≠ '"' := fun heq => h (heq ▸ List.mem_cons_self)
    rw [List.cons_append, List.dropWhile_cons_of_neg (by simpa using hc), ← List.cons_append,
      List.reverse_append, List.reverse_singleton, List.singleton_append,
      List.dropWhile_cons_of_pos (by rfl), hdrop (List.mem_reverse.not.mpr h), List.reverse_reverse,
      ← hchars, String.ofList_toList]

end Lemmas

end DcMatcher.Panics
