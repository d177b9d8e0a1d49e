import DcMatcher.Panics.Tokens
import Mathlib.Data.List.TakeWhile

/-!
# From Rust source to tokens

The lexer of `rust_tokens.py`. It drops white space and comments, and reads everything else as
tokens. What Python's `str` says of a character is a parameter, with what its documentation
promises.

Results:
1. `reads_spec`: one step reads a token, white space or a comment, or what it starts never ends.
2. `tokens_spec`: the source is its tokens and what was dropped, in order; or it has a part that
   never ends.
-/

namespace DcMatcher.Panics

/-- White space of ASCII, as `str.isspace` has it. -/
def asciiSpace (c : Char) : Bool :=
  c == ' ' || (9 ≤ c.toNat && c.toNat ≤ 13) || (28 ≤ c.toNat && c.toNat ≤ 31)

/-- What `str` says of a single character. -/
structure StrTests where
  isSpace : Char → Bool
  isAlpha : Char → Bool
  isDigit : Char → Bool
  isAlnum : Char → Bool
  alnum_of_alpha : ∀ c, isAlpha c = true → isAlnum c = true
  alnum_of_digit : ∀ c, isDigit c = true → isAlnum c = true
  not_alnum_of_space : ∀ c, isSpace c = true → isAlnum c = false
  ascii : ∀ c, c.toNat < 128 → isSpace c = asciiSpace c ∧ isAlpha c = c.isAlpha ∧
    isDigit c = c.isDigit ∧ isAlnum c = c.isAlphanum

theorem toNat_le_of_asciiSpace {c : Char} (h : asciiSpace c = true) : c.toNat ≤ 32 := by
  simp only [asciiSpace, Bool.or_eq_true, Bool.and_eq_true, beq_iff_eq, decide_eq_true_eq] at h
  rcases h with (rfl | h) | h
  · exact Nat.le_refl 32
  · exact h.2.trans (by decide)
  · exact h.2.trans (by decide)

theorem le_toNat_of_isAlphanum {c : Char} (h : c.isAlphanum = true) : 48 ≤ c.toNat := by
  delta Char.isAlphanum Char.isAlpha Char.isUpper Char.isLower Char.isDigit at h
  simp only [Bool.or_eq_true, Bool.and_eq_true, decide_eq_true_eq, ge_iff_le,
    UInt32.le_iff_toNat_le] at h
  rcases h with (h | h) | h
  · exact (show 48 ≤ 'A'.toNat by decide).trans h.1
  · exact (show 48 ≤ 'a'.toNat by decide).trans h.1
  · exact h.1

/-- The tests as ASCII has them. -/
def asciiTests : StrTests where
  isSpace := asciiSpace
  isAlpha := Char.isAlpha
  isDigit := Char.isDigit
  isAlnum := Char.isAlphanum
  alnum_of_alpha c h := by rw [Char.isAlphanum, h, Bool.true_or]
  alnum_of_digit c h := by rw [Char.isAlphanum, h, Bool.or_true]
  not_alnum_of_space c h := by
    refine Bool.eq_false_iff.mpr fun halnum => ?_
    exact absurd ((le_toNat_of_isAlphanum halnum).trans (toNat_le_of_asciiSpace h)) (by decide)
  ascii _ _ := ⟨rfl, rfl, rfl, rfl⟩

/-! ## The lexer -/

/-- What stands at the start of some source: something that is dropped, a token, or a raw
identifier, whose `r#` is no part of its token. -/
inductive Form
  | gap
  | token (kind : Kind)
  | rawIdent
deriving DecidableEq, Repr

/-- The token of a form, if it is one. -/
def Form.token? (form : Form) (text : List Char) (line : Nat) : Option Token :=
  match form with
  | .gap => none
  | .token kind => some ⟨kind, .ofList text, line⟩
  | .rawIdent => some ⟨.ident, .ofList (text.drop 2), line⟩

/-- `MULTI_CHARACTER_PUNCTUATION`. -/
def MULTI_CHARACTER_PUNCTUATION : List (List Char) :=
  [['.', '.', '='], ['.', '.', '.'], [':', ':'], ['.', '.'], ['!', '='], ['=', '>'], ['-', '>']]

/-- The index of the first place where `sub` stands, as `str.find` gives it. -/
def find (sub : List Char) : List Char → Option Nat
  | [] => if sub.isEmpty then some 0 else none
  | c :: cs => if sub.isPrefixOf (c :: cs) then some 0 else (find sub cs).map (· + 1)

/-! Each reader gives the number of characters it advances by. -/

/-- The loop of `block_comment`. -/
def blockComment : List Char → Int → Option Nat
  | '/' :: '*' :: cs, depth => (blockComment cs (depth + 1)).map (· + 2)
  | '*' :: '/' :: cs, depth =>
    if depth - 1 = 0 then some 2 else (blockComment cs (depth - 1)).map (· + 2)
  | _ :: cs, depth => (blockComment cs depth).map (· + 1)
  | [], _ => none

/-- `raw_string_ahead`. -/
def rawStringAhead (cs : List Char) : Bool :=
  let after := match cs with
    | 'b' :: 'r' :: _ | 'c' :: 'r' :: _ => cs.drop 1
    | _ => cs
  after.head? == some 'r' && ((after.drop 1).dropWhile (· == '#')).head? == some '"'

/-- `raw_string`. -/
def rawString (cs : List Char) : Option Nat :=
  let opening := (cs.takeWhile (· != 'r')).length + 1
  let hashes := ((cs.drop opening).takeWhile (· == '#')).length
  let start := opening + hashes + 1
  let closing := '"' :: List.replicate hashes '#'
  (find closing (cs.drop start)).map fun found => start + found + closing.length

/-- The loop of `quoted`. -/
def quotedRest (quote : Char) : List Char → Option Nat
  | [] => none
  | '\\' :: _ :: cs => (quotedRest quote cs).map (· + 2)
  | '\\' :: [] => none
  | c :: cs => if c = quote then some 1 else (quotedRest quote cs).map (· + 1)

/-- `quoted`. -/
def quoted (quote : Char) (cs : List Char) : Option Nat :=
  (quotedRest quote (cs.drop 1)).map (· + 1)

/-- `punctuation`. -/
def punctuation (cs : List Char) : Nat :=
  match MULTI_CHARACTER_PUNCTUATION.find? fun text => text.isPrefixOf cs with
  | some text => text.length
  | none => 1

/-- What is read, or the message that it never ends. -/
def orUnterminated (what : String) (form : Form) (read : Option Nat) : Except String (Form × Nat) :=
  match read with
  | some n => .ok (form, n)
  | none => .error ("unterminated " ++ what)

section Lexer

variable (t : StrTests)

/-- `_is_ident_start`. -/
def isIdentStart (c : Char) : Bool := c == '_' || t.isAlpha c

/-- `_is_ident_continue`. -/
def isIdentContinue (c : Char) : Bool := c == '_' || t.isAlnum c

/-- `identifier`. -/
def identifier (cs : List Char) : Nat := (cs.takeWhile (isIdentContinue t)).length

/-- `number`. -/
def number (cs : List Char) : Nat :=
  let whole := identifier t cs
  match cs.drop whole with
  | '.' :: c :: rest => if t.isDigit c then whole + 1 + identifier t (c :: rest) else whole
  | _ => whole

/-- `quote_or_lifetime`. -/
def quoteOrLifetime (cs : List Char) : Except String (Form × Nat) :=
  if cs[1]? == some '\\' || (cs[1]?.isSome && cs[2]? == some '\'') then
    orUnterminated "' literal" (.token .char) (quoted '\'' cs)
  else .ok (.token .lifetime, 1 + identifier t (cs.drop 1))

/-- The branches of `step`: what starts with a character, and how many characters it has. -/
def reads (c : Char) (cs : List Char) : Except String (Form × Nat) :=
  if t.isSpace c then .ok (.gap, 1)
  else if ['/', '/'].isPrefixOf (c :: cs) then
    .ok (.gap, ((c :: cs).takeWhile (· != '\n')).length)
  else if ['/', '*'].isPrefixOf (c :: cs) then
    orUnterminated "block comment" .gap (blockComment (c :: cs) 0)
  else if rawStringAhead (c :: cs) then
    orUnterminated "raw string" (.token .string) (rawString (c :: cs))
  else if ['r', '#'].isPrefixOf (c :: cs) && cs[1]?.any (isIdentStart t) then
    .ok (.rawIdent, 2 + identifier t (cs.drop 1))
  else if ['b', 'c'].contains c && cs.head? == some '"' then
    orUnterminated "\" literal" (.token .string) ((quoted '"' cs).map (· + 1))
  else if c == 'b' && cs.head? == some '\'' then
    orUnterminated "' literal" (.token .char) ((quoted '\'' cs).map (· + 1))
  else if c == '"' then orUnterminated "\" literal" (.token .string) (quoted '"' (c :: cs))
  else if c == '\'' then quoteOrLifetime t (c :: cs)
  else if t.isDigit c then .ok (.token .number, number t (c :: cs))
  else if isIdentStart t c then .ok (.token .ident, identifier t (c :: cs))
  else .ok (.token .punct, punctuation (c :: cs))

/-- `_Lexer`: what is left of the source, its line, and the tokens so far. -/
structure Lexer where
  rest : List Char
  line : Nat
  out : List Token

/-- `step`, on source that is left. -/
def Lexer.step (s : Lexer) (c : Char) (cs : List Char) : Except LexError Lexer :=
  match reads t c cs with
  | .error message => .error ⟨s.line, message⟩
  | .ok (form, n) =>
    let text := (c :: cs).take n
    .ok
      { rest := (c :: cs).drop n
        line := s.line + text.count '\n'
        out := s.out ++ (form.token? text s.line).toList }

/-- The loop of `run`. Every step advances, so as many steps as there are characters are
enough. -/
def Lexer.runWithin : Nat → Lexer → Except LexError (List Token)
  | 0, s => .ok s.out
  | fuel + 1, s =>
    match s.rest with
    | [] => .ok s.out
    | c :: cs => (s.step t c cs).bind (runWithin fuel)

/-- `tokens`. -/
def tokens (source : String) : Except LexError (List Token) :=
  Lexer.runWithin t source.toList.length ⟨source.toList, 1, []⟩

end Lexer

/-! ## What a token is -/

/-- The rest of a literal after its opening quote. -/
inductive Quoted (quote : Char) : List Char → Prop
  | close : Quoted quote [quote]
  | escape (c : Char) {cs : List Char} : Quoted quote cs → Quoted quote ('\\' :: c :: cs)
  | plain {c : Char} {cs : List Char} : c ≠ '\\' → c ≠ quote → Quoted quote cs →
      Quoted quote (c :: cs)

/-- What closes some comments, and those that it opens. -/
inductive CommentRest : Nat → List Char → Prop
  | last : CommentRest 1 ['*', '/']
  | opens {depth : Nat} {cs : List Char} : CommentRest (depth + 1) cs →
      CommentRest depth ('/' :: '*' :: cs)
  | closes {depth : Nat} {cs : List Char} : CommentRest (depth + 1) cs →
      CommentRest (depth + 2) ('*' :: '/' :: cs)
  | other {depth : Nat} {c : Char} {cs : List Char} : ¬ ['/', '*'] <+: c :: cs →
      ¬ ['*', '/'] <+: c :: cs → CommentRest depth cs → CommentRest depth (c :: cs)

/-- The end of a raw string. -/
def closing (hashes : Nat) : List Char := '"' :: List.replicate hashes '#'

/-- A raw string, up to its end or to the end of the source. -/
def rawText (hashes : Nat) (body : List Char) : List Char :=
  'r' :: (List.replicate hashes '#' ++ '"' :: body)

/-- A body that ends where its end stands for the first time. -/
def EndsFirst (hashes : Nat) (body : List Char) : Prop :=
  ∃ inner, body = inner ++ closing hashes ∧
    ∀ before after, body = before ++ closing hashes ++ after → after = []

section WellFormed

variable (t : StrTests)

/-- A text of a form. -/
inductive WellFormed : Form → List Char → Prop
  | space {c : Char} : t.isSpace c = true → WellFormed .gap [c]
  | lineComment {body : List Char} : '\n' ∉ body → WellFormed .gap ('/' :: '/' :: body)
  | blockComment {body : List Char} : CommentRest 1 body → WellFormed .gap ('/' :: '*' :: body)
  | rawString {before body : List Char} {hashes : Nat} : before ∈ [[], ['b'], ['c']] →
      EndsFirst hashes body → WellFormed (.token .string) (before ++ rawText hashes body)
  | string {before body : List Char} : before ∈ [[], ['b'], ['c']] → Quoted '"' body →
      WellFormed (.token .string) (before ++ '"' :: body)
  | char {body : List Char} : Quoted '\'' body → (body.head? = some '\\' ∨ body.length ≤ 2) →
      WellFormed (.token .char) ('\'' :: body)
  | byteChar {body : List Char} : Quoted '\'' body → WellFormed (.token .char) ('b' :: '\'' :: body)
  | lifetime {name : List Char} : (∀ c ∈ name, isIdentContinue t c = true) →
      WellFormed (.token .lifetime) ('\'' :: name)
  | number {d : Char} {ds : List Char} : t.isDigit d = true →
      (∀ c ∈ ds, isIdentContinue t c = true) → WellFormed (.token .number) (d :: ds)
  | decimal {d e : Char} {ds es : List Char} : t.isDigit d = true →
      (∀ c ∈ ds, isIdentContinue t c = true) → t.isDigit e = true →
      (∀ c ∈ es, isIdentContinue t c = true) →
      WellFormed (.token .number) (d :: (ds ++ '.' :: e :: es))
  | ident {c : Char} {cs : List Char} : t.isDigit c = false → isIdentStart t c = true →
      (∀ c ∈ cs, isIdentContinue t c = true) → WellFormed (.token .ident) (c :: cs)
  | rawIdent {c : Char} {cs : List Char} : isIdentStart t c = true →
      (∀ c ∈ cs, isIdentContinue t c = true) → WellFormed .rawIdent ('r' :: '#' :: c :: cs)
  | multi {text : List Char} : text ∈ MULTI_CHARACTER_PUNCTUATION →
      WellFormed (.token .punct) text
  | punct {c : Char} : t.isSpace c = false → t.isDigit c = false → isIdentStart t c = false →
      c ≠ '"' → c ≠ '\'' → WellFormed (.token .punct) [c]

end WellFormed

/-- Source that starts with a comment or a literal that does not end. -/
inductive Unterminated : List Char → Prop
  | comment {cs : List Char} : (∀ body, body <+: cs → ¬ CommentRest 1 body) →
      Unterminated ('/' :: '*' :: cs)
  | rawString {before cs : List Char} {hashes : Nat} : before ∈ [[], ['b'], ['c']] →
      ¬ closing hashes <:+: cs → Unterminated (before ++ rawText hashes cs)
  | string {before cs : List Char} : before ∈ [[], ['b'], ['c']] →
      (∀ body, body <+: cs → ¬ Quoted '"' body) → Unterminated (before ++ '"' :: cs)
  | char {before cs : List Char} : before ∈ [[], ['b']] →
      (∀ body, body <+: cs → ¬ Quoted '\'' body) → Unterminated (before ++ '\'' :: cs)

/-! ## 1. One step -/

section Readers

/-- A literal is read to its end. -/
theorem quotedRest_append {quote : Char} {body : List Char} (h : Quoted quote body)
    (hquote : quote ≠ '\\') (after : List Char) :
    quotedRest quote (body ++ after) = some body.length := by
  induction h with
  | close =>
    rw [List.singleton_append, quotedRest]
    · exact if_pos rfl
    · exact fun _ _ heq => absurd heq hquote
    · exact fun heq => absurd heq hquote
  | escape c _ ih =>
    rw [List.cons_append, List.cons_append, quotedRest, ih]
    rfl
  | plain hescape hother _ ih =>
    rw [List.cons_append, quotedRest, if_neg hother, ih]
    · rfl
    · exact fun _ _ heq => absurd heq hescape
    · exact fun heq => absurd heq hescape

theorem quotedRest_eq_some {quote : Char} {cs : List Char} {n : Nat}
    (h : quotedRest quote cs = some n) :
    n ≤ cs.length ∧ Quoted quote (cs.take n) := by
  induction cs using quotedRest.induct quote generalizing n with
  | case1 => cases h
  | case2 c cs ih =>
    rw [quotedRest, Option.map_eq_some_iff] at h
    obtain ⟨m, hm, rfl⟩ := h
    obtain ⟨hle, hquoted⟩ := ih hm
    exact ⟨Nat.add_le_add_right hle 2, .escape c hquoted⟩
  | case3 => cases h
  | case4 cs hescape hlone =>
    rw [quotedRest, if_pos rfl] at h
    · cases h
      exact ⟨Nat.le_add_left 1 _, .close⟩
    · exact hescape
    · exact hlone
  | case5 c cs hescape hlone hother ih =>
    rw [quotedRest, if_neg hother, Option.map_eq_some_iff] at h
    · obtain ⟨m, hm, rfl⟩ := h
      obtain ⟨hle, hquoted⟩ := ih hm
      refine ⟨Nat.add_le_add_right hle 1, .plain ?_ hother hquoted⟩
      rintro rfl
      cases cs with
      | nil => exact hlone rfl rfl
      | cons c cs => exact hescape c cs rfl rfl
    · exact hescape
    · exact hlone

theorem CommentRest.exists_cons {depth : Nat} {body : List Char} (h : CommentRest depth body) :
    ∃ c cs, body = c :: cs := by
  cases h <;> exact ⟨_, _, rfl⟩

/-- A character that starts neither the start of a comment nor the end of one is passed. -/
theorem blockComment_other {c : Char} {cs : List Char} (hopens : ¬ ['/', '*'] <+: c :: cs)
    (hcloses : ¬ ['*', '/'] <+: c :: cs) (depth : Int) :
    blockComment (c :: cs) depth = (blockComment cs depth).map (· + 1) := by
  rw [blockComment]
  · rintro rest rfl rfl
    exact hopens ⟨rest, rfl⟩
  · rintro rest rfl rfl
    exact hcloses ⟨rest, rfl⟩

/-- A comment is read to its end. -/
theorem blockComment_append {depth : Nat} {body : List Char} (h : CommentRest depth body)
    (after : List Char) : blockComment (body ++ after) depth = some body.length := by
  induction h with
  | last => rfl
  | @opens depth cs _ ih =>
    have hdepth : (depth : Int) + 1 = ((depth + 1 : Nat) : Int) := rfl
    rw [List.cons_append, List.cons_append, blockComment, hdepth, ih]
    rfl
  | @closes depth cs _ ih =>
    have hdepth : ((depth + 2 : Nat) : Int) - 1 = ((depth + 1 : Nat) : Int) := by omega
    rw [List.cons_append, List.cons_append, blockComment, hdepth, if_neg (by omega), ih]
    rfl
  | @other depth c cs hopens hcloses hrest ih =>
    obtain ⟨d, ds, rfl⟩ := hrest.exists_cons
    rw [List.cons_append, blockComment_other, ih]
    · rfl
    · simpa [List.cons_prefix_cons] using hopens
    · simpa [List.cons_prefix_cons] using hcloses

theorem blockComment_eq_some {cs : List Char} {depth : Int} {n : Nat} (hdepth : 0 < depth)
    (h : blockComment cs depth = some n) : n ≤ cs.length ∧ CommentRest depth.toNat (cs.take n) := by
  induction cs, depth using blockComment.induct generalizing n with
  | case1 cs depth ih =>
    rw [blockComment, Option.map_eq_some_iff] at h
    obtain ⟨m, hm, rfl⟩ := h
    obtain ⟨hle, hnested⟩ := ih (by omega) hm
    have hnext : (depth + 1).toNat = depth.toNat + 1 := by omega
    rw [hnext] at hnested
    exact ⟨Nat.add_le_add_right hle 2, .opens hnested⟩
  | case2 cs depth hlast =>
    rw [blockComment, if_pos hlast] at h
    cases h
    have hone : depth.toNat = 1 := by omega
    rw [hone]
    exact ⟨Nat.le_add_left 2 _, .last⟩
  | case3 cs depth hmore ih =>
    rw [blockComment, if_neg hmore, Option.map_eq_some_iff] at h
    obtain ⟨m, hm, rfl⟩ := h
    obtain ⟨hle, hnested⟩ := ih (by omega) hm
    obtain ⟨d, hd⟩ : ∃ d, depth.toNat = d + 2 := ⟨depth.toNat - 2, by omega⟩
    have hnext : (depth - 1).toNat = d + 1 := by omega
    rw [hnext] at hnested
    rw [hd]
    exact ⟨Nat.add_le_add_right hle 2, .closes hnested⟩
  | case4 c cs depth hopens hcloses ih =>
    rw [blockComment, Option.map_eq_some_iff] at h
    · obtain ⟨m, hm, rfl⟩ := h
      obtain ⟨hle, hnested⟩ := ih hdepth hm
      have hstarts : ∀ {a b : Char}, [a, b] <+: c :: cs.take m →
          c = a ∧ ∃ rest, cs = b :: rest := by
        intro a b hab
        have hall : c :: cs.take m <+: c :: cs :=
          List.cons_prefix_cons.mpr ⟨rfl, List.take_prefix m cs⟩
        obtain ⟨rest, hrest⟩ := hab.trans hall
        cases hrest
        exact ⟨rfl, rest, rfl⟩
      refine ⟨Nat.add_le_add_right hle 1, .other (fun hab => ?_) (fun hab => ?_) hnested⟩
      · obtain ⟨hc, rest, hcs⟩ := hstarts hab
        exact hopens rest hc hcs
      · obtain ⟨hc, rest, hcs⟩ := hstarts hab
        exact hcloses rest hc hcs
    · exact hopens
    · exact hcloses
  | case5 => cases h

/-- What is found is the first place. -/
theorem find_eq_some {sub cs : List Char} {n : Nat} (h : find sub cs = some n) :
    ∃ before after, cs = before ++ sub ++ after ∧ before.length = n ∧
      ∀ b a, cs = b ++ sub ++ a → n ≤ b.length := by
  induction cs generalizing n with
  | nil =>
    rw [find] at h
    split at h
    · next hempty =>
      cases h
      exact ⟨[], [], by simp [List.isEmpty_iff.mp hempty], rfl, fun _ _ _ => Nat.zero_le _⟩
    · cases h
  | cons c cs ih =>
    rw [find] at h
    split at h
    · next hstarts =>
      cases h
      obtain ⟨after, hafter⟩ := List.isPrefixOf_iff_prefix.mp hstarts
      exact ⟨[], after, hafter.symm, rfl, fun _ _ _ => Nat.zero_le _⟩
    · next hstarts =>
      obtain ⟨m, hm, rfl⟩ := Option.map_eq_some_iff.mp h
      obtain ⟨before, after, rfl, rfl, hfirst⟩ := ih hm
      refine ⟨c :: before, after, rfl, rfl, fun b a hba => ?_⟩
      cases b with
      | nil => exact absurd (List.isPrefixOf_iff_prefix.mpr ⟨a, hba.symm⟩) hstarts
      | cons d b =>
        have htail := (List.cons.inj hba).2
        exact Nat.add_le_add_right (hfirst b a htail) 1

theorem find_eq_none {sub cs : List Char} (h : find sub cs = none) : ¬ sub <:+: cs := by
  induction cs with
  | nil =>
    rw [find] at h
    split at h
    · cases h
    · next hempty =>
      intro hsub
      rw [List.eq_nil_of_infix_nil hsub] at hempty
      exact hempty rfl
  | cons c cs ih =>
    rw [find] at h
    split at h
    · cases h
    · next hstarts =>
      rw [List.infix_cons_iff]
      rintro (hsub | hsub)
      · exact hstarts (List.isPrefixOf_iff_prefix.mpr hsub)
      · exact ih (Option.map_eq_none_iff.mp h) hsub

/-- The first place is found. -/
theorem find_of_first {sub before after : List Char}
    (hfirst : ∀ b a, before ++ sub ++ after = b ++ sub ++ a → before.length ≤ b.length) :
    find sub (before ++ sub ++ after) = some before.length := by
  cases h : find sub (before ++ sub ++ after) with
  | none => exact absurd ⟨before, after, rfl⟩ (find_eq_none h)
  | some n =>
    obtain ⟨before', after', hsplit, rfl, hleast⟩ := find_eq_some h
    exact congrArg some (Nat.le_antisymm (hleast _ _ rfl) (hfirst _ _ hsplit))

theorem takeWhile_hashes (hashes : Nat) (body : List Char) :
    (List.replicate hashes '#' ++ '"' :: body).takeWhile (· == '#') =
      List.replicate hashes '#' := by
  rw [List.takeWhile_append_of_pos (by simp)]
  simp

theorem rawStringAhead_rawText {before : List Char} (hbefore : before ∈ [[], ['b'], ['c']])
    (hashes : Nat) (body : List Char) :
    rawStringAhead (before ++ rawText hashes body) = true := by
  simp only [List.mem_cons, List.not_mem_nil, or_false] at hbefore
  rcases hbefore with rfl | rfl | rfl
  · simp [rawStringAhead, rawText]
  · simp [rawStringAhead, rawText]
  · simp [rawStringAhead, rawText]

theorem exists_rawText {cs : List Char} (h : rawStringAhead cs = true) :
    ∃ before hashes body, before ∈ [[], ['b'], ['c']] ∧ cs = before ++ rawText hashes body := by
  have hshape : ∀ {after : List Char}, (after.head? == some 'r' &&
      ((after.drop 1).dropWhile (· == '#')).head? == some '"') = true →
        ∃ hashes body, after = rawText hashes body := by
    intro after hafter
    rw [Bool.and_eq_true, beq_iff_eq, beq_iff_eq] at hafter
    obtain ⟨hr, hquote⟩ := hafter
    obtain ⟨rest, rfl⟩ := List.head?_eq_some_iff.mp hr
    obtain ⟨body, hbody⟩ := List.head?_eq_some_iff.mp hquote
    have hsplit := List.takeWhile_append_dropWhile (p := (· == '#')) (l := rest)
    have hhashes : rest.takeWhile (· == '#') =
        List.replicate (rest.takeWhile (· == '#')).length '#' :=
      List.eq_replicate_of_mem fun c hc => by simpa using List.mem_takeWhile_imp hc
    refine ⟨(rest.takeWhile (· == '#')).length, body, ?_⟩
    rw [rawText, ← hhashes, ← hbody]
    exact congrArg _ hsplit.symm
  unfold rawStringAhead at h
  simp only at h
  split at h
  · obtain ⟨hashes, body, hbody⟩ := hshape h
    exact ⟨['b'], hashes, body, by simp, congrArg ('b' :: ·) hbody⟩
  · obtain ⟨hashes, body, hbody⟩ := hshape h
    exact ⟨['c'], hashes, body, by simp, congrArg ('c' :: ·) hbody⟩
  · obtain ⟨hashes, body, hbody⟩ := hshape h
    exact ⟨[], hashes, body, by simp, hbody⟩

theorem rawString_rawText {before : List Char} (hbefore : before ∈ [[], ['b'], ['c']])
    (hashes : Nat) (body : List Char) :
    rawString (before ++ rawText hashes body) =
      (find (closing hashes) body).map fun found =>
        before.length + (hashes + 2) + found + (hashes + 1) := by
  have hopening : (before ++ rawText hashes body).takeWhile (· != 'r') = before := by
    simp only [List.mem_cons, List.not_mem_nil, or_false] at hbefore
    rcases hbefore with rfl | rfl | rfl <;> rfl
  have hafter : (before ++ rawText hashes body).drop (before.length + 1) =
      List.replicate hashes '#' ++ '"' :: body := by
    rw [rawText, List.append_cons, List.drop_left' (by simp)]
  have hbody : (before ++ rawText hashes body).drop (before.length + 1 + hashes + 1) = body := by
    have hstart : before.length + 1 + hashes + 1 = before.length + 1 + (hashes + 1) := by omega
    rw [hstart, ← List.drop_drop, hafter, List.append_cons, List.drop_left' (by simp)]
  unfold rawString
  simp only [hopening, hafter, takeWhile_hashes, List.length_replicate, hbody]
  refine congrArg₂ _ (funext fun found => ?_) rfl
  simp only [List.length_cons, List.length_replicate]
  omega

end Readers

section Step

variable {t : StrTests}

theorem WellFormed.ne_nil {form : Form} {text : List Char} (h : WellFormed t form text) :
    text ≠ [] := by
  cases h with
  | rawString _ _ => exact List.append_ne_nil_of_right_ne_nil _ (List.cons_ne_nil _ _)
  | string _ _ => exact List.append_ne_nil_of_right_ne_nil _ (List.cons_ne_nil _ _)
  | multi hmem =>
    rintro rfl
    exact absurd hmem (by decide)
  | _ => exact List.cons_ne_nil _ _

/-- What a step may find at the start of some source. -/
inductive Reads (t : StrTests) : List Char → Except String (Form × Nat) → Prop
  | piece {form : Form} {text : List Char} (after : List Char) : WellFormed t form text →
      Reads t (text ++ after) (.ok (form, text.length))
  | unterminated {cs : List Char} (message : String) : Unterminated cs →
      Reads t cs (.error message)

theorem Reads.ofTake {form : Form} {cs : List Char} {n : Nat} (hle : n ≤ cs.length)
    (h : WellFormed t form (cs.take n)) : Reads t cs (.ok (form, n)) := by
  have hpiece := Reads.piece (cs.drop n) h
  rwa [List.take_append_drop, List.length_take, Nat.min_eq_left hle] at hpiece

theorem Reads.of_eq {form : Form} {text cs : List Char} {n : Nat} (after : List Char)
    (hcs : text ++ after = cs) (hn : text.length = n) (h : WellFormed t form text) :
    Reads t cs (.ok (form, n)) := by
  subst hcs hn
  exact .piece after h

theorem reads_orUnterminated {what : String} {form : Form} {cs : List Char} {read : Option Nat}
    (hsome : ∀ n, read = some n → Reads t cs (.ok (form, n)))
    (hnone : read = none → Unterminated cs) : Reads t cs (orUnterminated what form read) := by
  cases read with
  | none => exact .unterminated _ (hnone rfl)
  | some n => exact hsome n rfl

/-- A literal with its quotes, after what stands before them. -/
theorem reads_quoted {what : String} {kind : Kind} {quote : Char} {before cs : List Char}
    (hquote : quote ≠ '\\')
    (hform : ∀ body, body <+: cs → Quoted quote body →
      WellFormed t (.token kind) (before ++ quote :: body))
    (hnone : (∀ body, body <+: cs → ¬ Quoted quote body) → Unterminated (before ++ quote :: cs)) :
    Reads t (before ++ quote :: cs) (orUnterminated what (.token kind)
      ((quoted quote (quote :: cs)).map (· + before.length))) := by
  refine reads_orUnterminated (fun n hn => ?_) fun hread => hnone fun body hbody hquoted => ?_
  · obtain ⟨m, hm, rfl⟩ := Option.map_eq_some_iff.mp hn
    obtain ⟨k, hk, rfl⟩ := Option.map_eq_some_iff.mp hm
    obtain ⟨hle, hquoted⟩ := quotedRest_eq_some hk
    have hlength : (cs.take k).length = k := List.length_take_of_le hle
    refine .of_eq (cs.drop k) ?_ ?_ (hform _ (List.take_prefix k cs) hquoted)
    · rw [List.append_assoc, List.cons_append, List.take_append_drop]
    · simp only [List.length_append, List.length_cons, hlength]
      omega
  · obtain ⟨after, rfl⟩ := hbody
    have hsome : quotedRest quote ((quote :: (body ++ after)).drop 1) = some body.length :=
      quotedRest_append hquoted hquote after
    rw [quoted, hsome] at hread
    cases hread

/-- After a quote, a character and a quote, or a backslash, stands a character literal. -/
theorem reads_char {what : String} {cs : List Char}
    (h : cs[0]? = some '\\' ∨ cs[1]? = some '\'') :
    Reads t ('\'' :: cs)
      (orUnterminated what (.token .char) (quoted '\'' ('\'' :: cs))) := by
  have hquoted := @reads_quoted t what .char '\'' [] cs (by decide) (fun body hbody hquoted => ?_)
    fun hnone => .char (by decide) hnone
  · simpa using hquoted
  refine .char hquoted ?_
  obtain ⟨after, rfl⟩ := hbody
  cases hquoted with
  | close => exact Or.inr (Nat.le_succ 1)
  | escape => exact Or.inl rfl
  | plain hescape _ hrest =>
    rcases h with h | h
    · exact absurd (Option.some.inj h) hescape
    · cases hrest with
      | close => exact Or.inr (Nat.le_refl 2)
      | escape => cases h
      | plain _ hother _ => exact absurd (Option.some.inj h) hother

theorem reads_rawString {what : String} {cs : List Char} (h : rawStringAhead cs = true) :
    Reads t cs (orUnterminated what (.token .string) (rawString cs)) := by
  obtain ⟨before, hashes, body, hbefore, rfl⟩ := exists_rawText h
  rw [rawString_rawText hbefore]
  refine reads_orUnterminated (fun n hn => ?_) fun hread => ?_
  · obtain ⟨k, hk, rfl⟩ := Option.map_eq_some_iff.mp hn
    obtain ⟨inner, after, rfl, rfl, hfirst⟩ := find_eq_some hk
    have hends : EndsFirst hashes (inner ++ closing hashes) := by
      refine ⟨inner, rfl, fun b a hba => List.eq_nil_of_length_eq_zero ?_⟩
      have hle := hfirst b (a ++ after) (by rw [hba, List.append_assoc])
      have hlength := congrArg List.length hba
      simp only [List.length_append] at hlength
      omega
    refine .of_eq after ?_ ?_ (.rawString hbefore hends)
    · simp only [rawText, List.append_assoc, List.cons_append]
    · simp only [rawText, closing, List.length_append, List.length_cons, List.length_replicate]
      omega
  · exact .rawString hbefore (find_eq_none (Option.map_eq_none_iff.mp hread))

theorem identifier_le (cs : List Char) : identifier t cs ≤ cs.length :=
  (List.takeWhile_prefix _).length_le

theorem take_identifier (cs : List Char) :
    cs.take (identifier t cs) = cs.takeWhile (isIdentContinue t) :=
  List.prefix_iff_eq_take.mp (List.takeWhile_prefix _) |>.symm

theorem continue_of_identifier (cs : List Char) :
    ∀ c ∈ cs.take (identifier t cs), isIdentContinue t c = true := by
  rw [take_identifier]
  exact fun c hc => List.mem_takeWhile_imp hc

theorem continue_of_start {c : Char} (h : isIdentStart t c = true) :
    isIdentContinue t c = true := by
  unfold isIdentStart at h
  unfold isIdentContinue
  rw [Bool.or_eq_true] at h ⊢
  exact h.imp_right (t.alnum_of_alpha c)

theorem continue_of_digit {c : Char} (h : t.isDigit c = true) : isIdentContinue t c = true := by
  unfold isIdentContinue
  rw [t.alnum_of_digit c h, Bool.or_true]

/-- What goes on as an identifier is read with what starts it. -/
theorem identifier_cons {c : Char} (h : isIdentContinue t c = true) (cs : List Char) :
    identifier t (c :: cs) = identifier t cs + 1 := by
  unfold identifier
  rw [List.takeWhile_cons_of_pos h]
  rfl

theorem reads_number {c : Char} {cs : List Char} (h : t.isDigit c = true) :
    Reads t (c :: cs) (.ok (.token .number, number t (c :: cs))) := by
  have hdigits := @continue_of_identifier t cs
  have hlength : (cs.take (identifier t cs)).length = identifier t cs :=
    List.length_take_of_le (identifier_le cs)
  have hwhole : Reads t (c :: cs) (.ok (.token .number, identifier t cs + 1)) :=
    .of_eq (cs.drop (identifier t cs)) (congrArg _ (List.take_append_drop _ cs))
      (congrArg (· + 1) hlength) (.number h hdigits)
  unfold number
  rw [identifier_cons (continue_of_digit h)]
  simp only [List.drop_succ_cons]
  split
  · next e rest hrest =>
    split
    · next he =>
      have hsplit := List.take_append_drop (identifier t cs) cs
      rw [hrest] at hsplit
      refine .of_eq (rest.drop (identifier t rest)) ?_ ?_
        (.decimal h hdigits he (continue_of_identifier rest))
      · rw [List.cons_append, List.append_assoc, List.cons_append, List.cons_append,
          List.take_append_drop, hsplit]
      · have hes : (rest.take (identifier t rest)).length = identifier t rest :=
          List.length_take_of_le (identifier_le rest)
        rw [identifier_cons (continue_of_digit he)]
        simp only [List.length_cons, List.length_append, hlength, hes]
        omega
    · exact hwhole
  · exact hwhole

theorem reads_punctuation {c : Char} {cs : List Char} (hspace : t.isSpace c = false)
    (hdigit : t.isDigit c = false) (hstart : isIdentStart t c = false) (hdouble : c ≠ '"')
    (hsingle : c ≠ '\'') : Reads t (c :: cs) (.ok (.token .punct, punctuation (c :: cs))) := by
  unfold punctuation
  split
  · next text htext =>
    have hstarts : text.isPrefixOf (c :: cs) = true :=
      @List.find?_some _ (fun text : List Char => text.isPrefixOf (c :: cs)) _ _ htext
    obtain ⟨after, hafter⟩ := List.isPrefixOf_iff_prefix.mp hstarts
    rw [← hafter]
    exact .piece after (.multi (List.mem_of_find?_eq_some htext))
  · exact .ofTake (Nat.le_add_left 1 _) (.punct hspace hdigit hstart hdouble hsingle)

theorem reads_lineComment {cs : List Char} :
    Reads t ('/' :: '/' :: cs)
      (.ok (.gap, (('/' :: '/' :: cs).takeWhile (· != '\n')).length)) := by
  have htake : ('/' :: '/' :: cs).takeWhile (· != '\n') =
      '/' :: '/' :: cs.takeWhile (· != '\n') := rfl
  rw [htake]
  refine .of_eq (cs.dropWhile (· != '\n')) ?_ rfl (.lineComment fun hmem => ?_)
  · rw [List.cons_append, List.cons_append, List.takeWhile_append_dropWhile]
  · have hnot := List.mem_takeWhile_imp hmem
    simp at hnot

theorem reads_blockComment {what : String} {cs : List Char} :
    Reads t ('/' :: '*' :: cs)
      (orUnterminated what .gap (blockComment ('/' :: '*' :: cs) 0)) := by
  have hopens : blockComment ('/' :: '*' :: cs) 0 = (blockComment cs 1).map (· + 2) := rfl
  rw [hopens]
  refine reads_orUnterminated (fun n hn => ?_) fun hread => ?_
  · obtain ⟨m, hm, rfl⟩ := Option.map_eq_some_iff.mp hn
    obtain ⟨hle, hnested⟩ := blockComment_eq_some Int.one_pos hm
    refine .of_eq (cs.drop m) ?_ ?_ (.blockComment hnested)
    · rw [List.cons_append, List.cons_append, List.take_append_drop]
    · rw [List.length_cons, List.length_cons, List.length_take_of_le hle]
  · refine .comment ?_
    rintro body ⟨after, rfl⟩ hnested
    have hsome : blockComment (body ++ after) ((1 : Nat) : Int) = some body.length :=
      blockComment_append hnested after
    rw [Option.map_eq_none_iff] at hread
    cases hread.symm.trans hsome

theorem reads_identifier {c : Char} {cs : List Char} (hdigit : t.isDigit c = false)
    (h : isIdentStart t c = true) :
    Reads t (c :: cs) (.ok (.token .ident, identifier t (c :: cs))) := by
  rw [identifier_cons (continue_of_start h)]
  refine .of_eq (cs.drop (identifier t cs)) (congrArg _ (List.take_append_drop _ cs)) ?_
    (.ident hdigit h (continue_of_identifier cs))
  rw [List.length_cons, List.length_take_of_le (identifier_le cs)]

theorem reads_rawIdent {c : Char} {cs : List Char} (h : isIdentStart t c = true) :
    Reads t ('r' :: '#' :: c :: cs) (.ok (.rawIdent, 2 + identifier t (c :: cs))) := by
  rw [identifier_cons (continue_of_start h)]
  refine .of_eq (cs.drop (identifier t cs)) ?_ ?_ (.rawIdent h (continue_of_identifier cs))
  · simp only [List.cons_append, List.take_append_drop]
  · simp only [List.length_cons, List.length_take_of_le (identifier_le cs)]
    omega

theorem reads_lifetime (cs : List Char) :
    Reads t ('\'' :: cs) (.ok (.token .lifetime, 1 + identifier t cs)) := by
  refine .of_eq (cs.drop (identifier t cs)) (congrArg _ (List.take_append_drop _ cs)) ?_
    (.lifetime (continue_of_identifier cs))
  rw [List.length_cons, List.length_take_of_le (identifier_le cs), Nat.add_comm]

/-- One step reads a token, white space or a comment, or what it starts never ends. -/
theorem reads_spec (c : Char) (cs : List Char) : Reads t (c :: cs) (reads t c cs) := by
  have hstring : ∀ before ∈ [[], ['b'], ['c']], ∀ rest : List Char,
      Reads t (before ++ '"' :: rest) (orUnterminated "\" literal" (.token .string)
        ((quoted '"' ('"' :: rest)).map (· + before.length))) := fun before hbefore rest =>
    reads_quoted (by decide) (fun _ _ => .string hbefore) fun hnone => .string hbefore hnone
  unfold reads
  split
  · next hspace => exact .ofTake (Nat.le_add_left 1 _) (.space hspace)
  next hspace =>
  split
  · next hstarts =>
    obtain ⟨rest, hrest⟩ := List.isPrefixOf_iff_prefix.mp hstarts
    rw [← hrest]
    exact reads_lineComment
  split
  · next hstarts =>
    obtain ⟨rest, hrest⟩ := List.isPrefixOf_iff_prefix.mp hstarts
    rw [← hrest]
    exact reads_blockComment
  split
  · next hraw => exact reads_rawString hraw
  split
  · next hraw =>
    rw [Bool.and_eq_true] at hraw
    obtain ⟨hstarts, hstart⟩ := hraw
    obtain ⟨rest, hrest⟩ := List.isPrefixOf_iff_prefix.mp hstarts
    cases hrest
    cases rest with
    | nil => cases hstart
    | cons d rest => exact reads_rawIdent hstart
  split
  · next hquoted =>
    rw [Bool.and_eq_true, List.contains_iff_mem, beq_iff_eq] at hquoted
    obtain ⟨hbefore, hhead⟩ := hquoted
    obtain ⟨rest, rfl⟩ := List.head?_eq_some_iff.mp hhead
    refine hstring [c] ?_ rest
    simpa using hbefore
  split
  · next hquoted =>
    rw [Bool.and_eq_true, beq_iff_eq, beq_iff_eq] at hquoted
    obtain ⟨rfl, hhead⟩ := hquoted
    obtain ⟨rest, rfl⟩ := List.head?_eq_some_iff.mp hhead
    exact @reads_quoted t _ _ '\'' ['b'] rest (by decide) (fun _ _ => .byteChar)
      fun hnone => .char (by decide) hnone
  split
  · next hdouble =>
    rw [beq_iff_eq.mp hdouble]
    simpa using hstring [] (by decide) cs
  next hdouble =>
  split
  · next hsingle =>
    rw [beq_iff_eq.mp hsingle]
    unfold quoteOrLifetime
    split
    · next hchar =>
      refine reads_char ?_
      simp only [List.getElem?_cons_succ, Bool.or_eq_true, Bool.and_eq_true, beq_iff_eq] at hchar
      exact hchar.imp_right And.right
    · exact reads_lifetime cs
  next hsingle =>
  split
  · next hdigit => exact reads_number hdigit
  next hdigit =>
  split
  · next hstart => exact reads_identifier (by simpa using hdigit) hstart
  · next hstart =>
    exact reads_punctuation (by simpa using hspace) (by simpa using hdigit) (by simpa using hstart)
      (by simpa using hdouble) (by simpa using hsingle)

end Step

/-! ## 2. The whole source -/

/-- The text of some pieces. -/
def sourceOf (pieces : List (Form × List Char)) : List Char := pieces.flatMap Prod.snd

/-- The tokens of some pieces, of which the first one starts on a line. -/
def tokensOf (line : Nat) : List (Form × List Char) → List Token
  | [] => []
  | (form, text) :: pieces =>
    (form.token? text line).toList ++ tokensOf (line + text.count '\n') pieces

section Run

variable {t : StrTests}

/-- From any state, what is left is read piece by piece. -/
theorem runWithin_spec {fuel : Nat} {s : Lexer} (hfuel : s.rest.length ≤ fuel) :
    ∃ pieces, (∀ p ∈ pieces, WellFormed t p.1 p.2) ∧
      ((s.runWithin t fuel = .ok (s.out ++ tokensOf s.line pieces) ∧ s.rest = sourceOf pieces) ∨
        ∃ after message, s.rest = sourceOf pieces ++ after ∧ Unterminated after ∧
          s.runWithin t fuel = .error ⟨s.line + (sourceOf pieces).count '\n', message⟩) := by
  induction fuel generalizing s with
  | zero =>
    have hrest : s.rest = [] := List.eq_nil_of_length_eq_zero (Nat.le_zero.mp hfuel)
    exact ⟨[], by simp, Or.inl ⟨by simp [Lexer.runWithin, tokensOf], hrest⟩⟩
  | succ fuel ih =>
    obtain ⟨rest, line, out⟩ := s
    cases rest with
    | nil => exact ⟨[], by simp, Or.inl ⟨by simp [Lexer.runWithin, tokensOf], rfl⟩⟩
    | cons c cs =>
      have hspec := @reads_spec t c cs
      simp only [Lexer.runWithin, Lexer.step]
      generalize reads t c cs = found at hspec
      generalize hcs : c :: cs = all at hspec hfuel
      cases hspec with
      | unterminated message hunterminated =>
        exact ⟨[], by simp, Or.inr ⟨all, message, by simp [sourceOf], hunterminated, rfl⟩⟩
      | @piece form text after hform =>
        have hpos := List.length_pos_of_ne_nil hform.ne_nil
        have hafter : after.length ≤ fuel := by
          simp only [List.length_append] at hfuel
          omega
        have hsource (pieces) : text ++ sourceOf pieces = sourceOf ((form, text) :: pieces) := rfl
        obtain ⟨pieces, hpieces, hrun⟩ := @ih ⟨after, line + text.count '\n',
          out ++ (form.token? text line).toList⟩ hafter
        refine ⟨(form, text) :: pieces, List.forall_mem_cons.mpr ⟨hform, hpieces⟩, ?_⟩
        simp only [List.take_left, List.drop_left, Except.bind]
        rcases hrun with ⟨hrun, hrest⟩ | ⟨left, message, hrest, hunterminated, hrun⟩
        · refine Or.inl ⟨?_, ?_⟩
          · rw [hrun, tokensOf, List.append_assoc]
          · rw [← hsource, ← hrest]
        · refine Or.inr ⟨left, message, ?_, hunterminated, ?_⟩
          · rw [← hsource, List.append_assoc, ← hrest]
          · rw [hrun, ← hsource, List.count_append, Nat.add_assoc]

/-- The source is its tokens, each with its line, and the white space and comments between them,
in order; or a comment or a literal starts, on the line that is reported, that does not end. -/
theorem tokens_spec (t : StrTests) (source : String) :
    ∃ pieces, (∀ p ∈ pieces, WellFormed t p.1 p.2) ∧
      ((tokens t source = .ok (tokensOf 1 pieces) ∧ source.toList = sourceOf pieces) ∨
        ∃ after message, source.toList = sourceOf pieces ++ after ∧ Unterminated after ∧
          tokens t source = .error ⟨1 + (sourceOf pieces).count '\n', message⟩) := by
  have hrun := @runWithin_spec t source.toList.length ⟨source.toList, 1, []⟩ (Nat.le_refl _)
  exact hrun

end Run

end DcMatcher.Panics
