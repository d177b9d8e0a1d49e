import DcMatcher.Panics.Lexer

/-!
# Source that is read back

A source is written from tokens, white space and comments, one after the other. The lexer reads
these and no others, as long as the character after each of them does not go on with it.

Results:
1. `reads_append`: a step reads the text that the source starts with.
2. `tokens_sourceOf`: the tokens of a source that is written so are the tokens it is written from.
-/

namespace DcMatcher.Panics

section Legible

variable (t : StrTests)

/-- A character that may stand right after a text of a form. -/
def Separates (form : Form) (text : List Char) (next : Char) : Prop :=
  match form with
  | .gap => ['/', '/'] <+: text → next = '\n'
  | .rawIdent => isIdentContinue t next = false
  | .token .ident => isIdentContinue t next = false ∧ next ∉ ['"', '\'', '#']
  | .token .lifetime => isIdentContinue t next = false ∧ next ≠ '\''
  | .token .number => isIdentContinue t next = false ∧ next ≠ '.'
  | .token .punct => text ++ [next] ∉ [['/', '/'], ['/', '*']] ∧
      ∀ multi ∈ MULTI_CHARACTER_PUNCTUATION, ¬ text ++ [next] <+: multi
  | .token .string | .token .char => True

instance (form : Form) (text : List Char) (next : Char) : Decidable (Separates t form text next) :=
  match form with
  | .gap => inferInstanceAs (Decidable (['/', '/'] <+: text → next = '\n'))
  | .rawIdent => inferInstanceAs (Decidable (isIdentContinue t next = false))
  | .token .ident =>
    inferInstanceAs (Decidable (isIdentContinue t next = false ∧ next ∉ ['"', '\'', '#']))
  | .token .lifetime =>
    inferInstanceAs (Decidable (isIdentContinue t next = false ∧ next ≠ '\''))
  | .token .number => inferInstanceAs (Decidable (isIdentContinue t next = false ∧ next ≠ '.'))
  | .token .punct =>
    inferInstanceAs (Decidable (text ++ [next] ∉ [['/', '/'], ['/', '*']] ∧
      ∀ multi ∈ MULTI_CHARACTER_PUNCTUATION, ¬ text ++ [next] <+: multi))
  | .token .string => .isTrue trivial
  | .token .char => .isTrue trivial

/-- Pieces that can be told apart. Two of the texts are left out: what a lone quote is, and whether
two of them are a character, is decided by two characters that follow. -/
inductive Legible : List (Form × List Char) → Prop
  | nil : Legible []
  | cons {form : Form} {text : List Char} {pieces : List (Form × List Char)} :
      WellFormed t form text → text ∉ [['\''], ['\'', '\'']] →
      (∀ next ∈ (sourceOf pieces).head?, Separates t form text next) → Legible pieces →
      Legible ((form, text) :: pieces)

end Legible

/-! ## 1. One step -/

section Boundary

variable {p : Char → Bool} {text after : List Char}

theorem takeWhile_of_boundary (htext : ∀ c ∈ text, p c = true)
    (hafter : ∀ c ∈ after.head?, p c = false) : (text ++ after).takeWhile p = text := by
  rw [List.takeWhile_append_of_pos htext]
  cases after with
  | nil => simp
  | cons c after => simp [hafter c rfl]

theorem dropWhile_of_boundary (htext : ∀ c ∈ text, p c = true)
    (hafter : ∀ c ∈ after.head?, p c = false) : (text ++ after).dropWhile p = after := by
  rw [List.dropWhile_append_of_pos htext]
  cases after with
  | nil => rfl
  | cons c after => simp [hafter c rfl]

end Boundary

section Tests

variable {t : StrTests}

theorem isSpace_ascii {c : Char} (h : c.toNat < 128) : t.isSpace c = asciiSpace c := (t.ascii c h).1

theorem isDigit_ascii {c : Char} (h : c.toNat < 128) : t.isDigit c = c.isDigit :=
  (t.ascii c h).2.2.1

theorem isIdentStart_ascii {c : Char} (h : c.toNat < 128) :
    isIdentStart t c = (c == '_' || c.isAlpha) := by
  rw [isIdentStart, (t.ascii c h).2.1]

theorem isIdentContinue_ascii {c : Char} (h : c.toNat < 128) :
    isIdentContinue t c = (c == '_' || c.isAlphanum) := by
  rw [isIdentContinue, (t.ascii c h).2.2.2]

/-- What goes on as an identifier is no white space. -/
theorem not_space_of_continue {c : Char} (h : isIdentContinue t c = true) :
    t.isSpace c = false := by
  refine Bool.eq_false_iff.mpr fun hspace => ?_
  rw [isIdentContinue, t.not_alnum_of_space c hspace, Bool.or_false, beq_iff_eq] at h
  subst h
  rw [isSpace_ascii (by decide)] at hspace
  cases hspace

theorem ne_of_continue {c d : Char} (h : isIdentContinue t c = true)
    (hd : isIdentContinue t d = false) : c ≠ d := by
  rintro rfl
  cases h.symm.trans hd

end Tests

section Step

variable {t : StrTests} {after : List Char}

theorem reads_space {c : Char} (h : t.isSpace c = true) (cs : List Char) :
    reads t c cs = .ok (.gap, 1) := by
  rw [reads, if_pos h]

theorem reads_slash (cs : List Char) : reads t '/' ('/' :: cs) =
    .ok (.gap, (('/' :: '/' :: cs).takeWhile (· != '\n')).length) := by
  have hspace : t.isSpace '/' = false := isSpace_ascii (by decide)
  simp [reads, hspace]

theorem reads_comment {body : List Char} (h : CommentRest 1 body) :
    reads t '/' ('*' :: (body ++ after)) = .ok (.gap, body.length + 2) := by
  have hspace : t.isSpace '/' = false := isSpace_ascii (by decide)
  have hbody : blockComment (body ++ after) 1 = some body.length := blockComment_append h after
  simp [reads, hspace, blockComment, hbody, orUnterminated]

theorem reads_double {body : List Char} (h : Quoted '"' body) :
    reads t '"' (body ++ after) = .ok (.token .string, body.length + 1) := by
  have hspace : t.isSpace '"' = false := isSpace_ascii (by decide)
  simp [reads, hspace, rawStringAhead, quoted, quotedRest_append h, orUnterminated]

theorem reads_prefixed {c : Char} {body : List Char} (hc : c = 'b' ∨ c = 'c')
    (h : Quoted '"' body) :
    reads t c ('"' :: (body ++ after)) = .ok (.token .string, body.length + 2) := by
  have hread : quoted '"' ('"' :: (body ++ after)) = some (body.length + 1) := by
    simp [quoted, quotedRest_append h]
  rcases hc with rfl | rfl
  · have hspace : t.isSpace 'b' = false := isSpace_ascii (by decide)
    simp [reads, hspace, rawStringAhead, hread, orUnterminated]
  · have hspace : t.isSpace 'c' = false := isSpace_ascii (by decide)
    simp [reads, hspace, rawStringAhead, hread, orUnterminated]

theorem reads_byte {body : List Char} (h : Quoted '\'' body) :
    reads t 'b' ('\'' :: (body ++ after)) = .ok (.token .char, body.length + 2) := by
  have hspace : t.isSpace 'b' = false := isSpace_ascii (by decide)
  simp [reads, hspace, rawStringAhead, quoted, quotedRest_append h, orUnterminated]

theorem reads_quote (cs : List Char) :
    reads t '\'' cs = quoteOrLifetime t ('\'' :: cs) := by
  have hspace : t.isSpace '\'' = false := isSpace_ascii (by decide)
  simp [reads, hspace, rawStringAhead]

theorem reads_char_append {body : List Char} (h : Quoted '\'' body)
    (hbody : body.head? = some '\\' ∨ body.length ≤ 2) (hplain : body ≠ ['\'']) :
    reads t '\'' (body ++ after) = .ok (.token .char, body.length + 1) := by
  have hread : quoted '\'' ('\'' :: (body ++ after)) = some (body.length + 1) := by
    simp [quoted, quotedRest_append h]
  have hchar : (body ++ after)[0]? = some '\\' ∨
      (body ++ after)[0]?.isSome = true ∧ (body ++ after)[1]? = some '\'' := by
    cases h with
    | close => exact absurd rfl hplain
    | escape => exact Or.inl rfl
    | @plain c cs hescape _ hrest =>
      rcases hbody with hbody | hbody
      · exact absurd (Option.some.inj hbody) hescape
      · cases hrest with
        | close => exact Or.inr ⟨rfl, rfl⟩
        | escape => simp at hbody
        | plain _ _ hrest => cases hrest <;> simp at hbody
  rw [reads_quote, quoteOrLifetime, hread, if_pos]
  · rfl
  · simpa only [List.getElem?_cons_succ, Bool.or_eq_true, Bool.and_eq_true, beq_iff_eq] using hchar

theorem identifier_append {name : List Char} (hname : ∀ c ∈ name, isIdentContinue t c = true)
    (hafter : ∀ c ∈ after.head?, isIdentContinue t c = false) :
    identifier t (name ++ after) = name.length := by
  rw [identifier, takeWhile_of_boundary hname hafter]

theorem reads_lifetime_append {name : List Char} (hname : ∀ c ∈ name, isIdentContinue t c = true)
    (hplain : name ≠ []) (hafter : ∀ c ∈ after.head?, Separates t (.token .lifetime) name c) :
    reads t '\'' (name ++ after) = .ok (.token .lifetime, name.length + 1) := by
  rw [reads_quote, quoteOrLifetime, if_neg]
  · have hread := identifier_append hname fun c hc => (hafter c hc).1
    rw [List.drop_succ_cons, List.drop_zero, hread, Nat.add_comm]
  · have hescape : isIdentContinue t '\\' = false := isIdentContinue_ascii (by decide)
    have hquote : isIdentContinue t '\'' = false := isIdentContinue_ascii (by decide)
    simp only [List.getElem?_cons_succ, Bool.or_eq_true, Bool.and_eq_true, beq_iff_eq, not_or,
      not_and]
    obtain ⟨c, cs, rfl⟩ := List.exists_cons_of_ne_nil hplain
    refine ⟨fun heq => ?_, fun _ heq => ?_⟩
    · exact ne_of_continue (hname c List.mem_cons_self) hescape (Option.some.inj heq)
    · cases cs with
      | nil =>
        rw [List.singleton_append, List.getElem?_cons_succ, ← List.head?_eq_getElem?] at heq
        exact (hafter _ heq).2 rfl
      | cons d ds =>
        have hd := hname d (List.mem_cons_of_mem c List.mem_cons_self)
        exact ne_of_continue hd hquote (Option.some.inj heq)

theorem find_closing {hashes : Nat} {inner : List Char}
    (h : EndsFirst hashes (inner ++ closing hashes)) :
    find (closing hashes) (inner ++ closing hashes ++ after) = some inner.length := by
  obtain ⟨_, _, hends⟩ := h
  refine find_of_first fun b a hba => Nat.le_of_not_lt fun hlt => ?_
  have hle : (b ++ closing hashes).length ≤ (inner ++ closing hashes).length := by
    simp only [List.length_append]
    omega
  obtain ⟨left, hleft⟩ := List.prefix_of_prefix_length_le ⟨a, hba.symm⟩ ⟨after, rfl⟩ hle
  have hnil := hends b left hleft.symm
  have hlength := congrArg List.length hleft
  simp only [hnil, List.length_append, List.length_nil] at hlength
  omega

theorem reads_raw {before body : List Char} {hashes : Nat} (hbefore : before ∈ [[], ['b'], ['c']])
    (h : EndsFirst hashes body) {c : Char} {cs : List Char}
    (hcs : before ++ rawText hashes (body ++ after) = c :: cs) :
    reads t c cs = .ok (.token .string, (before ++ rawText hashes body).length) := by
  have hahead : rawStringAhead (c :: cs) = true := by
    rw [← hcs]
    exact rawStringAhead_rawText hbefore hashes _
  have hread : rawString (c :: cs) = some (before ++ rawText hashes body).length := by
    rw [← hcs, rawString_rawText hbefore]
    obtain ⟨inner, rfl, _⟩ := id h
    rw [find_closing h, Option.map_some]
    simp only [rawText, closing, List.length_append, List.length_cons, List.length_replicate]
    refine congrArg some ?_
    omega
  have hc : t.isSpace c = false ∧ c ≠ '/' := by
    simp only [List.mem_cons, List.not_mem_nil, or_false] at hbefore
    rcases hbefore with rfl | rfl | rfl
    all_goals
      cases hcs
      exact ⟨isSpace_ascii (by decide), by decide⟩
  simp [reads, hc, hahead, hread, orUnterminated, hc.2.symm]

theorem start_of_rawStringAhead {c : Char} {cs : List Char} (h : rawStringAhead (c :: cs) = true) :
    c ∈ ['r', 'b', 'c'] := by
  obtain ⟨before, hashes, body, hbefore, hcs⟩ := exists_rawText h
  simp only [List.mem_cons, List.not_mem_nil, or_false] at hbefore
  rcases hbefore with rfl | rfl | rfl
  all_goals
    cases hcs
    decide

/-- A word that is followed by neither a quote nor a hash starts no raw string. -/
theorem not_rawStringAhead {word : List Char} (hword : ∀ c ∈ word, isIdentContinue t c = true)
    (hafter : ∀ c ∈ after.head?, Separates t (.token .ident) word c) :
    rawStringAhead (word ++ after) = false := by
  refine Bool.eq_false_iff.mpr fun h => ?_
  obtain ⟨before, hashes, body, hbefore, hsplit⟩ := exists_rawText h
  have hletters : ∀ c ∈ before ++ ['r'], isIdentContinue t c = true := by
    simp only [List.mem_cons, List.not_mem_nil, or_false] at hbefore
    have hr : isIdentContinue t 'r' = true := isIdentContinue_ascii (by decide)
    have hb : isIdentContinue t 'b' = true := isIdentContinue_ascii (by decide)
    have hc : isIdentContinue t 'c' = true := isIdentContinue_ascii (by decide)
    rcases hbefore with rfl | rfl | rfl
    · simpa using hr
    · simpa using ⟨hb, hr⟩
    · simpa using ⟨hc, hr⟩
  have hhead : ∃ c, (List.replicate hashes '#' ++ '"' :: body).head? = some c ∧
      c ∈ ['"', '\'', '#'] ∧ isIdentContinue t c = false := by
    cases hashes with
    | zero => exact ⟨'"', rfl, by decide, isIdentContinue_ascii (by decide)⟩
    | succ hashes => exact ⟨'#', rfl, by decide, isIdentContinue_ascii (by decide)⟩
  obtain ⟨c, hc, hmem, hboundary⟩ := hhead
  have hrest : after = List.replicate hashes '#' ++ '"' :: body := by
    rw [← dropWhile_of_boundary hword fun d hd => (hafter d hd).1, hsplit, rawText,
      List.append_cons, dropWhile_of_boundary hletters]
    intro d hd
    rw [hc] at hd
    cases hd
    exact hboundary
  rw [hrest] at hafter
  exact (hafter c hc).2 hmem

theorem head_append_ne {name : List Char} {d : Char}
    (hname : ∀ c ∈ name, isIdentContinue t c = true) (hd : isIdentContinue t d = false)
    (hafter : d ∉ after.head?) : (name ++ after).head? ≠ some d := by
  cases name with
  | nil => exact hafter
  | cons c name =>
    intro heq
    exact ne_of_continue (hname c List.mem_cons_self) hd (Option.some.inj heq)

/-- Source that starts neither with white space or a comment nor with a literal. -/
theorem reads_plain {c : Char} {cs : List Char} (hspace : t.isSpace c = false)
    (hquote : c ∉ ['"', '\'']) (hcomment : c = '/' → ∀ d ∈ ['/', '*'], cs.head? ≠ some d)
    (hahead : rawStringAhead (c :: cs) = false)
    (hprefixed : c ∈ ['r', 'b', 'c'] → ∀ d ∈ ['"', '\'', '#'], cs.head? ≠ some d) :
    reads t c cs =
      if t.isDigit c then .ok (.token .number, number t (c :: cs))
      else if isIdentStart t c then .ok (.token .ident, identifier t (c :: cs))
      else .ok (.token .punct, punctuation (c :: cs)) := by
  have hnext : ∀ {a b : Char}, (c = a → cs.head? ≠ some b) →
      [a, b].isPrefixOf (c :: cs) = false := by
    intro a b h
    refine Bool.eq_false_iff.mpr fun hstarts => ?_
    obtain ⟨rest, hrest⟩ := List.isPrefixOf_iff_prefix.mp hstarts
    cases hrest
    exact h rfl rfl
  have hline := @hnext '/' '/' fun heq => hcomment heq '/' (by decide)
  have hblock := @hnext '/' '*' fun heq => hcomment heq '*' (by decide)
  have hraw : ['r', '#'].isPrefixOf (c :: cs) = false :=
    hnext fun heq => hprefixed (by rw [heq]; decide) '#' (by decide)
  have hstring : (['b', 'c'].contains c && cs.head? == some '"') = false := by
    refine Bool.eq_false_iff.mpr fun h => ?_
    rw [Bool.and_eq_true, List.contains_iff_mem, beq_iff_eq] at h
    exact hprefixed (List.mem_cons_of_mem 'r' h.1) '"' (by decide) h.2
  have hbyte : (c == 'b' && cs.head? == some '\'') = false := by
    refine Bool.eq_false_iff.mpr fun h => ?_
    rw [Bool.and_eq_true, beq_iff_eq, beq_iff_eq] at h
    exact hprefixed (by rw [h.1]; decide) '\'' (by decide) h.2
  have hquotes : (c == '"') = false ∧ (c == '\'') = false := by
    simpa using hquote
  simp only [reads, hspace, hline, hblock, hahead, hraw, hstring, hbyte, hquotes, Bool.false_and,
    Bool.false_eq_true, if_false]

theorem reads_word {c : Char} {cs : List Char} (hdigit : t.isDigit c = false)
    (hstart : isIdentStart t c = true) (hcs : ∀ d ∈ cs, isIdentContinue t d = true)
    (hafter : ∀ d ∈ after.head?, Separates t (.token .ident) (c :: cs) d) :
    reads t c (cs ++ after) = .ok (.token .ident, cs.length + 1) := by
  have hcontinue := continue_of_start hstart
  have hword : ∀ d ∈ c :: cs, isIdentContinue t d = true :=
    List.forall_mem_cons.mpr ⟨hcontinue, hcs⟩
  have hread : identifier t (c :: (cs ++ after)) = cs.length + 1 :=
    identifier_append hword fun d hd => (hafter d hd).1
  rw [reads_plain (not_space_of_continue hcontinue), hdigit, hstart, hread]
  · rfl
  · intro hmem
    refine absurd rfl (ne_of_continue hcontinue ?_)
    simp only [List.mem_cons, List.not_mem_nil, or_false] at hmem
    rcases hmem with rfl | rfl <;> exact isIdentContinue_ascii (by decide)
  · exact fun heq => absurd heq (ne_of_continue hcontinue (isIdentContinue_ascii (by decide)))
  · exact not_rawStringAhead hword hafter
  · intro _ d hd
    refine head_append_ne hcs ?_ fun hmem => (hafter d hmem).2 hd
    simp only [List.mem_cons, List.not_mem_nil, or_false] at hd
    rcases hd with rfl | rfl | rfl <;> exact isIdentContinue_ascii (by decide)

theorem reads_rawWord {c : Char} {cs : List Char} (hstart : isIdentStart t c = true)
    (hcs : ∀ d ∈ cs, isIdentContinue t d = true)
    (hafter : ∀ d ∈ after.head?, Separates t .rawIdent ('r' :: '#' :: c :: cs) d) :
    reads t 'r' ('#' :: c :: (cs ++ after)) = .ok (.rawIdent, cs.length + 3) := by
  have hspace : t.isSpace 'r' = false := isSpace_ascii (by decide)
  have hword : ∀ d ∈ c :: cs, isIdentContinue t d = true :=
    List.forall_mem_cons.mpr ⟨continue_of_start hstart, hcs⟩
  have hread : identifier t (c :: (cs ++ after)) = cs.length + 1 := identifier_append hword hafter
  have hhash : c ≠ '#' :=
    ne_of_continue (continue_of_start hstart) (isIdentContinue_ascii (by decide))
  have hquote : c ≠ '"' :=
    ne_of_continue (continue_of_start hstart) (isIdentContinue_ascii (by decide))
  have hahead : rawStringAhead ('r' :: '#' :: c :: (cs ++ after)) = false := by
    simp [rawStringAhead, hhash, hquote]
  simp [reads, hspace, hahead, hstart, hread]
  omega

theorem reads_digits {c : Char} (h : t.isDigit c = true) (cs : List Char) :
    reads t c cs = .ok (.token .number, number t (c :: cs)) := by
  have hne : c ∉ ['/', 'r', 'b', 'c', '"', '\''] := by
    intro hmem
    have hdigit : t.isDigit c = false := by
      simp only [List.mem_cons, List.not_mem_nil, or_false] at hmem
      rcases hmem with rfl | rfl | rfl | rfl | rfl | rfl <;> exact isDigit_ascii (by decide)
    cases h.symm.trans hdigit
  simp only [List.mem_cons, List.not_mem_nil, or_false, not_or] at hne
  obtain ⟨hslash, hr, hb, hc, hdouble, hsingle⟩ := hne
  rw [reads_plain (not_space_of_continue (continue_of_digit h)), h]
  · rfl
  · simp [hdouble, hsingle]
  · exact fun heq => absurd heq hslash
  · refine Bool.eq_false_iff.mpr fun hraw => ?_
    simpa [hr, hb, hc] using start_of_rawStringAhead hraw
  · simp [hr, hb, hc]

/-- Punctuation is what is neither a word nor a number, and starts neither a literal nor a
comment. -/
theorem reads_mark {c : Char} {cs : List Char} (hspace : t.isSpace c = false)
    (hdigit : t.isDigit c = false) (hstart : isIdentStart t c = false) (hquote : c ∉ ['"', '\''])
    (hcomment : c = '/' → ∀ d ∈ ['/', '*'], cs.head? ≠ some d) :
    reads t c cs = .ok (.token .punct, punctuation (c :: cs)) := by
  have hletter : c ∉ ['r', 'b', 'c'] := by
    intro hmem
    have htrue : isIdentStart t c = true := by
      simp only [List.mem_cons, List.not_mem_nil, or_false] at hmem
      rcases hmem with rfl | rfl | rfl <;> exact isIdentStart_ascii (by decide)
    cases htrue.symm.trans hstart
  rw [reads_plain hspace hquote hcomment, hdigit, hstart]
  · rfl
  · exact Bool.eq_false_iff.mpr fun hraw => hletter (start_of_rawStringAhead hraw)
  · exact fun hmem => absurd hmem hletter

theorem number_append {c : Char} {cs : List Char} (h : t.isDigit c = true)
    (hcs : ∀ d ∈ cs, isIdentContinue t d = true)
    (hafter : ∀ d ∈ after.head?, Separates t (.token .number) (c :: cs) d) :
    number t (c :: (cs ++ after)) = cs.length + 1 := by
  have hread : identifier t (c :: (cs ++ after)) = cs.length + 1 :=
    identifier_append (List.forall_mem_cons.mpr ⟨continue_of_digit h, hcs⟩)
      fun d hd => (hafter d hd).1
  unfold number
  rw [hread]
  dsimp only
  rw [List.drop_succ_cons, List.drop_left]
  split
  · exact absurd rfl (hafter '.' rfl).2
  · rfl

theorem number_append_decimal {c e : Char} {cs es : List Char} (h : t.isDigit c = true)
    (hcs : ∀ d ∈ cs, isIdentContinue t d = true) (he : t.isDigit e = true)
    (hes : ∀ d ∈ es, isIdentContinue t d = true)
    (hafter : ∀ d ∈ after.head?, isIdentContinue t d = false) :
    number t (c :: (cs ++ '.' :: e :: (es ++ after))) = cs.length + es.length + 3 := by
  have hdot : ∀ d ∈ ('.' :: e :: (es ++ after)).head?, isIdentContinue t d = false := by
    rintro d hd
    cases hd
    exact isIdentContinue_ascii (by decide)
  have hwhole : identifier t (c :: (cs ++ '.' :: e :: (es ++ after))) = cs.length + 1 :=
    identifier_append (List.forall_mem_cons.mpr ⟨continue_of_digit h, hcs⟩) hdot
  have hpart : identifier t (e :: (es ++ after)) = es.length + 1 :=
    identifier_append (List.forall_mem_cons.mpr ⟨continue_of_digit he, hes⟩) hafter
  unfold number
  rw [hwhole]
  dsimp only
  rw [List.drop_succ_cons, List.drop_left]
  simp only [he, hpart, if_true]
  omega

/-- The texts of several characters stand longest first: none starts a later one. -/
theorem multi_longestFirst : MULTI_CHARACTER_PUNCTUATION.Pairwise fun a b => ¬ a <+: b := by
  decide

theorem multi_head : ∀ multi ∈ MULTI_CHARACTER_PUNCTUATION,
    multi.head? ∈ [some '.', some ':', some '!', some '=', some '-'] := by
  decide

theorem multi_start {c : Char} {cs : List Char} (h : c :: cs ∈ MULTI_CHARACTER_PUNCTUATION) :
    t.isSpace c = false ∧ t.isDigit c = false ∧ isIdentStart t c = false ∧
      c ∉ ['/', '"', '\''] := by
  have hc := multi_head _ h
  simp only [List.head?_cons, List.mem_cons, Option.some.injEq, List.not_mem_nil, or_false] at hc
  rcases hc with rfl | rfl | rfl | rfl | rfl
  all_goals
    exact ⟨isSpace_ascii (by decide), isDigit_ascii (by decide), isIdentStart_ascii (by decide),
      by decide⟩

theorem multi_length : ∀ multi ∈ MULTI_CHARACTER_PUNCTUATION, 2 ≤ multi.length := by
  decide

/-- What a separated text and what follows start with, the text itself starts with. -/
theorem prefix_of_separates {text multi : List Char}
    (hafter : ∀ d ∈ after.head?, Separates t (.token .punct) text d)
    (hmulti : multi ∈ MULTI_CHARACTER_PUNCTUATION) (h : multi <+: text ++ after) :
    multi <+: text := by
  rcases Nat.lt_or_ge text.length multi.length with hlt | hle
  · have htext := List.prefix_of_prefix_length_le ⟨after, rfl⟩ h hlt.le
    obtain ⟨more, rfl⟩ := htext
    obtain ⟨rest, hrest⟩ := (List.prefix_append_right_inj text).mp h
    cases more with
    | nil => simp at hlt
    | cons d more =>
      have hd : d ∈ after.head? := by rw [← hrest]; rfl
      refine absurd ?_ ((hafter d hd).2 _ hmulti)
      exact ⟨more, by simp⟩
  · exact List.prefix_of_prefix_length_le h ⟨after, rfl⟩ hle

theorem punctuation_single {c : Char}
    (hafter : ∀ d ∈ after.head?, Separates t (.token .punct) [c] d) :
    punctuation (c :: after) = 1 := by
  unfold punctuation
  split
  · next multi hmulti =>
    have hstarts : multi.isPrefixOf (c :: after) = true :=
      @List.find?_some _ (fun text : List Char => text.isPrefixOf (c :: after)) _ _ hmulti
    have hmem := List.mem_of_find?_eq_some hmulti
    have hshort := prefix_of_separates hafter hmem (List.isPrefixOf_iff_prefix.mp hstarts)
    exact absurd ((multi_length multi hmem).trans hshort.length_le) (Nat.not_succ_le_self 1)
  · rfl

theorem punctuation_multi {text : List Char} (htext : text ∈ MULTI_CHARACTER_PUNCTUATION)
    (hafter : ∀ d ∈ after.head?, Separates t (.token .punct) text d) :
    punctuation (text ++ after) = text.length := by
  have hself : text.isPrefixOf (text ++ after) = true :=
    List.isPrefixOf_iff_prefix.mpr ⟨after, rfl⟩
  unfold punctuation
  split
  · next multi hmulti =>
    obtain ⟨hstarts, before, later, hsplit, hbefore⟩ := List.find?_eq_some_iff_append.mp hmulti
    have hfound := prefix_of_separates hafter (List.mem_of_find?_eq_some hmulti)
      (List.isPrefixOf_iff_prefix.mp hstarts)
    have hordered := multi_longestFirst
    rw [hsplit] at htext hordered
    rcases List.mem_append.mp htext with hmem | hmem
    · have hnot := hbefore text hmem
      rw [hself] at hnot
      cases hnot
    rcases List.mem_cons.mp hmem with heq | hmem
    · rw [heq]
    · have hlater := (List.pairwise_append.mp hordered).2.1
      exact absurd hfound ((List.pairwise_cons.mp hlater).1 text hmem)
  · next hnone =>
    rw [List.find?_eq_none] at hnone
    exact absurd hself (hnone text htext)

/-- A step reads the text that the source starts with, and no more. -/
theorem reads_append {form : Form} {text : List Char} (h : WellFormed t form text)
    (hplain : text ∉ [['\''], ['\'', '\'']])
    (hafter : ∀ d ∈ after.head?, Separates t form text d) :
    ∃ c cs, text ++ after = c :: cs ∧ reads t c cs = .ok (form, text.length) := by
  cases h with
  | space hspace => exact ⟨_, _, rfl, reads_space hspace _⟩
  | @lineComment body hbody =>
    refine ⟨'/', '/' :: (body ++ after), rfl, ?_⟩
    have hline : ∀ c ∈ '/' :: '/' :: body, (c != '\n') = true := by
      simpa using fun c hc => ne_of_mem_of_not_mem hc hbody
    have hend : ∀ d ∈ after.head?, (d != '\n') = false := fun d hd => by
      simpa using hafter d hd ⟨body, rfl⟩
    have htext := takeWhile_of_boundary hline hend
    rw [reads_slash]
    exact congrArg (fun text : List Char => Except.ok (Form.gap, text.length)) htext
  | blockComment hbody => exact ⟨_, _, rfl, reads_comment hbody⟩
  | @rawString before body hashes hbefore hends =>
    have hshape : before ++ rawText hashes body ++ after =
        before ++ rawText hashes (body ++ after) := by simp [rawText]
    have hne : before ++ rawText hashes (body ++ after) ≠ [] :=
      List.append_ne_nil_of_right_ne_nil _ (List.cons_ne_nil _ _)
    obtain ⟨c, cs, hcs⟩ := List.exists_cons_of_ne_nil hne
    exact ⟨c, cs, hshape.trans hcs, reads_raw hbefore hends hcs⟩
  | @string before body hbefore hbody =>
    simp only [List.mem_cons, List.not_mem_nil, or_false] at hbefore
    rcases hbefore with rfl | rfl | rfl
    · exact ⟨_, _, rfl, reads_double hbody⟩
    · exact ⟨_, _, rfl, reads_prefixed (Or.inl rfl) hbody⟩
    · exact ⟨_, _, rfl, reads_prefixed (Or.inr rfl) hbody⟩
  | @char body hbody hshort =>
    refine ⟨_, _, rfl, reads_char_append hbody hshort ?_⟩
    rintro rfl
    exact hplain (by decide)
  | byteChar hbody => exact ⟨_, _, rfl, reads_byte hbody⟩
  | @lifetime name hname =>
    refine ⟨_, _, rfl, reads_lifetime_append hname ?_ hafter⟩
    rintro rfl
    exact hplain (by decide)
  | @number d ds hdigit hds =>
    refine ⟨d, ds ++ after, rfl, ?_⟩
    rw [reads_digits hdigit, number_append hdigit hds hafter]
    rfl
  | @decimal d e ds es hdigit hds he hes =>
    refine ⟨d, ds ++ '.' :: e :: (es ++ after), by simp, ?_⟩
    have hread := number_append_decimal hdigit hds he hes fun c hc => (hafter c hc).1
    rw [reads_digits hdigit, hread]
    simp only [List.length_cons, List.length_append]
    refine congrArg (fun n => Except.ok (Form.token .number, n)) ?_
    omega
  | ident hdigit hstart hcs => exact ⟨_, _, rfl, reads_word hdigit hstart hcs hafter⟩
  | rawIdent hstart hcs => exact ⟨_, _, rfl, reads_rawWord hstart hcs hafter⟩
  | multi hmulti =>
    have hlength := multi_length text hmulti
    have hread := punctuation_multi hmulti hafter
    cases text with
    | nil => cases hlength
    | cons c cs =>
      obtain ⟨hspace, hdigit, hstart, hnot⟩ := @multi_start t c cs hmulti
      simp only [List.mem_cons, List.not_mem_nil, or_false, not_or] at hnot
      refine ⟨c, cs ++ after, rfl, ?_⟩
      rw [reads_mark hspace hdigit hstart, ← hread]
      · rfl
      · simpa using hnot.2
      · exact fun heq => absurd heq hnot.1
  | @punct c hspace hdigit hstart hdouble hsingle =>
    refine ⟨c, after, rfl, ?_⟩
    rw [reads_mark hspace hdigit hstart (by simp [hdouble, hsingle]), punctuation_single hafter]
    · rfl
    · rintro rfl d hd heq
      refine (hafter d heq).1 ?_
      simp only [List.mem_cons, List.not_mem_nil, or_false] at hd
      rcases hd with rfl | rfl <;> decide

end Step

/-! ## 2. The whole source -/

section Run

variable {t : StrTests}

/-- From any state, the pieces that are left are read one by one. -/
theorem runWithin_sourceOf {pieces : List (Form × List Char)} (h : Legible t pieces) {fuel : Nat}
    (hfuel : (sourceOf pieces).length ≤ fuel) (line : Nat) (out : List Token) :
    Lexer.runWithin t fuel ⟨sourceOf pieces, line, out⟩ = .ok (out ++ tokensOf line pieces) := by
  induction h generalizing fuel line out with
  | nil =>
    cases fuel with
    | zero => simp [Lexer.runWithin, tokensOf]
    | succ fuel => simp [Lexer.runWithin, tokensOf, sourceOf]
  | @cons form text pieces hform hplain hnext _ ih =>
    obtain ⟨c, cs, hcs, hread⟩ := reads_append hform hplain hnext
    have hsource : sourceOf ((form, text) :: pieces) = c :: cs := hcs
    have hpos := List.length_pos_of_ne_nil hform.ne_nil
    rw [hsource] at hfuel ⊢
    cases fuel with
    | zero => cases hfuel
    | succ fuel =>
      have hlength : (sourceOf pieces).length ≤ fuel := by
        rw [← hcs, List.length_append] at hfuel
        omega
      simp only [Lexer.runWithin, Lexer.step, hread, Except.bind]
      rw [← hcs, List.take_left, List.drop_left, ih hlength, tokensOf, List.append_assoc]

/-- The tokens of a source that is written from tokens, white space and comments are these tokens,
each with the line that it starts on. -/
theorem tokens_sourceOf {pieces : List (Form × List Char)} (h : Legible t pieces) :
    tokens t (.ofList (sourceOf pieces)) = .ok (tokensOf 1 pieces) := by
  rw [tokens, String.toList_ofList, runWithin_sourceOf h (Nat.le_refl _)]
  rfl

theorem separates_head {form : Form} {text cs : List Char} {next : Char}
    (h : Separates t form text next) : ∀ d ∈ (next :: cs).head?, Separates t form text d := by
  intro d hd
  cases hd
  exact h

theorem tokens_sourceOf_slice :
    tokens asciiTests (.ofList (sourceOf
      [(.token .ident, ['b']), (.token .punct, ['[']), (.token .number, ['0']),
        (.gap, ['\n']), (.token .punct, ['.', '.']), (.rawIdent, ['r', '#', 'b', 'r']),
        (.gap, ['/', '*', '"', '*', '/']), (.token .punct, [']'])])) =
      .ok [⟨.ident, "b", 1⟩, ⟨.punct, "[", 1⟩, ⟨.number, "0", 1⟩, ⟨.punct, "..", 2⟩,
        ⟨.ident, "br", 2⟩, ⟨.punct, "]", 2⟩] :=
  tokens_sourceOf <|
    .cons (.ident rfl rfl (by simp)) (by decide) (separates_head (by decide)) <|
    .cons (.punct rfl rfl rfl (by decide) (by decide)) (by decide) (separates_head (by decide)) <|
    .cons (.number rfl (by simp)) (by decide) (separates_head (by decide)) <|
    .cons (.space rfl) (by decide) (separates_head (by decide)) <|
    .cons (.multi (by decide)) (by decide) (separates_head (by decide)) <|
    .cons (.rawIdent rfl (List.forall_mem_singleton.mpr rfl)) (by decide)
      (separates_head (by decide)) <|
    .cons (.blockComment (.other (by decide) (by decide) .last)) (by decide)
      (separates_head (by decide)) <|
    .cons (.punct rfl rfl rfl (by decide) (by decide)) (by decide) (by simp [sourceOf]) .nil

end Run

end DcMatcher.Panics
