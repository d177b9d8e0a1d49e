import DcMatcher.Panics.Tokens
import Mathlib.Data.List.Forall2

/-!
# Attributes that gate test code

`check_panic_sites.py`: an item is exempt from the check if its attribute compiles it for tests
only. The script reads this off the tokens of the attribute.

Results:
1. `impliesTest_sound`, `impliesTest_exact`: the rule it applies to a `cfg` predicate says yes
   only for predicates that no shipping build meets, and to all of them that have no `not`.
2. `predicateImpliesTest_written`: on the tokens of a predicate the script applies this rule.
3. `attributeGatesTest_iff`: so an attribute gates if and only if it compiles its item for tests.
-/

namespace DcMatcher.Panics

/-! ## 1. The script -/

/-- Features that compile code for other crates' tests. -/
def TEST_FEATURES : List String := ["test-fixtures"]

/-- `_arguments`: the comma-separated ranges between `opener` and its `closer`. -/
def arguments (items : List Token) (opener closer : Nat) : List (Nat × Nat) :=
  Brackets.parts Token.opens Token.closes (·.isPunct ",") (slice items (opener + 1) closer) 0
    (opener + 1) (opener + 1)

/-- `_predicate_implies_test`, calls nested at most `fuel` deep. -/
def impliesTestWithin (items : List Token) : Nat → Nat → Nat → Except LexError Bool
  | 0, _, _ => .ok false
  | fuel + 1, start, stop =>
    match slice items start stop with
    | [t] => .ok (t.isIdent "test")
    | head :: rest =>
      if rest.length == 2 && head.isIdent "feature" && rest.head?.any (·.isPunct "=") then
        .ok (rest.getLast?.any fun t => TEST_FEATURES.contains (unquoted t.text))
      else if head.kind == .ident && items[start + 1]?.any (·.isPunct "(") then do
        let close ← matchingCloser items (start + 1)
        let parts := arguments items (start + 1) close
        if head.text == "all" then
          parts.anyM fun part => impliesTestWithin items fuel part.1 part.2
        else if head.text == "any" then
          if parts.isEmpty then return false
          else parts.allM fun part => impliesTestWithin items fuel part.1 part.2
        else return false
      else .ok false
    | [] => .ok false

/-- `_predicate_implies_test`. A call starts beyond the one it is made in. -/
def predicateImpliesTest (items : List Token) (start stop : Nat) : Except LexError Bool :=
  impliesTestWithin items items.length start stop

/-- `_attribute_gates_test`, with `str.isidentifier`. -/
def attributeGatesTest (isIdentifier : String → Bool) (items : List Token) (opener closer : Nat) :
    Except LexError Bool :=
  let path := (slice items (opener + 1) closer).map (·.text)
  if path.getLast?.any (["test", "bench"].contains ·) &&
      path.all fun text => text == "::" || isIdentifier text then .ok true
  else if path.length > 3 && path[0]? == some "cfg" && path[1]? == some "(" then
    predicateImpliesTest items (opener + 3) (closer - 1)
  else .ok false

/-! ## 2. What a predicate says -/

/-- A configuration predicate. -/
inductive Predicate
  | name (n : String)
  | value (key value : String)
  | all (ps : List Predicate)
  | any (ps : List Predicate)
  | not (p : Predicate)

/-- A build: the names and the key-value pairs that are set. -/
structure Config where
  names : String → Prop
  values : String → String → Prop

/-- A build that compiles test code. -/
def Config.TestBuild (config : Config) : Prop :=
  config.names "test" ∨ ∃ feature ∈ TEST_FEATURES, config.values "feature" feature

namespace Predicate

mutual

/-- Whether a build meets a predicate. -/
def Holds (config : Config) : Predicate → Prop
  | name n => config.names n
  | value key v => config.values key v
  | all ps => AllHold config ps
  | any ps => AnyHolds config ps
  | not p => ¬Holds config p

def AllHold (config : Config) : List Predicate → Prop
  | [] => True
  | p :: ps => Holds config p ∧ AllHold config ps

def AnyHolds (config : Config) : List Predicate → Prop
  | [] => False
  | p :: ps => Holds config p ∨ AnyHolds config ps

end

mutual

/-- The rule for a predicate that holds only in test builds. -/
def impliesTest : Predicate → Bool
  | name n => n == "test"
  | value key v => key == "feature" && TEST_FEATURES.contains v
  | all ps => anyImplies ps
  | any ps => !ps.isEmpty && allImply ps
  | not _ => false

def anyImplies : List Predicate → Bool
  | [] => false
  | p :: ps => impliesTest p || anyImplies ps

def allImply : List Predicate → Bool
  | [] => true
  | p :: ps => impliesTest p && allImply ps

end

/-- No negation, and no choice among nothing. -/
inductive Positive : Predicate → Prop
  | name (n : String) : (Predicate.name n).Positive
  | value (key v : String) : (Predicate.value key v).Positive
  | all {ps : List Predicate} : (∀ p ∈ ps, p.Positive) → (Predicate.all ps).Positive
  | any {ps : List Predicate} : ps ≠ [] → (∀ p ∈ ps, p.Positive) → (Predicate.any ps).Positive

section Rule

variable {config : Config}

theorem allHold_iff {ps : List Predicate} : AllHold config ps ↔ ∀ p ∈ ps, p.Holds config := by
  induction ps with
  | nil => simp [AllHold]
  | cons p ps ih => simp [AllHold, ih]

theorem anyHolds_iff {ps : List Predicate} : AnyHolds config ps ↔ ∃ p ∈ ps, p.Holds config := by
  induction ps with
  | nil => simp [AnyHolds]
  | cons p ps ih => simp [AnyHolds, ih]

theorem anyImplies_eq (ps : List Predicate) : anyImplies ps = ps.any impliesTest := by
  induction ps with
  | nil => rfl
  | cons p ps ih => rw [anyImplies, ih, List.any_cons]

theorem allImply_eq (ps : List Predicate) : allImply ps = ps.all impliesTest := by
  induction ps with
  | nil => rfl
  | cons p ps ih => rw [allImply, ih, List.all_cons]

mutual

/-- A build that meets a predicate for which the rule says yes is a test build. -/
theorem impliesTest_sound :
    ∀ p : Predicate, p.impliesTest = true → p.Holds config → config.TestBuild
  | name n, h, hholds => by
    rw [impliesTest, beq_iff_eq] at h
    exact Or.inl (h ▸ hholds)
  | value key v, h, hholds => by
    rw [impliesTest, Bool.and_eq_true, beq_iff_eq] at h
    obtain ⟨rfl, hv⟩ := h
    exact Or.inr ⟨v, by simpa using hv, hholds⟩
  | all ps, h, hholds => anyImplies_sound ps h hholds
  | any ps, h, hholds => by
    rw [impliesTest, Bool.and_eq_true] at h
    exact allImply_sound ps h.2 hholds
  | not _, h, _ => by cases h

theorem anyImplies_sound :
    ∀ ps : List Predicate, anyImplies ps = true → AllHold config ps → config.TestBuild
  | [], h, _ => by cases h
  | p :: ps, h, hholds => by
    rw [anyImplies, Bool.or_eq_true] at h
    rcases h with h | h
    · exact impliesTest_sound p h hholds.1
    · exact anyImplies_sound ps h hholds.2

theorem allImply_sound :
    ∀ ps : List Predicate, allImply ps = true → AnyHolds config ps → config.TestBuild
  | [], _, hholds => hholds.elim
  | p :: ps, h, hholds => by
    rw [allImply, Bool.and_eq_true] at h
    rcases hholds with hholds | hholds
    · exact impliesTest_sound p h.1 hholds
    · exact allImply_sound ps h.2 hholds

end

end Rule

end Predicate

/-- The build that sets everything that is not for tests. -/
def Config.shipping : Config where
  names n := n ≠ "test"
  values key v := key = "feature" → v ∉ TEST_FEATURES

theorem Config.not_testBuild_shipping : ¬Config.shipping.TestBuild := by
  rintro (h | ⟨feature, hmem, h⟩)
  · exact h rfl
  · exact h rfl hmem

namespace Predicate

/-- Without negations, the rule says yes wherever only test builds meet the predicate. -/
theorem impliesTest_exact {p : Predicate} (hp : p.Positive) (h : p.impliesTest = false) :
    p.Holds .shipping := by
  induction hp with
  | name n =>
    rw [impliesTest, beq_eq_false_iff_ne] at h
    exact h
  | value key v =>
    intro hkey hv
    rw [impliesTest, hkey] at h
    simp [hv] at h
  | all _ ih =>
    rw [impliesTest, anyImplies_eq, List.any_eq_false] at h
    exact allHold_iff.mpr fun p hp => ih p hp (by simpa using h p hp)
  | @any ps hsome _ ih =>
    rw [impliesTest, allImply_eq, Bool.and_eq_false_iff] at h
    rcases h with h | h
    · simp [hsome] at h
    · obtain ⟨p, hp, hnot⟩ := List.all_eq_false.mp h
      exact anyHolds_iff.mpr ⟨p, hp, ih p hp (by simpa using hnot)⟩

/-- What the rule decides. -/
theorem impliesTest_iff {p : Predicate} (hp : p.Positive) :
    p.impliesTest = true ↔ ∀ config : Config, p.Holds config → config.TestBuild := by
  refine ⟨fun h config => impliesTest_sound p h, fun h => ?_⟩
  by_contra hnot
  exact Config.not_testBuild_shipping
    (h .shipping (impliesTest_exact hp (by simpa using hnot)))

end Predicate

/-! ## 3. What a predicate looks like -/

mutual

/-- The tokens of a predicate. -/
inductive Written : Predicate → List Token → Prop
  | name {t : Token} : t.kind = .ident → Written (.name t.text) [t]
  | value {key eq literal : Token} {text : String} : key.kind = .ident → eq.isPunct "=" = true →
      literal.kind = .string → literal.text = "\"" ++ text ++ "\"" → '"' ∉ text.toList →
      Written (.value key.text text) [key, eq, literal]
  | all {head o c : Token} {ps : List Predicate} {ts : List Token} : head.isIdent "all" = true →
      o.isPunct "(" = true → c.isPunct ")" = true → WrittenList ps ts →
      Written (.all ps) (head :: o :: (ts ++ [c]))
  | any {head o c : Token} {ps : List Predicate} {ts : List Token} : head.isIdent "any" = true →
      o.isPunct "(" = true → c.isPunct ")" = true → WrittenList ps ts →
      Written (.any ps) (head :: o :: (ts ++ [c]))
  | not {head o c : Token} {p : Predicate} {ts : List Token} : head.isIdent "not" = true →
      o.isPunct "(" = true → c.isPunct ")" = true → Written p ts →
      Written (.not p) (head :: o :: (ts ++ [c]))

/-- The tokens of a list of predicates, with or without a comma after the last one. -/
inductive WrittenList : List Predicate → List Token → Prop
  | nil : WrittenList [] []
  | last {p : Predicate} {ts : List Token} : Written p ts → WrittenList [p] ts
  | cons {p : Predicate} {ps : List Predicate} {ts us : List Token} {comma : Token} :
      Written p ts → comma.isPunct "," = true → WrittenList ps us →
      WrittenList (p :: ps) (ts ++ comma :: us)

end

/-- `ts` are the tokens from `start` on, and `stop` is where they end. -/
def At (items : List Token) (start stop : Nat) (ts : List Token) : Prop :=
  ∃ pre post, items = pre ++ (ts ++ post) ∧ pre.length = start ∧ stop = start + ts.length

section Written

variable {items ts : List Token} {start stop : Nat}

theorem At.slice_eq (h : At items start stop ts) : slice items start stop = ts := by
  obtain ⟨pre, post, rfl, rfl, rfl⟩ := h
  unfold slice
  rw [List.drop_left, Nat.add_sub_cancel_left, List.take_left]

/-- The tokens within the brackets of an operator. -/
theorem At.inner {head o c : Token} {inner : List Token}
    (h : At items start stop (head :: o :: (inner ++ [c]))) :
    At items (start + 2) (start + 2 + inner.length) inner := by
  obtain ⟨pre, post, rfl, rfl, _⟩ := h
  exact ⟨pre ++ [head, o], c :: post, by simp, by simp, rfl⟩

theorem At.length_le (h : At items start stop ts) : ts.length ≤ items.length := by
  obtain ⟨pre, post, rfl, _⟩ := h
  simp only [List.length_append]
  omega

/-- A bracketed list of an operator, without separators outside. -/
theorem unsplit_operator {head o c : Token} {inner : List Token} (hhead : head.kind = .ident)
    (ho : o.isPunct "(" = true) (hc : c.isPunct ")" = true)
    (hinner : Brackets.Balanced Token.opens Token.closes inner) :
    Brackets.Unsplit Token.opens Token.closes (·.isPunct ",") (head :: o :: (inner ++ [c])) := by
  obtain ⟨hokind, hotext⟩ := Token.isPunct_iff.mp ho
  obtain ⟨hckind, hctext⟩ := Token.isPunct_iff.mp hc
  obtain ⟨hopens, hcloses⟩ := Token.plain (t := head) (by simp [hhead])
  exact .plain hopens hcloses (by simp [Token.isPunct, hhead])
    (.group (by simp [Token.opens, hokind, hotext]) (by simp [Token.opens, hctext])
      (by simp [Token.closes, hckind, hctext]) hinner .nil)

mutual

theorem Written.unsplit : ∀ {p : Predicate} {ts : List Token}, Written p ts →
    Brackets.Unsplit Token.opens Token.closes (·.isPunct ",") ts
  | _, _, @Written.name t hkind => by
    obtain ⟨hopens, hcloses⟩ := Token.plain (t := t) (by simp [hkind])
    exact .plain hopens hcloses (by simp [Token.isPunct, hkind]) .nil
  | _, _, @Written.value key _ literal _ hkey heq hliteral _ _ => by
    obtain ⟨hkind, htext⟩ := Token.isPunct_iff.mp heq
    obtain ⟨hopens, hcloses⟩ := Token.plain (t := key) (by simp [hkey])
    obtain ⟨hopens', hcloses'⟩ := Token.plain (t := literal) (by simp [hliteral])
    exact .plain hopens hcloses (by simp [Token.isPunct, hkey])
      (.plain (by simp [Token.opens, htext]) (by simp [Token.closes, htext])
        (by simp [Token.isPunct, htext])
        (.plain hopens' hcloses' (by simp [Token.isPunct, hliteral]) .nil))
  | _, _, .all hhead ho hc hps =>
    unsplit_operator (Token.isIdent_iff.mp hhead).1 ho hc hps.balanced
  | _, _, .any hhead ho hc hps =>
    unsplit_operator (Token.isIdent_iff.mp hhead).1 ho hc hps.balanced
  | _, _, .not hhead ho hc hp =>
    unsplit_operator (Token.isIdent_iff.mp hhead).1 ho hc hp.unsplit.balanced

theorem WrittenList.balanced : ∀ {ps : List Predicate} {ts : List Token}, WrittenList ps ts →
    Brackets.Balanced Token.opens Token.closes ts
  | _, _, .nil => .nil
  | _, _, .last hp => hp.unsplit.balanced
  | _, _, .cons hp hcomma hps => by
    obtain ⟨_, htext⟩ := Token.isPunct_iff.mp hcomma
    exact hp.unsplit.balanced.append
      (.plain (by simp [Token.opens, htext]) (by simp [Token.closes, htext]) hps.balanced)

end

theorem Written.ne_nil {p : Predicate} (h : Written p ts) : ts ≠ [] := by
  cases h <;> exact List.cons_ne_nil _ _

theorem anyM_of_forall₂ {α β : Type} {f : α → Except LexError Bool} {g : β → Bool} {bs : List β}
    {parts : List α} (h : List.Forall₂ (fun b part => f part = .ok (g b)) bs parts) :
    parts.anyM f = .ok (bs.any g) := by
  induction h with
  | nil => rfl
  | @cons b part _ _ hpart _ ih =>
    rw [List.anyM, hpart, List.any_cons]
    cases g b with
    | true => rfl
    | false => exact ih

theorem allM_of_forall₂ {α β : Type} {f : α → Except LexError Bool} {g : β → Bool} {bs : List β}
    {parts : List α} (h : List.Forall₂ (fun b part => f part = .ok (g b)) bs parts) :
    parts.allM f = .ok (bs.all g) := by
  induction h with
  | nil => rfl
  | @cons b part _ _ hpart _ ih =>
    rw [List.allM, hpart, List.all_cons]
    cases g b with
    | true => exact ih
    | false => rfl

/-- What the script does at an operator, from the ranges of its operands. -/
theorem impliesTestWithin_operator {head o c : Token} {inner : List Token}
    (hhead : head.kind = .ident) (hnot : head.text ≠ "feature") (ho : o.isPunct "(" = true)
    (hc : c.isPunct ")" = true) (hinner : Brackets.Balanced Token.opens Token.closes inner)
    (h : At items start stop (head :: o :: (inner ++ [c]))) (fuel : Nat) :
    impliesTestWithin items (fuel + 1) start stop =
      let parts := Brackets.parts Token.opens Token.closes (·.isPunct ",") inner 0 (start + 2)
        (start + 2)
      if head.text == "all" then
        parts.anyM fun part => impliesTestWithin items fuel part.1 part.2
      else if head.text == "any" then
        if parts.isEmpty then .ok false
        else parts.allM fun part => impliesTestWithin items fuel part.1 part.2
      else .ok false := by
  have hcloser : matchingCloser items (start + 1) = .ok (start + 2 + inner.length) := by
    obtain ⟨pre, post, rfl, rfl, _⟩ := h
    have hgroup := @matchingCloser_group (pre ++ [head]) inner post o c hinner ho hc
    simp only [List.append_assoc, List.singleton_append, List.length_append,
      List.length_singleton] at hgroup
    simp only [List.cons_append, List.append_assoc, List.nil_append]
    rw [hgroup]
    congr 1
    omega
  have hsecond : items[start + 1]? = some o := by
    obtain ⟨pre, post, rfl, rfl, _⟩ := h
    simp
  have hparts : arguments items (start + 1) (start + 2 + inner.length) =
      Brackets.parts Token.opens Token.closes (·.isPunct ",") inner 0 (start + 2) (start + 2) := by
    unfold arguments
    rw [h.inner.slice_eq]
  rw [impliesTestWithin, h.slice_eq]
  have hfeature : head.isIdent "feature" = false := by simp [Token.isIdent, hnot]
  simp only [hfeature, hhead, hsecond, ho, Option.any_some, hcloser, Bool.and_false,
    Bool.false_and, Bool.false_eq_true, if_false, beq_self_eq_true, Bool.and_true, if_true,
    ← hparts]
  rfl

mutual

/-- On the tokens of a predicate, the script applies the rule. -/
theorem impliesTestWithin_written : ∀ {p : Predicate} {ts : List Token}, Written p ts →
    ∀ {fuel start stop : Nat}, At items start stop ts → ts.length ≤ fuel →
      impliesTestWithin items fuel start stop = .ok p.impliesTest
  | _, _, @Written.name t hkind, fuel + 1, start, stop, hat, _ => by
    rw [impliesTestWithin, hat.slice_eq]
    simp [Token.isIdent, hkind, Predicate.impliesTest]
  | _, _, @Written.value key eq literal text hkey heq hliteral htext hplain, fuel + 1, start, stop,
      hat, _ => by
    have hsecond : items[start + 1]? = some eq := by
      obtain ⟨pre, post, rfl, rfl, _⟩ := hat
      simp
    obtain ⟨hkind, hpunct⟩ := Token.isPunct_iff.mp heq
    have hopens : eq.isPunct "(" = false := by simp [Token.isPunct, hpunct]
    rw [impliesTestWithin, hat.slice_eq, Predicate.impliesTest]
    simp only [hsecond, Option.any_some, hopens]
    cases hfeature : key.isIdent "feature" with
    | true =>
      have hkeytext := (Token.isIdent_iff.mp hfeature).2
      simp [heq, htext, unquoted_quoted hplain, hkeytext]
    | false =>
      have hkeytext : key.text ≠ "feature" := by
        simpa [Token.isIdent, hkey] using hfeature
      simp [hkeytext]
  | _, _, .all hhead ho hc hps, fuel + 1, start, stop, hat, hlength => by
    obtain ⟨hkind, htext⟩ := Token.isIdent_iff.mp hhead
    rw [impliesTestWithin_operator hkind (by simp [htext]) ho hc hps.balanced hat]
    simp only [List.length_cons, List.length_append] at hlength
    simp only [htext, beq_self_eq_true, if_true, Predicate.impliesTest, Predicate.anyImplies_eq]
    exact anyM_of_forall₂ (parts_written hps hat.inner (by omega))
  | _, _, @Written.any _ _ _ ps ts hhead ho hc hps, fuel + 1, start, stop, hat, hlength => by
    obtain ⟨hkind, htext⟩ := Token.isIdent_iff.mp hhead
    rw [impliesTestWithin_operator hkind (by simp [htext]) ho hc hps.balanced hat]
    simp only [List.length_cons, List.length_append] at hlength
    have hparts := parts_written hps hat.inner (show _ ≤ fuel by omega)
    have hempty : (Brackets.parts Token.opens Token.closes (·.isPunct ",") ts 0 (start + 2)
        (start + 2)).isEmpty = ps.isEmpty := by
      rw [Bool.eq_iff_iff, List.isEmpty_iff_length_eq_zero, List.isEmpty_iff_length_eq_zero,
        hparts.length_eq]
    simp only [htext, hempty, Predicate.impliesTest, Predicate.allImply_eq, beq_self_eq_true,
      if_true, show ("any" == "all") = false from rfl, Bool.false_eq_true, if_false]
    cases ps.isEmpty with
    | true => rfl
    | false => exact allM_of_forall₂ hparts
  | _, _, .not hhead ho hc hp, fuel + 1, start, stop, hat, hlength => by
    obtain ⟨hkind, htext⟩ := Token.isIdent_iff.mp hhead
    rw [impliesTestWithin_operator hkind (by simp [htext]) ho hc hp.unsplit.balanced hat]
    simp [htext, Predicate.impliesTest]
  | _, _, h, 0, _, _, _, hlength =>
    absurd (List.length_eq_zero_iff.mp (Nat.le_zero.mp hlength)) h.ne_nil

theorem parts_written : ∀ {ps : List Predicate} {ts : List Token}, WrittenList ps ts →
    ∀ {fuel position : Nat}, At items position (position + ts.length) ts → ts.length ≤ fuel →
      List.Forall₂ (fun p part => impliesTestWithin items fuel part.1 part.2 = .ok p.impliesTest)
        ps (Brackets.parts Token.opens Token.closes (·.isPunct ",") ts 0 position position)
  | _, _, .nil, _, position, _, _ => by
    rw [Brackets.parts, if_neg (Nat.lt_irrefl position)]
    exact .nil
  | _, ts, .last hp, _, position, hat, hlength => by
    have hparts := Brackets.parts_unsplit hp.unsplit [] position position
    have hlt : position < position + ts.length :=
      Nat.lt_add_of_pos_right (List.length_pos_iff.mpr hp.ne_nil)
    rw [List.append_nil, Brackets.parts, if_pos hlt] at hparts
    rw [hparts]
    exact .cons (impliesTestWithin_written hp hat hlength) .nil
  | _, _, @WrittenList.cons _ _ ts us comma hp hcomma hps, _, position, hat, hlength => by
    obtain ⟨_, htext⟩ := Token.isPunct_iff.mp hcomma
    obtain ⟨pre, post, hitems, rfl, _⟩ := hat
    rw [List.length_append, List.length_cons] at hlength
    have hthis : At items pre.length (pre.length + ts.length) ts :=
      ⟨pre, comma :: (us ++ post), by simp [hitems], rfl, rfl⟩
    have hnext : At items (pre.length + ts.length + 1) (pre.length + ts.length + 1 + us.length)
        us := ⟨pre ++ ts ++ [comma], post, by simp [hitems], by simp [Nat.add_assoc], rfl⟩
    rw [Brackets.parts_unsplit hp.unsplit, Brackets.parts, if_neg (by simp [Token.opens, htext]),
      if_neg (by simp [Token.closes, htext]), if_pos ⟨rfl, hcomma⟩]
    exact .cons (impliesTestWithin_written hp hthis (by omega))
      (parts_written hps hnext (by omega))

end

theorem predicateImpliesTest_written {p : Predicate} (hp : Written p ts)
    (hat : At items start stop ts) : predicateImpliesTest items start stop = .ok p.impliesTest :=
  impliesTestWithin_written hp hat hat.length_le

end Written

/-! ## 4. Attributes -/

/-- `#[cfg(p)]`, of which the brackets are at `opener` and `closer`. -/
structure CfgAttribute (items : List Token) (opener closer : Nat) (p : Predicate) : Prop where
  tokens : ∃ head o c ts, head.isIdent "cfg" = true ∧ o.isPunct "(" = true ∧
    c.isPunct ")" = true ∧ Written p ts ∧ At items (opener + 1) closer (head :: o :: (ts ++ [c]))

theorem attributeGatesTest_cfg (isIdentifier : String → Bool) {items : List Token}
    {opener closer : Nat} {p : Predicate} (h : CfgAttribute items opener closer p) :
    attributeGatesTest isIdentifier items opener closer = .ok p.impliesTest := by
  obtain ⟨head, o, c, ts, hhead, ho, hc, hp, hat⟩ := h.tokens
  obtain ⟨_, hheadtext⟩ := Token.isIdent_iff.mp hhead
  obtain ⟨_, hotext⟩ := Token.isPunct_iff.mp ho
  obtain ⟨_, hctext⟩ := Token.isPunct_iff.mp hc
  have hpath : (head :: o :: (ts ++ [c])).map (·.text) =
      ("cfg" :: "(" :: ts.map (·.text)) ++ [")"] := by
    simp [hheadtext, hotext, hctext]
  have hlong : 3 < (("cfg" :: "(" :: ts.map (·.text)) ++ [")"]).length := by
    have := List.length_pos_iff.mpr hp.ne_nil
    simp only [List.length_map, List.length_cons, List.length_append, List.length_nil]
    omega
  have hclose : closer - 1 = opener + 3 + ts.length := by
    obtain ⟨_, _, _, _, hcloser⟩ := hat
    simp only [List.length_cons, List.length_append, List.length_nil] at hcloser
    omega
  unfold attributeGatesTest
  simp only [hat.slice_eq, hpath, List.getLast?_concat, gt_iff_lt, hlong]
  rw [hclose]
  exact predicateImpliesTest_written hp hat.inner

/-- An attribute `#[cfg(p)]` is taken to gate test code only if every build that compiles its item
compiles tests or a test feature. Where `p` has no negation and no empty choice, it is taken to
gate test code whenever this is so. -/
theorem attributeGatesTest_iff (isIdentifier : String → Bool) {items : List Token}
    {opener closer : Nat} {p : Predicate} (h : CfgAttribute items opener closer p) :
    ∃ gates, attributeGatesTest isIdentifier items opener closer = .ok gates ∧
      (gates = true → ∀ config : Config, p.Holds config → config.TestBuild) ∧
      (p.Positive → (∀ config : Config, p.Holds config → config.TestBuild) → gates = true) :=
  ⟨p.impliesTest, attributeGatesTest_cfg isIdentifier h,
    fun himplies _ => p.impliesTest_sound himplies,
    fun hpositive hall => (Predicate.impliesTest_iff hpositive).mpr hall⟩

/-- The tokens of `#[cfg(any(test, feature = "test-fixtures"))]`. -/
def fixtureGate : List Token :=
  [⟨.punct, "#", 1⟩, ⟨.punct, "[", 1⟩, ⟨.ident, "cfg", 1⟩, ⟨.punct, "(", 1⟩, ⟨.ident, "any", 1⟩,
    ⟨.punct, "(", 1⟩, ⟨.ident, "test", 1⟩, ⟨.punct, ",", 1⟩, ⟨.ident, "feature", 1⟩,
    ⟨.punct, "=", 1⟩, ⟨.string, "\"test-fixtures\"", 1⟩, ⟨.punct, ")", 1⟩, ⟨.punct, ")", 1⟩,
    ⟨.punct, "]", 1⟩]

/-- `any(test, feature = "test-fixtures")`. -/
def testOrFixtures : Predicate := .any [.name "test", .value "feature" "test-fixtures"]

theorem cfgAttribute_fixtureGate : CfgAttribute fixtureGate 1 13 testOrFixtures := by
  have hfeature : Written (.value "feature" "test-fixtures")
      [⟨.ident, "feature", 1⟩, ⟨.punct, "=", 1⟩, ⟨.string, "\"test-fixtures\"", 1⟩] :=
    @Written.value ⟨.ident, "feature", 1⟩ ⟨.punct, "=", 1⟩ ⟨.string, "\"test-fixtures\"", 1⟩
      "test-fixtures" rfl rfl rfl rfl (by decide)
  have htest : Written (.name "test") [⟨.ident, "test", 1⟩] := @Written.name ⟨.ident, "test", 1⟩ rfl
  have hlist := @WrittenList.cons _ _ _ _ ⟨.punct, ",", 1⟩ htest rfl (.last hfeature)
  have hany := @Written.any ⟨.ident, "any", 1⟩ ⟨.punct, "(", 1⟩ ⟨.punct, ")", 1⟩ _ _ rfl rfl rfl
    hlist
  exact ⟨⟨.ident, "cfg", 1⟩, ⟨.punct, "(", 1⟩, ⟨.punct, ")", 1⟩, _, rfl, rfl, rfl, hany,
    [⟨.punct, "#", 1⟩, ⟨.punct, "[", 1⟩], [⟨.punct, "]", 1⟩], rfl, rfl, rfl⟩

theorem attributeGatesTest_iff_fixtures :
    attributeGatesTest (fun _ => true) fixtureGate 1 13 = .ok true ∧
      ∀ config : Config, testOrFixtures.Holds config → config.TestBuild := by
  obtain ⟨gates, hgates, hsound, _⟩ :=
    attributeGatesTest_iff (fun _ => true) cfgAttribute_fixtureGate
  have hyes : attributeGatesTest (fun _ => true) fixtureGate 1 13 = .ok true := by decide +kernel
  cases hyes.symm.trans hgates
  exact ⟨hyes, hsound rfl⟩

end DcMatcher.Panics
