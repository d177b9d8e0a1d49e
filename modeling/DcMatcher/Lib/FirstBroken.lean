import DcMatcher.Lib.Lists
import Mathlib.Order.Basic

/-!
# The first rule that is broken

Nothing here names a program. Rules stand at places, and places are ordered. `broken p e` says
that the rule at `p` is broken, and that `e` is its error. A check goes through the rules and
stops at the first broken one. `Checks broken p r q` is a triple about a part of such a check:
started when everything before `p` holds, it fails with the first broken rule, or everything
before `q` holds.

Results:
1. `Checks.bind`, `Checks.guard`, `Checks.found`, `Checks.collectOk`: the triples of the parts
   give that of the whole.
2. `Outcome.error_iff`, `Outcome.broken_iff`: what a whole check returns.
-/

namespace FirstBroken

open Lists

variable {P ε α β : Type} [PartialOrder P]

/-- Every broken rule stands at `p` or after it. -/
def Clear (broken : P → ε → Prop) (p : P) : Prop := ∀ p' e, broken p' e → p ≤ p'

/-- The rule at `p` is broken, and none before it. -/
def IsFirst (broken : P → ε → Prop) (p : P) (e : ε) : Prop := broken p e ∧ Clear broken p

/-- The error is that of the first broken rule; without one, everything before `q` holds. -/
def Outcome (broken : P → ε → Prop) (q : P) : Except ε α → Prop
  | .ok _ => Clear broken q
  | .error e => ∃ p, IsFirst broken p e

/-- The part of a check from `p` to `q`. -/
def Checks (broken : P → ε → Prop) (p : P) (r : Except ε α) (q : P) : Prop :=
  Clear broken p → Outcome broken q r

variable {broken : P → ε → Prop} {p p' q : P}

theorem Clear.move (h : Clear broken p) (hpass : ∀ q' e, broken q' e → p ≤ q' → q ≤ q') :
    Clear broken q :=
  fun q' e hq' => hpass q' e hq' (h q' e hq')

/-! ## Steps -/

theorem Checks.ok (h : Clear broken p → Clear broken q) (a : α) :
    Checks broken p (.ok a : Except ε α) q := h

theorem Checks.error {e : ε} (h : broken p e) : Checks broken p (.error e : Except ε α) q :=
  fun hp => ⟨p, h, hp⟩

/-- The rules up to `p'` hold, whatever the check does. -/
theorem Checks.pass {r : Except ε α} (p' : P) (h : Clear broken p → Clear broken p')
    (hr : Checks broken p' r q) : Checks broken p r q :=
  fun hp => hr (h hp)

theorem Checks.guard {c : Prop} [Decidable c] {e : ε} {r : Except ε α} (hc : c → broken p e)
    (hr : ¬ c → Checks broken p r q) : Checks broken p (if c then .error e else r) q := by
  split
  · next h => exact Checks.error (hc h)
  · next h => exact hr h

theorem Checks.bind {x : Except ε α} {f : α → Except ε β} (hx : Checks broken p x p')
    (hf : ∀ a, x = .ok a → Checks broken p' (f a) q) : Checks broken p (x >>= f) q := by
  intro hp
  cases x with
  | error e => exact hx hp
  | ok a => exact hf a rfl (hx hp)

theorem Checks.map {x : Except ε α} (f : α → β) (hx : Checks broken p x q) :
    Checks broken p (x.map f) q := by
  intro hp
  cases x with
  | error e => exact hx hp
  | ok a => exact hx hp

/-! ## Loops -/

section Loops

variable (place : Nat → P) {xs : List α}

/-- A loop that stops at the first element it cannot read. -/
theorem Checks.collectOk {f : α → Except ε β}
    (hf : ∀ k x, xs[k]? = some x → Checks broken (place k) (f x) (place (k + 1))) :
    Checks broken (place 0) (collectOk f xs) (place xs.length) := by
  induction xs generalizing place with
  | nil => exact Checks.ok id []
  | cons x xs ih =>
    rw [Lists.collectOk]
    have hhead := hf 0 x rfl
    have htail : Checks broken (place 1) (Lists.collectOk f xs) (place (xs.length + 1)) :=
      ih (fun k => place (k + 1)) fun k y hy => hf (k + 1) y hy
    cases hx : f x with
    | error e =>
      rw [hx] at hhead
      exact hhead
    | ok y =>
      rw [hx] at hhead
      exact (htail.map _).pass _ hhead

variable {bad : α → Bool}

/-- A search that finds the first element that breaks its rule. -/
theorem Checks.found (error : α → ε) {x : α} (h : xs.find? bad = some x)
    (hbad : ∀ k y, xs[k]? = some y → bad y = true → broken (place k) (error y))
    (hgood : ∀ k y, xs[k]? = some y → bad y = false →
      Clear broken (place k) → Clear broken (place (k + 1))) :
    Checks broken (place 0) (.error (error x) : Except ε β) q := by
  induction xs generalizing place with
  | nil => cases h
  | cons y ys ih =>
    cases hy : bad y with
    | true =>
      rw [List.find?_cons_of_pos hy] at h
      rw [← Option.some.inj h]
      exact Checks.error (hbad 0 y rfl hy)
    | false =>
      rw [List.find?_cons_of_neg (by simp [hy])] at h
      have htail : Checks broken (place 1) (.error (error x) : Except ε β) q :=
        ih (fun k => place (k + 1)) h (fun k z hz => hbad (k + 1) z hz)
          fun k z hz => hgood (k + 1) z hz
      exact htail.pass _ (hgood 0 y rfl hy)

end Loops

/-! ## What is returned -/

section Returned

variable {r : Except ε α}

/-- With one error at each place, the error is that of the first broken rule. -/
theorem Outcome.error_iff (h : Outcome broken q r) (hend : ∀ p e, broken p e → ¬ q ≤ p)
    (hfun : ∀ p e e', broken p e → broken p e' → e = e') (e : ε) :
    r = .error e ↔ ∃ p, IsFirst broken p e := by
  cases r with
  | ok a =>
    simp only [reduceCtorEq, false_iff]
    rintro ⟨p, hp⟩
    exact hend p e hp.1 (h p e hp.1)
  | error e₀ =>
    obtain ⟨p₀, hp₀⟩ := h
    constructor
    · intro heq
      cases heq
      exact ⟨p₀, hp₀⟩
    · rintro ⟨p, hp⟩
      have hsame : p = p₀ := le_antisymm (hp.2 _ _ hp₀.1) (hp₀.2 _ _ hp.1)
      subst hsame
      rw [hfun p e₀ e hp₀.1 hp.1]

/-- A check fails if and only if a rule is broken. -/
theorem Outcome.broken_iff (h : Outcome broken q r) (hend : ∀ p e, broken p e → ¬ q ≤ p) :
    (∃ e, r = .error e) ↔ ∃ p e, broken p e := by
  cases r with
  | ok a =>
    simp only [reduceCtorEq, exists_false, false_iff]
    rintro ⟨p, e, hp⟩
    exact hend p e hp (h p e hp)
  | error e =>
    obtain ⟨p, hp⟩ := h
    exact ⟨fun _ => ⟨p, e, hp.1⟩, fun _ => ⟨e, rfl⟩⟩

end Returned

end FirstBroken
