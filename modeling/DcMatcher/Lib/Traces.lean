import Mathlib.Data.List.Basic

/-!
# Rules about what came before

Nothing here names a program. A trace is a list of events; a rule judges each event by the
trace before it. A rule is monotone when more of a past never forbids what less allowed.

Results:
1. `Holds.at`: what a rule that holds of a trace says of one of its events.
2. `holds_flatMap`: for a monotone rule, a trace made of blocks is judged block by block.
-/

namespace Traces

variable {α ε : Type}

/-- The rule allows each event, after the past and the events before it. -/
def Holds (rule : List ε → ε → Prop) (past : List ε) : List ε → Prop
  | [] => True
  | e :: es => rule past e ∧ Holds rule (past ++ [e]) es

/-- A longer past allows no less. -/
def Monotone (rule : List ε → ε → Prop) : Prop :=
  ∀ past past' e, past ⊆ past' → rule past e → rule past' e

variable {rule : List ε → ε → Prop} {past past' : List ε}

theorem holds_append {es es' : List ε} :
    Holds rule past (es ++ es') ↔ Holds rule past es ∧ Holds rule (past ++ es) es' := by
  induction es generalizing past with
  | nil => simp [Holds]
  | cons e es ih =>
    rw [List.cons_append, Holds, Holds, ih, and_assoc, List.append_assoc, List.singleton_append]

theorem Holds.at {before after : List ε} {e : ε} (h : Holds rule past (before ++ e :: after)) :
    rule (past ++ before) e := (holds_append.mp h).2.1

theorem Holds.mono (hrule : Monotone rule) {es : List ε} (hsub : past ⊆ past')
    (h : Holds rule past es) : Holds rule past' es := by
  induction es generalizing past past' with
  | nil => trivial
  | cons e es ih =>
    refine ⟨hrule past past' e hsub h.1, ih ?_ h.2⟩
    exact List.append_subset.mpr
      ⟨fun x hx => List.mem_append_left _ (hsub hx), fun x hx => List.mem_append_right _ hx⟩

/-- Events that the past allows each. -/
theorem holds_of_forall (hrule : Monotone rule) {es : List ε} (h : ∀ e ∈ es, rule past e) :
    Holds rule past es := by
  induction es with
  | nil => trivial
  | cons e es ih =>
    obtain ⟨hhead, htail⟩ := List.forall_mem_cons.mp h
    exact ⟨hhead, (ih htail).mono hrule (List.subset_append_left _ _)⟩

/-- Blocks that the past allows each. -/
theorem holds_flatMap (hrule : Monotone rule) {f : α → List ε} {xs : List α}
    (h : ∀ x ∈ xs, Holds rule past (f x)) : Holds rule past (xs.flatMap f) := by
  induction xs with
  | nil => trivial
  | cons x xs ih =>
    obtain ⟨hhead, htail⟩ := List.forall_mem_cons.mp h
    rw [List.flatMap_cons, holds_append]
    exact ⟨hhead, (ih htail).mono hrule (List.subset_append_left _ _)⟩

end Traces
