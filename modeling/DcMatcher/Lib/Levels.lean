import Mathlib.Data.List.Basic
import Mathlib.Order.Bounds.Defs

/-!
# Selecting level by level

Nothing here names a program. A selection starts with some elements; each step replaces
every element by what it selects from it, in order, and stops if it cannot select from one
of them. Nothing selected from an element only drops that element.

Results:
1. `descend_append_steps`: the steps `p ++ q` are `p` and then `q`.
2. `descend_eq_error_iff`, `descend_eq_ok_iff`: what a descent gives is determined by what
   it gives for each element alone. The stop is the earliest one, and without a stop the
   selections follow each other.
-/

namespace Levels

variable {α κ : Type} {select : κ → α → Option (List α)}

/-- What a step selects from the elements of a level, or `none` if it cannot select from
one of them. -/
def level (select : κ → α → Option (List α)) (step : κ) : List α → Option (List α)
  | [] => some []
  | x :: xs =>
    match select step x with
    | none => none
    | some ys => (level select step xs).map fun next => ys ++ next

/-- The steps one after the other. The error is the position of the step that stopped, the
first of them being at `position`. -/
def descend (select : κ → α → Option (List α)) (position : Nat) :
    List κ → List α → Except Nat (List α)
  | [], xs => .ok xs
  | step :: steps, xs =>
    match level select step xs with
    | none => .error position
    | some next => descend select (position + 1) steps next

/-! ## 1. Steps -/

theorem descend_nil (position : Nat) (steps : List κ) :
    descend select position steps [] = .ok [] := by
  induction steps generalizing position with
  | nil => rfl
  | cons step steps ih => exact ih (position + 1)

theorem descend_append_steps (position : Nat) (p q : List κ) (xs : List α) :
    descend select position (p ++ q) xs =
      (descend select position p xs).bind (descend select (position + p.length) q) := by
  induction p generalizing position xs with
  | nil => rfl
  | cons step p ih =>
    rw [List.cons_append, descend, descend]
    cases level select step xs with
    | none => rfl
    | some next =>
      simp only
      rw [ih (position + 1) next, List.length_cons, Nat.add_right_comm, Nat.add_assoc]

/-- A stop is at one of the steps. -/
theorem le_of_descend_error {position n : Nat} {steps : List κ} {xs : List α}
    (h : descend select position steps xs = .error n) : position ≤ n := by
  induction steps generalizing position xs with
  | nil => cases h
  | cons step steps ih =>
    rw [descend] at h
    split at h
    · cases h
      exact Nat.le_refl _
    · exact Nat.le_of_succ_le (ih h)

/-- Starting later only moves the position of a stop. -/
theorem descend_add (position k : Nat) (steps : List κ) (xs : List α) :
    descend select (position + k) steps xs =
      (descend select position steps xs).mapError fun n => n + k := by
  induction steps generalizing position xs with
  | nil => rfl
  | cons step steps ih =>
    rw [descend, descend]
    cases level select step xs with
    | none => rfl
    | some next =>
      simp only
      rw [Nat.add_right_comm, ih (position + 1) next]

/-! ## 2. Elements -/

/-- Two descents side by side: the earlier stop, or one selection after the other. -/
def join : Except Nat (List α) → Except Nat (List α) → Except Nat (List α)
  | .error m, .error n => .error (min m n)
  | .error m, .ok _ => .error m
  | .ok _, .error n => .error n
  | .ok xs, .ok ys => .ok (xs ++ ys)

theorem level_append (step : κ) (xs ys : List α) :
    level select step (xs ++ ys) =
      (level select step xs).bind fun left =>
        (level select step ys).map fun right => left ++ right := by
  induction xs with
  | nil => simp [level]
  | cons x xs ih =>
    rw [List.cons_append, level, level]
    cases select step x with
    | none => rfl
    | some next =>
      simp only
      rw [ih]
      cases level select step xs with
      | none => rfl
      | some left =>
        cases level select step ys with
        | none => rfl
        | some right => simp

theorem descend_append (position : Nat) (steps : List κ) (xs ys : List α) :
    descend select position steps (xs ++ ys) =
      join (descend select position steps xs) (descend select position steps ys) := by
  induction steps generalizing position xs ys with
  | nil => rfl
  | cons step steps ih =>
    rw [descend, descend, descend, level_append]
    cases level select step xs with
    | none =>
      -- the step stops for `xs`, so no later than for `ys`
      cases hright : level select step ys with
      | none => simp [join]
      | some right =>
        simp only [Option.bind_none]
        cases hrest : descend select (position + 1) steps right with
        | ok _ => rfl
        | error n =>
          have hle := Nat.le_of_succ_le (le_of_descend_error hrest)
          simp only [join, Nat.min_eq_left hle]
    | some left =>
      cases level select step ys with
      | none =>
        simp only [Option.bind_some, Option.map_none]
        cases hrest : descend select (position + 1) steps left with
        | ok _ => rfl
        | error n =>
          have hle := Nat.le_of_succ_le (le_of_descend_error hrest)
          simp only [join, Nat.min_eq_right hle]
      | some right =>
        simp only [Option.bind_some, Option.map_some]
        exact ih (position + 1) left right

theorem descend_cons (position : Nat) (steps : List κ) (x : α) (xs : List α) :
    descend select position steps (x :: xs) =
      join (descend select position steps [x]) (descend select position steps xs) :=
  descend_append position steps [x] xs

/-- What was selected, if there was no stop. -/
def selected : Except Nat (List α) → List α
  | .error _ => []
  | .ok ys => ys

/-- Without a stop, the selections of the elements follow each other. -/
theorem descend_eq_ok_iff {position : Nat} {steps : List κ} {xs out : List α} :
    descend select position steps xs = .ok out ↔
      (∀ x ∈ xs, ∃ ys, descend select position steps [x] = .ok ys) ∧
        out = xs.flatMap fun x => selected (descend select position steps [x]) := by
  induction xs generalizing out with
  | nil =>
    rw [descend_nil]
    simp [eq_comm]
  | cons x xs ih =>
    rw [descend_cons, List.forall_mem_cons, List.flatMap_cons]
    cases hx : descend select position steps [x] with
    | error m =>
      have hstop : ∀ ys, join (.error m) (descend select position steps xs) ≠ .ok ys := by
        intro ys h
        cases hxs : descend select position steps xs <;> rw [hxs] at h <;> cases h
      simp [hstop]
    | ok ys =>
      cases hxs : descend select position steps xs with
      | error n =>
        have hstop : ¬ ∀ x ∈ xs, ∃ ys, descend select position steps [x] = .ok ys := by
          intro hall
          have hok := ih.mpr ⟨hall, rfl⟩
          rw [hxs] at hok
          cases hok
        simp [join, hstop]
      | ok rest =>
        obtain ⟨hall, rfl⟩ := ih.mp hxs
        simp only [join, Except.ok.injEq, exists_eq', true_and]
        exact ⟨fun h => ⟨hall, h.symm⟩, fun h => h.2.symm⟩

/-- The positions at which some element stops. -/
def Stops (select : κ → α → Option (List α)) (position : Nat) (steps : List κ) (xs : List α) :
    Set Nat :=
  { n | ∃ x ∈ xs, descend select position steps [x] = .error n }

theorem mem_stops_cons {position m : Nat} {steps : List κ} {x : α} {xs : List α} :
    m ∈ Stops select position steps (x :: xs) ↔
      descend select position steps [x] = .error m ∨ m ∈ Stops select position steps xs := by
  show (∃ y ∈ x :: xs, descend select position steps [y] = .error m) ↔
    _ ∨ ∃ y ∈ xs, descend select position steps [y] = .error m
  rw [List.exists_mem_cons_iff]

/-- If the descent does not stop, no element does. -/
theorem not_mem_stops {position m : Nat} {steps : List κ} {xs out : List α}
    (h : descend select position steps xs = .ok out) : m ∉ Stops select position steps xs := by
  rintro ⟨x, hx, hm⟩
  obtain ⟨ys, hys⟩ := (descend_eq_ok_iff.mp h).1 x hx
  rw [hm] at hys
  cases hys

theorem isLeast_of_descend_error {position n : Nat} {steps : List κ} {xs : List α}
    (h : descend select position steps xs = .error n) :
    IsLeast (Stops select position steps xs) n := by
  induction xs generalizing n with
  | nil =>
    rw [descend_nil] at h
    cases h
  | cons x xs ih =>
    rw [descend_cons] at h
    cases hx : descend select position steps [x] with
    | ok ys =>
      cases hxs : descend select position steps xs with
      | ok rest =>
        rw [hx, hxs] at h
        cases h
      | error k =>
        rw [hx, hxs] at h
        cases h
        refine ⟨mem_stops_cons.mpr (.inr (ih hxs).1), fun j hj => ?_⟩
        rcases mem_stops_cons.mp hj with hj | hj
        · rw [hx] at hj
          cases hj
        · exact (ih hxs).2 hj
    | error m =>
      cases hxs : descend select position steps xs with
      | ok rest =>
        rw [hx, hxs] at h
        cases h
        refine ⟨mem_stops_cons.mpr (.inl hx), fun j hj => ?_⟩
        rcases mem_stops_cons.mp hj with hj | hj
        · rw [hx] at hj
          cases hj
          exact Nat.le_refl _
        · exact absurd hj (not_mem_stops hxs)
      | error k =>
        rw [hx, hxs] at h
        cases h
        constructor
        · rcases Nat.le_total m k with hle | hle
          · rw [Nat.min_eq_left hle]
            exact mem_stops_cons.mpr (.inl hx)
          · rw [Nat.min_eq_right hle]
            exact mem_stops_cons.mpr (.inr (ih hxs).1)
        · intro j hj
          rcases mem_stops_cons.mp hj with hj | hj
          · rw [hx] at hj
            cases hj
            exact Nat.min_le_left _ _
          · exact Nat.le_trans (Nat.min_le_right _ _) ((ih hxs).2 hj)

/-- A stop is the earliest one of an element. -/
theorem descend_eq_error_iff {position n : Nat} {steps : List κ} {xs : List α} :
    descend select position steps xs = .error n ↔
      IsLeast (Stops select position steps xs) n := by
  refine ⟨isLeast_of_descend_error, fun h => ?_⟩
  cases hxs : descend select position steps xs with
  | ok out => exact absurd h.1 (not_mem_stops hxs)
  | error k =>
    have hk := isLeast_of_descend_error hxs
    rw [Nat.le_antisymm (hk.2 h.1) (h.2 hk.1)]

end Levels
