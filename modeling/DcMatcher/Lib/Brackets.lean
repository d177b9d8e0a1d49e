import Mathlib.Data.List.Basic

/-!
# Brackets in a sequence

Nothing here names a program. Some elements open a bracket, some close one; a scan counts them.
It does not look at which bracket it is.

Results:
1. `closer_group`: the scan for the bracket that closes the first one ends at it.
2. `parts_unsplit`: what has no separator outside its brackets is one part.
-/

namespace Brackets

variable {α : Type} {opens closes separates : α → Bool}

/-- The position of the element that brings the depth back to zero. -/
def closer (opens closes : α → Bool) : List α → Int → Nat → Option Nat
  | [], _, _ => none
  | x :: xs, depth, position =>
    if opens x then closer opens closes xs (depth + 1) (position + 1)
    else if closes x then
      if depth - 1 = 0 then some position
      else closer opens closes xs (depth - 1) (position + 1)
    else closer opens closes xs depth (position + 1)

/-- The ranges between the separators outside all brackets; an empty last one is left out. -/
def parts (opens closes separates : α → Bool) : List α → Int → Nat → Nat → List (Nat × Nat)
  | [], _, start, position => if start < position then [(start, position)] else []
  | x :: xs, depth, start, position =>
    if opens x then parts opens closes separates xs (depth + 1) start (position + 1)
    else if closes x then parts opens closes separates xs (depth - 1) start (position + 1)
    else if depth = 0 ∧ separates x then
      (start, position) :: parts opens closes separates xs depth (position + 1) (position + 1)
    else parts opens closes separates xs depth start (position + 1)

/-- Every bracket is closed. -/
inductive Balanced (opens closes : α → Bool) : List α → Prop
  | nil : Balanced opens closes []
  | plain {x : α} {xs : List α} : opens x = false → closes x = false →
      Balanced opens closes xs → Balanced opens closes (x :: xs)
  | group {o c : α} {xs ys : List α} : opens o = true → opens c = false → closes c = true →
      Balanced opens closes xs → Balanced opens closes ys →
      Balanced opens closes (o :: (xs ++ c :: ys))

/-- Balanced, and the separators are within brackets. -/
inductive Unsplit (opens closes separates : α → Bool) : List α → Prop
  | nil : Unsplit opens closes separates []
  | plain {x : α} {xs : List α} : opens x = false → closes x = false → separates x = false →
      Unsplit opens closes separates xs → Unsplit opens closes separates (x :: xs)
  | group {o c : α} {xs ys : List α} : opens o = true → opens c = false → closes c = true →
      Balanced opens closes xs → Unsplit opens closes separates ys →
      Unsplit opens closes separates (o :: (xs ++ c :: ys))

theorem Unsplit.balanced {xs : List α} (h : Unsplit opens closes separates xs) :
    Balanced opens closes xs := by
  induction h with
  | nil => exact .nil
  | plain ho hc _ _ ih => exact .plain ho hc ih
  | group ho hco hcc hinner _ ih => exact .group ho hco hcc hinner ih

theorem Balanced.append {xs ys : List α} (hxs : Balanced opens closes xs)
    (hys : Balanced opens closes ys) : Balanced opens closes (xs ++ ys) := by
  induction hxs with
  | nil => exact hys
  | plain ho hc _ ih => exact .plain ho hc ih
  | @group o c inner rest ho hco hcc hinner _ _ ih =>
    rw [List.cons_append, List.append_assoc]
    exact .group ho hco hcc hinner ih

/-! ## 1. The closing bracket -/

/-- Within brackets, the scan goes past what is balanced. -/
theorem closer_balanced {xs : List α} (h : Balanced opens closes xs) {depth : Int}
    (hdepth : 0 < depth) (ys : List α) (position : Nat) :
    closer opens closes (xs ++ ys) depth position =
      closer opens closes ys depth (position + xs.length) := by
  induction h generalizing depth ys position with
  | nil => rfl
  | plain ho hc _ ih =>
    rw [List.cons_append, closer, if_neg (by simp [ho]), if_neg (by simp [hc]), ih hdepth,
      List.length_cons, Nat.add_right_comm, Nat.add_assoc]
  | @group o c inner rest ho hco hcc _ _ ihinner ihrest =>
    rw [List.cons_append, List.append_assoc, closer, if_pos ho, ihinner (by omega),
      List.cons_append, closer, if_neg (by simp [hco]), if_pos hcc, if_neg (by omega),
      Int.add_sub_cancel, ihrest hdepth]
    congr 1
    simp only [List.length_cons, List.length_append]
    omega

theorem closer_group {xs : List α} (h : Balanced opens closes xs) {o c : α}
    (ho : opens o = true) (hco : opens c = false) (hcc : closes c = true) (ys : List α)
    (position : Nat) :
    closer opens closes (o :: (xs ++ c :: ys)) 0 position = some (position + xs.length + 1) := by
  rw [closer, if_pos ho, closer_balanced h (by omega), closer, if_neg (by simp [hco]),
    if_pos hcc, if_pos (by omega), Nat.add_right_comm]

/-- The scan ends at a closing bracket. -/
theorem closer_spec {xs : List α} {depth : Int} {position found : Nat}
    (h : closer opens closes xs depth position = some found) :
    ∃ n c, found = position + n ∧ xs[n]? = some c ∧ closes c = true ∧ opens c = false := by
  induction xs generalizing depth position with
  | nil => cases h
  | cons x xs ih =>
    have hnext : ∀ {depth : Int}, closer opens closes xs depth (position + 1) = some found →
        ∃ n c, found = position + n ∧ (x :: xs)[n]? = some c ∧ closes c = true ∧
          opens c = false := by
      intro depth h
      obtain ⟨n, c, rfl, hc⟩ := ih h
      exact ⟨n + 1, c, by omega, hc⟩
    rw [closer] at h
    split_ifs at h with hopens hcloses
    · exact hnext h
    · cases h
      exact ⟨0, x, rfl, rfl, hcloses, by simpa using hopens⟩
    · exact hnext h
    · exact hnext h

/-! ## 2. Parts -/

/-- Within brackets, nothing separates. -/
theorem parts_balanced {xs : List α} (h : Balanced opens closes xs) {depth : Int}
    (hdepth : 0 < depth) (ys : List α) (start position : Nat) :
    parts opens closes separates (xs ++ ys) depth start position =
      parts opens closes separates ys depth start (position + xs.length) := by
  induction h generalizing depth ys position with
  | nil => rfl
  | plain ho hc _ ih =>
    rw [List.cons_append, parts, if_neg (by simp [ho]), if_neg (by simp [hc]),
      if_neg (fun hsplit => by omega), ih hdepth, List.length_cons, Nat.add_right_comm,
      Nat.add_assoc]
  | @group o c inner rest ho hco hcc _ _ ihinner ihrest =>
    rw [List.cons_append, List.append_assoc, parts, if_pos ho, ihinner (by omega),
      List.cons_append, parts, if_neg (by simp [hco]), if_pos hcc, Int.add_sub_cancel,
      ihrest hdepth]
    congr 1
    simp only [List.length_cons, List.length_append]
    omega

theorem parts_unsplit {xs : List α} (h : Unsplit opens closes separates xs) (ys : List α)
    (start position : Nat) :
    parts opens closes separates (xs ++ ys) 0 start position =
      parts opens closes separates ys 0 start (position + xs.length) := by
  induction h generalizing ys position with
  | nil => rfl
  | plain ho hc hs _ ih =>
    rw [List.cons_append, parts, if_neg (by simp [ho]), if_neg (by simp [hc]),
      if_neg (by simp [hs]), ih, List.length_cons, Nat.add_right_comm, Nat.add_assoc]
  | @group o c inner rest ho hco hcc hinner _ ih =>
    rw [List.cons_append, List.append_assoc, parts, if_pos ho, parts_balanced hinner (by omega),
      List.cons_append, parts, if_neg (by simp [hco]), if_pos hcc, Int.add_sub_cancel, ih]
    congr 1
    simp only [List.length_cons, List.length_append]
    omega

end Brackets
