import Mathlib.Data.List.Nodup

/-!
# Records that are kept by key

Nothing here names a program. Records stand in the order they were added. What is said later of
a key changes the first record under it, and no other.

Results:
1. `changeFirst_isSome`: a change finds its record exactly if the key was added.
2. `changeFirst_keys`: a change leaves the keys.
3. `changeFirst_last`: after a key that is new, a change is to the last record.
-/

namespace Ledgers

variable {κ ρ : Type} [DecidableEq κ] {key : ρ → κ} {k : κ} {f : ρ → ρ} {rs rs' : List ρ}

/-- The records with the first one under a key changed, if there is one. -/
def changeFirst (key : ρ → κ) (k : κ) (f : ρ → ρ) : List ρ → Option (List ρ)
  | [] => none
  | r :: rs => if key r = k then some (f r :: rs) else (changeFirst key k f rs).map (r :: ·)

theorem changeFirst_isSome : (changeFirst key k f rs).isSome ↔ k ∈ rs.map key := by
  induction rs with
  | nil => simp [changeFirst]
  | cons r rs ih =>
    rw [changeFirst, List.map_cons, List.mem_cons]
    split
    · next h => exact ⟨fun _ => .inl h.symm, fun _ => rfl⟩
    · next h =>
      rw [Option.isSome_map, ih]
      exact ⟨.inr, fun hmem => hmem.resolve_left fun heq => h heq.symm⟩

/-- A change that keeps its record's key keeps the keys. -/
theorem changeFirst_keys (hf : ∀ r, key (f r) = key r) (h : changeFirst key k f rs = some rs') :
    rs'.map key = rs.map key := by
  induction rs generalizing rs' with
  | nil => cases h
  | cons r rs ih =>
    rw [changeFirst] at h
    split at h
    · cases h
      rw [List.map_cons, List.map_cons, hf]
    · obtain ⟨changed, hchanged, rfl⟩ := Option.map_eq_some_iff.mp h
      rw [List.map_cons, List.map_cons, ih hchanged]

/-- A change to the record that was added last, under a key that was new. -/
theorem changeFirst_last {r : ρ} (hnew : key r ∉ rs.map key) :
    changeFirst key (key r) f (rs ++ [r]) = some (rs ++ [f r]) := by
  induction rs with
  | nil => rw [List.nil_append, changeFirst, if_pos rfl, List.nil_append]
  | cons first rs ih =>
    rw [List.map_cons, List.mem_cons, not_or] at hnew
    rw [List.cons_append, changeFirst, if_neg fun h => hnew.1 h.symm, ih hnew.2]
    rfl

end Ledgers
