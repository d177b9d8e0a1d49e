import DcMatcher.Dcql.Eval
import DcMatcher.Lib.Levels

/-!
# Claims path pointers

`siros-dcql/src/path.rs`: a pointer is processed against a JSON credential component by
component. A component of the wrong kind for an element aborts; a key or an index that is
not there drops the element.

Results:
1. `resolveJson_eq`: processing a pointer is a descent by levels.
2. `resolveJson_append`: the pointer `p ++ q` gives what `q` gives for the elements that
   `p` selects.
-/

namespace DcMatcher

/-- `usize::try_from` on a `u64`. -/
def usizeOf (w : PointerWidth) (i : UInt64) : Option Nat :=
  if i.toNat ≤ w.usizeMax then some i.toNat else none

/-- What a component selects from one element, or `none` where the element is of the wrong
kind. -/
def PathComponent.select (w : PointerWidth) : PathComponent → Value → Option (List Value)
  | .key k, element => element.asObject.map fun object => (Map.get object k).toList
  | .null, element => element.asArray
  | .index i, element =>
    element.asArray.map fun array => ((usizeOf w i).bind fun i => array[i]?).toList

/-- An empty selection is an error, not an empty result. -/
def selectionResult : Except Nat (List Value) → Except PathError (List Value)
  | .error position => .error (.typeMismatch position)
  | .ok [] => .error .empty
  | .ok (first :: others) => .ok (first :: others)

/-- `resolve_json`. -/
def resolveJson (w : PointerWidth) (root : Value) (path : List PathComponent) :
    Except PathError (List Value) :=
  if path.isEmpty then .error .malformed
  else selectionResult (Levels.descend (PathComponent.select w) 0 path [root])

/-! ## 1. Results -/

section Results

variable {r : Except Nat (List Value)}

theorem selectionResult_eq_mismatch {n : Nat} :
    selectionResult r = .error (.typeMismatch n) ↔ r = .error n := by
  unfold selectionResult
  split <;> simp

theorem selectionResult_eq_empty : selectionResult r = .error .empty ↔ r = .ok [] := by
  unfold selectionResult
  split <;> simp

theorem selectionResult_eq_ok {out : List Value} :
    selectionResult r = .ok out ↔ r = .ok out ∧ out ≠ [] := by
  unfold selectionResult
  split
  · simp
  · simp only [reduceCtorEq, Except.ok.injEq, false_iff]
    rintro ⟨rfl, hsome⟩
    exact hsome rfl
  · simp only [Except.ok.injEq]
    constructor
    · rintro rfl
      exact ⟨rfl, List.cons_ne_nil _ _⟩
    · exact fun h => h.1

/-- What is reported as selected is what was selected. -/
theorem selected_selectionResult :
    ((selectionResult r).toOption.getD []) = Levels.selected r := by
  unfold selectionResult
  split <;> rfl

end Results

variable {w : PointerWidth}

/-- The descent of a pointer from one element. -/
def descent (w : PointerWidth) (path : List PathComponent) (root : Value) :
    Except Nat (List Value) :=
  Levels.descend (PathComponent.select w) 0 path [root]

theorem resolveJson_eq {root : Value} {path : List PathComponent} (h : path ≠ []) :
    resolveJson w root path = selectionResult (descent w path root) := by
  cases path with
  | nil => exact absurd rfl h
  | cons component path => rfl

/-! ## 2. Composition -/

/-- After the elements that `p` selects, `q` goes on from each of them, its positions
counted after `p`. -/
theorem descent_append {v : Value} {p q : List PathComponent} {selected : List Value}
    (h : descent w p v = .ok selected) :
    descent w (p ++ q) v =
      (Levels.descend (PathComponent.select w) 0 q selected).mapError fun n => n + p.length := by
  rw [descent, Levels.descend_append_steps, show Levels.descend _ 0 p [v] = _ from h]
  exact Levels.descend_add 0 p.length q selected

/-- An error of `p` is the error of `p ++ q`. -/
theorem resolveJson_append_error {v : Value} {p q : List PathComponent} (hp : p ≠ [])
    {e : PathError} (h : resolveJson w v p = .error e) : resolveJson w v (p ++ q) = .error e := by
  rw [resolveJson_eq (List.append_ne_nil_of_left_ne_nil hp q)]
  rw [resolveJson_eq hp] at h
  cases hdescent : descent w p v with
  | error n =>
    rw [hdescent] at h
    rw [← h, descent, Levels.descend_append_steps, show Levels.descend _ 0 p [v] = _ from hdescent]
    rfl
  | ok selected =>
    -- without a stop, the error is that nothing was selected, and nothing more is
    cases selected with
    | nil =>
      rw [hdescent] at h
      rw [← h, descent_append hdescent, Levels.descend_nil]
      rfl
    | cons first others =>
      rw [hdescent] at h
      cases h

section Append

variable {v : Value} {p q : List PathComponent} {selected : List Value}

/-- The result of `p ++ q`, from the descent of `q` from what `p` selects. -/
theorem resolveJson_append_ok (hp : p ≠ []) (h : resolveJson w v p = .ok selected) :
    (∀ n, resolveJson w v (p ++ q) = .error (.typeMismatch n) ↔
      ∃ k, Levels.descend (PathComponent.select w) 0 q selected = .error k ∧ n = p.length + k) ∧
    (resolveJson w v (p ++ q) = .error .empty ↔
      Levels.descend (PathComponent.select w) 0 q selected = .ok []) ∧
    ∀ out, resolveJson w v (p ++ q) = .ok out ↔
      Levels.descend (PathComponent.select w) 0 q selected = .ok out ∧ out ≠ [] := by
  rw [resolveJson_eq hp, selectionResult_eq_ok] at h
  rw [resolveJson_eq (List.append_ne_nil_of_left_ne_nil hp q), descent_append h.1]
  cases Levels.descend (PathComponent.select w) 0 q selected with
  | error k =>
    refine ⟨fun n => ?_, ?_, fun out => ?_⟩
    · simp [selectionResult, Except.mapError, Nat.add_comm, eq_comm]
    · simp [selectionResult, Except.mapError]
    · simp [selectionResult, Except.mapError]
  | ok out =>
    refine ⟨fun n => ?_, selectionResult_eq_empty, fun out => selectionResult_eq_ok⟩
    simp [selectionResult_eq_mismatch, Except.mapError]

theorem mem_stops_iff (hq : q ≠ []) {k : Nat} :
    k ∈ Levels.Stops (PathComponent.select w) 0 q selected ↔
      ∃ e ∈ selected, resolveJson w e q = .error (.typeMismatch k) := by
  refine exists_congr fun e => and_congr_right fun _ => ?_
  rw [resolveJson_eq hq, selectionResult_eq_mismatch]
  rfl

/-- The descent of `q` ends for an element unless `q` is a mismatch for it. -/
theorem descent_eq_ok_iff (hq : q ≠ []) (e : Value) :
    (∃ ys, descent w q e = .ok ys) ↔ ∀ k, resolveJson w e q ≠ .error (.typeMismatch k) := by
  rw [resolveJson_eq hq]
  cases descent w q e with
  | error k =>
    simp only [reduceCtorEq, exists_false, false_iff, not_forall]
    exact ⟨k, not_not.mpr rfl⟩
  | ok ys => simp [selectionResult_eq_mismatch]

theorem descent_eq_nil_iff (hq : q ≠ []) (e : Value) :
    descent w q e = .ok [] ↔ resolveJson w e q = .error .empty := by
  rw [resolveJson_eq hq, selectionResult_eq_empty]

theorem descend_eq_ok_iff (hq : q ≠ []) {out : List Value} :
    Levels.descend (PathComponent.select w) 0 q selected = .ok out ↔
      (∀ e ∈ selected, ∀ k, resolveJson w e q ≠ .error (.typeMismatch k)) ∧
        out = selected.flatMap fun e => (resolveJson w e q).toOption.getD [] := by
  rw [Levels.descend_eq_ok_iff]
  refine and_congr (forall₂_congr fun e _ => descent_eq_ok_iff hq e) ?_
  simp only [resolveJson_eq hq, selected_selectionResult]
  rfl

/-- Nothing is selected exactly when `q` is empty for every element. -/
theorem descend_eq_nil_iff (hq : q ≠ []) :
    Levels.descend (PathComponent.select w) 0 q selected = .ok [] ↔
      ∀ e ∈ selected, resolveJson w e q = .error .empty := by
  rw [Levels.descend_eq_ok_iff]
  constructor
  · rintro ⟨hall, hnil⟩ e he
    obtain ⟨ys, hys⟩ := hall e he
    have hempty := List.flatMap_eq_nil_iff.mp hnil.symm e he
    rw [hys] at hempty
    rw [← descent_eq_nil_iff hq, show descent w q e = _ from hys, show ys = [] from hempty]
  · intro hall
    refine ⟨fun e he => ⟨[], (descent_eq_nil_iff hq e).mpr (hall e he)⟩, ?_⟩
    refine (List.flatMap_eq_nil_iff.mpr fun e he => ?_).symm
    rw [show Levels.descend _ 0 q [e] = _ from (descent_eq_nil_iff hq e).mpr (hall e he)]
    rfl

end Append

/-- The pointer `p ++ q` selects what `q` selects from the elements of `p`, in order. It is a
mismatch exactly when `q` is one for some element, at the first position where that
happens, and empty exactly when `q` is empty for all of them. -/
theorem resolveJson_append (w : PointerWidth) (v : Value) (p q : List PathComponent)
    (hp : p ≠ []) (hq : q ≠ []) :
    (∀ selected, resolveJson w v p = .ok selected →
      ((∃ n, resolveJson w v (p ++ q) = .error (.typeMismatch n)) ↔
        ∃ e ∈ selected, ∃ k, resolveJson w e q = .error (.typeMismatch k)) ∧
      (∀ n, resolveJson w v (p ++ q) = .error (.typeMismatch n) ↔
        ∃ k, IsLeast { k | ∃ e ∈ selected, resolveJson w e q = .error (.typeMismatch k) } k ∧
          n = p.length + k) ∧
      (resolveJson w v (p ++ q) = .error .empty ↔
        ∀ e ∈ selected, resolveJson w e q = .error .empty) ∧
      ∀ out, resolveJson w v (p ++ q) = .ok out ↔
        (∀ e ∈ selected, ∀ k, resolveJson w e q ≠ .error (.typeMismatch k)) ∧
          (∃ e ∈ selected, resolveJson w e q ≠ .error .empty) ∧
          out = selected.flatMap fun e => (resolveJson w e q).toOption.getD []) ∧
    ∀ e, resolveJson w v p = .error e → resolveJson w v (p ++ q) = .error e := by
  refine ⟨fun selected h => ?_, fun e => resolveJson_append_error hp⟩
  obtain ⟨hmismatch, hempty, hok⟩ := @resolveJson_append_ok w v p q selected hp h
  have hstops : { k | ∃ e ∈ selected, resolveJson w e q = .error (.typeMismatch k) } =
      Levels.Stops (PathComponent.select w) 0 q selected :=
    Set.ext fun k => (mem_stops_iff hq).symm
  refine ⟨?_, fun n => ?_, hempty.trans (descend_eq_nil_iff hq), fun out => ?_⟩
  · constructor
    · rintro ⟨n, hn⟩
      obtain ⟨k, hk, _⟩ := (hmismatch n).mp hn
      obtain ⟨e, he, hstop⟩ := (mem_stops_iff hq).mp (Levels.descend_eq_error_iff.mp hk).1
      exact ⟨e, he, k, hstop⟩
    · rintro ⟨e, he, k, hk⟩
      cases hdescend : Levels.descend (PathComponent.select w) 0 q selected with
      | ok out => exact absurd hk (((descend_eq_ok_iff hq).mp hdescend).1 e he k)
      | error n => exact ⟨_, (hmismatch _).mpr ⟨n, hdescend, rfl⟩⟩
  · rw [hmismatch, hstops]
    exact exists_congr fun k => and_congr_left fun _ => Levels.descend_eq_error_iff
  · rw [hok, descend_eq_ok_iff hq, and_assoc]
    refine and_congr_right fun hall => ?_
    rw [and_comm]
    refine and_congr_left fun hout => ?_
    -- something is selected unless `q` is empty for every element
    have hnil := @descend_eq_nil_iff w q selected hq
    rw [descend_eq_ok_iff hq, ← hout] at hnil
    constructor
    · intro hsome
      by_contra hnone
      push Not at hnone
      exact hsome (hnil.mpr hnone).2.symm
    · rintro ⟨e, he, hsome⟩ rfl
      exact hsome (hnil.mp ⟨hall, rfl⟩ e he)

/-- Two elements of an array, one of which has the key. -/
theorem resolveJson_append_degrees :
    let degrees := [Value.ofMembers [("type", .string "BA")], .ofMembers [("other", .null)]]
    resolveJson .w32 (.ofMembers [("degrees", .array degrees)])
        ([.key "degrees", .null] ++ [.key "type"]) =
      .ok [.string "BA"] := by
  intro degrees
  have hcomposes := resolveJson_append .w32 (.ofMembers [("degrees", .array degrees)])
    [.key "degrees", .null] [.key "type"] (by decide) (by decide)
  refine ((hcomposes.1 degrees rfl).2.2.2 [.string "BA"]).mpr ⟨?_, ?_, rfl⟩
  · intro e he k
    rcases List.mem_pair.mp he with rfl | rfl <;> exact fun h => by cases h
  · exact ⟨_, List.mem_cons_self, fun h => by cases h⟩

end DcMatcher
