import Mathlib.Data.List.Basic
import Mathlib.Data.List.Forall2
import Mathlib.Data.List.Nodup
import Mathlib.Data.List.Perm.Basic

/-!
# Lists that a check walks through

Nothing here names a program. Three loops that recur in checkers, each with the
statement it establishes:

1. `collect_eq_some`: reading every element, or nothing when one cannot be read.
2. `collectOk_eq_ok`: the same, with the first error reported.
3. `firstRepeat_eq_none`: looking for an element that occurred before.

Also `findSome?_bind_eq_iff`: when a search may stop at the first of two stages;
`find?_key_of_mem`: with distinct keys, a lookup by key finds every element;
`picks_filterMap`: what a filter keeps, by the relation it decides;
`zipIdx_filter_eq_cons`: what qualifies, with its index; `UpToOrder`: lists that are related in
some order; and facts on keys and on lists side by side.
-/

namespace Lists

variable {α β ε : Type}

/-! ## Steps that may fail -/

theorem bind_eq_ok {x : Except ε α} {f : α → Except ε β} {b : β} :
    x >>= f = .ok b ↔ ∃ a, x = .ok a ∧ f a = .ok b := by
  cases x with
  | error e => simp [bind, Except.bind]
  | ok a => simp [bind, Except.bind]

theorem map_eq_ok {x : Except ε α} {f : α → β} {b : β} :
    x.map f = .ok b ↔ ∃ a, x = .ok a ∧ f a = b := by
  cases x with
  | error e => simp [Except.map]
  | ok a => simp [Except.map]

/-- A computation of whose result something is known succeeds, with such a result. -/
theorem exists_ok_of_toOption {x : Except ε α} {f : α → β} {b : β}
    (h : x.toOption.map f = some b) : ∃ a, x = .ok a ∧ f a = b := by
  cases x with
  | error e => cases h
  | ok a => exact ⟨a, rfl, Option.some.inj h⟩

theorem map_eq_error {x : Except ε α} {f : α → β} {e : ε} :
    x.map f = .error e ↔ x = .error e := by
  cases x <;> simp [Except.map]

/-! ## Lists side by side -/

/-- A filter that keeps something for every element keeps it element by element. -/
theorem forall₂_filterMap {R : α → β → Prop} {f : α → Option β} {xs : List α}
    (h : ∀ x ∈ xs, ∃ y, f x = some y ∧ R x y) : List.Forall₂ R xs (xs.filterMap f) := by
  induction xs with
  | nil => exact .nil
  | cons x xs ih =>
    obtain ⟨y, hy, hR⟩ := h x List.mem_cons_self
    rw [List.filterMap_cons_some hy]
    exact .cons hR (ih fun x' hx' => h x' (List.mem_cons_of_mem x hx'))

/-- What a filter keeps of a mapped list, element by element. -/
theorem filter_map_eq_flatMap {f : α → β} {p : β → Bool} (xs : List α) :
    (xs.map f).filter p = xs.flatMap fun x => if p (f x) then [f x] else [] := by
  induction xs with
  | nil => rfl
  | cons x xs ih =>
    rw [List.map_cons, List.filter_cons, List.flatMap_cons, ← ih]
    split <;> rfl

theorem forall₂_flatMap {γ : Type} {R : β → γ → Prop} {f : α → List β} {g : α → List γ}
    {xs : List α} (h : ∀ x ∈ xs, List.Forall₂ R (f x) (g x)) :
    List.Forall₂ R (xs.flatMap f) (xs.flatMap g) := by
  induction xs with
  | nil => exact .nil
  | cons x xs ih =>
    rw [List.flatMap_cons, List.flatMap_cons]
    exact List.rel_append (h x List.mem_cons_self)
      (ih fun y hy => h y (List.mem_cons_of_mem x hy))

/-- A second relation that depends on the left elements alone holds throughout exactly when it
holds for each of them. -/
theorem forall₂_and_iff {R P : α → β → Prop} {F : α → Prop} {xs : List α} {ys : List β}
    (h : List.Forall₂ (fun x y => R x y ∧ (P x y ↔ F x)) xs ys) :
    List.Forall₂ (fun x y => R x y ∧ P x y) xs ys ↔ ∀ x ∈ xs, F x := by
  induction h with
  | nil => simp
  | cons hxy _ ih => rw [List.forall₂_cons, List.forall_mem_cons, ih, hxy.2, and_iff_right hxy.1]

/-- Properties that agree on related elements hold of all elements alike. -/
theorem forall₂_forall_iff {R : α → β → Prop} {P : α → Prop} {Q : β → Prop} {xs : List α}
    {ys : List β} (h : List.Forall₂ R xs ys) (hPQ : ∀ x y, R x y → (P x ↔ Q y)) :
    (∀ x ∈ xs, P x) ↔ ∀ y ∈ ys, Q y := by
  induction h with
  | nil => simp
  | cons hxy _ ih => simp only [List.forall_mem_cons, hPQ _ _ hxy, ih]

theorem forall₂_trans {γ : Type} {R : α → β → Prop} {S : β → γ → Prop} {T : α → γ → Prop}
    {xs : List α} {ys : List β} {zs : List γ} (h : List.Forall₂ R xs ys)
    (h' : List.Forall₂ S ys zs) (hRST : ∀ x y z, R x y → S y z → T x z) : List.Forall₂ T xs zs := by
  induction h generalizing zs with
  | nil =>
    cases h'
    exact .nil
  | cons hxy _ ih =>
    rcases h' with _ | ⟨hyz, hrest⟩
    exact .cons (hRST _ _ _ hxy hyz) (ih hrest)

/-- Functions that agree on related elements map to the same list. -/
theorem forall₂_map_eq {γ : Type} {R : α → β → Prop} {f : α → γ} {g : β → γ}
    {xs : List α} {ys : List β} (h : List.Forall₂ R xs ys) (hfg : ∀ x y, R x y → f x = g y) :
    xs.map f = ys.map g := by
  induction h with
  | nil => rfl
  | cons hxy _ ih => rw [List.map_cons, List.map_cons, hfg _ _ hxy, ih]

/-- Functions that agree on related elements filter to the same list. -/
theorem forall₂_filterMap_eq {γ : Type} {R : α → β → Prop} {f : α → Option γ} {g : β → Option γ}
    {xs : List α} {ys : List β} (h : List.Forall₂ R xs ys) (hfg : ∀ x y, R x y → f x = g y) :
    xs.filterMap f = ys.filterMap g := by
  induction h with
  | nil => rfl
  | cons hxy _ ih => rw [List.filterMap_cons, List.filterMap_cons, hfg _ _ hxy, ih]

/-- Two lookups in related lists find the same, as far as `f` and `g` tell. -/
theorem find?_map_eq {γ : Type} {R : α → β → Prop} {p : α → Bool} {q : β → Bool} {f : α → γ}
    {g : β → γ} {xs : List α} {ys : List β} (h : List.Forall₂ R xs ys)
    (hpq : ∀ x y, R x y → p x = q y) (hfg : ∀ x y, R x y → f x = g y) :
    (xs.find? p).map f = (ys.find? q).map g := by
  induction h with
  | nil => rfl
  | @cons x y xs ys hxy _ ih =>
    rw [List.find?_cons, List.find?_cons, hpq x y hxy]
    cases q y with
    | true => exact congrArg some (hfg x y hxy)
    | false => exact ih

/-- Related elements are elements. -/
theorem forall₂_and_mem_left {R : α → β → Prop} {xs : List α} {ys : List β}
    (h : List.Forall₂ R xs ys) : List.Forall₂ (fun x y => x ∈ xs ∧ R x y) xs ys := by
  induction h with
  | nil => exact .nil
  | cons hxy _ ih =>
    exact .cons ⟨List.mem_cons_self, hxy⟩
      (ih.imp fun _ _ h => ⟨List.mem_cons_of_mem _ h.1, h.2⟩)

theorem forall₂_mem_left {R : α → β → Prop} {xs : List α} {ys : List β}
    (h : List.Forall₂ R xs ys) {x : α} (hx : x ∈ xs) : ∃ y ∈ ys, R x y := by
  induction h with
  | nil => cases hx
  | cons hxy _ ih =>
    rcases List.mem_cons.mp hx with rfl | hx
    · exact ⟨_, List.mem_cons_self, hxy⟩
    · obtain ⟨y, hy, hR⟩ := ih hx
      exact ⟨y, List.mem_cons_of_mem _ hy, hR⟩

theorem forall₂_mem_right {R : α → β → Prop} {xs : List α} {ys : List β}
    (h : List.Forall₂ R xs ys) {y : β} (hy : y ∈ ys) : ∃ x ∈ xs, R x y := by
  induction h with
  | nil => cases hy
  | cons hxy _ ih =>
    rcases List.mem_cons.mp hy with rfl | hy
    · exact ⟨_, List.mem_cons_self, hxy⟩
    · obtain ⟨x, hx, hR⟩ := ih hy
      exact ⟨x, List.mem_cons_of_mem _ hx, hR⟩

/-! ## Lists up to the order -/

/-- The elements are related, one to one, in some order. -/
def UpToOrder (R : α → β → Prop) (xs : List α) (ys : List β) : Prop :=
  ∃ zs, xs.Perm zs ∧ List.Forall₂ R zs ys

section UpToOrder

variable {R : α → β → Prop} {xs : List α} {ys : List β}

theorem UpToOrder.exists_right (h : UpToOrder R xs ys) {x : α} (hx : x ∈ xs) :
    ∃ y ∈ ys, R x y := by
  obtain ⟨zs, hperm, hall⟩ := h
  exact forall₂_mem_left hall (hperm.mem_iff.mp hx)

theorem UpToOrder.exists_left (h : UpToOrder R xs ys) {y : β} (hy : y ∈ ys) :
    ∃ x ∈ xs, R x y := by
  obtain ⟨zs, hperm, hall⟩ := h
  obtain ⟨z, hz, hR⟩ := forall₂_mem_right hall hy
  exact ⟨z, hperm.mem_iff.mpr hz, hR⟩

theorem UpToOrder.symm {R : α → α → Prop} {xs ys : List α} (hR : ∀ {x y}, R x y → R y x)
    (h : UpToOrder R xs ys) : UpToOrder R ys xs := by
  obtain ⟨zs, hperm, hall⟩ := h
  obtain ⟨ws, hws, hperm'⟩ := List.perm_comp_forall₂ hperm hall
  exact ⟨ws, hperm'.symm, hws.flip.imp fun _ _ => hR⟩

/-- Counts agree where the relation preserves what is counted. -/
theorem UpToOrder.countP_eq {p : α → Bool} {q : β → Bool} (hpq : ∀ {x y}, R x y → p x = q y)
    (h : UpToOrder R xs ys) : xs.countP p = ys.countP q := by
  obtain ⟨zs, hperm, hall⟩ := h
  rw [hperm.countP_eq p]
  clear hperm
  induction hall with
  | nil => rfl
  | cons hR _ ih => rw [List.countP_cons, List.countP_cons, hpq hR, ih]

/-- So do the images under functions that the relation respects, up to their order. -/
theorem UpToOrder.map_perm {γ : Type} {f : α → γ} {g : β → γ} (hfg : ∀ {x y}, R x y → f x = g y)
    (h : UpToOrder R xs ys) : (xs.map f).Perm (ys.map g) := by
  obtain ⟨zs, hperm, hall⟩ := h
  rw [← forall₂_map_eq hall fun _ _ => hfg]
  exact hperm.map f

end UpToOrder

/-! ## Proper prefixes -/

/-- A proper prefix of two parts ends in the first or in the second. -/
theorem prefix_append_cases {p xs ys : List α} (h : p <+: xs ++ ys) (hne : p ≠ xs ++ ys) :
    (p <+: xs ∧ p ≠ xs) ∨ ∃ q, p = xs ++ q ∧ q <+: ys ∧ q ≠ ys := by
  obtain ⟨s, hs⟩ := h
  rcases List.append_eq_append_iff.mp hs with ⟨r, rfl, rfl⟩ | ⟨q, rfl, rfl⟩
  · by_cases hr : r = []
    · subst hr
      refine .inr ⟨[], by simp, List.nil_prefix, ?_⟩
      rintro rfl
      exact hne (by simp)
    · exact .inl ⟨List.prefix_append p r, fun heq => hr (List.self_eq_append_right.mp heq)⟩
  · exact .inr ⟨q, rfl, List.prefix_append q s, fun heq => hne (by rw [← heq])⟩

theorem prefix_length_lt {p xs : List α} (h : p <+: xs) (hne : p ≠ xs) :
    p.length < xs.length :=
  Nat.lt_of_le_of_ne h.length_le fun heq => hne (h.eq_of_length heq)

/-! ## What a filter keeps -/

/-- `ys` is what the relation gives for the elements of `xs` that it gives something for, in
their order. -/
inductive Picks (R : α → β → Prop) : List α → List β → Prop
  | nil : Picks R [] []
  | skip {x : α} {xs : List α} {ys : List β} :
      (∀ y, ¬ R x y) → Picks R xs ys → Picks R (x :: xs) ys
  | keep {x : α} {y : β} {xs : List α} {ys : List β} :
      R x y → Picks R xs ys → Picks R (x :: xs) (y :: ys)

/-- A filter picks what the relation it decides gives. -/
theorem picks_filterMap {R : α → β → Prop} {f : α → Option β} {xs : List α}
    (h : ∀ x ∈ xs, ∀ y, f x = some y ↔ R x y) : Picks R xs (xs.filterMap f) := by
  induction xs with
  | nil => exact .nil
  | cons x xs ih =>
    have hhead := h x List.mem_cons_self
    have htail := ih fun x' hx' => h x' (List.mem_cons_of_mem x hx')
    cases hx : f x with
    | none =>
      rw [List.filterMap_cons_none hx]
      refine .skip (fun y hy => ?_) htail
      cases hx.symm.trans ((hhead y).mpr hy)
    | some y =>
      rw [List.filterMap_cons_some hx]
      exact .keep ((hhead y).mp hx) htail

/-! ## Reading every element -/

/-- Every element read, or `none`. -/
def collect (f : α → Option β) : List α → Option (List β)
  | [] => some []
  | x :: xs =>
    match f x with
    | none => none
    | some y => (collect f xs).map fun ys => y :: ys

theorem collect_eq_some {f : α → Option β} {xs : List α} {ys : List β} :
    collect f xs = some ys ↔ List.Forall₂ (fun x y => f x = some y) xs ys := by
  induction xs generalizing ys with
  | nil => simp [collect, List.forall₂_nil_left_iff, eq_comm]
  | cons x xs ih =>
    rw [collect]
    cases hx : f x with
    | none => simp [List.forall₂_cons_left_iff, hx]
    | some y => simp [List.forall₂_cons_left_iff, hx, ih, Option.map_eq_some_iff, eq_comm]

theorem collect_congr {f g : α → Option β} {xs : List α} (h : ∀ x ∈ xs, f x = g x) :
    collect f xs = collect g xs := by
  induction xs with
  | nil => rfl
  | cons x xs ih =>
    obtain ⟨hx, hxs⟩ := List.forall_mem_cons.mp h
    rw [collect, collect, hx, ih hxs]

/-- Two readers that read the same, as far as `f` and `g` tell, read the same lists. -/
theorem collect_map_eq {γ δ : Type} {r : α → Option β} {r' : α → Option γ} {f : β → δ} {g : γ → δ}
    {xs : List α} (h : ∀ x ∈ xs, (r x).map f = (r' x).map g) :
    (collect r xs).map (List.map f) = (collect r' xs).map (List.map g) := by
  induction xs with
  | nil => rfl
  | cons x xs ih =>
    obtain ⟨hx, hxs⟩ := List.forall_mem_cons.mp h
    have htail := ih hxs
    rw [collect, collect]
    cases hread : r x with
    | none =>
      rw [hread, Option.map_none, eq_comm, Option.map_eq_none_iff] at hx
      rw [hx]
      rfl
    | some y =>
      rw [hread, Option.map_some, eq_comm, Option.map_eq_some_iff] at hx
      obtain ⟨y', hread', hy⟩ := hx
      rw [hread']
      simp only [Option.map_map]
      have hcons : List.map f ∘ (fun ys => y :: ys) = (fun zs => f y :: zs) ∘ List.map f := rfl
      have hcons' : List.map g ∘ (fun ys => y' :: ys) = (fun zs => g y' :: zs) ∘ List.map g := rfl
      rw [hcons, hcons', hy, ← Option.map_map, htail, Option.map_map]

/-- Where every element can be read, nothing is filtered out. -/
theorem filterMap_of_collect {f : α → Option β} {xs : List α} {ys : List β}
    (h : collect f xs = some ys) : xs.filterMap f = ys := by
  have hall := collect_eq_some.mp h
  clear h
  induction hall with
  | nil => rfl
  | cons hxy _ ih => rw [List.filterMap_cons_some hxy, ih]

/-- If every element can be read, all are. -/
theorem exists_collect {f : α → Option β} {xs : List α} (h : ∀ x ∈ xs, ∃ y, f x = some y) :
    ∃ ys, collect f xs = some ys := by
  induction xs with
  | nil => exact ⟨[], rfl⟩
  | cons x xs ih =>
    obtain ⟨y, hy⟩ := h x List.mem_cons_self
    obtain ⟨ys, hys⟩ := ih fun x' hx' => h x' (List.mem_cons_of_mem x hx')
    exact ⟨y :: ys, by rw [collect, hy, hys]; rfl⟩

/-- Every element read, or the first error. -/
def collectOk (f : α → Except ε β) : List α → Except ε (List β)
  | [] => .ok []
  | x :: xs =>
    match f x with
    | .error e => .error e
    | .ok y => (collectOk f xs).map fun ys => y :: ys

theorem collectOk_eq_ok {f : α → Except ε β} {xs : List α} {ys : List β} :
    collectOk f xs = .ok ys ↔ List.Forall₂ (fun x y => f x = .ok y) xs ys := by
  induction xs generalizing ys with
  | nil => simp [collectOk, List.forall₂_nil_left_iff, eq_comm]
  | cons x xs ih =>
    rw [collectOk]
    cases hx : f x with
    | error e => simp [List.forall₂_cons_left_iff, hx]
    | ok y =>
      cases hxs : collectOk f xs with
      | error e =>
        rw [hxs] at ih
        have hno : ∀ zs, ¬ List.Forall₂ (fun x y => f x = .ok y) xs zs := fun zs h => by
          cases ih.mpr h
        simp [Except.map, List.forall₂_cons_left_iff, hx, hno]
      | ok zs =>
        rw [hxs] at ih
        simp only [Except.map, Except.ok.injEq, List.forall₂_cons_left_iff, hx]
        constructor
        · rintro rfl
          exact ⟨y, zs, rfl, ih.mp rfl, rfl⟩
        · rintro ⟨y', zs', rfl, hzs, rfl⟩
          rw [Except.ok.inj (ih.mpr hzs)]

/-- An error is that of an element. -/
theorem collectOk_eq_error {f : α → Except ε β} {xs : List α} {e : ε}
    (h : collectOk f xs = .error e) : ∃ x ∈ xs, f x = .error e := by
  induction xs with
  | nil => cases h
  | cons x xs ih =>
    rw [collectOk] at h
    cases hx : f x with
    | error e' =>
      rw [hx] at h
      cases h
      exact ⟨x, List.mem_cons_self, hx⟩
    | ok y =>
      rw [hx] at h
      cases hxs : collectOk f xs with
      | error e' =>
        rw [hxs] at h
        cases h
        obtain ⟨x', hx', he⟩ := ih hxs
        exact ⟨x', List.mem_cons_of_mem x hx', he⟩
      | ok ys =>
        rw [hxs] at h
        cases h

/-- There is an error exactly when an element has one. -/
theorem exists_collectOk_error_iff {f : α → Except ε β} {xs : List α} :
    (∃ e, collectOk f xs = .error e) ↔ ∃ x ∈ xs, ∃ e, f x = .error e := by
  constructor
  · rintro ⟨e, h⟩
    obtain ⟨x, hx, he⟩ := collectOk_eq_error h
    exact ⟨x, hx, e, he⟩
  · rintro ⟨x, hx, e, he⟩
    cases h : collectOk f xs with
    | error e' => exact ⟨e', rfl⟩
    | ok ys =>
      obtain ⟨y, _, hy⟩ := forall₂_mem_left (collectOk_eq_ok.mp h) hx
      rw [he] at hy
      cases hy

/-! ## Looking for the first -/

/-- A search that decides on the first stage alone agrees with a search for both stages if
and only if, where the first element of the first stage fails the second, all do. -/
theorem findSome?_bind_eq_iff {γ : Type} {f : α → Option β} {g : β → Option γ} {xs : List α} :
    (xs.findSome? f).bind g = xs.findSome? (fun x => (f x).bind g) ↔
      ∀ y, xs.findSome? f = some y → g y = none → ∀ x ∈ xs, (f x).bind g = none := by
  constructor
  · intro h y hy hg
    rw [hy, Option.bind_some, hg] at h
    exact List.findSome?_eq_none_iff.mp h.symm
  · intro h
    cases hy : xs.findSome? f with
    | none =>
      have hnone := List.findSome?_eq_none_iff.mp hy
      refine (List.findSome?_eq_none_iff.mpr fun x hx => ?_).symm
      rw [hnone x hx, Option.bind_none]
    | some y =>
      rw [Option.bind_some]
      cases hg : g y with
      | none => exact (List.findSome?_eq_none_iff.mpr (h y hy hg)).symm
      | some z =>
        obtain ⟨before, x, after, rfl, hx, hbefore⟩ := List.findSome?_eq_some_iff.mp hy
        refine (List.findSome?_eq_some_iff.mpr ⟨before, x, after, rfl, ?_, fun x' hx' => ?_⟩).symm
        · rw [hx, Option.bind_some, hg]
        · rw [hbefore x' hx', Option.bind_none]

/-! ## Keys -/

/-- With distinct keys, looking an element up by its key finds it. -/
theorem find?_key_of_mem [DecidableEq β] {key : α → β} {xs : List α} (h : (xs.map key).Nodup)
    {x : α} (hx : x ∈ xs) : xs.find? (fun y => key y == key x) = some x := by
  rw [List.find?_eq_some_iff_append]
  obtain ⟨before, after, hsplit⟩ := List.append_of_mem hx
  refine ⟨by simp, before, after, hsplit, fun y hy => ?_⟩
  rw [hsplit, List.map_append, List.map_cons, List.nodup_append] at h
  have hne : key y ≠ key x := h.2.2 _ (List.mem_map_of_mem hy) _ List.mem_cons_self
  simpa using hne

/-- With distinct keys, what only one element contributes to is what that element gives. -/
theorem flatMap_eq_of_unique {γ : Type} {key : α → γ} {f : α → List β} {xs : List α}
    (hkeys : (xs.map key).Nodup) {x : α} (hx : x ∈ xs)
    (h : ∀ y ∈ xs, key y ≠ key x → f y = []) : xs.flatMap f = f x := by
  obtain ⟨before, after, rfl⟩ := List.append_of_mem hx
  rw [List.map_append, List.map_cons, List.nodup_append, List.nodup_cons] at hkeys
  obtain ⟨_, ⟨hafter, _⟩, hbefore⟩ := hkeys
  have hnone : ∀ {ys : List α}, (∀ y ∈ ys, f y = []) → ys.flatMap f = [] := fun hys =>
    List.flatMap_eq_nil_iff.mpr hys
  rw [List.flatMap_append, List.flatMap_cons, hnone, hnone, List.nil_append, List.append_nil]
  · intro y hy
    refine h y (List.mem_append_right _ (List.mem_cons_of_mem x hy)) fun heq => ?_
    exact hafter (heq ▸ List.mem_map_of_mem hy)
  · intro y hy
    refine h y (List.mem_append_left _ hy) fun heq => ?_
    exact hbefore _ (List.mem_map_of_mem hy) _ List.mem_cons_self heq

/-- What is distinct in each part, and told apart between parts by a tag, is distinct. -/
theorem nodup_flatMap_of_tag {γ : Type} {f : α → List β} {tag : α → γ} {tag' : β → γ} {xs : List α}
    (hxs : (xs.map tag).Nodup) (htag : ∀ x ∈ xs, ∀ y ∈ f x, tag' y = tag x)
    (hf : ∀ x ∈ xs, (f x).Nodup) : (xs.flatMap f).Nodup := by
  rw [List.nodup_iff_pairwise_ne, List.pairwise_flatMap]
  refine ⟨hf, ?_⟩
  rw [List.nodup_iff_pairwise_ne, List.pairwise_map] at hxs
  refine hxs.imp_of_mem fun {x x'} hx hx' hne y hy y' hy' heq => hne ?_
  rw [← htag x hx y hy, ← htag x' hx' y' hy', heq]

/-- What a filter keeps has keys among those it started from, in order. -/
theorem map_filterMap_sublist {γ : Type} {f : α → Option β} {key : α → γ} {key' : β → γ}
    (h : ∀ x y, f x = some y → key' y = key x) (xs : List α) :
    ((xs.filterMap f).map key').Sublist (xs.map key) := by
  induction xs with
  | nil => exact List.Sublist.slnil
  | cons x xs ih =>
    cases hx : f x with
    | none =>
      rw [List.filterMap_cons_none hx]
      exact ih.cons _
    | some y =>
      rw [List.filterMap_cons_some hx, List.map_cons, List.map_cons, h x y hx]
      exact ih.cons_cons _

/-! ## Elements with their indices -/

/-- The first of the elements that qualify, with its index: what stands before it does not. -/
theorem zipIdx_filter_eq_cons {p : α → Bool} {xs : List α} {n i : Nat} {a : α}
    {rest : List (α × Nat)} (h : ((xs.zipIdx n).filter fun x => p x.1) = (a, i) :: rest) :
    ∃ before after, xs = before ++ a :: after ∧ (∀ x ∈ before, p x = false) ∧ p a = true ∧
      i = n + before.length ∧ ((after.zipIdx (i + 1)).filter fun x => p x.1) = rest := by
  induction xs generalizing n with
  | nil => cases h
  | cons x xs ih =>
    rw [List.zipIdx_cons, List.filter_cons] at h
    cases hx : p x with
    | true =>
      rw [if_pos hx] at h
      obtain ⟨hhead, rfl⟩ := List.cons.inj h
      cases hhead
      exact ⟨[], xs, rfl, fun y hy => absurd hy List.not_mem_nil, hx, rfl, rfl⟩
    | false =>
      rw [if_neg (Bool.eq_false_iff.mp hx)] at h
      obtain ⟨before, after, rfl, hbefore, ha, rfl, hrest⟩ := ih h
      refine ⟨x :: before, after, rfl, List.forall_mem_cons.mpr ⟨hx, hbefore⟩, ha, ?_, hrest⟩
      rw [List.length_cons]
      omega

theorem eq_map_self_iff {f : α → α} {xs : List α} : xs = xs.map f ↔ ∀ x ∈ xs, f x = x := by
  induction xs with
  | nil => simp
  | cons x xs ih => rw [List.map_cons, List.cons.injEq, ih, List.forall_mem_cons, eq_comm]

/-- No two elements are related if none are at two different places. -/
theorem pairwise_iff_not_exists {S : α → α → Prop} (hsymm : ∀ a b, S a b → S b a) {xs : List α} :
    xs.Pairwise (fun a b => ¬ S a b) ↔
      ¬ ∃ (i j : Nat) (a b : α), i ≠ j ∧ xs[i]? = some a ∧ xs[j]? = some b ∧ S a b := by
  rw [List.pairwise_iff_getElem]
  constructor
  · rintro h ⟨i, j, a, b, hne, ha, hb, hS⟩
    obtain ⟨hi, rfl⟩ := List.getElem?_eq_some_iff.mp ha
    obtain ⟨hj, rfl⟩ := List.getElem?_eq_some_iff.mp hb
    rcases Nat.lt_or_gt_of_ne hne with hlt | hlt
    · exact h i j hi hj hlt hS
    · exact h j i hj hi hlt (hsymm _ _ hS)
  · intro h i j hi hj hlt hS
    exact h ⟨i, j, xs[i], xs[j], Nat.ne_of_lt hlt, List.getElem?_eq_getElem hi,
      List.getElem?_eq_getElem hj, hS⟩

/-! ## Looking for a repetition -/

variable [DecidableEq α]

/-- The first element that is in `seen` or occurred before. -/
def firstRepeat (seen : List α) : List α → Option α
  | [] => none
  | x :: xs => if x ∈ seen then some x else firstRepeat (x :: seen) xs

theorem firstRepeat_eq_none_iff {seen xs : List α} :
    firstRepeat seen xs = none ↔ xs.Nodup ∧ ∀ x ∈ xs, x ∉ seen := by
  induction xs generalizing seen with
  | nil => simp [firstRepeat]
  | cons x xs ih =>
    rw [firstRepeat]
    by_cases hx : x ∈ seen
    · simp [hx]
    · rw [if_neg hx, ih, List.nodup_cons]
      constructor
      · rintro ⟨hnodup, hseen⟩
        refine ⟨⟨fun hmem => hseen x hmem List.mem_cons_self, hnodup⟩, ?_⟩
        intro y hy
        rcases List.mem_cons.mp hy with rfl | hy
        · exact hx
        · exact fun h => hseen y hy (List.mem_cons_of_mem x h)
      · rintro ⟨⟨hfresh, hnodup⟩, hseen⟩
        refine ⟨hnodup, fun y hy h => ?_⟩
        rcases List.mem_cons.mp h with rfl | h
        · exact hfresh hy
        · exact hseen y (List.mem_cons_of_mem x hy) h

theorem firstRepeat_eq_none {xs : List α} : firstRepeat [] xs = none ↔ xs.Nodup := by
  simp [firstRepeat_eq_none_iff]

end Lists
