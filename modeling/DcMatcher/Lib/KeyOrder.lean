import Mathlib.Data.List.Perm.Basic
import Mathlib.Order.Lattice

/-!
# Maps as lists in key order

Nothing here names a program. A map is a list of entries whose keys increase strictly; the
operations are the usual ones, for any linearly ordered keys.

Results:
1. `get_insert`, `Ordered.insert`: what an insertion changes, and that it keeps the order.
2. `Ordered.ext`: maps that give the same for every key are the same list.
3. `get_insertAll`: inserting the entries of a map, one by one.
4. `Ordered.insertAll_pick`: entries taken out of a map and put back with the others give
   the map.
-/

namespace KeyOrder

variable {K V : Type} [LinearOrder K]

/-- The value at a key. -/
def get (m : List (K × V)) (key : K) : Option V :=
  (m.find? fun entry => entry.1 == key).map Prod.snd

/-- An entry put at its key's place; it replaces the one that was there. -/
def insert : List (K × V) → K → V → List (K × V)
  | [], key, v => [(key, v)]
  | (k, w) :: m, key, v =>
    if k = key then (key, v) :: m
    else if key < k then (key, v) :: (k, w) :: m
    else (k, w) :: insert m key v

/-- All entries put in, one after the other. -/
def insertAll (m entries : List (K × V)) : List (K × V) :=
  entries.foldl (fun m entry => insert m entry.1 entry.2) m

/-- The keys increase strictly. -/
def Ordered (m : List (K × V)) : Prop := m.Pairwise fun a b => a.1 < b.1

theorem get_cons (k : K) (v : V) (m : List (K × V)) (key : K) :
    get ((k, v) :: m) key = if k = key then some v else get m key := by
  by_cases h : k = key <;> simp [get, h]

theorem get_insert (m : List (K × V)) (k : K) (v : V) (key : K) :
    get (insert m k v) key = if k = key then some v else get m key := by
  induction m with
  | nil => simp [insert, get_cons]
  | cons head m ih =>
    obtain ⟨k', w⟩ := head
    rw [insert]
    split
    · next hk =>
      subst hk
      simp only [get_cons]
      split <;> rfl
    · next hk =>
      split
      · simp only [get_cons]
      · simp only [get_cons, ih]
        split
        · next hk' => rw [if_neg (fun h => hk (hk'.trans h.symm))]
        · rfl

/-! ## The order -/

theorem ordered_nil : Ordered ([] : List (K × V)) := List.Pairwise.nil

theorem mem_insert {m : List (K × V)} {k : K} {v : V} {entry : K × V}
    (h : entry ∈ insert m k v) : entry = (k, v) ∨ entry ∈ m := by
  induction m with
  | nil => exact Or.inl (List.mem_singleton.mp h)
  | cons head m ih =>
    obtain ⟨k', w⟩ := head
    rw [insert] at h
    split at h
    · exact (List.mem_cons.mp h).imp id (List.mem_cons_of_mem _)
    · split at h
      · exact List.mem_cons.mp h
      · rcases List.mem_cons.mp h with rfl | h
        · exact Or.inr List.mem_cons_self
        · exact (ih h).imp id (List.mem_cons_of_mem _)

theorem Ordered.insert {m : List (K × V)} (hm : Ordered m) (k : K) (v : V) :
    Ordered (insert m k v) := by
  induction m with
  | nil => exact List.pairwise_singleton _ _
  | cons head m ih =>
    obtain ⟨k', w⟩ := head
    obtain ⟨hhead, htail⟩ := List.pairwise_cons.mp hm
    rw [KeyOrder.insert]
    split
    · next hk =>
      subst hk
      exact List.pairwise_cons.mpr ⟨hhead, htail⟩
    · next hk =>
      split
      · next hlt =>
        refine List.pairwise_cons.mpr ⟨fun entry hentry => ?_, hm⟩
        rcases List.mem_cons.mp hentry with rfl | hentry
        · exact hlt
        · exact lt_trans hlt (hhead entry hentry)
      · next hlt =>
        refine List.pairwise_cons.mpr ⟨fun entry hentry => ?_, ih htail⟩
        rcases mem_insert hentry with rfl | hentry
        · exact lt_of_le_of_ne (not_lt.mp hlt) hk
        · exact hhead entry hentry

theorem Ordered.insertAll {m : List (K × V)} (hm : Ordered m) (entries : List (K × V)) :
    Ordered (insertAll m entries) := by
  induction entries generalizing m with
  | nil => exact hm
  | cons entry entries ih => exact ih (hm.insert entry.1 entry.2)

theorem Ordered.filter {m : List (K × V)} (hm : Ordered m) (p : K × V → Bool) :
    Ordered (m.filter p) := List.Pairwise.filter p hm

/-- No key occurs twice. -/
theorem Ordered.keys_ne {k : K} {v : V} {m : List (K × V)} (hm : Ordered ((k, v) :: m)) :
    ∀ entry ∈ m, entry.1 ≠ k := fun entry hentry =>
  ne_of_gt ((List.pairwise_cons.mp hm).1 entry hentry)

theorem get_eq_none {m : List (K × V)} {key : K} (h : ∀ entry ∈ m, entry.1 ≠ key) :
    get m key = none := by
  unfold get
  rw [List.find?_eq_none.mpr fun entry hentry => by simpa using h entry hentry]
  rfl

theorem Ordered.get_eq_some_iff {m : List (K × V)} (hm : Ordered m) {key : K} {v : V} :
    get m key = some v ↔ (key, v) ∈ m := by
  induction m with
  | nil => simp [get]
  | cons head m ih =>
    obtain ⟨k, w⟩ := head
    rw [get_cons, List.mem_cons, Prod.mk.injEq]
    split
    · next hk =>
      subst hk
      have hnot : (k, v) ∉ m := fun h => hm.keys_ne (k, v) h rfl
      simp [hnot, eq_comm]
    · next hk =>
      have hne : ¬ key = k := fun h => hk h.symm
      simp [ih (List.pairwise_cons.mp hm).2, hne]

/-- Maps that give the same for every key are the same. -/
theorem Ordered.ext {m m' : List (K × V)} (hm : Ordered m) (hm' : Ordered m')
    (h : ∀ key, get m key = get m' key) : m = m' := by
  have hnodup : ∀ {m : List (K × V)}, Ordered m → m.Nodup := fun hm =>
    hm.imp fun hlt heq => absurd hlt (by rw [heq]; exact lt_irrefl _)
  have hperm : m.Perm m' := by
    refine (List.perm_ext_iff_of_nodup (hnodup hm) (hnodup hm')).mpr fun entry => ?_
    rw [← hm.get_eq_some_iff, ← hm'.get_eq_some_iff, h]
  exact hperm.eq_of_pairwise (fun a b _ _ hab hba => absurd hab (lt_asymm hba)) hm hm'

/-- After inserting the entries of a map, they come first. -/
theorem get_insertAll {m entries : List (K × V)} (h : Ordered entries) (key : K) :
    get (insertAll m entries) key = (get entries key).or (get m key) := by
  induction entries generalizing m with
  | nil => rfl
  | cons head entries ih =>
    obtain ⟨k, v⟩ := head
    show get (insertAll (insert m k v) entries) key = _
    rw [ih (List.pairwise_cons.mp h).2, get_insert, get_cons]
    split
    · next hk =>
      rw [get_eq_none fun entry hentry => hk ▸ h.keys_ne entry hentry]
      rfl
    · rfl

/-! ## Taking entries out -/

/-- The entries of some keys, in the order of these keys. -/
def pick (m : List (K × V)) (keys : List K) : List (K × V) :=
  keys.flatMap fun key => ((get m key).map fun v => (key, v)).toList

/-- The entries of all other keys. -/
def without (m : List (K × V)) (keys : List K) : List (K × V) :=
  m.filter fun entry => entry.1 ∉ keys

theorem without_without (m : List (K × V)) (keys keys' : List K) :
    without (without m keys) keys' = without m (keys ++ keys') := by
  unfold without
  rw [List.filter_filter]
  simp only [List.mem_append, not_or, Bool.decide_and, Bool.and_comm]

theorem without_congr {m : List (K × V)} {keys keys' : List K}
    (h : ∀ key, key ∈ keys ↔ key ∈ keys') : without m keys = without m keys' := by
  unfold without
  simp only [h]

theorem get_without (m : List (K × V)) (keys : List K) (key : K) :
    get (without m keys) key = if key ∈ keys then none else get m key := by
  induction m with
  | nil => simp [without, get]
  | cons head m ih =>
    obtain ⟨k, v⟩ := head
    have htail : without ((k, v) :: m) keys =
        if k ∈ keys then without m keys else (k, v) :: without m keys := by
      unfold without
      rw [List.filter_cons]
      by_cases hk : k ∈ keys <;> simp [hk]
    rw [htail, get_cons]
    by_cases hk : k ∈ keys
    · rw [if_pos hk, ih]
      split
      · rfl
      · next hkey => rw [if_neg (fun h : k = key => hkey (h ▸ hk))]
    · rw [if_neg hk, get_cons, ih]
      split
      · next h => rw [if_neg (h ▸ hk)]
      · rfl

theorem get_insertAll_pick (m base : List (K × V)) (keys : List K) (key : K) :
    get (insertAll base (pick m keys)) key =
      if key ∈ keys then (get m key).or (get base key) else get base key := by
  induction keys generalizing base with
  | nil => rfl
  | cons k keys ih =>
    have hstep : insertAll base (pick m (k :: keys)) =
        insertAll (insertAll base ((get m k).map fun v => (k, v)).toList) (pick m keys) := by
      unfold insertAll pick
      rw [List.flatMap_cons, List.foldl_append]
    have hone : get (insertAll base ((get m k).map fun v => (k, v)).toList) key =
        if k = key then (get m key).or (get base key) else get base key := by
      cases h : get m k with
      | none =>
        split
        · next hk => rw [← hk, h]; rfl
        · rfl
      | some v =>
        show get (insert base k v) key = _
        rw [get_insert]
        split
        · next hk => rw [← hk, h]; rfl
        · rfl
    rw [hstep, ih, hone]
    by_cases hk : k = key
    · subst hk
      simp only [if_true, List.mem_cons_self]
      split
      · cases get m k <;> rfl
      · rfl
    · rw [if_neg hk]
      have hmem : key ∈ k :: keys ↔ key ∈ keys := by
        rw [List.mem_cons]
        exact or_iff_right fun h => hk h.symm
      simp only [hmem]

/-- Entries taken out and put back with the others give the map. -/
theorem Ordered.insertAll_pick {m : List (K × V)} (hm : Ordered m) (keys : List K) :
    KeyOrder.insertAll [] (pick m keys ++ without m keys) = m := by
  have hsplit : KeyOrder.insertAll [] (pick m keys ++ without m keys) =
      KeyOrder.insertAll (KeyOrder.insertAll [] (pick m keys)) (without m keys) :=
    List.foldl_append
  have hrest : Ordered (without m keys) := hm.filter _
  refine Ordered.ext (ordered_nil.insertAll _) hm fun key => ?_
  rw [hsplit, get_insertAll hrest, get_without, get_insertAll_pick]
  split
  · rw [Option.none_or]
    cases get m key <;> rfl
  · cases get m key <;> rfl

end KeyOrder
