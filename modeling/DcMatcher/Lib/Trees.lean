import Mathlib.Data.List.Nodup

/-!
# Trees with named branches

Nothing here names a program. A tree is walked along the names of its branches; flattened, it is
the list of its leaves, each under the path that leads to it. An empty node has no leaves.

Results:
1. `mem_leaves_iff`: with distinct names the leaves are what the walks that end at one find.
2. `lookup_iff`: so a lookup in any table of the leaves is a walk that ends at a leaf.
-/

namespace Trees

variable {κ α : Type}

inductive Tree (κ α : Type)
  | leaf (a : α)
  | node (branches : List (κ × Tree κ α))

namespace Tree

mutual

/-- Each leaf, under its path. -/
def leaves : Tree κ α → List (List κ × α)
  | .leaf a => [([], a)]
  | .node branches => leavesOf branches

def leavesOf : List (κ × Tree κ α) → List (List κ × α)
  | [] => []
  | (name, t) :: branches => (leaves t).map (fun l => (name :: l.1, l.2)) ++ leavesOf branches

end

/-- No node has two branches of one name. -/
inductive Distinct : Tree κ α → Prop
  | leaf (a : α) : (Tree.leaf a).Distinct
  | node {branches : List (κ × Tree κ α)} : (branches.map Prod.fst).Nodup →
      (∀ branch ∈ branches, branch.2.Distinct) → (Tree.node branches).Distinct

theorem mem_leavesOf {branches : List (κ × Tree κ α)} {path : List κ} {a : α} :
    (path, a) ∈ leavesOf branches ↔
      ∃ name rest t, path = name :: rest ∧ (name, t) ∈ branches ∧ (rest, a) ∈ t.leaves := by
  induction branches with
  | nil => simp [leavesOf]
  | cons branch branches ih =>
    obtain ⟨name, t⟩ := branch
    rw [leavesOf, List.mem_append, List.mem_map, ih]
    constructor
    · rintro (⟨⟨rest, b⟩, hleaf, heq⟩ | ⟨name', rest, t', hpath, hmem, hleaf⟩)
      · cases heq
        exact ⟨name, rest, t, rfl, List.mem_cons_self, hleaf⟩
      · exact ⟨name', rest, t', hpath, List.mem_cons_of_mem _ hmem, hleaf⟩
    · rintro ⟨name', rest, t', hpath, hmem, hleaf⟩
      cases hmem with
      | head => exact Or.inl ⟨(rest, a), hleaf, by rw [hpath]⟩
      | tail _ hmem => exact Or.inr ⟨name', rest, t', hpath, hmem, hleaf⟩

variable [DecidableEq κ]

/-- What a path leads to. -/
def walk : List κ → Tree κ α → Option (Tree κ α)
  | [], t => some t
  | _ :: _, .leaf _ => none
  | name :: path, .node branches =>
    (branches.find? fun branch => branch.1 == name).bind fun branch => walk path branch.2

/-- With distinct names, a branch is the one that is found by its name. -/
theorem find?_branch {branches : List (κ × Tree κ α)} (h : (branches.map Prod.fst).Nodup)
    {name : κ} {t : Tree κ α} :
    (branches.find? fun branch => branch.1 == name) = some (name, t) ↔ (name, t) ∈ branches := by
  induction branches with
  | nil => simp
  | cons branch branches ih =>
    obtain ⟨hfresh, hrest⟩ := List.nodup_cons.mp h
    by_cases hname : branch.1 = name
    · rw [List.find?_cons_of_pos (by simpa using hname), Option.some.injEq, List.mem_cons]
      refine ⟨fun heq => Or.inl heq.symm, ?_⟩
      rintro (heq | hmem)
      · exact heq.symm
      · exact absurd (List.mem_map_of_mem hmem) (hname ▸ hfresh)
    · rw [List.find?_cons_of_neg (by simpa using hname), ih hrest, List.mem_cons]
      refine ⟨Or.inr, ?_⟩
      rintro (heq | hmem)
      · exact absurd (congrArg Prod.fst heq).symm hname
      · exact hmem

theorem mem_leaves_iff {t : Tree κ α} (h : t.Distinct) {path : List κ} {a : α} :
    (path, a) ∈ t.leaves ↔ walk path t = some (.leaf a) := by
  induction path generalizing t with
  | nil =>
    cases t with
    | leaf b => simp [leaves, walk, eq_comm]
    | node branches => simp [leaves, walk, mem_leavesOf]
  | cons name path ih =>
    cases h with
    | leaf b => simp [leaves, walk]
    | @node branches hnames hbranches =>
      rw [leaves, mem_leavesOf, walk]
      constructor
      · rintro ⟨name', rest, t, hpath, hmem, hleaf⟩
        cases hpath
        rw [(find?_branch hnames).mpr hmem]
        exact (ih (hbranches _ hmem)).mp hleaf
      · intro hwalk
        obtain ⟨⟨name', t⟩, hfind, hrest⟩ := Option.bind_eq_some_iff.mp hwalk
        obtain rfl : name' = name := by simpa using List.find?_some hfind
        have hmem := (find?_branch hnames).mp hfind
        exact ⟨name', path, t, rfl, hmem, (ih (hbranches _ hmem)).mpr hrest⟩

/-- A lookup by path in a table of the leaves, in any order. -/
theorem lookup_iff {t : Tree κ α} (h : t.Distinct) {table : List (List κ × α)}
    (htable : ∀ entry, entry ∈ table ↔ entry ∈ t.leaves) {path : List κ} {a : α} :
    (table.find? fun entry => entry.1 == path) = some (path, a) ↔
      walk path t = some (.leaf a) := by
  rw [← mem_leaves_iff h, ← htable]
  refine ⟨List.mem_of_find?_eq_some, fun hmem => ?_⟩
  obtain ⟨⟨path', b⟩, hfind⟩ := Option.isSome_iff_exists.mp
    (List.find?_isSome.mpr ⟨(path, a), hmem, beq_self_eq_true path⟩ :
      (table.find? fun entry => entry.1 == path).isSome)
  obtain rfl : path' = path := by simpa using List.find?_some hfind
  -- two leaves under one path are one
  have hother := (mem_leaves_iff h).mp ((htable _).mp (List.mem_of_find?_eq_some hfind))
  have hthis := (mem_leaves_iff h).mp ((htable _).mp hmem)
  rw [hthis] at hother
  cases hother
  exact hfind

end Tree

end Trees
