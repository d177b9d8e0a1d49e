import DcMatcher.Dcql.Eval
import DcMatcher.Lib.Enumeration
import Mathlib.Algebra.Order.BigOperators.Group.List

/-!
# The enumeration the combinations are cut from

`QueryResult.combinations` turns odometers inside nested loops and cuts what it has
at the limit after every one of them. `QueryResult.reference` says what it lists:
plain nested loops over the required credential sets, nothing cut.

Results:
1. `candidateProducts_fst`, `candidateProducts_snd`: what the odometer of one option
   builds, and what it reports as skipped.
2. `extendGroups_fst`: the loop over the sets builds the first `limit` elements of
   the nested loops.
3. `combinations_take_reference`: so do the combinations, and those of a smaller
   limit are a prefix of those of a larger one.
-/

namespace DcMatcher

open Enumeration Lists

/-! ## 1. The reference -/

/-- The ways one query, named `id` by an option, is answered: by all of its
candidates together, or by one of them. -/
def QueryMatch.ways (m : QueryMatch) (id : String) : List (List Member) :=
  if m.candidates.isEmpty then []
  else if m.multiple then [m.candidates.map fun candidate => (id, candidate)]
  else m.candidates.map fun candidate => [(id, candidate)]

namespace QueryResult

variable (r : QueryResult)

/-- The ways to answer the query an option names. -/
def ways (id : String) : List (List Member) :=
  match r.query id with
  | none => []
  | some m => m.ways id

/-- An option is satisfiable if every query it names has a candidate. -/
def answers (option : List String) : Bool :=
  option.all fun id => (r.query id).any QueryMatch.isSatisfied

/-- The ways to answer an option, its first query varying fastest. -/
def optionWays (option : List String) : List (List Member) := product (option.map r.ways)

/-- The required sets in query order. A query without sets requires all of its
credentials. -/
def requiredSets : List CredentialSetQuery :=
  match r.credentialSets with
  | none => [{ options := [r.queryMatches.map (·.queryId)], required := true, purpose := none }]
  | some sets => sets.filter (·.required)

/-- The required sets, each with its satisfiable options. -/
def requiredGroups : List Group :=
  r.requiredSets.map fun set => (set.purpose, set.options.filter r.answers)

/-- One loop for each set, the earlier set outermost: over its options, and over the
ways to answer each. -/
def nestedLoops : List Group → Combination → List Combination
  | [], sofar => [sofar]
  | group :: groups, sofar =>
    group.2.flatMap fun option =>
      (r.optionWays option).flatMap fun members =>
        nestedLoops groups (sofar.extend group.1 members)

/-- The unbounded enumeration. -/
def reference : List Combination :=
  r.nestedLoops r.requiredGroups { members := [], purposes := [] }

/-! ## 2. Counting the ways -/

/-- How many ways there are to answer an option. -/
def optionWidth (option : List String) : Nat := (option.map fun id => (r.ways id).length).prod

/-- How many ways there are to answer a set. -/
def groupWidth (group : Group) : Nat := (group.2.map r.optionWidth).sum

@[simp] theorem length_optionWays (option : List String) :
    (r.optionWays option).length = r.optionWidth option := by
  simp [optionWays, optionWidth, List.map_map, Function.comp_def]

theorem length_nestedLoops (groups : List Group) (sofar : Combination) :
    (r.nestedLoops groups sofar).length = (groups.map r.groupWidth).prod := by
  induction groups generalizing sofar with
  | nil => rfl
  | cons group groups ih =>
    have hoption : ∀ option, ((r.optionWays option).flatMap fun members =>
        r.nestedLoops groups (sofar.extend group.1 members)).length =
        r.optionWidth option * (groups.map r.groupWidth).prod := by
      intro option
      rw [List.length_flatMap, List.map_congr_left fun members _ => ih _]
      simp
    rw [nestedLoops, List.length_flatMap, List.map_congr_left fun option _ => hoption option,
      List.map_cons, List.prod_cons, groupWidth, ← List.sum_map_mul_right]

/-- Whether the remaining loops list anything does not depend on what was chosen in
the loops around them. -/
theorem nestedLoops_uniform (groups : List Group) :
    (∀ sofar, r.nestedLoops groups sofar ≠ []) ∨ ∀ sofar, r.nestedLoops groups sofar = [] := by
  by_cases hzero : (groups.map r.groupWidth).prod = 0
  · right
    intro sofar
    rw [← List.length_eq_zero_iff, length_nestedLoops, hzero]
  · left
    intro sofar hnil
    rw [← List.length_eq_zero_iff, length_nestedLoops] at hnil
    exact hzero hnil

end QueryResult

/-! ## 3. The odometer of one option -/

namespace Dial

/-- The ways a dial goes through. -/
def face : Dial → List (List Member)
  | .every id candidates => [candidates.map fun candidate => (id, candidate)]
  | .one id first rest _ _ => (first :: rest).map fun candidate => [(id, candidate)]

/-- The ways from the current one on. -/
def ahead : Dial → List (List Member)
  | .every id candidates => [candidates.map fun candidate => (id, candidate)]
  | .one id _ _ current upcoming => (current :: upcoming).map fun candidate => [(id, candidate)]

/-- A dial is a wheel of the odometer. -/
def wheel : Wheel Dial Member where
  read := read
  turn := turn
  face := face
  ahead := ahead
  ahead_eq := by
    rintro (⟨id, candidates⟩ | ⟨id, first, rest, current, upcoming⟩) <;> rfl
  turn_face := by
    rintro (⟨id, candidates⟩ | ⟨id, first, rest, current, _ | ⟨next, upcoming⟩⟩) <;> rfl
  turn_on := by
    rintro (⟨id, candidates⟩ | ⟨id, first, rest, current, _ | ⟨next, upcoming⟩⟩) hmore
    · exact absurd rfl hmore
    · exact absurd rfl hmore
    · exact ⟨rfl, rfl⟩
  turn_over := by
    rintro (⟨id, candidates⟩ | ⟨id, first, rest, current, _ | ⟨next, upcoming⟩⟩) hlast
    · exact ⟨rfl, rfl⟩
    · exact ⟨rfl, rfl⟩
    · simp [ahead] at hlast

theorem length_face (d : Dial) : d.face.length = d.width := by
  cases d <;> simp [face, width]

theorem width_pos (d : Dial) : 0 < d.width := by
  cases d <;> simp [width]

/-- A dial starts at its first reading, and goes through the ways of its query. -/
theorem of_eq_some {id : String} {m : QueryMatch} {d : Dial} (h : Dial.of id m = some d) :
    d.ahead = d.face ∧ d.face = m.ways id := by
  rcases m with ⟨queryId, _ | ⟨first, rest⟩, multiple⟩
  · simp [Dial.of] at h
  · cases multiple <;> simp only [Dial.of, Bool.false_eq_true, if_true, if_false] at h <;>
      cases h <;> exact ⟨rfl, rfl⟩

theorem of_eq_none {id : String} {m : QueryMatch} (h : Dial.of id m = none) : m.ways id = [] := by
  rcases m with ⟨queryId, _ | ⟨first, rest⟩, multiple⟩
  · rfl
  · cases multiple <;> simp [Dial.of] at h

end Dial

theorem turnDials_eq (dials : List Dial) : turnDials dials = Dial.wheel.turnAll dials := by
  induction dials with
  | nil => rfl
  | cons dial dials ih =>
    rw [turnDials, Wheel.turnAll, ih]
    rfl

theorem spinDials_eq (take : Nat) (dials : List Dial) :
    spinDials take dials = Dial.wheel.spin take dials := by
  induction take generalizing dials with
  | zero => rfl
  | succ take ih =>
    rw [spinDials, Wheel.spin, ih, turnDials_eq]
    rfl

/-- Once the product ran out of `usize` it stays at the maximum. -/
theorem multiplyWidth_overflowed (w : PointerWidth) (dials : List Dial) :
    dials.foldl (multiplyWidth w) (w.usizeMax, true) = (w.usizeMax, true) := by
  induction dials with
  | nil => rfl
  | cons dial dials ih =>
    rw [List.foldl_cons]
    by_cases hfits : w.usizeMax * dial.width ≤ w.usizeMax
    · have hwidth : w.usizeMax * dial.width = w.usizeMax :=
        Nat.le_antisymm hfits (Nat.le_mul_of_pos_right _ dial.width_pos)
      simpa [multiplyWidth, checkedMul, hwidth] using ih
    · simpa [multiplyWidth, checkedMul, hfits] using ih

theorem widths_prod_pos (dials : List Dial) : 0 < (dials.map Dial.width).prod := by
  refine Nat.pos_of_ne_zero (List.prod_ne_zero fun hzero => ?_)
  obtain ⟨d, _, hd⟩ := List.mem_map.mp hzero
  exact Nat.ne_of_gt d.width_pos hd

theorem foldl_multiplyWidth (w : PointerWidth) (dials : List Dial) (total : Nat)
    (hpos : 0 < total) (hfits : total ≤ w.usizeMax) :
    dials.foldl (multiplyWidth w) (total, false) =
      if total * (dials.map Dial.width).prod ≤ w.usizeMax then
        (total * (dials.map Dial.width).prod, false)
      else (w.usizeMax, true) := by
  induction dials generalizing total with
  | nil => simp [hfits]
  | cons dial dials ih =>
    rw [List.foldl_cons, List.map_cons, List.prod_cons, ← Nat.mul_assoc]
    by_cases hnext : total * dial.width ≤ w.usizeMax
    · rw [multiplyWidth, checkedMul, if_pos hnext]
      exact ih (total * dial.width) (Nat.mul_pos hpos dial.width_pos) hnext
    · have hover : ¬ total * dial.width * (dials.map Dial.width).prod ≤ w.usizeMax := fun h =>
        hnext (Nat.le_trans (Nat.le_mul_of_pos_right _ (widths_prod_pos dials)) h)
      rw [multiplyWidth, checkedMul, if_neg hnext, if_neg hover]
      exact multiplyWidth_overflowed w dials

/-- The product of the widths, or the maximum once it does not fit. -/
theorem totalWidth_eq (w : PointerWidth) (dials : List Dial) :
    totalWidth w dials =
      if (dials.map Dial.width).prod ≤ w.usizeMax then ((dials.map Dial.width).prod, false)
      else (w.usizeMax, true) := by
  rw [totalWidth, foldl_multiplyWidth w dials 1 Nat.one_pos w.usizeMax_pos, Nat.one_mul]

namespace QueryResult

variable (r : QueryResult)

theorem ways_of_dial {id : String} {d : Dial} (h : (r.query id).bind (Dial.of id) = some d) :
    d.ahead = d.face ∧ d.face = r.ways id := by
  obtain ⟨m, hm, hd⟩ := Option.bind_eq_some_iff.mp h
  rw [ways, hm]
  exact Dial.of_eq_some hd

theorem ways_of_no_dial {id : String} (h : (r.query id).bind (Dial.of id) = none) :
    r.ways id = [] := by
  rw [ways]
  cases hm : r.query id with
  | none => rfl
  | some m =>
    rw [hm] at h
    exact Dial.of_eq_none h

/-- The dials of an option start at their first readings and go through the ways of
its queries. -/
theorem dials_of_option {option : List String} {dials : List Dial}
    (h : collect (fun id => (r.query id).bind (Dial.of id)) option = some dials) :
    (∀ d ∈ dials, d.ahead = d.face) ∧ dials.map Dial.face = option.map r.ways := by
  rw [collect_eq_some] at h
  induction h with
  | nil => exact ⟨by simp, rfl⟩
  | cons hd _ ih =>
    obtain ⟨hstart, hface⟩ := r.ways_of_dial hd
    refine ⟨List.forall_mem_cons.mpr ⟨hstart, ih.1⟩, ?_⟩
    rw [List.map_cons, List.map_cons, hface, ih.2]

/-- An option without dials has a query nothing answers. -/
theorem no_way_of_no_dials {option : List String}
    (h : collect (fun id => (r.query id).bind (Dial.of id)) option = none) :
    r.optionWays option = [] := by
  refine product_eq_nil ?_
  induction option with
  | nil => cases h
  | cons id option ih =>
    rw [collect] at h
    cases hd : (r.query id).bind (Dial.of id) with
    | none =>
      rw [List.map_cons, r.ways_of_no_dial hd]
      exact List.mem_cons_self
    | some d =>
      rw [hd] at h
      exact List.mem_cons_of_mem _ (ih (Option.map_eq_none_iff.mp h))

theorem optionWidth_of_dials {option : List String} {dials : List Dial}
    (h : dials.map Dial.face = option.map r.ways) :
    (dials.map Dial.width).prod = r.optionWidth option := by
  have hwidth : dials.map Dial.width = (dials.map Dial.face).map List.length := by
    simp [Dial.length_face]
  rw [hwidth, h, List.map_map]
  rfl

end QueryResult

section Products

variable {w : PointerWidth} (r : QueryResult) (option : List String) {budget : Nat}

/-- The odometer of an option builds its first ways. -/
theorem candidateProducts_fst (hbudget : budget ≤ w.usizeMax) :
    (candidateProducts w r option budget).1 = (r.optionWays option).take budget := by
  rw [candidateProducts]
  cases hdials : collect (fun id => (r.query id).bind (Dial.of id)) option with
  | none => rw [r.no_way_of_no_dials hdials, List.take_nil]
  | some dials =>
    obtain ⟨hstart, hface⟩ := r.dials_of_option hdials
    have hremaining : Dial.wheel.remaining dials = r.optionWays option := by
      rw [Wheel.remaining_start _ _ hstart]
      exact congrArg product hface
    have hwidth := r.optionWidth_of_dials hface
    simp only [totalWidth_eq, hwidth, spinDials_eq]
    split
    · rw [Wheel.spin_eq_take _ _ _ (by simp [hremaining]), hremaining]
      change (r.optionWays option).take (min (r.optionWidth option) budget) = _
      rw [← r.length_optionWays, Nat.min_comm, ← List.take_eq_take_min]
    · next hover =>
      -- the total stays at the maximum, which no budget goes beyond
      rw [Wheel.spin_eq_take _ _ _ (by simp [hremaining]; omega), hremaining,
        Nat.min_eq_right hbudget]

/-- It reports the ways it did not build, or as many of them as `usize` holds. -/
theorem candidateProducts_snd (hbudget : budget ≤ w.usizeMax) :
    (candidateProducts w r option budget).2 =
      if r.optionWidth option ≤ w.usizeMax then .exact (r.optionWidth option - budget)
      else .atLeast (w.usizeMax - budget) := by
  rw [candidateProducts]
  cases hdials : collect (fun id => (r.query id).bind (Dial.of id)) option with
  | none =>
    have hwidth : r.optionWidth option = 0 := by
      rw [← r.length_optionWays, r.no_way_of_no_dials hdials, List.length_nil]
    simp [hwidth]
  | some dials =>
    have hwidth := r.optionWidth_of_dials (r.dials_of_option hdials).2
    simp only [totalWidth_eq, hwidth]
    split
    · simp only [Bool.false_eq_true, if_false]
      congr 1
      omega
    · simp only [if_true]
      congr 1
      omega

end Products

/-! ## 4. The loops over the sets -/

namespace QueryResult

variable (r : QueryResult)

/-- What one set makes of a combination so far, nothing cut. -/
def extensions (group : Group) (sofar : Combination) : List Combination :=
  group.2.flatMap fun option => (r.optionWays option).map (sofar.extend group.1)

theorem nestedLoops_cons (group : Group) (groups : List Group) (sofar : Combination) :
    r.nestedLoops (group :: groups) sofar =
      (r.extensions group sofar).flatMap (r.nestedLoops groups) := by
  simp only [nestedLoops, extensions, List.flatMap_assoc, List.flatMap_map]

end QueryResult

section Groups

variable {w : PointerWidth} (r : QueryResult) {limit : Nat}

theorem extendOption_fst (hlimit : limit ≤ w.usizeMax) (purpose : Option Value)
    (sofar : Combination) (state : List Combination × Dropped) (option : List String)
    (hroom : state.1.length ≤ limit) :
    (extendOption w r limit purpose sofar state option).1 =
      (state.1 ++ (r.optionWays option).map (sofar.extend purpose)).take limit := by
  have hbudget : limit - state.1.length ≤ w.usizeMax := by omega
  change state.1 ++ (candidateProducts w r option (limit - state.1.length)).1.map _ = _
  rw [candidateProducts_fst r option hbudget, List.map_take]
  simpa using append_take_room ((r.optionWays option).map (sofar.extend purpose)) hroom

theorem extendGroup_fst (hlimit : limit ≤ w.usizeMax) (state : List Combination × Dropped)
    (group : Group) :
    (extendGroup w r limit state group).1 =
      (state.1.flatMap (r.extensions group)).take limit := by
  have hoptions : ∀ (s : List Combination × Dropped) (sofar : Combination),
      s.1.length ≤ limit →
      (group.2.foldl (extendOption w r limit group.1 sofar) s).1 =
        (s.1 ++ r.extensions group sofar).take limit := fun s sofar hs =>
    foldl_fst_eq_take (extendOption_fst r hlimit group.1 sofar) group.2 s hs
  rw [extendGroup, foldl_fst_eq_take hoptions state.1 ([], state.2) (Nat.zero_le _),
    List.nil_append]

/-- The loop over the sets builds the first `limit` elements of what the nested loops
make of the combinations it starts from. Cutting those at an earlier set is
harmless: each of them goes on in the same number of ways. -/
theorem extendGroups_fst (hlimit : limit ≤ w.usizeMax) (groups : List Group)
    (state : List Combination × Dropped) (hroom : groups = [] → state.1.length ≤ limit) :
    (extendGroups w r limit groups state).1 =
      (state.1.flatMap (r.nestedLoops groups)).take limit := by
  induction groups generalizing state with
  | nil =>
    have hself : state.1.flatMap (r.nestedLoops []) = state.1 := by
      simp [QueryResult.nestedLoops]
    rw [extendGroups, hself, List.take_of_length_le (hroom rfl)]
  | cons group groups ih =>
    -- whatever came in, one set leaves at most `limit` combinations
    have hcut : (extendGroup w r limit state group).1.length ≤ limit := by
      rw [extendGroup_fst r hlimit]
      exact List.length_take_le _ _
    have hrest : ((extendGroup w r limit state group).1.flatMap (r.nestedLoops groups)).take limit =
        (state.1.flatMap (r.nestedLoops (group :: groups))).take limit := by
      rw [extendGroup_fst r hlimit, take_flatMap_take (r.nestedLoops_uniform groups),
        List.flatMap_assoc]
      simp only [← r.nestedLoops_cons]
    rw [extendGroups, ← hrest]
    split
    · next hempty => simp [List.isEmpty_iff.mp hempty]
    · exact ih _ fun _ => hcut

end Groups

/-! ## 5. The combinations of a satisfiable result -/

section Satisfiable

variable {C : Type} [Credential C] {query : DcqlQuery} {wallet : List C} {policy : Policy C}

theorem execute_queryMatches (query : DcqlQuery) (wallet : List C) (policy : Policy C) :
    (execute query wallet policy).queryMatches =
      query.credentials.map (queryMatch wallet policy) := by
  rw [execute]
  split <;> rfl

theorem execute_credentialSets (query : DcqlQuery) (wallet : List C) (policy : Policy C) :
    (execute query wallet policy).credentialSets = query.credentialSets := by
  rw [execute]
  split <;> rfl

/-- What a satisfiable result has been checked for. -/
theorem execute_satisfiable (h : (execute query wallet policy).satisfiable = true) :
    query.credentials ≠ [] ∧
      requiredSetsMet (execute query wallet policy).queryMatches query.credentialSets = true ∧
      (execute query wallet policy).queryMatches.any QueryMatch.isSatisfied = true := by
  rw [execute_queryMatches]
  rw [execute] at h
  by_cases hnone : query.credentials = []
  · simp [hnone] at h
  · simpa [hnone] using h

/-- Every required set of a satisfiable result can be answered: without sets, all the
queries can. -/
theorem groups_eq_requiredGroups (h : (execute query wallet policy).satisfiable = true) :
    (execute query wallet policy).groups = (execute query wallet policy).requiredGroups := by
  obtain ⟨_, hmet, _⟩ := execute_satisfiable h
  rw [QueryResult.groups, QueryResult.requiredGroups, QueryResult.requiredSets,
    execute_credentialSets]
  cases hsets : query.credentialSets with
  | some sets => rfl
  | none =>
    rw [hsets] at hmet
    have hall : (execute query wallet policy).answers
        ((execute query wallet policy).queryMatches.map (·.queryId)) = true := by
      rw [QueryResult.answers, List.all_map, List.all_eq_true]
      intro m hm
      have hfound : ((execute query wallet policy).query m.queryId).isSome := by
        rw [QueryResult.query, List.find?_isSome]
        exact ⟨m, hm, by simp⟩
      obtain ⟨m', hm'⟩ := Option.isSome_iff_exists.mp hfound
      have hsat := List.all_eq_true.mp hmet m' (List.mem_of_find?_eq_some hm')
      simp [hm', hsat]
    simp [hall]

theorem combinations_of_satisfiable (w : PointerWidth) (limit : Usize w)
    (h : (execute query wallet policy).satisfiable = true) :
    ((execute query wallet policy).combinations w limit).combinations =
      if (execute query wallet policy).requiredSets = [] then []
      else (execute query wallet policy).reference.take limit.val := by
  set r := execute query wallet policy with hr
  have hgroups : r.groups = r.requiredGroups := groups_eq_requiredGroups h
  have hlimit : limit.val ≤ w.usizeMax := Nat.le_of_lt_succ limit.isLt
  by_cases hnone : r.requiredSets = []
  · -- the source returns before the loops
    have hempty : r.requiredGroups = [] := by simp [QueryResult.requiredGroups, hnone]
    simp [QueryResult.combinations, h, hgroups, hempty, hnone]
  · have hsome : r.requiredGroups ≠ [] := by simpa [QueryResult.requiredGroups] using hnone
    have hbuilt := extendGroups_fst r hlimit r.requiredGroups startState
      fun hnil => absurd hnil hsome
    rw [QueryResult.combinations, if_neg (by simp [h]), hgroups,
      if_neg (by simpa [List.isEmpty_iff] using hsome), if_neg hnone, QueryResult.reference]
    simpa [startState] using hbuilt

/-- An option has a way to be answered if and only if it is satisfiable. -/
theorem QueryResult.optionWidth_pos (r : QueryResult) {option : List String} :
    0 < r.optionWidth option ↔ r.answers option = true := by
  have hway : ∀ id, (r.ways id).length = 0 ↔ (r.query id).any QueryMatch.isSatisfied = false := by
    intro id
    rw [QueryResult.ways]
    cases r.query id with
    | none => simp
    | some m =>
      rcases m with ⟨queryId, _ | ⟨first, rest⟩, multiple⟩
      · simp [QueryMatch.ways, QueryMatch.isSatisfied]
      · cases multiple <;> simp [QueryMatch.ways, QueryMatch.isSatisfied]
  rw [Nat.pos_iff_ne_zero, ne_eq, QueryResult.optionWidth, List.prod_eq_zero_iff,
    QueryResult.answers, List.all_eq_true]
  simp only [List.mem_map, hway, not_exists, not_and, Bool.not_eq_false]

/-- With usable ids, a result finds the candidates of each query by its id. -/
theorem query_of_mem (valid : query.validate = .ok ()) {m : QueryMatch}
    (hm : m ∈ (execute query wallet policy).queryMatches) :
    (execute query wallet policy).query m.queryId = some m := by
  have hids : (execute query wallet policy).queryMatches.map (·.queryId) =
      query.credentials.map (·.id) := by
    rw [execute_queryMatches, List.map_map]
    rfl
  refine find?_key_of_mem ?_ hm
  rw [hids]
  exact (DcqlQuery.validate_ok.mp valid).distinct

/-- Each required set of a satisfiable result has a way to be answered. -/
theorem groupWidth_pos (valid : query.validate = .ok ())
    (satisfiable : (execute query wallet policy).satisfiable = true) {group : Group}
    (hgroup : group ∈ (execute query wallet policy).requiredGroups) :
    0 < (execute query wallet policy).groupWidth group := by
  set r := execute query wallet policy with hr
  obtain ⟨_, hmet, _⟩ := execute_satisfiable satisfiable
  rw [← hr] at hmet
  have hanswered : ∃ option ∈ group.2, r.answers option = true := by
    obtain ⟨set, hset, rfl⟩ := List.mem_map.mp hgroup
    suffices h : ∃ option ∈ set.options, r.answers option = true by
      obtain ⟨option, hoption, hanswers⟩ := h
      exact ⟨option, List.mem_filter.mpr ⟨hoption, hanswers⟩, hanswers⟩
    -- a set is met when some match of each id is satisfied, and the ids are distinct
    have hmatch : ∀ m ∈ r.queryMatches, m.isSatisfied = true →
        (r.query m.queryId).any QueryMatch.isSatisfied = true := fun m hm hsat => by
      rw [query_of_mem valid hm]
      exact hsat
    rw [QueryResult.requiredSets, execute_credentialSets] at hset
    cases hsets : query.credentialSets with
    | none =>
      rw [hsets] at hset hmet
      rw [List.mem_singleton.mp hset]
      refine ⟨_, List.mem_singleton_self _, ?_⟩
      rw [QueryResult.answers, List.all_map, List.all_eq_true]
      exact fun m hm => hmatch m hm (List.all_eq_true.mp hmet m hm)
    | some sets =>
      rw [hsets] at hset hmet
      obtain ⟨option, hoption, hall⟩ := List.any_eq_true.mp (List.all_eq_true.mp hmet set hset)
      refine ⟨option, hoption, List.all_eq_true.mpr fun id hid => ?_⟩
      obtain ⟨m, hm, hfound⟩ := List.any_eq_true.mp (List.all_eq_true.mp hall id hid)
      obtain ⟨hid', hsat⟩ := Bool.and_eq_true_iff.mp hfound
      rw [← beq_iff_eq.mp hid']
      exact hmatch m hm hsat
  obtain ⟨option, hoption, hanswers⟩ := hanswered
  exact Nat.lt_of_lt_of_le (r.optionWidth_pos.mpr hanswers)
    (List.le_sum_of_mem (List.mem_map_of_mem hoption))

/-- The combinations of a satisfiable result are the first `limit` elements of the
nested loops, none of them lost or out of order at the limit. A request whose sets are
all optional requires nothing, and nothing is listed. Either way a smaller limit gives
a prefix of what a larger one gives. -/
theorem combinations_take_reference (w : PointerWidth)
    (satisfiable : (execute query wallet policy).satisfiable = true) :
    let r := execute query wallet policy
    (r.requiredSets ≠ [] → ∀ limit : Usize w,
        (r.combinations w limit).combinations = r.reference.take limit.val) ∧
      (r.requiredSets = [] → ∀ limit : Usize w, (r.combinations w limit).combinations = []) ∧
      ∀ limit₁ limit₂ : Usize w, limit₁ ≤ limit₂ →
        (r.combinations w limit₁).combinations <+: (r.combinations w limit₂).combinations := by
  intro r
  have hlisted := fun limit => combinations_of_satisfiable w limit satisfiable
  refine ⟨fun hsome limit => ?_, fun hnone limit => ?_, fun limit₁ limit₂ hle => ?_⟩
  · rw [hlisted, if_neg hsome]
  · rw [hlisted, if_pos hnone]
  · rw [hlisted, hlisted]
    split
    · exact List.prefix_rfl
    · exact List.take_prefix_take_left hle

end Satisfiable

/-- Two `mso_mdoc` credentials, asked for by a set of the given kind. -/
def mdocWallet : List PlainCredential := [⟨"a", "mso_mdoc"⟩, ⟨"b", "mso_mdoc"⟩]

def mdocQuery (required : Bool) : DcqlQuery where
  credentials := [CredentialQuery.plain "pid" "mso_mdoc"]
  credentialSets := some [{ options := [["pid"]], required, purpose := none }]

theorem combinations_take_reference_mdoc :
    (execute (mdocQuery true) mdocWallet (formatPolicy PlainCredential)).satisfiable = true ∧
      ∀ limit : Usize .w32,
        ((execute (mdocQuery true) mdocWallet (formatPolicy PlainCredential)).combinations
          .w32 limit).combinations =
        (execute (mdocQuery true) mdocWallet (formatPolicy PlainCredential)).reference.take
          limit.val :=
  have satisfiable : (execute (mdocQuery true) mdocWallet
      (formatPolicy PlainCredential)).satisfiable = true := by decide
  ⟨satisfiable, (combinations_take_reference .w32 satisfiable).1 (by decide)⟩

/-- With no set required, the nested loops would list one combination, of no members.
The code lists none. -/
theorem combinations_optional_ne_reference :
    (mdocQuery false).validate = .ok () ∧
      (execute (mdocQuery false) mdocWallet (formatPolicy PlainCredential)).satisfiable = true ∧
      ((execute (mdocQuery false) mdocWallet (formatPolicy PlainCredential)).combinations
        .w32 1).combinations ≠
      (execute (mdocQuery false) mdocWallet (formatPolicy PlainCredential)).reference.take 1 := by
  refine ⟨by decide, by decide, fun h => ?_⟩
  have hlength := congrArg List.length h
  revert hlength
  decide

end DcMatcher
