import DcMatcher.Dcql.Reference

/-!
# What a combination answers

A combination follows a choice of one option for each required set. The ids of the
chosen options, one after the other, say which queries it answers: an id that is there
twice is answered twice, and with no id there is nothing to answer.

Results:
1. `nestedLoops_answered`: the nested loops go through the choices side by side.
2. `Answered.onceEach_iff`: a combination answers each query once if and only if its
   choice names each query once.
3. `combinations_wellFormed_iff`, `combinations_agree_iff`: when the combinations are
   well formed, and when none of them is empty.
-/

namespace DcMatcher

open Enumeration Lists

/-! ## 1. Choices -/

/-- The members answer the queries named, in order. -/
inductive Answered (r : QueryResult) : List String → List Member → Prop
  | nil : Answered r [] []
  | cons {id : String} {ids : List String} {part members : List Member} :
      part ∈ r.ways id → Answered r ids members → Answered r (id :: ids) (part ++ members)

/-- The ids each way to answer the sets chooses, way by way. -/
def QueryResult.choices (r : QueryResult) : List Group → List (List String)
  | [] => [[]]
  | group :: groups =>
    group.2.flatMap fun option =>
      (r.optionWays option).flatMap fun _ => (choices r groups).map fun ids => option ++ ids

namespace Answered

variable {r : QueryResult} {ids : List String} {members : List Member}

theorem append {ids' : List String} {members' : List Member} (h : Answered r ids members)
    (h' : Answered r ids' members') : Answered r (ids ++ ids') (members ++ members') := by
  induction h with
  | nil => exact h'
  | cons hpart _ ih =>
    rw [List.cons_append, List.append_assoc]
    exact .cons hpart ih

theorem of_mem_optionWays {option : List String} (h : members ∈ r.optionWays option) :
    Answered r option members := by
  induction option generalizing members with
  | nil =>
    rw [List.mem_singleton.mp h]
    exact .nil
  | cons id option ih =>
    rw [QueryResult.optionWays, List.map_cons, product] at h
    obtain ⟨slow, hslow, hmem⟩ := List.mem_flatMap.mp h
    obtain ⟨fast, hfast, rfl⟩ := List.mem_map.mp hmem
    exact .cons hfast (ih hslow)

end Answered

/-- The nested loops go through the choices side by side. -/
theorem nestedLoops_answered (r : QueryResult) (groups : List Group) {chosen : List String}
    {sofar : Combination} (h : Answered r chosen sofar.members) :
    List.Forall₂ (fun ids combination => Answered r ids combination.members)
      ((r.choices groups).map fun ids => chosen ++ ids) (r.nestedLoops groups sofar) := by
  induction groups generalizing chosen sofar with
  | nil => exact .cons (by simpa using h) .nil
  | cons group groups ih =>
    simp only [QueryResult.choices, QueryResult.nestedLoops, List.map_flatMap, List.map_map]
    refine forall₂_flatMap fun option _ => forall₂_flatMap fun members hmembers => ?_
    have hnext := @ih (chosen ++ option) (sofar.extend group.1 members)
      (h.append (.of_mem_optionWays hmembers))
    simpa only [List.append_assoc, Function.comp_def] using hnext

/-- Every group has an option among those the members answer. -/
theorem nestedLoops_covers (r : QueryResult) (groups : List Group) {sofar combination : Combination}
    (h : combination ∈ r.nestedLoops groups sofar) :
    (∀ member ∈ sofar.members, member ∈ combination.members) ∧
      ∀ group ∈ groups, ∃ option ∈ group.2, ∃ part ∈ r.optionWays option,
        ∀ member ∈ part, member ∈ combination.members := by
  induction groups generalizing sofar with
  | nil =>
    rw [List.mem_singleton.mp h]
    exact ⟨fun _ hm => hm, by simp⟩
  | cons group groups ih =>
    rw [QueryResult.nestedLoops] at h
    obtain ⟨option, hoption, h⟩ := List.mem_flatMap.mp h
    obtain ⟨part, hpart, h⟩ := List.mem_flatMap.mp h
    obtain ⟨hsofar, hgroups⟩ := ih h
    refine ⟨fun member hm => hsofar member (List.mem_append_left _ hm), ?_⟩
    exact List.forall_mem_cons.mpr
      ⟨⟨option, hoption, part, hpart, fun member hm => hsofar member (List.mem_append_right _ hm)⟩,
        hgroups⟩

/-! ## 2. The members of a choice -/

/-- A way to answer a query: all its candidates, or one of them. -/
theorem QueryMatch.of_mem_ways {m : QueryMatch} {id : String} {part : List Member}
    (h : part ∈ m.ways id) :
    m.candidates ≠ [] ∧
      ((m.multiple = true ∧ part = m.candidates.map fun candidate => (id, candidate)) ∨
        (m.multiple = false ∧ ∃ candidate ∈ m.candidates, part = [(id, candidate)])) := by
  rw [QueryMatch.ways] at h
  split at h
  · cases h
  · next hsome =>
    refine ⟨by simpa using hsome, ?_⟩
    split at h
    · next hmultiple => exact .inl ⟨hmultiple, List.mem_singleton.mp h⟩
    · next hmultiple =>
      obtain ⟨candidate, hcandidate, rfl⟩ := List.mem_map.mp h
      exact .inr ⟨by simpa using hmultiple, candidate, hcandidate, rfl⟩

namespace QueryResult

variable {r : QueryResult} {id : String} {part : List Member}

theorem of_mem_ways (h : part ∈ r.ways id) : ∃ m, r.query id = some m ∧ part ∈ m.ways id := by
  rw [ways] at h
  cases hm : r.query id with
  | none => simp [hm] at h
  | some m => exact ⟨m, rfl, by simpa [hm] using h⟩

theorem ne_nil_of_mem_ways (h : part ∈ r.ways id) : part ≠ [] := by
  obtain ⟨m, _, hway⟩ := of_mem_ways h
  rcases QueryMatch.of_mem_ways hway with ⟨hsome, ⟨_, rfl⟩ | ⟨_, candidate, _, rfl⟩⟩
  · simpa using hsome
  · exact List.cons_ne_nil _ _

/-- Its members name the query, and are candidates of it. -/
theorem mem_of_mem_ways (h : part ∈ r.ways id) {member : Member} (hm : member ∈ part) :
    member.1 = id ∧ ∃ m, r.query id = some m ∧ member.2 ∈ m.candidates := by
  obtain ⟨m, hquery, hway⟩ := of_mem_ways h
  rcases QueryMatch.of_mem_ways hway with ⟨_, ⟨_, rfl⟩ | ⟨_, candidate, hcandidate, rfl⟩⟩
  · obtain ⟨candidate, hcandidate, rfl⟩ := List.mem_map.mp hm
    exact ⟨rfl, m, hquery, hcandidate⟩
  · rw [List.mem_singleton.mp hm]
    exact ⟨rfl, m, hquery, hcandidate⟩

end QueryResult

/-- The query and the credential a member pairs. -/
def Member.pair (member : Member) : String × String := (member.1, member.2.credentialId)

/-- Each query is answered once: with at most one member unless it takes `multiple`, and
with no credential twice. -/
structure OnceEach (r : QueryResult) (members : List Member) : Prop where
  single : ∀ id m, r.query id = some m → m.multiple = false →
    (members.filter fun member => member.1 = id).length ≤ 1
  distinct : (members.map Member.pair).Nodup

namespace Answered

variable {r : QueryResult} {ids : List String} {members : List Member}

/-- The queries the members name are those chosen. -/
theorem id_mem (h : Answered r ids members) {member : Member} (hm : member ∈ members) :
    member.1 ∈ ids := by
  induction h with
  | nil => cases hm
  | cons hpart _ ih =>
    rcases List.mem_append.mp hm with hm | hm
    · rw [(QueryResult.mem_of_mem_ways hpart hm).1]
      exact List.mem_cons_self
    · exact List.mem_cons_of_mem _ (ih hm)

/-- Every member is a candidate of the query it names. -/
theorem candidate_mem (h : Answered r ids members) {member : Member} (hm : member ∈ members) :
    ∃ m, r.query member.1 = some m ∧ member.2 ∈ m.candidates := by
  induction h with
  | nil => cases hm
  | cons hpart _ ih =>
    rcases List.mem_append.mp hm with hm | hm
    · obtain ⟨hid, hcandidate⟩ := QueryResult.mem_of_mem_ways hpart hm
      rwa [hid]
    · exact ih hm

/-- Every query chosen is answered in one of its ways. -/
theorem way_subset (h : Answered r ids members) {id : String} (hid : id ∈ ids) :
    ∃ part ∈ r.ways id, ∀ member ∈ part, member ∈ members := by
  induction h with
  | nil => cases hid
  | cons hpart _ ih =>
    rcases List.mem_cons.mp hid with rfl | hid
    · exact ⟨_, hpart, fun member hm => List.mem_append_left _ hm⟩
    · obtain ⟨part, hpart', hsub⟩ := ih hid
      exact ⟨part, hpart', fun member hm => List.mem_append_right _ (hsub member hm)⟩

theorem eq_nil_iff (h : Answered r ids members) : ids = [] ↔ members = [] := by
  cases h with
  | nil => simp
  | cons hpart _ => simp [QueryResult.ne_nil_of_mem_ways hpart]

end Answered

/-! ## 3. Answering each query once -/

section OnceEach

variable {r : QueryResult} {id : String} {ids : List String} {part members : List Member}

theorem OnceEach.right (h : OnceEach r (part ++ members)) : OnceEach r members := by
  constructor
  · intro id m hquery hsingle
    have hlength := h.single id m hquery hsingle
    rw [List.filter_append, List.length_append] at hlength
    omega
  · have hdistinct := h.distinct
    rw [List.map_append] at hdistinct
    exact hdistinct.of_append_right

/-- Two ways to answer one query cannot go together: a query with `multiple` has only
one, and any other would have two members. -/
theorem OnceEach.not_two_ways (h : OnceEach r (part ++ members)) (hpart : part ∈ r.ways id)
    {again : List Member} (hagain : again ∈ r.ways id) :
    ¬ ∀ member ∈ again, member ∈ members := by
  intro hsub
  obtain ⟨m, hquery, hway⟩ := QueryResult.of_mem_ways hpart
  obtain ⟨m', hquery', hway'⟩ := QueryResult.of_mem_ways hagain
  obtain rfl : m = m' := Option.some.inj (hquery.symm.trans hquery')
  rcases QueryMatch.of_mem_ways hway with ⟨hsome, ⟨hmultiple, rfl⟩ | ⟨hsingle, candidate, _, rfl⟩⟩
  · rcases QueryMatch.of_mem_ways hway' with ⟨_, ⟨_, rfl⟩ | ⟨hsingle, _⟩⟩
    · -- the same candidates again: a pair is repeated
      obtain ⟨first, rest, hcons⟩ := List.exists_cons_of_ne_nil hsome
      have hfirst : (id, first) ∈ m.candidates.map fun candidate => (id, candidate) := by
        simp [hcons]
      have hdistinct := h.distinct
      rw [List.map_append] at hdistinct
      exact List.disjoint_of_nodup_append hdistinct (List.mem_map_of_mem hfirst)
        (List.mem_map_of_mem (hsub _ hfirst))
    · simp [hmultiple] at hsingle
  · rcases QueryMatch.of_mem_ways hway' with ⟨_, ⟨hmultiple, _⟩ | ⟨_, candidate', _, rfl⟩⟩
    · simp [hmultiple] at hsingle
    · -- a second member for the query
      have hmem : (id, candidate') ∈ members.filter fun member => member.1 = id :=
        List.mem_filter.mpr ⟨hsub _ (List.mem_singleton_self _), by simp⟩
      have hone :
          (([(id, candidate)] : List Member).filter fun member => member.1 = id).length = 1 := by
        simp
      have hlength := h.single id m hquery hsingle
      have hpos := List.length_pos_of_mem hmem
      rw [List.filter_append, List.length_append, hone] at hlength
      omega

/-- One more query, not answered yet, is answered once. -/
theorem OnceEach.cons (hwallet : ∀ id m, r.query id = some m →
      (m.candidates.map Candidate.credentialId).Nodup)
    (h : OnceEach r members) (hpart : part ∈ r.ways id) (hnew : ∀ member ∈ members, member.1 ≠ id) :
    OnceEach r (part ++ members) := by
  have hid : ∀ member ∈ part, member.1 = id := fun member hm =>
    (QueryResult.mem_of_mem_ways hpart hm).1
  obtain ⟨m, hquery, hway⟩ := QueryResult.of_mem_ways hpart
  constructor
  · intro id' m' hquery' hsingle
    rw [List.filter_append, List.length_append]
    by_cases hsame : id' = id
    · subst hsame
      obtain rfl : m = m' := Option.some.inj (hquery.symm.trans hquery')
      have hnone : (members.filter fun member => member.1 = id') = [] := by
        simpa [List.filter_eq_nil_iff] using hnew
      rcases QueryMatch.of_mem_ways hway with ⟨_, ⟨hmultiple, _⟩ | ⟨_, candidate, _, rfl⟩⟩
      · simp [hmultiple] at hsingle
      · simp [hnone]
    · have hnone : (part.filter fun member => member.1 = id') = [] := by
        rw [List.filter_eq_nil_iff]
        intro member hm
        simpa [hid member hm] using Ne.symm hsame
      simpa [hnone] using h.single id' m' hquery' hsingle
  · rw [List.map_append, List.nodup_append]
    refine ⟨?_, h.distinct, ?_⟩
    · rcases QueryMatch.of_mem_ways hway with ⟨_, ⟨_, rfl⟩ | ⟨_, candidate, _, rfl⟩⟩
      · refine List.Nodup.of_map Prod.snd ?_
        simpa [Member.pair, Function.comp_def] using hwallet id m hquery
      · exact List.nodup_singleton _
    · rintro pair hpair pair' hpair' rfl
      obtain ⟨member, hm, rfl⟩ := List.mem_map.mp hpair
      obtain ⟨member', hm', heq⟩ := List.mem_map.mp hpair'
      exact hnew member' hm' ((congrArg Prod.fst heq).trans (hid member hm))

/-- A combination answers each query once if and only if its choice names each query
once. -/
theorem Answered.onceEach_iff (hwallet : ∀ id m, r.query id = some m →
      (m.candidates.map Candidate.credentialId).Nodup) (h : Answered r ids members) :
    OnceEach r members ↔ ids.Nodup := by
  induction h with
  | nil => exact ⟨fun _ => List.nodup_nil, fun _ => ⟨by simp, List.nodup_nil⟩⟩
  | cons hpart hrest ih =>
    rw [List.nodup_cons]
    constructor
    · intro honce
      refine ⟨fun hmem => ?_, ih.mp honce.right⟩
      obtain ⟨again, hagain, hsub⟩ := hrest.way_subset hmem
      exact honce.not_two_ways hpart hagain hsub
    · rintro ⟨hnew, hnodup⟩
      exact (ih.mpr hnodup).cons hwallet hpart fun member hm heq => hnew (heq ▸ hrest.id_mem hm)

end OnceEach

/-! ## 4. The combinations -/

section Combinations

variable {C : Type} [Credential C] {query : DcqlQuery} {wallet : List C} {policy : Policy C}

/-- The choices the combinations follow, one for each. -/
def QueryResult.reachedChoices (r : QueryResult) (limit : Nat) : List (List String) :=
  if r.satisfiable = true ∧ r.requiredSets.isEmpty = false then
    (r.choices r.requiredGroups).take limit
  else []

/-- The combinations follow the first choices, side by side. -/
theorem combinations_answered (w : PointerWidth) (limit : Usize w) :
    let r := execute query wallet policy
    List.Forall₂ (fun ids combination => Answered r ids combination.members)
      (r.reachedChoices limit.val) (r.combinations w limit).combinations := by
  intro r
  rw [QueryResult.reachedChoices]
  by_cases hsat : r.satisfiable = true
  · have hlisted := combinations_of_satisfiable w limit hsat
    by_cases hnone : r.requiredSets = []
    · rw [if_pos hnone] at hlisted
      simp [r, hlisted, hnone]
    · rw [if_neg hnone] at hlisted
      rw [hlisted, if_pos ⟨hsat, by simpa [List.isEmpty_iff] using hnone⟩]
      have hall := @nestedLoops_answered r r.requiredGroups []
        { members := [], purposes := [] } .nil
      simpa [r, QueryResult.reference] using List.forall₂_take limit.val hall
  · rw [if_neg fun h => hsat h.1]
    simp [QueryResult.combinations, hsat]

/-- The candidates of a query are credentials of the wallet, in order. -/
theorem candidates_distinct (distinct : (wallet.map Credential.id).Nodup) {id : String}
    {m : QueryMatch} (h : (execute query wallet policy).query id = some m) :
    (m.candidates.map Candidate.credentialId).Nodup := by
  have hm := List.mem_of_find?_eq_some h
  rw [execute_queryMatches] at hm
  obtain ⟨cq, _, rfl⟩ := List.mem_map.mp hm
  have hid : ∀ (c : C) candidate, candidateOf cq c = some candidate →
      candidate.credentialId = Credential.id c := by
    intro c candidate hc
    obtain ⟨claims, _, rfl⟩ := Option.map_eq_some_iff.mp hc
    rfl
  refine List.Nodup.sublist (map_filterMap_sublist hid _) ?_
  exact distinct.sublist ((List.filter_sublist.trans List.filter_sublist).map _)

/-- The parts of being a well-formed answer. -/
structure WellFormed (query : DcqlQuery) (r : QueryResult) (combination : Combination) : Prop where
  /-- It has members for all queries of an option of each required set. -/
  covers : ∀ set ∈ r.requiredSets, ∃ option ∈ set.options, ∀ id ∈ option,
    ∃ member ∈ combination.members, member.1 = id
  /-- Its members are candidates of the queries they name, with the claims selected. -/
  candidates : ∀ member ∈ combination.members, ∃ m ∈ r.queryMatches,
    m.queryId = member.1 ∧ member.2 ∈ m.candidates
  /-- It has at most one member for a query without `multiple`. -/
  single : ∀ cq ∈ query.credentials, cq.multiple = false →
    (combination.members.filter fun member => member.1 = cq.id).length ≤ 1
  /-- It has no credential twice for one query. -/
  distinct : (combination.members.map Member.pair).Nodup

theorem combinations_covers (w : PointerWidth) (limit : Usize w) {combination : Combination}
    (h : combination ∈ ((execute query wallet policy).combinations w limit).combinations)
    {set : CredentialSetQuery} (hset : set ∈ (execute query wallet policy).requiredSets) :
    ∃ option ∈ set.options, ∀ id ∈ option, ∃ member ∈ combination.members, member.1 = id := by
  set r := execute query wallet policy with hr
  by_cases hsat : r.satisfiable = true
  · rw [combinations_of_satisfiable w limit hsat] at h
    split at h
    · cases h
    · obtain ⟨_, hgroups⟩ := nestedLoops_covers r _ (List.mem_of_mem_take h)
      obtain ⟨option, hoption, part, hpart, hsub⟩ := hgroups _ (List.mem_map_of_mem hset)
      refine ⟨option, (List.mem_filter.mp hoption).1, fun id hid => ?_⟩
      obtain ⟨way, hway, hpartsub⟩ := (Answered.of_mem_optionWays hpart).way_subset hid
      obtain ⟨member, rest, hcons⟩ :=
        List.exists_cons_of_ne_nil (QueryResult.ne_nil_of_mem_ways hway)
      have hmember : member ∈ way := by simp [hcons]
      exact ⟨member, hsub member (hpartsub member hmember),
        (QueryResult.mem_of_mem_ways hway hmember).1⟩
  · simp [QueryResult.combinations, hsat] at h

/-- With usable ids, a query and its candidates are found by each other. -/
theorem query_eq_some_iff (valid : query.validate = .ok ()) {id : String} {m : QueryMatch} :
    (execute query wallet policy).query id = some m ↔
      ∃ cq ∈ query.credentials, cq.id = id ∧ m = queryMatch wallet policy cq := by
  constructor
  · intro h
    have hm := List.mem_of_find?_eq_some h
    have hid := List.find?_some h
    rw [execute_queryMatches] at hm
    obtain ⟨cq, hcq, rfl⟩ := List.mem_map.mp hm
    exact ⟨cq, hcq, by simpa [queryMatch] using hid, rfl⟩
  · rintro ⟨cq, hcq, rfl, rfl⟩
    have hm : queryMatch wallet policy cq ∈ (execute query wallet policy).queryMatches := by
      rw [execute_queryMatches]
      exact List.mem_map_of_mem hcq
    exact query_of_mem valid hm

/-- Every combination is well formed if and only if no choice the limit gets to names a
query twice. -/
theorem combinations_wellFormed_iff (w : PointerWidth) (valid : query.validate = .ok ())
    (distinct : (wallet.map Credential.id).Nodup) (limit : Usize w) :
    let r := execute query wallet policy
    (∀ combination ∈ (r.combinations w limit).combinations, WellFormed query r combination) ↔
      ∀ ids ∈ r.reachedChoices limit.val, ids.Nodup := by
  intro r
  have hchosen : List.Forall₂ (fun ids combination => Answered r ids combination.members)
      (r.reachedChoices limit.val) (r.combinations w limit).combinations :=
    combinations_answered w limit
  have honce := forall₂_forall_iff hchosen fun ids combination h =>
    (h.onceEach_iff fun id m hquery => candidates_distinct distinct hquery).symm
  rw [honce]
  -- what is left of `WellFormed` holds of every combination
  refine forall₂_congr fun combination hcombination => ⟨fun h => ?_, fun h => ?_⟩
  · refine ⟨fun id m hquery hsingle => ?_, h.distinct⟩
    obtain ⟨cq, hcq, rfl, rfl⟩ := (query_eq_some_iff valid).mp hquery
    exact h.single cq hcq hsingle
  · refine ⟨fun set hset => combinations_covers w limit hcombination hset,
      fun member hm => ?_, fun cq hcq hsingle => ?_, h.distinct⟩
    · obtain ⟨ids, _, hids⟩ := forall₂_mem_right hchosen hcombination
      obtain ⟨m, hquery, hcandidate⟩ := hids.candidate_mem hm
      have hid := List.find?_some hquery
      exact ⟨m, List.mem_of_find?_eq_some hquery, by simpa using hid, hcandidate⟩
    · exact h.single cq.id (queryMatch wallet policy cq)
        ((query_eq_some_iff valid).mpr ⟨cq, hcq, rfl, rfl⟩) hsingle

/-- Without a satisfiable result there is no combination. -/
theorem combinations_of_not_satisfiable (w : PointerWidth) (limit : Usize w) {r : QueryResult}
    (h : r.satisfiable = false) : (r.combinations w limit).combinations = [] := by
  simp [QueryResult.combinations, h]

/-- With one, and something required, there is room for at least one. -/
theorem combinations_ne_nil (w : PointerWidth) {limit : Usize w} (valid : query.validate = .ok ())
    (satisfiable : (execute query wallet policy).satisfiable = true)
    (required : ∀ sets ∈ query.credentialSets, ∃ set ∈ sets, set.required = true)
    (hlimit : 1 ≤ limit.val) :
    ((execute query wallet policy).combinations w limit).combinations ≠ [] := by
  set r := execute query wallet policy with hr
  have hsets : r.requiredSets ≠ [] := by
    rw [QueryResult.requiredSets, execute_credentialSets]
    cases hsets : query.credentialSets with
    | none => exact List.cons_ne_nil _ _
    | some sets =>
      obtain ⟨set, hset, hrequired⟩ := required sets hsets
      exact List.ne_nil_of_mem (List.mem_filter.mpr ⟨hset, hrequired⟩)
  have hreference : 0 < r.reference.length := by
    rw [QueryResult.reference, r.length_nestedLoops]
    refine Nat.pos_of_ne_zero (List.prod_ne_zero fun hzero => ?_)
    obtain ⟨group, hgroup, hwidth⟩ := List.mem_map.mp hzero
    exact Nat.ne_of_gt (groupWidth_pos valid satisfiable hgroup) hwidth
  rw [combinations_of_satisfiable w limit satisfiable, if_neg hsets, ← List.length_pos_iff,
    List.length_take]
  exact Nat.lt_min.mpr ⟨hlimit, hreference⟩

/-- Satisfiability and combinations agree, and no combination is empty, if and only if
no choice the limit gets to takes the empty option of every required set. -/
theorem combinations_agree_iff (w : PointerWidth) (query : DcqlQuery) (wallet : List C)
    (policy : Policy C) (limit : Usize w) :
    let r := execute query wallet policy
    ((r.satisfiable = false → (r.combinations w limit).combinations = []) ∧
        (query.validate = .ok () → r.satisfiable = true →
          (∀ sets ∈ query.credentialSets, ∃ set ∈ sets, set.required = true) →
          1 ≤ limit.val → (r.combinations w limit).combinations ≠ []) ∧
        ∀ combination ∈ (r.combinations w limit).combinations, combination.members ≠ []) ↔
      ∀ ids ∈ r.reachedChoices limit.val, ids ≠ [] := by
  intro r
  have hchosen : List.Forall₂ (fun ids combination => Answered r ids combination.members)
      (r.reachedChoices limit.val) (r.combinations w limit).combinations :=
    combinations_answered w limit
  rw [forall₂_forall_iff hchosen fun ids combination h => not_congr h.eq_nil_iff]
  constructor
  · exact fun h => h.2.2
  · intro h
    exact ⟨combinations_of_not_satisfiable w limit,
      fun valid satisfiable required hlimit =>
        combinations_ne_nil w valid satisfiable required hlimit, h⟩

end Combinations

/-- A query for the credentials of one format, with sets of the given options. -/
def setsQuery (sets : List (List (List String))) : DcqlQuery where
  credentials := [.plain "x" "mso_mdoc"]
  credentialSets := some (sets.map .plain)

theorem combinations_wellFormed_iff_one_set :
    let r := execute (setsQuery [[["x"]]]) mdocWallet (formatPolicy PlainCredential)
    (∀ combination ∈ (r.combinations .w32 8).combinations,
        WellFormed (setsQuery [[["x"]]]) r combination) ↔
      ∀ ids ∈ r.reachedChoices 8, ids.Nodup :=
  combinations_wellFormed_iff .w32 (by decide) (by decide) 8

/-- Two required sets that both ask for the query make it answered twice: with the same
credential, and with two credentials. -/
theorem combinations_not_wellFormed :
    let r := execute (setsQuery [[["x"]], [["x"]]]) mdocWallet (formatPolicy PlainCredential)
    (setsQuery [[["x"]], [["x"]]]).validate = .ok () ∧ (mdocWallet.map Credential.id).Nodup ∧
      (r.combinations .w32 2).combinations.map (fun combination =>
          combination.members.map Member.pair) =
        [[("x", "a"), ("x", "a")], [("x", "a"), ("x", "b")]] ∧
      ¬ ∀ combination ∈ (r.combinations .w32 2).combinations,
        WellFormed (setsQuery [[["x"]], [["x"]]]) r combination := by
  intro r
  have hpairs : (r.combinations .w32 2).combinations.map (fun combination =>
      combination.members.map Member.pair) =
        [[("x", "a"), ("x", "a")], [("x", "a"), ("x", "b")]] := by decide
  refine ⟨by decide, by decide, hpairs, fun h => ?_⟩
  have hdistinct : ∀ pairs ∈ (r.combinations .w32 2).combinations.map (fun combination =>
      combination.members.map Member.pair), pairs.Nodup := by
    intro pairs hmem
    obtain ⟨combination, hcombination, rfl⟩ := List.mem_map.mp hmem
    exact (h combination hcombination).distinct
  rw [hpairs] at hdistinct
  exact absurd (hdistinct _ List.mem_cons_self) (by decide)

/-- A required set with an empty option is answered by nothing, in a combination without
members. -/
theorem combinations_without_members :
    let r := execute (setsQuery [[[]]]) mdocWallet (formatPolicy PlainCredential)
    (setsQuery [[[]]]).validate = .ok () ∧ r.satisfiable = true ∧
      (r.combinations .w32 1).combinations.map Combination.members = [[]] := by
  refine ⟨?_, ?_, ?_⟩ <;> decide

end DcMatcher
