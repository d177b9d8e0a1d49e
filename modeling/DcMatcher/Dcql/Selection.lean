import DcMatcher.Dcql.Path
import DcMatcher.Dcql.WellFormed

/-!
# What is selected of a credential

Results:
1. `resolveClaim_eq_some`, `selectClaims_resolved`: a selected claim is one of the query's
   claims, and the credential has it with an expected value.
2. `mem_candidates`: the candidates of a query are the credentials of the wallet it accepts.
3. `execute_query`, `combination_member`: a lookup in the result and one in the query agree,
   whatever the ids, so every member of a combination is a candidate of the query found
   by its id.
4. `selectClaims_iff`: what is selected of a credential, by the rule of the standard.
5. `execute_selects`: every query gets the credentials it accepts, and a larger wallet gives
   more.
-/

namespace DcMatcher

open Lists

variable {C : Type} [Credential C]

/-! ## 1. Claims -/

section Claims

variable {query : CredentialQuery} {c : C}

theorem resolveClaim_eq_some {claim : ClaimsQuery} {s : SelectedClaim} :
    resolveClaim claim c = some s ↔
      ∃ found, Credential.claim c claim.path = .ok found ∧ found ≠ [] ∧
        (∀ expected, claim.values = some expected → ∃ v ∈ found, ∃ e ∈ expected, (e == v) = true) ∧
        s = { claimId := claim.id, path := claim.path } := by
  unfold resolveClaim
  cases hfound : Credential.claim c claim.path with
  | error e =>
    constructor
    · intro h
      cases h
    · rintro ⟨found, hok, _⟩
      cases hok
  | ok found =>
    constructor
    · intro h
      simp only at h
      split_ifs at h with hempty hvalues
      cases h
      refine ⟨found, rfl, by simpa using hempty, fun expected hexpected => ?_, rfl⟩
      rw [hexpected] at hvalues
      simpa using hvalues
    · rintro ⟨found', hok, hne, hvalues, rfl⟩
      cases hok
      simp only
      rw [if_neg (by simpa using hne), if_pos]
      cases hexpected : claim.values with
      | none => rfl
      | some expected => simpa using hvalues expected hexpected

/-- What is selected are claims of the query that the credential has. -/
theorem selectClaims_resolved {claims : List SelectedClaim}
    (h : selectClaims query c = some claims) :
    ∀ s ∈ claims, ∃ claim ∈ query.claims, resolveClaim claim c = some s := by
  unfold selectClaims at h
  split at h
  · cases h
  · cases h
    exact fun s hs => absurd hs List.not_mem_nil
  · intro s hs
    obtain ⟨claim, hclaim, hresolved⟩ := forall₂_mem_right (collect_eq_some.mp h) hs
    exact ⟨claim, hclaim, hresolved⟩
  · intro s hs
    obtain ⟨set, _, hset⟩ := List.exists_of_findSome?_eq_some h
    obtain ⟨id, _, hid⟩ := forall₂_mem_right (collect_eq_some.mp hset) hs
    obtain ⟨claim, hclaim, hresolved⟩ := Option.bind_eq_some_iff.mp hid
    exact ⟨claim, List.mem_of_find?_eq_some hclaim, hresolved⟩

theorem candidateOf_eq_some {candidate : Candidate} :
    candidateOf query c = some candidate ↔
      selectClaims query c = some candidate.claims ∧ candidate.credentialId = Credential.id c := by
  rw [candidateOf, Option.map_eq_some_iff]
  constructor
  · rintro ⟨claims, hclaims, rfl⟩
    exact ⟨hclaims, rfl⟩
  · rintro ⟨hclaims, hid⟩
    exact ⟨candidate.claims, hclaims, by rw [← hid]⟩

end Claims

/-! ## 2. Candidates -/

section Candidates

variable {query : DcqlQuery} {wallet : List C} {policy : Policy C}

theorem mem_candidates {cq : CredentialQuery} {candidate : Candidate} :
    candidate ∈ (queryMatch wallet policy cq).candidates ↔
      ∃ c ∈ wallet, (cq.requireCryptographicHolderBinding = true →
          Credential.hasCryptographicHolderBinding c = true) ∧
        policy cq c = true ∧ candidateOf cq c = some candidate := by
  unfold queryMatch
  simp only [List.mem_filterMap, List.mem_filter, Bool.or_eq_true, Bool.not_eq_true']
  constructor
  · rintro ⟨c, ⟨⟨hc, hbinding⟩, hpolicy⟩, hcandidate⟩
    refine ⟨c, hc, fun hrequired => hbinding.resolve_left ?_, hpolicy, hcandidate⟩
    rw [hrequired]
    exact Bool.noConfusion
  · rintro ⟨c, hc, hbinding, hpolicy, hcandidate⟩
    refine ⟨c, ⟨⟨hc, ?_⟩, hpolicy⟩, hcandidate⟩
    cases hrequired : cq.requireCryptographicHolderBinding with
    | false => exact .inl rfl
    | true => exact .inr (hbinding hrequired)

/-- The first match with an id is that of the first query with it. -/
theorem execute_query (id : String) :
    (execute query wallet policy).query id =
      (query.credential id).map (queryMatch wallet policy) := by
  rw [QueryResult.query, execute_queryMatches, List.find?_map]
  rfl

/-- Every member of a combination is a candidate of the query found by its id. -/
theorem combination_member {w : PointerWidth} {limit : Usize w} {combination : Combination}
    (h : combination ∈ ((execute query wallet policy).combinations w limit).combinations)
    {member : Member} (hm : member ∈ combination.members) :
    ∃ cq, query.credential member.1 = some cq ∧
      member.2 ∈ (queryMatch wallet policy cq).candidates := by
  obtain ⟨ids, _, hids⟩ := forall₂_mem_right (combinations_answered w limit) h
  obtain ⟨m, hquery, hcandidate⟩ := hids.candidate_mem hm
  rw [execute_query] at hquery
  obtain ⟨cq, hcq, rfl⟩ := Option.map_eq_some_iff.mp hquery
  exact ⟨cq, hcq, hcandidate⟩

end Candidates

/-! ## 3. The rule of the standard -/

section Rule

variable {cq : CredentialQuery} {c : C}

/-- The credential has the claim, with an allowed value. -/
def HasClaim (c : C) (claim : ClaimsQuery) : Prop :=
  ∃ found, Credential.claim c claim.path = .ok found ∧ found ≠ [] ∧
    ∀ allowed, claim.values = some allowed → ∃ v ∈ found, ∃ e ∈ allowed, (e == v) = true

/-- The claim as it is disclosed. -/
def ClaimsQuery.selected (claim : ClaimsQuery) : SelectedClaim where
  claimId := claim.id
  path := claim.path

/-- The ids name claims of the query that the credential has. -/
def Names (cq : CredentialQuery) (c : C) (ids : List String) (claims : List ClaimsQuery) : Prop :=
  List.Forall₂ (fun id claim => claim ∈ cq.claims ∧ claim.id = some id ∧ HasClaim c claim)
    ids claims

/-- What a query selects of a credential. There is no case for a choice among claims when none
is listed. -/
inductive Selects (cq : CredentialQuery) (c : C) : List SelectedClaim → Prop
  | noClaims : cq.claims = [] → cq.claimSets = none → Selects cq c []
  | allClaims : cq.claims ≠ [] → cq.claimSets = none → (∀ claim ∈ cq.claims, HasClaim c claim) →
      Selects cq c (cq.claims.map ClaimsQuery.selected)
  | firstSet {before after : List (List String)} {set : List String} {claims : List ClaimsQuery} :
      cq.claims ≠ [] → cq.claimSets = some (before ++ set :: after) →
      (∀ earlier ∈ before, ∀ claims, ¬ Names cq c earlier claims) → Names cq c set claims →
      Selects cq c (claims.map ClaimsQuery.selected)

theorem resolveClaim_iff {claim : ClaimsQuery} {s : SelectedClaim} :
    resolveClaim claim c = some s ↔ HasClaim c claim ∧ s = claim.selected := by
  rw [resolveClaim_eq_some]
  constructor
  · rintro ⟨found, hok, hne, hvalues, hs⟩
    exact ⟨⟨found, hok, hne, hvalues⟩, hs⟩
  · rintro ⟨⟨found, hok, hne, hvalues⟩, hs⟩
    exact ⟨found, hok, hne, hvalues, hs⟩

/-- Claims that are all there are selected as they are listed. -/
theorem collect_resolveClaim {claims : List ClaimsQuery} {selected : List SelectedClaim} :
    collect (fun claim => resolveClaim claim c) claims = some selected ↔
      (∀ claim ∈ claims, HasClaim c claim) ∧ selected = claims.map ClaimsQuery.selected := by
  rw [collect_eq_some]
  constructor
  · intro h
    induction h with
    | nil => exact ⟨by simp, rfl⟩
    | cons hhead _ ih =>
      obtain ⟨hclaim, rfl⟩ := resolveClaim_iff.mp hhead
      exact ⟨List.forall_mem_cons.mpr ⟨hclaim, ih.1⟩, by rw [ih.2, List.map_cons]⟩
  · rintro ⟨hall, rfl⟩
    rw [List.forall₂_map_right_iff, List.forall₂_same]
    exact fun claim hclaim => resolveClaim_iff.mpr ⟨hall claim hclaim, rfl⟩

/-- With distinct claim ids, a claim is found by its id. -/
theorem CredentialQuery.claim_eq_some (hids : cq.claimIds.Nodup) {id : String}
    {claim : ClaimsQuery} : cq.claim id = some claim ↔ claim ∈ cq.claims ∧ claim.id = some id := by
  constructor
  · intro h
    exact ⟨List.mem_of_find?_eq_some h, by simpa using List.find?_some h⟩
  · rintro ⟨hclaim, hid⟩
    unfold CredentialQuery.claim
    rw [List.find?_eq_some_iff_append]
    obtain ⟨before, after, hsplit⟩ := List.append_of_mem hclaim
    refine ⟨by simp [hid], before, after, hsplit, fun other hother => ?_⟩
    have hids' : (before.filterMap (·.id) ++ id :: after.filterMap (·.id)).Nodup := by
      rw [CredentialQuery.claimIds, hsplit, List.filterMap_append,
        List.filterMap_cons_some hid] at hids
      exact hids
    have hne : other.id ≠ some id := fun hsame =>
      (List.nodup_append.mp hids').2.2 id (List.mem_filterMap.mpr ⟨other, hother, hsame⟩) id
        List.mem_cons_self rfl
    simpa using hne

theorem collect_names (hids : cq.claimIds.Nodup) {set : List String}
    {selected : List SelectedClaim} :
    collect (fun id => (cq.claim id).bind fun claim => resolveClaim claim c) set = some selected ↔
      ∃ claims, Names cq c set claims ∧ selected = claims.map ClaimsQuery.selected := by
  rw [collect_eq_some]
  have hone : ∀ {id s}, ((cq.claim id).bind fun claim => resolveClaim claim c) = some s ↔
      ∃ claim, (claim ∈ cq.claims ∧ claim.id = some id ∧ HasClaim c claim) ∧
        s = claim.selected := by
    intro id s
    rw [Option.bind_eq_some_iff]
    simp only [CredentialQuery.claim_eq_some hids, resolveClaim_iff, and_assoc]
  constructor
  · intro h
    induction h with
    | nil => exact ⟨[], .nil, rfl⟩
    | cons hhead _ ih =>
      obtain ⟨claim, hclaim, rfl⟩ := hone.mp hhead
      obtain ⟨claims, hclaims, rfl⟩ := ih
      exact ⟨claim :: claims, .cons hclaim hclaims, rfl⟩
  · rintro ⟨claims, hclaims, rfl⟩
    rw [List.forall₂_map_right_iff]
    exact hclaims.imp fun id claim hclaim => hone.mpr ⟨claim, hclaim, rfl⟩

/-- With distinct claim ids, `select_claims` is the rule of the standard. -/
theorem selectClaims_iff (hids : cq.claimIds.Nodup) {selected : List SelectedClaim} :
    selectClaims cq c = some selected ↔ Selects cq c selected := by
  unfold selectClaims
  cases hclaims : cq.claims with
  | nil =>
    cases hsets : cq.claimSets with
    | none =>
      constructor
      · intro h
        cases h
        exact .noClaims hclaims hsets
      · intro h
        cases h with
        | noClaims _ _ => rfl
        | allClaims hne _ _ => exact absurd hclaims hne
        | firstSet hne _ _ _ => exact absurd hclaims hne
    | some sets =>
      constructor
      · intro h
        cases h
      · intro h
        cases h with
        | noClaims _ hnone => cases hsets.symm.trans hnone
        | allClaims hne _ _ => exact absurd hclaims hne
        | firstSet hne _ _ _ => exact absurd hclaims hne
  | cons first others =>
    have hne : cq.claims ≠ [] := hclaims ▸ List.cons_ne_nil first others
    rw [← hclaims]
    cases hsets : cq.claimSets with
    | none =>
      have hempty : cq.claims.isEmpty = false := by simp [hne]
      simp only [hempty, collect_resolveClaim]
      constructor
      · rintro ⟨hall, rfl⟩
        exact .allClaims hne hsets hall
      · intro h
        cases h with
        | noClaims hnil _ => exact absurd hnil hne
        | allClaims _ _ hall => exact ⟨hall, rfl⟩
        | firstSet _ hsome _ _ => cases hsets.symm.trans hsome
    | some sets =>
      have hempty : cq.claims.isEmpty = false := by simp [hne]
      simp only [hempty, List.findSome?_eq_some_iff, collect_names hids]
      constructor
      · rintro ⟨before, set, after, rfl, ⟨claims, hnames, rfl⟩, hbefore⟩
        refine .firstSet hne hsets (fun earlier hearlier claims hno => ?_) hnames
        have hsome := (collect_names hids).mpr ⟨claims, hno, rfl⟩
        cases hsome.symm.trans (hbefore earlier hearlier)
      · intro h
        cases h with
        | noClaims hnil _ => exact absurd hnil hne
        | allClaims _ hnone _ => cases hsets.symm.trans hnone
        | @firstSet before after set claims _ hsome hbefore hnames =>
          cases hsets.symm.trans hsome
          refine ⟨before, set, after, rfl, ⟨claims, hnames, rfl⟩, fun earlier hearlier => ?_⟩
          rw [Option.eq_none_iff_forall_ne_some]
          intro selected hselected
          obtain ⟨claims, hno, _⟩ := (collect_names hids).mp hselected
          exact hbefore earlier hearlier claims hno

end Rule

theorem DcqlQuery.credential_eq_some {query : DcqlQuery} {id : String} {cq : CredentialQuery}
    (h : query.credential id = some cq) : cq ∈ query.credentials ∧ cq.id = id :=
  ⟨List.mem_of_find?_eq_some h, by simpa using List.find?_some h⟩

/-! ## 4. Every query, and larger wallets -/

section Wallets

variable {query : DcqlQuery} {policy : Policy C}

/-- The credential is a candidate of the query: it is bound if that is required, the policy
takes it, and claims can be selected of it. -/
structure Eligible (policy : Policy C) (cq : CredentialQuery) (c : C) (candidate : Candidate) :
    Prop where
  bound : cq.requireCryptographicHolderBinding = true →
    Credential.hasCryptographicHolderBinding c = true
  policy : policy cq c = true
  credentialId : candidate.credentialId = Credential.id c
  claims : Selects cq c candidate.claims

theorem eligible_iff {cq : CredentialQuery} (hids : cq.claimIds.Nodup) {c : C}
    {candidate : Candidate} :
    Eligible policy cq c candidate ↔
      (!cq.requireCryptographicHolderBinding || Credential.hasCryptographicHolderBinding c) = true ∧
        policy cq c = true ∧ candidateOf cq c = some candidate := by
  rw [candidateOf_eq_some, selectClaims_iff hids]
  have hbound : (cq.requireCryptographicHolderBinding = true →
      Credential.hasCryptographicHolderBinding c = true) ↔
      (!cq.requireCryptographicHolderBinding || Credential.hasCryptographicHolderBinding c) =
        true := by
    cases cq.requireCryptographicHolderBinding <;> simp
  constructor
  · rintro ⟨hb, hpolicy, hid, hclaims⟩
    exact ⟨hbound.mp hb, hpolicy, hclaims, hid⟩
  · rintro ⟨hb, hpolicy, hclaims, hid⟩
    exact ⟨hbound.mpr hb, hpolicy, hid, hclaims⟩

/-- The candidates are the credentials of the wallet that are eligible, in its order. -/
theorem picks_candidates {cq : CredentialQuery} (hids : cq.claimIds.Nodup) (wallet : List C) :
    Picks (Eligible policy cq) wallet (queryMatch wallet policy cq).candidates := by
  unfold queryMatch
  rw [List.filterMap_filter, List.filterMap_filter]
  refine picks_filterMap fun c _ candidate => ?_
  rw [eligible_iff hids]
  split
  · next hbound =>
    split
    · next hpolicy => exact ⟨fun h => ⟨hbound, hpolicy, h⟩, fun h => h.2.2⟩
    · next hpolicy => exact ⟨fun h => (by cases h), fun h => absurd h.2.1 hpolicy⟩
  · next hbound => exact ⟨fun h => (by cases h), fun h => absurd h.1 hbound⟩

/-- The candidates of two matches of one query, together. -/
def QueryMatch.join (m m' : QueryMatch) : QueryMatch :=
  { m with candidates := m.candidates ++ m'.candidates }

theorem queryMatch_append (cq : CredentialQuery) (a b : List C) :
    queryMatch (a ++ b) policy cq = (queryMatch a policy cq).join (queryMatch b policy cq) := by
  simp [queryMatch, QueryMatch.join]

theorem isSatisfied_join {m m' : QueryMatch} :
    (m.join m').isSatisfied = (m.isSatisfied || m'.isSatisfied) := by
  cases hm : m.candidates <;> simp [QueryMatch.join, QueryMatch.isSatisfied, hm]

/-- The checks on sets only gain from queries that are satisfied as well. -/
theorem requiredSetsMet_mono {f g : CredentialQuery → QueryMatch} {cqs : List CredentialQuery}
    (hid : ∀ cq ∈ cqs, (f cq).queryId = (g cq).queryId)
    (hmore : ∀ cq ∈ cqs, (f cq).isSatisfied = true → (g cq).isSatisfied = true)
    {sets : Option (List CredentialSetQuery)} (h : requiredSetsMet (cqs.map f) sets = true) :
    requiredSetsMet (cqs.map g) sets = true := by
  cases sets with
  | none =>
    simp only [requiredSetsMet, List.all_map, List.all_eq_true, Function.comp_apply] at h ⊢
    exact fun cq hcq => hmore cq hcq (h cq hcq)
  | some sets =>
    simp only [requiredSetsMet, List.all_eq_true, List.any_eq_true, List.any_map,
      Function.comp_apply, Bool.and_eq_true] at h ⊢
    intro set hset
    obtain ⟨option, hoption, hall⟩ := h set hset
    refine ⟨option, hoption, fun id hids => ?_⟩
    obtain ⟨cq, hcq, hsame, hsatisfied⟩ := hall id hids
    exact ⟨cq, hcq, hid cq hcq ▸ hsame, hmore cq hcq hsatisfied⟩

/-- A satisfiable request stays satisfiable when more credentials are held. -/
theorem satisfiable_mono {wallet wallet' : List C}
    (hmore : ∀ cq ∈ query.credentials, (queryMatch wallet policy cq).isSatisfied = true →
      (queryMatch wallet' policy cq).isSatisfied = true)
    (h : (execute query wallet policy).satisfiable = true) :
    (execute query wallet' policy).satisfiable = true := by
  unfold execute at h ⊢
  simp only at h ⊢
  split at h
  · cases h
  · next hsome =>
    rw [if_neg hsome]
    simp only [Bool.and_eq_true, List.any_map, List.any_eq_true, Function.comp_apply] at h ⊢
    obtain ⟨hsets, cq, hcq, hsatisfied⟩ := h
    have hid : ∀ cq ∈ query.credentials,
        (queryMatch wallet policy cq).queryId = (queryMatch wallet' policy cq).queryId :=
      fun _ _ => rfl
    exact ⟨requiredSetsMet_mono hid hmore hsets, cq, hcq, hmore cq hcq hsatisfied⟩

theorem execute_append_queryMatches (a b : List C) :
    (execute query (a ++ b) policy).queryMatches =
      List.zipWith QueryMatch.join (execute query a policy).queryMatches
        (execute query b policy).queryMatches := by
  simp only [execute_queryMatches, List.zipWith_map, List.zipWith_self]
  exact List.map_congr_left fun cq _ => queryMatch_append cq a b

theorem execute_append_satisfiable {a b : List C}
    (h : (execute query a policy).satisfiable = true ∨
      (execute query b policy).satisfiable = true) :
    (execute query (a ++ b) policy).satisfiable = true := by
  have hjoin : ∀ cq, (queryMatch (a ++ b) policy cq).isSatisfied =
      ((queryMatch a policy cq).isSatisfied || (queryMatch b policy cq).isSatisfied) := fun cq => by
    rw [queryMatch_append, isSatisfied_join]
  rcases h with h | h
  · exact satisfiable_mono (fun cq _ hcq => by rw [hjoin, hcq, Bool.true_or]) h
  · exact satisfiable_mono (fun cq _ hcq => by rw [hjoin, hcq, Bool.or_true]) h

end Wallets

/-- Every query of a validated request gets exactly the credentials that are eligible for it, in
wallet order. Two wallets together give each query the candidates of the one and then those of
the other, and satisfy what one of them satisfies. -/
theorem execute_selects {query : DcqlQuery} (hvalid : query.validate = .ok ())
    (policy : Policy C) :
    (∀ wallet : List C,
      List.Forall₂ (fun cq m => m.queryId = cq.id ∧ m.multiple = cq.multiple ∧
          Picks (Eligible policy cq) wallet m.candidates)
        query.credentials (execute query wallet policy).queryMatches) ∧
    ∀ a b : List C,
      (execute query (a ++ b) policy).queryMatches =
          List.zipWith QueryMatch.join (execute query a policy).queryMatches
            (execute query b policy).queryMatches ∧
        ((execute query a policy).satisfiable = true ∨
            (execute query b policy).satisfiable = true →
          (execute query (a ++ b) policy).satisfiable = true) := by
  refine ⟨fun wallet => ?_, fun a b => ⟨execute_append_queryMatches a b, ?_⟩⟩
  · rw [execute_queryMatches, List.forall₂_map_right_iff, List.forall₂_same]
    intro cq hcq
    have hids := (DcqlQuery.validate_ok.mp hvalid).claims cq hcq
    exact ⟨rfl, rfl, picks_candidates hids wallet⟩
  · exact execute_append_satisfiable

/-- A credential with a JSON body. -/
structure JsonCredential where
  id : String
  body : Value
  bound : Bool

instance : Credential JsonCredential where
  id := JsonCredential.id
  format _ := "dc+sd-jwt"
  claim c path := resolveJson .w64 c.body path
  hasCryptographicHolderBinding := JsonCredential.bound

/-- Whether the holder is of age, or else the birth date. -/
def ageClaims : CredentialQuery where
  id := "age"
  format := "dc+sd-jwt"
  multiple := false
  meta_ := []
  trustedAuthorities := none
  requireCryptographicHolderBinding := true
  claims :=
    [{ id := some "over18", path := [.key "age_over_18"], values := some [.bool true] },
     { id := some "dob", path := [.key "birth_date"], values := none }]
  claimSets := some [["over18"], ["dob"]]

def ageRequest : DcqlQuery where
  credentials := [ageClaims]
  credentialSets := none

def issued : List JsonCredential :=
  [{ id := "erika", body := .ofMembers [("age_over_18", .bool true)], bound := true },
   { id := "copy", body := .ofMembers [("age_over_18", .bool true)], bound := false }]

def imported : List JsonCredential :=
  [{ id := "max", body := .ofMembers [("age_over_18", .bool false),
      ("birth_date", .string "2010-04-12")], bound := true },
   { id := "nameless", body := .ofMembers [("given_name", .string "Kim")], bound := true }]

/-- Of two wallets together, the first claim set that a bound credential has is selected. -/
theorem execute_selects_age :
    let policy := formatPolicy JsonCredential
    let r := execute ageRequest (issued ++ imported) policy
    ∃ m, r.queryMatches = [m] ∧
      Picks (Eligible policy ageClaims) (issued ++ imported) m.candidates ∧
      (m.candidates.map fun c => (c.credentialId, c.claims.map (·.claimId))) =
        [("erika", [some "over18"]), ("max", [some "dob"])] ∧
      r.queryMatches = List.zipWith QueryMatch.join (execute ageRequest issued policy).queryMatches
        (execute ageRequest imported policy).queryMatches ∧
      r.satisfiable = true := by
  intro policy r
  obtain ⟨hpicks, hwallets⟩ := @execute_selects _ _ ageRequest (by decide) policy
  obtain ⟨hjoined, hsatisfiable⟩ := hwallets issued imported
  obtain ⟨m, _, ⟨_, _, hone⟩, hrest, hm⟩ :=
    List.forall₂_cons_left_iff.mp (hpicks (issued ++ imported))
  cases hrest
  refine ⟨m, hm, hone, ?_, hjoined, hsatisfiable (.inl (by decide +kernel))⟩
  have hcandidates : r.queryMatches.map (fun m =>
      m.candidates.map fun c => (c.credentialId, c.claims.map (·.claimId))) =
      [[("erika", [some "over18"]), ("max", [some "dob"])]] := by decide +kernel
  rw [hm] at hcandidates
  exact List.head_eq_of_cons_eq hcandidates

end DcMatcher
