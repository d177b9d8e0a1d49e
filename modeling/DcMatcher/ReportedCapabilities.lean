import DcMatcher.Evaluator

/-!
# The capabilities a match reports

A match needs the capabilities its query requires. `resolve` reports those of every
requirement that applies, required or not, and none at all if one of them cannot be met.

Results:
1. `chooseCapability_eq_some`: the capability chosen for a requirement is the one held for
   the verifier's first satisfiable entry.
2. `requirements_subset_applicable`: what is required applies.
3. `reportsRequired_iff`: exactly when the required capabilities are among those reported.
-/

namespace DcMatcher

open Lists

section Choosing

variable (sj : SerdeJson) (policy : ProfilePolicy) (query : CredentialQuery)

/-- What the wallet holds for a requirement, and what the verifier asks for it. -/
structure AskedAndHeld (requirement : Requirement) (held : List Capability)
    (requested : List Value) : Prop where
  held : policy.profile.capabilities.get requirement.capability = some held
  requested : (query.meta_.get requirement.fromMeta).bind Value.asArray = some requested

/-- The first held capability that satisfies the verifier's first satisfiable entry. -/
def ChosenFor (requirement : Requirement) (c : Capability) : Prop :=
  ∃ held requested, AskedAndHeld policy query requirement held requested ∧
    ∃ passed entry later, requested = passed ++ entry :: later ∧
      (∀ e ∈ passed, ∀ c' ∈ held, satisfies sj c' e = false) ∧
      ∃ before after, held = before ++ c :: after ∧
        (∀ c' ∈ before, satisfies sj c' entry = false) ∧ satisfies sj c entry = true

/-- Some held capability satisfies some entry. -/
def Satisfiable (requirement : Requirement) : Prop :=
  ∃ held requested, AskedAndHeld policy query requirement held requested ∧
    ∃ entry ∈ requested, ∃ c ∈ held, satisfies sj c entry = true

/-- For every requirement the match needed, its capability is among the reported ones. -/
def ReportsRequired (candidate : Candidate) : Prop :=
  ∀ requirement ∈ policy.requirements query, ∃ c, ChosenFor sj policy query requirement c ∧
    c ∈ (resolve sj policy query candidate).capabilities

end Choosing

variable {sj : SerdeJson} {policy : ProfilePolicy} {query : CredentialQuery}
  {requirement : Requirement}

/-! ## 1. One requirement -/

theorem chooseCapability_eq_some {c : Capability} :
    policy.chooseCapability sj query requirement = some c ↔
      ChosenFor sj policy query requirement c := by
  unfold ProfilePolicy.chooseCapability
  constructor
  · intro h
    obtain ⟨held, hheld, h⟩ := Option.bind_eq_some_iff.mp h
    obtain ⟨requested, hrequested, h⟩ := Option.bind_eq_some_iff.mp h
    obtain ⟨passed, entry, later, hsplit, hentry, hpassed⟩ := List.findSome?_eq_some_iff.mp h
    obtain ⟨hsat, before, after, hlist, hbefore⟩ := List.find?_eq_some_iff_append.mp hentry
    refine ⟨held, requested, ⟨hheld, hrequested⟩, passed, entry, later, hsplit, ?_,
      before, after, hlist, ?_, hsat⟩
    · intro e he c' hc'
      simpa using List.find?_eq_none.mp (hpassed e he) c' hc'
    · exact fun c' hc' => by simpa using hbefore c' hc'
  · rintro ⟨held, requested, ⟨hheld, hrequested⟩, passed, entry, later, hsplit, hpassed,
      before, after, hlist, hbefore, hsat⟩
    refine Option.bind_eq_some_iff.mpr ⟨held, hheld, ?_⟩
    refine Option.bind_eq_some_iff.mpr ⟨requested, hrequested, ?_⟩
    refine List.findSome?_eq_some_iff.mpr ⟨passed, entry, later, hsplit, ?_, ?_⟩
    · exact List.find?_eq_some_iff_append.mpr
        ⟨hsat, before, after, hlist, fun c' hc' => by simpa using hbefore c' hc'⟩
    · exact fun e he => List.find?_eq_none.mpr fun c' hc' => by simpa using hpassed e he c' hc'

/-- A capability is chosen exactly when the requirement can be met. -/
theorem exists_chosen_iff :
    (∃ c, policy.chooseCapability sj query requirement = some c) ↔
      Satisfiable sj policy query requirement := by
  constructor
  · rintro ⟨c, hc⟩
    obtain ⟨held, requested, hasked, passed, entry, later, hsplit, _, before, after, hlist, _,
      hsat⟩ := chooseCapability_eq_some.mp hc
    refine ⟨held, requested, hasked, entry, ?_, c, ?_, hsat⟩
    · rw [hsplit]
      exact List.mem_append_right _ List.mem_cons_self
    · rw [hlist]
      exact List.mem_append_right _ List.mem_cons_self
  · rintro ⟨held, requested, ⟨hheld, hrequested⟩, entry, hentry, c, hc, hsat⟩
    have hsome : (requested.findSome? fun e => held.find? fun c => satisfies sj c e).isSome := by
      rw [List.findSome?_isSome_iff]
      exact ⟨entry, hentry, List.find?_isSome.mpr ⟨c, hc, hsat⟩⟩
    obtain ⟨c', hc'⟩ := Option.isSome_iff_exists.mp hsome
    refine ⟨c', Option.bind_eq_some_iff.mpr ⟨held, hheld, ?_⟩⟩
    exact Option.bind_eq_some_iff.mpr ⟨requested, hrequested, hc'⟩

/-! ## 2. The requirements of a query -/

/-- A trigger that counts adds its requirement, one that does not adds nothing. -/
theorem mem_addTrigger {counts : MetaTrigger → Bool} {out : List Requirement}
    {trigger : MetaTrigger} :
    requirement ∈ ProfilePolicy.addTrigger query counts out trigger ↔
      requirement ∈ out ∨
        (query.meta_.containsKey trigger.whenMetaPresent = true ∧ counts trigger = true ∧
          requirement =
            { capability := trigger.capability, fromMeta := trigger.whenMetaPresent }) := by
  unfold ProfilePolicy.addTrigger
  cases hkey : query.meta_.containsKey trigger.whenMetaPresent with
  | false => simp
  | true =>
    cases hcounts : counts trigger with
    | false => simp
    | true =>
      simp only [Bool.not_true, Bool.false_eq_true, if_false, true_and]
      split
      · next hmem =>
        rw [List.contains_iff_mem] at hmem
        exact ⟨.inl, fun h => h.elim id fun h => h ▸ hmem⟩
      · rw [List.mem_append, List.mem_singleton]

theorem mem_requirementsOf {counts : MetaTrigger → Bool} :
    requirement ∈ policy.requirementsOf query counts ↔
      requirement ∈ ((policy.profile.formatRule query.format).map (·.requires)).getD [] ∨
        ∃ trigger ∈ policy.profile.metaTriggers,
          query.meta_.containsKey trigger.whenMetaPresent = true ∧ counts trigger = true ∧
            requirement =
              { capability := trigger.capability, fromMeta := trigger.whenMetaPresent } := by
  unfold ProfilePolicy.requirementsOf
  generalize ((policy.profile.formatRule query.format).map (·.requires)).getD [] = out
  induction policy.profile.metaTriggers generalizing out with
  | nil => simp
  | cons trigger triggers ih =>
    rw [List.foldl_cons, ih, mem_addTrigger, List.exists_mem_cons_iff, or_assoc]

/-- What is required applies. -/
theorem requirements_subset_applicable (h : requirement ∈ policy.requirements query) :
    requirement ∈ policy.applicableCapabilities query := by
  rcases mem_requirementsOf.mp h with h | ⟨trigger, htrigger, hkey, _, heq⟩
  · exact mem_requirementsOf.mpr (.inl h)
  · exact mem_requirementsOf.mpr (.inr ⟨trigger, htrigger, hkey, rfl, heq⟩)

/-! ## 3. What is reported -/

/-- A match can meet every requirement it needs. -/
theorem satisfiable_of_policyMatches {c : Db.Credential}
    (hmatch : policy.policyMatches sj query { credential := c } = true)
    (h : requirement ∈ policy.requirements query) : Satisfiable sj policy query requirement := by
  simp only [ProfilePolicy.policyMatches, Bool.and_eq_true] at hmatch
  have haccept := hmatch.1.2
  rw [ProfilePolicy.capabilitiesAccept, Bool.or_eq_true, List.isEmpty_iff] at haccept
  rcases haccept with hnone | hsome
  · rw [hnone] at h
    cases h
  · obtain ⟨chosen, hchosen⟩ := Option.isSome_iff_exists.mp hsome
    obtain ⟨c, _, hc⟩ := forall₂_mem_left (collect_eq_some.mp hchosen) h
    exact exists_chosen_iff.mp ⟨c, hc⟩

/-- The reported capabilities, when every requirement that applies can be met. -/
theorem capabilityFor_applicable
    (h : ∀ requirement ∈ policy.applicableCapabilities query,
      Satisfiable sj policy query requirement) :
    ∃ chosen, policy.capabilityFor sj query (policy.applicableCapabilities query) = some chosen :=
  exists_collect fun requirement hmem => exists_chosen_iff.mpr (h requirement hmem)

theorem resolve_capabilities (candidate : Candidate) :
    (resolve sj policy query candidate).capabilities =
      (policy.capabilityFor sj query (policy.applicableCapabilities query)).getD [] := by
  unfold resolve
  simp only
  split
  · next hnone =>
    rw [List.isEmpty_iff.mp hnone]
    rfl
  · rfl

/-- For a credential that matches, the required capabilities are among the reported ones if and
only if the query requires none, or the wallet can meet every optional requirement that
applies to it. -/
theorem reportsRequired_iff (sj : SerdeJson) (policy : ProfilePolicy) (query : CredentialQuery)
    (c : Db.Credential) (hmatch : policy.policyMatches sj query { credential := c } = true)
    (candidate : Candidate) :
    ReportsRequired sj policy query candidate ↔
      policy.requirements query = [] ∨
        ∀ requirement ∈ policy.applicableCapabilities query,
          requirement ∉ policy.requirements query → Satisfiable sj policy query requirement := by
  unfold ReportsRequired
  rw [resolve_capabilities]
  constructor
  · intro h
    cases hrequired : policy.requirements query with
    | nil => exact .inl rfl
    | cons first others =>
      -- a capability is reported, so every requirement had one
      right
      intro requirement hmem _
      obtain ⟨_, _, hreported⟩ := h first (hrequired ▸ List.mem_cons_self)
      cases hchosen : policy.capabilityFor sj query (policy.applicableCapabilities query) with
      | none =>
        rw [hchosen] at hreported
        cases hreported
      | some chosen =>
        obtain ⟨c, _, hc⟩ := forall₂_mem_left (collect_eq_some.mp hchosen) hmem
        exact exists_chosen_iff.mp ⟨c, hc⟩
  · rintro (hnone | hoptional) requirement hmem
    · rw [hnone] at hmem
      cases hmem
    · have hall : ∀ requirement ∈ policy.applicableCapabilities query,
          Satisfiable sj policy query requirement := by
        intro requirement hmem
        by_cases hrequired : requirement ∈ policy.requirements query
        · exact satisfiable_of_policyMatches hmatch hrequired
        · exact hoptional requirement hmem hrequired
      obtain ⟨chosen, hchosen⟩ := capabilityFor_applicable hall
      obtain ⟨c, hc, hsome⟩ :=
        forall₂_mem_left (collect_eq_some.mp hchosen) (requirements_subset_applicable hmem)
      refine ⟨c, chooseCapability_eq_some.mp hsome, ?_⟩
      rw [hchosen]
      exact hc

/-- A wallet that can prove, with a second trigger for what it cannot do. -/
def provingPolicy : ProfilePolicy where
  profile := { MatchProfile.sirosDefault with
    metaTriggers :=
      [⟨"zk_system_type", ZK_CAPABILITY, some "zk_required"⟩,
       ⟨"ppid_system_type", "ppid_system", some "ppid_required"⟩]
    capabilities := [(ZK_CAPABILITY, [⟨"longfellow-libzk-v1", []⟩])] }
  context := none

/-- An mdoc with no claims. -/
def licence : Db.Credential where
  id := "mdl-1"
  format := SOURCE_MSO_MDOC
  doctype := none
  vct := none
  title := "Driving licence"
  subtitle := "Issuer"
  icon := none
  claims := []

/-- A query that requires a proof, with the given further members of `meta`. -/
def provingQuery (more : Map) : CredentialQuery where
  id := "q"
  format := "mso_mdoc_zk"
  multiple := false
  meta_ := more ++
    [("zk_system_type", .array [.ofMembers [("system", .string "longfellow-libzk-v1")]])]
  trustedAuthorities := none
  requireCryptographicHolderBinding := true
  claims := []
  claimSets := none

/-- With nothing optional in the query, the required capability is reported. -/
theorem reportsRequired_iff_plain :
    ReportsRequired (.ofValues []) provingPolicy (provingQuery [])
      { credentialId := "mdl-1", claims := [] } := by
  refine (reportsRequired_iff _ _ _ licence (by decide +kernel) _).mpr (.inr ?_)
  intro requirement hmem hnot
  have hsame : provingPolicy.applicableCapabilities (provingQuery []) =
      provingPolicy.requirements (provingQuery []) := by decide +kernel
  exact absurd (hsame ▸ hmem) hnot

/-- With an optional system that the wallet does not have, it is not. -/
theorem not_reportsRequired_optional :
    let query := provingQuery
      [("ppid_system_type", .array [.ofMembers [("system", .string "ppid-v1")]])]
    provingPolicy.policyMatches (.ofValues []) query { credential := licence } = true ∧
      ¬ ReportsRequired (.ofValues []) provingPolicy query
          { credentialId := "mdl-1", claims := [] } := by
  refine ⟨by decide +kernel, fun h => ?_⟩
  obtain ⟨c, _, hc⟩ := h ⟨ZK_CAPABILITY, "zk_system_type"⟩ (by decide +kernel)
  rw [resolve_capabilities] at hc
  have hnone : provingPolicy.capabilityFor (.ofValues [])
      (provingQuery [("ppid_system_type", .array [.ofMembers [("system", .string "ppid-v1")]])])
      (provingPolicy.applicableCapabilities
        (provingQuery
          [("ppid_system_type", .array [.ofMembers [("system", .string "ppid-v1")]])])) =
      none := by
    decide +kernel
  rw [hnone] at hc
  cases hc

end DcMatcher
