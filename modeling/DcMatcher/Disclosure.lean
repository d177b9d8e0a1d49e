import DcMatcher.Dcql.Selection
import DcMatcher.Negotiation

/-!
# What a wallet library is told to disclose

A `zkp_req` query is answered without claims, and the secrets of a nym_auth attestation
are not disclosed: `policyMatches` decides on the query itself, `resolve` on the one it
finds by its id.

Results:
1. `reported_withheld`: what is reported for a credential and a query is withheld, unless
   a query of another format answers in the place of a `zkp_req` one.
2. `neverDiscloses_iff`: exactly when nothing is disclosed that must not be.
-/

namespace DcMatcher

open Lists

/-! ## 1. Reports -/

section Reports

variable (sj : SerdeJson) (db : CredentialDatabase) (context : RequestContext) (query : DcqlQuery)

/-- The record is what the library reports for the credential, as an answer to the query. -/
def Reported (cq : CredentialQuery) (c : Db.Credential) (m : FfiMatchedCredential) : Prop :=
  (Picker.policyOf db context).policyMatches sj cq { credential := c } = true ∧
    ∃ candidate, candidateOf cq ({ credential := c } : BlobCredential sj) = some candidate ∧
      m = Ffi.member sj (Picker.policyOf db context) query cq.id candidate

/-- Nothing is disclosed that must not be. -/
structure Withheld (cq : CredentialQuery) (c : Db.Credential) (m : FfiMatchedCredential) :
    Prop where
  /-- No path to a secret of a nym_auth attestation. -/
  secrets : isNymAuth c = true → ∀ path ∈ m.claims, ∀ k ∈ path, k ∉ NYM_AUTH_UNDISCLOSABLE
  /-- No claim at all, when the query is one for `zkp_req`. -/
  proofs : cq.format = ZKP_REQ_FORMAT → m.claims = []

/-- Whatever the outcome reports for a credential and a query is withheld, and it reports
nothing else. -/
structure NeverDisclosed (outcome : FfiMatchOutcome) : Prop where
  queryMatches : List.Forall₂ (fun cq qm => ∀ m ∈ qm.credentials,
    (∃ c ∈ db.credentials, Reported sj db context query cq c m) ∧
      ∀ c ∈ db.credentials, Reported sj db context query cq c m → Withheld cq c m)
    query.credentials outcome.queryMatches
  combinations : ∀ combination ∈ outcome.combinations, ∀ m ∈ combination.members,
    (∃ cq ∈ query.credentials, ∃ c ∈ db.credentials, Reported sj db context query cq c m) ∧
      ∀ cq ∈ query.credentials, ∀ c ∈ db.credentials,
        Reported sj db context query cq c m → Withheld cq c m

/-- The first query with the id of a `zkp_req` query is one for `zkp_req`, or no credential
that is accepted has claims selected. -/
def NotMistaken (cq : CredentialQuery) : Prop :=
  ∀ first, query.credential cq.id = some first → first.format ≠ ZKP_REQ_FORMAT →
    ∀ c ∈ db.credentials,
      (Picker.policyOf db context).policyMatches sj cq { credential := c } = true →
      ∀ claims, selectClaims cq ({ credential := c } : BlobCredential sj) = some claims →
        claims = []

end Reports

section Withholding

variable {sj : SerdeJson} {db : CredentialDatabase} {context : RequestContext} {query : DcqlQuery}
  {cq : CredentialQuery}

/-- What a match has been checked for, by the format of its query. -/
theorem queryAccepts_of_policyMatches {policy : ProfilePolicy} {c : Db.Credential}
    (h : policy.policyMatches sj cq { credential := c } = true) :
    policy.queryAccepts sj cq c = true := by
  simp only [ProfilePolicy.policyMatches, Bool.and_eq_true] at h
  exact h.1.1.2

/-- The plan of a `zkp_req` query is found by its id. -/
theorem zkpReqSelection_congr {policy : ProfilePolicy} {cq' : CredentialQuery}
    (h : cq.id = cq'.id) : policy.zkpReqSelection sj cq = policy.zkpReqSelection sj cq' := by
  rw [ProfilePolicy.zkpReqSelection, ProfilePolicy.zkpReqSelection, h]

/-- A query in the list has a first query with its id. -/
theorem credential_isSome (hcq : cq ∈ query.credentials) :
    ∃ first, query.credential cq.id = some first := by
  rw [← Option.isSome_iff_exists, DcqlQuery.credential, List.find?_isSome]
  exact ⟨cq, hcq, by simp⟩

/-- The claims of a record: those selected, unless the query found by the id is one for
`zkp_req` with a plan. -/
theorem member_claims {policy : ProfilePolicy} {first : CredentialQuery} {id : String}
    (hfirst : query.credential id = some first) (candidate : Candidate) :
    (Ffi.member sj policy query id candidate).claims =
      if first.format = ZKP_REQ_FORMAT ∧ (policy.zkpReqSelection sj first).isSome then []
      else candidate.claims.map fun claim => pathKeys claim.path := by
  show ((((query.credential id).map fun cq => resolve sj policy cq candidate).map
    (·.claims)).getD []) = _
  rw [hfirst]
  show (resolve sj policy first candidate).claims = _
  unfold resolve
  by_cases hformat : first.format = ZKP_REQ_FORMAT
  · simp only [hformat, if_true, true_and]
  · simp [hformat]

/-- Where a query does not ask for the secrets of a nym_auth attestation, no selected path
names one. -/
theorem selected_not_secret {c : Db.Credential} {claims : List SelectedClaim}
    (hselected : selectClaims cq ({ credential := c } : BlobCredential sj) = some claims)
    (hasks : disclosesNymAuthSecrets cq = false) :
    ∀ s ∈ claims, ∀ k ∈ pathKeys s.path, k ∉ NYM_AUTH_UNDISCLOSABLE := by
  intro s hs k hk
  obtain ⟨claim, hclaim, hresolved⟩ := selectClaims_resolved hselected s hs
  obtain ⟨found, _, _, _, rfl⟩ := resolveClaim_eq_some.mp hresolved
  obtain ⟨component, hcomponent, hkey⟩ := List.mem_filterMap.mp hk
  rw [disclosesNymAuthSecrets, Bool.or_eq_false_iff] at hasks
  have hpath := List.any_eq_false.mp hasks.2 claim hclaim
  have hnot : undisclosable component = false := by
    simpa using List.any_eq_false.mp (by simpa using hpath) component hcomponent
  cases component with
  | key k' =>
    cases hkey
    simpa [undisclosable] using hnot
  | index i => cases hkey
  | null => cases hkey

/-- A `zkp_req` query is reported without claims, if no other query answers in its place. -/
theorem reported_proofs (hcq : cq ∈ query.credentials) {c : Db.Credential}
    (hc : c ∈ db.credentials) (hformat : cq.format = ZKP_REQ_FORMAT)
    (hplace : NotMistaken sj db context query cq)
    {m : FfiMatchedCredential} (h : Reported sj db context query cq c m) : m.claims = [] := by
  obtain ⟨hpolicy, candidate, hcandidate, rfl⟩ := h
  obtain ⟨hselected, _⟩ := candidateOf_eq_some.mp hcandidate
  obtain ⟨first, hfirst⟩ := credential_isSome hcq
  rw [member_claims hfirst]
  by_cases hfirstFormat : first.format = ZKP_REQ_FORMAT
  · -- the plan found for the first query is the one this query was accepted for
    have haccepts := queryAccepts_of_policyMatches hpolicy
    rw [ProfilePolicy.queryAccepts, if_pos hformat] at haccepts
    have hselection := Option.isSome_of_any haccepts
    rw [zkpReqSelection_congr (DcqlQuery.credential_eq_some hfirst).2.symm] at hselection
    rw [if_pos ⟨hfirstFormat, hselection⟩]
  · rw [hplace first hfirst hfirstFormat c hc hpolicy _ hselected]
    split <;> rfl

/-- What is reported is withheld, if no other query answers in the place of a `zkp_req`
one. -/
theorem reported_withheld (hcq : cq ∈ query.credentials) {c : Db.Credential}
    (hc : c ∈ db.credentials)
    (hplace : cq.format = ZKP_REQ_FORMAT → NotMistaken sj db context query cq)
    {m : FfiMatchedCredential} (h : Reported sj db context query cq c m) : Withheld cq c m := by
  have hproofs : cq.format = ZKP_REQ_FORMAT → m.claims = [] := fun hformat =>
    reported_proofs hcq hc hformat (hplace hformat) h
  -- a `zkp_req` match has no paths; any other was checked for the secrets
  refine ⟨fun hnym path hpath => ?_, hproofs⟩
  by_cases hformat : cq.format = ZKP_REQ_FORMAT
  · rw [hproofs hformat] at hpath
    cases hpath
  · obtain ⟨hpolicy, candidate, hcandidate, rfl⟩ := h
    obtain ⟨hselected, _⟩ := candidateOf_eq_some.mp hcandidate
    obtain ⟨first, hfirst⟩ := credential_isSome hcq
    have haccepts := queryAccepts_of_policyMatches hpolicy
    rw [ProfilePolicy.queryAccepts, if_neg hformat] at haccepts
    have hasks : disclosesNymAuthSecrets cq = false := by simpa [hnym] using haccepts
    rw [member_claims hfirst] at hpath
    split at hpath
    · cases hpath
    · obtain ⟨s, hs, rfl⟩ := List.mem_map.mp hpath
      exact selected_not_secret hselected hasks s hs

/-! ## 2. The outcome -/

/-- The candidates of a query are what is reported for it. -/
theorem mem_blobCandidates {policy : ProfilePolicy} {candidate : Candidate} :
    candidate ∈ (queryMatch (credentials sj db) (policy.policyMatches sj) cq).candidates ↔
      ∃ c ∈ db.credentials, policy.policyMatches sj cq { credential := c } = true ∧
        candidateOf cq ({ credential := c } : BlobCredential sj) = some candidate := by
  rw [mem_candidates]
  constructor
  · rintro ⟨held, hheld, _, hpolicy, hcandidate⟩
    obtain ⟨c, hc, rfl⟩ := List.mem_map.mp hheld
    exact ⟨c, hc, hpolicy, hcandidate⟩
  · rintro ⟨c, hc, hpolicy, hcandidate⟩
    exact ⟨_, List.mem_map_of_mem hc, fun _ => rfl, hpolicy, hcandidate⟩

theorem evaluate_queryMatches (w : PointerWidth) :
    (Ffi.evaluate sj w db query context).queryMatches =
      query.credentials.map fun cq => Ffi.queryMatch sj (Picker.policyOf db context) query
        (queryMatch (credentials sj db) ((Picker.policyOf db context).policyMatches sj) cq) := by
  show (execute query _ _).queryMatches.map _ = _
  rw [execute_queryMatches, List.map_map]
  rfl

/-- Every member of a combination is reported for the query found by its id. -/
theorem evaluate_member {w : PointerWidth} {combination : FfiCombination}
    (h : combination ∈ (Ffi.evaluate sj w db query context).combinations)
    {m : FfiMatchedCredential} (hm : m ∈ combination.members) :
    ∃ cq ∈ query.credentials, ∃ c ∈ db.credentials, Reported sj db context query cq c m := by
  obtain ⟨built, hbuilt, rfl⟩ := List.mem_map.mp h
  obtain ⟨member, hmember, rfl⟩ := List.mem_map.mp hm
  obtain ⟨cq, hcq, hcandidate⟩ := combination_member hbuilt hmember
  obtain ⟨hlisted, hid⟩ := DcqlQuery.credential_eq_some hcq
  obtain ⟨c, hc, hpolicy, hselected⟩ := mem_blobCandidates.mp hcandidate
  refine ⟨cq, hlisted, c, hc, hpolicy, member.2, hselected, ?_⟩
  rw [hid]
  rfl

/-- The outcome discloses nothing that it must not, if and only if no query answers in the
place of a `zkp_req` one. -/
theorem evaluate_neverDisclosed_iff (w : PointerWidth) :
    NeverDisclosed sj db context query (Ffi.evaluate sj w db query context) ↔
      ∀ cq ∈ query.credentials, cq.format = ZKP_REQ_FORMAT →
        NotMistaken sj db context query cq := by
  constructor
  · intro h cq hcq hformat first hfirst hother c hc hpolicy claims hselected
    have hall := h.queryMatches
    rw [evaluate_queryMatches, List.forall₂_map_right_iff, List.forall₂_same] at hall
    -- the record of the credential, and what it says
    have hcandidate : candidateOf cq ({ credential := c } : BlobCredential sj) =
        some { credentialId := c.id, claims } := candidateOf_eq_some.mpr ⟨hselected, rfl⟩
    have hreported := hall cq hcq _
      (List.mem_map_of_mem (mem_blobCandidates.mpr ⟨c, hc, hpolicy, hcandidate⟩))
    have hnone := (hreported.2 c hc ⟨hpolicy, _, hcandidate, rfl⟩).proofs hformat
    rw [show (queryMatch (credentials sj db) _ cq).queryId = cq.id from rfl,
      member_claims hfirst, if_neg fun h => hother h.1] at hnone
    exact List.map_eq_nil_iff.mp hnone
  · intro h
    constructor
    · rw [evaluate_queryMatches, List.forall₂_map_right_iff, List.forall₂_same]
      intro cq hcq m hm
      obtain ⟨candidate, hcandidate, rfl⟩ := List.mem_map.mp hm
      obtain ⟨c, hc, hpolicy, hselected⟩ := mem_blobCandidates.mp hcandidate
      exact ⟨⟨c, hc, hpolicy, candidate, hselected, rfl⟩,
        fun c hc hreported => reported_withheld hcq hc (h cq hcq) hreported⟩
    · intro combination hcombination m hm
      exact ⟨evaluate_member hcombination hm,
        fun cq hcq c hc hreported => reported_withheld hcq hc (h cq hcq) hreported⟩

end Withholding

section Requests

/-- A DC API request discloses nothing that it must not. -/
def NeverDiscloses (sj : SerdeJson) (ciborium : Ciborium) (w : PointerWidth) (blob : List UInt8)
    (requestJson : String) : Prop :=
  ∀ db, CredentialDatabase.fromCbor ciborium blob = .ok db →
    ∀ context query, chosen sj db.profile (utf8 requestJson) = some (context, query) →
      ∀ outcome, Ffi.matchDcApiRequest sj w ciborium blob requestJson = .ok outcome →
        NeverDisclosed sj db context query outcome

/-- Nothing is disclosed that must not be, if and only if no `zkp_req` query has claims
selected while a query of another format comes first with its id. -/
theorem neverDiscloses_iff (sj : SerdeJson) (ciborium : Ciborium) (w : PointerWidth)
    (blob : List UInt8) (requestJson : String) :
    NeverDiscloses sj ciborium w blob requestJson ↔
      ∀ db, CredentialDatabase.fromCbor ciborium blob = .ok db →
        ∀ context query, chosen sj db.profile (utf8 requestJson) = some (context, query) →
          ∀ cq ∈ query.credentials, cq.format = ZKP_REQ_FORMAT →
            NotMistaken sj db context query cq := by
  refine forall₂_congr fun db hdb => forall₂_congr fun context query => ?_
  refine forall_congr' fun hchosen => ?_
  have houtcome : Ffi.matchDcApiRequest sj w ciborium blob requestJson =
      .ok (Ffi.evaluate sj w db query context) := by
    simp only [Ffi.matchDcApiRequest, Ffi.decode, hdb]
    exact matchRequest_of_chosen sj w hchosen
  rw [houtcome, ← evaluate_neverDisclosed_iff w]
  exact ⟨fun h => h _ rfl, fun h outcome houtcome => Except.ok.inj houtcome ▸ h⟩

/-- A nym_auth attestation with its birth date. -/
def nymCredential : Db.Credential where
  id := "nym-1"
  format := SOURCE_MSO_MDOC
  doctype := some NYM_AUTH_DOCTYPE
  vct := none
  title := "Pseudonym credential"
  subtitle := "Issuer"
  icon := none
  claims := [⟨[NYM_AUTH_DOCTYPE, "birth_date"], "1990-01-01", "Birth date", none⟩]

/-- A wallet with one circuit. -/
def nymDatabase : CredentialDatabase where
  version := VERSION
  profile := { MatchProfile.sirosDefault with
    capabilities :=
      [(ZKP_REQ_CAPABILITY, [⟨"longfellow-libzk-v1", [(SYSTEM_ID_PARAM, "urn:circuit:1")]⟩])] }
  credentials := [nymCredential]
  icons := []

def nymBlob : List UInt8 := nymDatabase.toCbor

def nymReader : Ciborium := .ofDatabases [nymDatabase]

theorem fromCbor_nymBlob : CredentialDatabase.fromCbor nymReader nymBlob = .ok nymDatabase :=
  fromCbor_ofDatabase (by decide)

/-- A query for an mdoc that says what a proof would be of. -/
def plannedQuery : Value :=
  .ofMembers
    [("id", .string "q"), ("format", .string SOURCE_MSO_MDOC),
     ("meta", .ofMembers
       [("source_format", .string SOURCE_MSO_MDOC), ("doctype_value", .string NYM_AUTH_DOCTYPE)]),
     ("_req", .array [.ofMembers
       [("fn_id", .string "age_check"), ("return", .string "a"),
        ("params", .ofMembers [("ge", .string "2008-10-10")])]])]

/-- A `zkp_req` query with the same id, and a claim. -/
def claimingQuery : Value :=
  .ofMembers
    [("id", .string "q"), ("format", .string ZKP_REQ_FORMAT),
     ("claims", .array [.ofMembers
       [("path", .array [.string NYM_AUTH_DOCTYPE, .string "birth_date"])]])]

/-- Both, with a set that either may answer. -/
def mistakenRequest : Value :=
  .ofMembers [("requests", .array [.ofMembers
    [("protocol", .string "openid4vp-v1-unsigned"),
     ("data", .ofMembers [("dcql_query", .ofMembers
       [("credentials", .array [plannedQuery, claimingQuery]),
        ("credential_sets", .array
          [.ofMembers [("options", .array [.array [.string "q"]])]])])])]])]

/-- The plan is read from the first query and the claims from the second one; the format
of the first decides that they are disclosed. -/
theorem not_neverDiscloses_repeated_id :
    ¬ NeverDiscloses (.ofValues [mistakenRequest, plannedQuery]) nymReader .w64 nymBlob
      mistakenRequest.compact := by
  intro h
  have hclaims : (Ffi.matchDcApiRequest (.ofValues [mistakenRequest, plannedQuery]) .w64 nymReader
      nymBlob mistakenRequest.compact).toOption.map (fun outcome =>
        outcome.queryMatches.map fun qm => qm.credentials.map (·.claims)) =
      some [[], [[[NYM_AUTH_DOCTYPE, "birth_date"]]]] := by
    decide +kernel
  have hsome : (chosen (.ofValues [mistakenRequest, plannedQuery]) nymDatabase.profile
      (utf8 mistakenRequest.compact)).isSome = true := by
    decide +kernel
  obtain ⟨⟨context, query⟩, hchosen⟩ := Option.isSome_iff_exists.mp hsome
  obtain ⟨outcome, houtcome, hlists⟩ := exists_ok_of_toOption hclaims
  -- the record with the birth date, and the credential it is about
  obtain ⟨qm, hqm, hrecords⟩ := List.mem_map.mp
    (hlists ▸ List.mem_cons_of_mem _ List.mem_cons_self :
      [[[NYM_AUTH_DOCTYPE, "birth_date"]]] ∈ outcome.queryMatches.map _)
  obtain ⟨m, hm, hpath⟩ := List.mem_map.mp
    (hrecords ▸ List.mem_cons_self :
      [[NYM_AUTH_DOCTYPE, "birth_date"]] ∈ qm.credentials.map (·.claims))
  have hnever := h nymDatabase fromCbor_nymBlob context query hchosen outcome houtcome
  obtain ⟨cq, _, hreports⟩ := forall₂_mem_right hnever.queryMatches hqm
  obtain ⟨⟨c, hc, hreported⟩, hwithheld⟩ := hreports m hm
  have hnym : c = nymCredential := List.mem_singleton.mp hc
  subst hnym
  have hsecrets := (hwithheld nymCredential hc hreported).secrets (by decide)
  rw [hpath] at hsecrets
  exact hsecrets _ List.mem_cons_self "birth_date" (by simp) (by decide)

end Requests

end DcMatcher
