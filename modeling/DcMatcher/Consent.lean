import DcMatcher.Agreement

/-!
# What the user is shown

Each entry of the picker lists the claims that will be disclosed and shows a row for
each, or shows a row for each function of a `zkp_req` plan and lists no claims.

Results:
1. `claim_eq_ok`: evaluation looks a path up as the display does.
2. `run_shows`: every entry shows exactly what it lists, from the stored claims that
   evaluation tested.
-/

namespace DcMatcher

open Lists

/-! ## 1. Rows -/

/-- The field shows the stored claim that evaluation found for the path, and whose value it
tested against the values of the query. -/
structure RowShows (sj : SerdeJson) (cq : CredentialQuery) (c : Db.Credential)
    (s : SelectedClaim) (field : Picker.Field) : Prop where
  shown : ∃ stored, c.storedClaim (pathKeys s.path) = some stored ∧
    ({ credential := c } : BlobCredential sj).claim s.path = .ok [claimValue sj stored] ∧
    (∃ claim ∈ cq.claims, claim.path = s.path ∧ ∀ expected, claim.values = some expected →
      ∃ e ∈ expected, (e == claimValue sj stored) = true) ∧
    field = .ofRow (Picker.claimRow stored)

section Rows

variable {sj : SerdeJson} {c : Db.Credential} {cq : CredentialQuery}

/-- Evaluation looks a path up by its keys, as the display does. -/
theorem claim_eq_ok {path : List PathComponent} {found : List Value}
    (h : ({ credential := c } : BlobCredential sj).claim path = .ok found) :
    ∃ stored, c.storedClaim (pathKeys path) = some stored ∧ found = [claimValue sj stored] := by
  unfold BlobCredential.claim at h
  split_ifs at h with hempty
  split at h
  · cases h
  · next wanted hwanted =>
    split at h
    · cases h
    · next stored hstored =>
      cases h
      rw [pathKeys, filterMap_of_collect hwanted]
      exact ⟨stored, hstored, rfl⟩

/-- Each selected claim has its row. -/
theorem row_shows {claims : List SelectedClaim}
    (hselected : selectClaims cq ({ credential := c } : BlobCredential sj) = some claims)
    {s : SelectedClaim} (hs : s ∈ claims) :
    ∃ stored, c.storedClaim (pathKeys s.path) = some stored ∧
      RowShows sj cq c s (.ofRow (Picker.claimRow stored)) := by
  obtain ⟨claim, hclaim, hresolved⟩ := selectClaims_resolved hselected s hs
  obtain ⟨found, hfound, _, hvalues, rfl⟩ := resolveClaim_eq_some.mp hresolved
  obtain ⟨stored, hstored, rfl⟩ := claim_eq_ok hfound
  refine ⟨stored, hstored, stored, hstored, hfound, ⟨claim, hclaim, rfl, ?_⟩, rfl⟩
  intro expected hexpected
  obtain ⟨v, hv, e, he, heq⟩ := hvalues expected hexpected
  rw [List.mem_singleton.mp hv] at heq
  exact ⟨e, he, heq⟩

theorem rows_show {candidate : Candidate}
    (hselected : selectClaims cq ({ credential := c } : BlobCredential sj) =
      some candidate.claims) :
    List.Forall₂ (RowShows sj cq c) candidate.claims
      ((Picker.disclosedFields c candidate).map .ofRow) := by
  rw [Picker.disclosedFields, List.map_map, List.forall₂_map_right_iff]
  exact forall₂_filterMap fun s hs => row_shows hselected hs

end Rows

/-! ## 2. Entries -/

section Entries

variable (sj : SerdeJson) (db : CredentialDatabase) (context : RequestContext)
  (query : DcqlQuery)

/-- What an entry shows if it discloses claims: those selected of a credential for a query are
listed by their paths, with a row for each. -/
structure ShowsClaims (cq : CredentialQuery) (data : Value) (fields : List Picker.Field) :
    Prop where
  zkpReq : data.get "zkp_req" = some .null
  rows : ∃ c ∈ db.credentials, ∃ claims,
    data.get "credential_id" = some (.string c.id) ∧
    selectClaims cq ({ credential := c } : BlobCredential sj) = some claims ∧
    data.get "claims" = some (.array (claims.map fun s => .texts (pathKeys s.path))) ∧
    List.Forall₂ (RowShows sj cq c) claims fields

/-- What an entry shows if it is answered with a proof: it lists no claims, and has a row for
each function of the plan, in the order of the request. -/
structure ShowsPlan (cq : CredentialQuery) (data : Value) (fields : List Picker.Field) :
    Prop where
  claims : data.get "claims" = some (.array [])
  rows : ∃ selection items,
    (Picker.policyOf db context).zkpReqSelection sj cq = some selection ∧
    data.get "zkp_req" = some selection.toJson ∧
    (selection.plan.raw.get "_req").bind Value.asArray = some items ∧
    List.Forall₂ PlannedFunction.ReadFrom items selection.plan.functions ∧
    fields = selection.plan.functions.map fun f => .ofRow (Picker.functionRow f)

/-- An entry shows what it lists, for the query that its data names. -/
structure EntryShows (e : Picker.Entry) : Prop where
  shows : ∃ cq data,
    query.credential cq.id = some cq ∧ data.get "query_id" = some (.string cq.id) ∧
    e.data = .ofLossy (sj.write data) ∧
    (ShowsClaims sj db cq data e.fields ∨ ShowsPlan sj db context cq data e.fields)

end Entries

section Offered

variable {sj : SerdeJson} {origin : String} {db : CredentialDatabase} {query : DcqlQuery}
  {context : RequestContext} {w : PointerWidth}

/-- The plan of a selection was read from the query. -/
theorem selection_functions {policy : ProfilePolicy} {cq : CredentialQuery}
    {selection : ZkpReqSelection} (h : policy.zkpReqSelection sj cq = some selection) :
    ∃ items, (selection.plan.raw.get "_req").bind Value.asArray = some items ∧
      List.Forall₂ PlannedFunction.ReadFrom items selection.plan.functions := by
  simp only [ProfilePolicy.zkpReqSelection, bind, Option.bind_eq_some_iff] at h
  obtain ⟨context, _, raw, _, found, hplanned, circuits, _, capability, _, hselection⟩ := h
  cases hselection
  unfold ProfilePolicy.planned at hplanned
  split at hplanned
  · cases hplanned
  · next hplan =>
    split at hplanned
    · cases hplanned
    · cases hplanned
      exact plan_functions hplan

/-- What `resolve` gives for a query that is not one for `zkp_req`. -/
theorem resolve_of_ne {policy : ProfilePolicy} {cq : CredentialQuery}
    (h : cq.format ≠ ZKP_REQ_FORMAT) (candidate : Candidate) :
    (resolve sj policy cq candidate).zkpReq = none ∧
      (resolve sj policy cq candidate).claims =
        candidate.claims.map fun s => pathKeys s.path := by
  simp [resolve, h]

/-- What `resolve` gives for a `zkp_req` query with a plan. -/
theorem resolve_of_eq {policy : ProfilePolicy} {cq : CredentialQuery}
    {selection : ZkpReqSelection} (h : cq.format = ZKP_REQ_FORMAT)
    (hselection : policy.zkpReqSelection sj cq = some selection) (candidate : Candidate) :
    (resolve sj policy cq candidate).zkpReq = some selection ∧
      (resolve sj policy cq candidate).claims = [] := by
  simp [resolve, h, hselection]

/-- What an entry says and shows, from what `resolve` gave for its match. -/
structure Written (sj : SerdeJson) (c : Db.Credential) (candidate : Candidate)
    (resolved : Resolved) (data : Value) (fields : List Picker.Field) : Prop where
  credentialId : data.get "credential_id" = some (.string c.id)
  claims : data.get "claims" = some (.array (resolved.claims.map Value.texts))
  zkpReq : data.get "zkp_req" = some ((resolved.zkpReq.map ZkpReqSelection.toJson).getD .null)
  fields : fields =
    match resolved.zkpReq with
    | some zk => zk.plan.functions.map fun f => .ofRow (Picker.functionRow f)
    | none => (Picker.disclosedFields c candidate).map .ofRow

theorem offerMember_written {dropped : Dropped} {purpose : Option String} {m : Member}
    {c : Db.Credential} {resolved : Resolved}
    (h : Picker.resolvedMember sj db query context m.1 m.2 = some resolved) :
    Written sj c m.2 resolved (Picker.entryData origin context dropped m.1 c.id (some resolved))
      (Picker.offerMember sj origin db query context dropped purpose
        (m.1, m.2, c)).entry.fields := by
  obtain ⟨_, hcredential, hclaims, _, hzkp⟩ :=
    @Picker.entryData_get origin context dropped m.1 c.id (some resolved)
  refine ⟨hcredential, hclaims, hzkp, ?_⟩
  show List.map _ (match (Picker.resolvedMember sj db query context m.1 m.2).bind (·.zkpReq) with
    | some zk => Picker.zkpReqRows zk.plan
    | none => Picker.disclosedFields c m.2) = _
  rw [h, Option.bind_some]
  cases resolved.zkpReq with
  | none => rfl
  | some zk => exact List.map_map

section Shown

variable {policy : ProfilePolicy} {cq : CredentialQuery} {c : Db.Credential}
  {candidate : Candidate} {data : Value} {fields : List Picker.Field}

/-- An entry for a `zkp_req` query shows the plan. -/
theorem Written.showsPlan
    (h : Written sj c candidate (resolve sj (Picker.policyOf db context) cq candidate) data fields)
    (hformat : cq.format = ZKP_REQ_FORMAT) {selection : ZkpReqSelection}
    (hselection : (Picker.policyOf db context).zkpReqSelection sj cq = some selection) :
    ShowsPlan sj db context cq data fields := by
  obtain ⟨hplan, hnone⟩ := @resolve_of_eq sj _ _ _ hformat hselection candidate
  obtain ⟨items, hitems, hread⟩ := selection_functions hselection
  have hfields := h.fields
  rw [hplan] at hfields
  refine ⟨?_, selection, items, hselection, ?_, hitems, hread, hfields⟩
  · rw [h.claims, hnone]
    rfl
  · rw [h.zkpReq, hplan]
    rfl

/-- An entry for any other query shows the claims that were selected. -/
theorem Written.showsClaims
    (h : Written sj c candidate (resolve sj policy cq candidate) data fields)
    (hformat : cq.format ≠ ZKP_REQ_FORMAT) (hc : c ∈ db.credentials)
    (hselected : selectClaims cq ({ credential := c } : BlobCredential sj) =
      some candidate.claims) :
    ShowsClaims sj db cq data fields := by
  obtain ⟨hplan, hpaths⟩ := @resolve_of_ne sj policy _ hformat candidate
  have hfields := h.fields
  rw [hplan] at hfields
  refine ⟨?_, c, hc, candidate.claims, h.credentialId, hselected, ?_, ?_⟩
  · rw [h.zkpReq, hplan]
    rfl
  · rw [h.claims, hpaths, List.map_map]
    rfl
  · rw [hfields]
    exact rows_show hselected

end Shown

/-- With distinct ids, the credential found for a member is the one that was evaluated. -/
theorem offerMember_shows (distinct : (db.credentials.map (·.id)).Nodup)
    {combination : Combination}
    (h : combination ∈ (Picker.builtOf sj db query context w).combinations) {m : Member}
    (hm : m ∈ combination.members) {found : String × Candidate × Db.Credential}
    (hfound : Picker.findCredential db m = some found) (dropped : Dropped)
    (purpose : Option String) :
    EntryShows sj db context query
      (Picker.offerMember sj origin db query context dropped purpose found).entry := by
  obtain ⟨cq, hcq, hcandidate⟩ := combination_member h hm
  obtain ⟨c, hc, hpolicy, hselected⟩ := mem_blobCandidates.mp hcandidate
  obtain ⟨hclaims, hid⟩ := candidateOf_eq_some.mp hselected
  obtain ⟨c', hc', hid', rfl⟩ := Picker.findCredential_eq_some hfound
  have hsame : c' = c := List.inj_on_of_nodup_map distinct hc' hc (hid'.trans hid)
  subst hsame
  have hcqid : cq.id = m.1 := (DcqlQuery.credential_eq_some hcq).2
  have hresolved : Picker.resolvedMember sj db query context m.1 m.2 =
      some (resolve sj (Picker.policyOf db context) cq m.2) := by
    rw [Picker.resolvedMember, hcq, Option.map_some]
  have hwritten := @offerMember_written sj origin db query context dropped purpose m c' _ hresolved
  rw [← hresolved] at hwritten
  refine ⟨cq, Picker.entryData origin context dropped m.1 c'.id
    (Picker.resolvedMember sj db query context m.1 m.2), ?_, ?_, rfl, ?_⟩
  · rw [hcqid, hcq]
  · rw [hcqid, Picker.entryData_get.1]
  · by_cases hformat : cq.format = ZKP_REQ_FORMAT
    · -- the plan that the match was checked for is the one that is shown
      have haccepts := queryAccepts_of_policyMatches hpolicy
      rw [ProfilePolicy.queryAccepts, if_pos hformat] at haccepts
      obtain ⟨selection, hselection⟩ := Option.isSome_iff_exists.mp (Option.isSome_of_any haccepts)
      exact .inr (hwritten.showsPlan hformat hselection)
    · exact .inl (hwritten.showsClaims hformat hc hclaims)

/-- An entry that is about no match: its data is empty, and it shows nothing. -/
def ShowsNothing (e : Picker.Entry) : Prop := e.data = .ofLossy "\x7b\x7d" ∧ e.fields = []

theorem diagnose_showsNothing {enabled : Bool} {kind message : String} {set : Picker.EntrySet}
    (h : set ∈ Picker.diagnose enabled kind message) : ∀ e ∈ set.entries, ShowsNothing e := by
  unfold Picker.diagnose at h
  split at h
  · cases h
  · intro e he
    rw [Picker.entries_of_emitSet h, List.map_singleton] at he
    rw [List.mem_singleton.mp he]
    exact ⟨rfl, rfl⟩

/-- With distinct ids, every entry of an invocation shows what it lists. -/
theorem offer_shows (distinct : (db.credentials.map (·.id)).Nodup) {set : Picker.EntrySet}
    (h : set ∈ Picker.offer sj origin db query context w) {e : Picker.Entry}
    (he : e ∈ set.entries) : ShowsNothing e ∨ EntryShows sj db context query e := by
  rcases @Picker.offer_cases sj origin db query context w with ⟨kind, message, hoffer, _⟩ | hoffer
  · rw [hoffer] at h
    exact .inl (diagnose_showsNothing h e he)
  · rw [hoffer] at h
    obtain ⟨⟨combination, n⟩, hnumbered, hset⟩ := List.mem_flatMap.mp h
    have hcombination := List.fst_mem_of_mem_zipIdx hnumbered
    obtain ⟨found, hfound, hoffered⟩ := Picker.offerCombination_eq hcombination _ n
    rw [hoffered] at hset
    rw [Picker.entries_of_emitSet hset, List.map_map] at he
    obtain ⟨f, hf, rfl⟩ := List.mem_map.mp he
    obtain ⟨m, hm, hmfound⟩ := forall₂_mem_right hfound hf
    exact .inr (offerMember_shows distinct hcombination hm hmfound _ _)

end Offered

/-! ## 3. The invocation -/

/-- With distinct ids, each entry shows what it lists: a row for each claim, the one that
evaluation tested; or a row for each function of the plan, and no claims. -/
theorem run_shows (sj : SerdeJson) (ciborium : Ciborium) (w : PointerWidth)
    (input : Picker.Input) {db : CredentialDatabase}
    (hdb : CredentialDatabase.fromCbor ciborium input.blob = .ok db)
    (distinct : (db.credentials.map (·.id)).Nodup) :
    ∀ set ∈ Picker.run sj w ciborium input, ∀ e ∈ set.entries,
      ShowsNothing e ∨ ∃ context query,
        chosen sj db.profile input.request = some (context, query) ∧
          EntryShows sj db context query e := by
  intro set hset e he
  rw [show Picker.run sj w ciborium input = Picker.runOn sj w db input.request input.origin by
    simp only [Picker.run, hdb], runOn_eq] at hset
  cases hchosen : chosen sj db.profile input.request with
  | none =>
    rw [hchosen] at hset
    exact .inl (diagnose_showsNothing hset e he)
  | some found =>
    obtain ⟨context, query⟩ := found
    rw [hchosen] at hset
    rcases offer_shows distinct hset he with hnothing | hshows
    · exact .inl hnothing
    · exact .inr ⟨context, query, rfl, hshows⟩

/-- A wallet with a circuit, an identity document and a nym_auth attestation. -/
def pidDatabase : CredentialDatabase where
  version := VERSION
  profile := nymDatabase.profile
  credentials :=
    [{ id := "pid-1"
       format := SOURCE_MSO_MDOC
       doctype := some "eu.europa.ec.eudi.pid.1"
       vct := none
       title := "Identity document"
       subtitle := "Issuer"
       icon := none
       claims :=
         [⟨["eu.europa.ec.eudi.pid.1", "age_over_18"], "true", "Over 18", some "Yes"⟩,
          ⟨["eu.europa.ec.eudi.pid.1", "family_name"], "Doe", "Family name", none⟩] },
     nymCredential]
  icons := []

/-- A query for two claims, one of them with its value. -/
def pidQuery : Value :=
  .ofMembers
    [("id", .string "pid"), ("format", .string SOURCE_MSO_MDOC),
     ("meta", .ofMembers [("doctype_value", .string "eu.europa.ec.eudi.pid.1")]),
     ("claims", .array
       [.ofMembers [("path", .array [.string "eu.europa.ec.eudi.pid.1", .string "family_name"])],
        .ofMembers [("path", .array [.string "eu.europa.ec.eudi.pid.1", .string "age_over_18"]),
          ("values", .array [.bool true])]])]

/-- A query for the proof of an age. -/
def ageQuery : Value :=
  .ofMembers
    [("id", .string "age"), ("format", .string ZKP_REQ_FORMAT),
     ("meta", .ofMembers
       [("source_format", .string SOURCE_MSO_MDOC), ("doctype_value", .string NYM_AUTH_DOCTYPE)]),
     ("_req", .array [.ofMembers
       [("fn_id", .string "age_check"), ("return", .string "a"),
        ("params", .ofMembers [("ge", .string "2008-10-10")])]])]

def pidRequest : Value := unsignedRequest [[pidQuery, ageQuery]]

def pidReader : Ciborium := .ofDatabases [pidDatabase]

theorem fromCbor_pid :
    CredentialDatabase.fromCbor pidReader pidDatabase.toCbor = .ok pidDatabase :=
  fromCbor_ofDatabase (by decide)

def pidInput : Picker.Input where
  request := utf8 pidRequest.compact
  blob := pidDatabase.toCbor
  origin := "https://verifier.example"

theorem run_shows_pid :
    (Picker.run (.ofValues [pidRequest, ageQuery, .bool true]) .w32 pidReader pidInput).map
      (fun set => set.entries.map fun e => e.fields.map fun f => (f.name.text, f.value.text)) =
      [[[("Family name", "Doe"), ("Over 18", "Yes")],
        [("Age check", "born on or after 2008-10-10 (unverified request)")]]] ∧
    ∀ set ∈ Picker.run (.ofValues [pidRequest, ageQuery, .bool true]) .w32 pidReader pidInput,
        ∀ e ∈ set.entries,
      ShowsNothing e ∨ ∃ context query,
        chosen (.ofValues [pidRequest, ageQuery, .bool true]) pidDatabase.profile
          pidInput.request = some (context, query) ∧
        EntryShows (.ofValues [pidRequest, ageQuery, .bool true]) pidDatabase context query e :=
  ⟨by decide +kernel, run_shows _ _ _ _ fromCbor_pid (by decide)⟩

end DcMatcher
