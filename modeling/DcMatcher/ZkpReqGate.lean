import DcMatcher.Disclosure

/-!
# What a `zkp_req` answer has passed

A credential is reported for a `zkp_req` query only if the query plans, the plan is
satisfiable, the credential is what the plan is about and some registered circuit serves it.
There is no other way to be reported.

Results:
1. `circuitServes_iff`: what a circuit that serves a plan has declared.
2. `accepts_iff_gate`: a `zkp_req` query accepts a credential exactly through the gate.
3. `matchDcqlWithContext_gated`: every record of an outcome has passed it, and discloses no
   claims.
-/

namespace DcMatcher

open Lists

/-! ## The gate -/

section Gate

variable (sj : SerdeJson) (profile : MatchProfile)

/-- What a circuit says about itself allows the plan: its `capabilities`, or without them its
credential type and its functions. -/
inductive Describes (circuit : Capability) (plan : Plan) : Prop
  | capabilities {text : String} {capabilities : Capabilities} {rule : FormatRule}
      (declared : circuit.params.get CAPABILITIES_PARAM = some text)
      (parsed : Capabilities.parse sj text = .ok capabilities)
      (mapped : profile.formatRule ZKP_REQ_FORMAT = some rule)
      (serves : capabilities.serves ZKP_REQ_FORMAT
        (rule.storedFormats.filter (· == plan.sourceFormat)) (requestedTypes plan)
        (plan.functions.map fun f => { functionId := f.functionId, params := f.params.toMap }) =
          true)
  | plain (undeclared : circuit.params.get CAPABILITIES_PARAM = none)
      (credentialType : ∀ type, circuit.params.get CREDENTIAL_TYPE_PARAM = some type →
        type ∈ requestedTypes plan)
      (functions : ∀ declared, circuit.params.get FUNCTIONS_PARAM = some declared →
        ∀ f ∈ plan.functions, f.functionId ∈ (split ',' declared).map trim)

/-- A circuit serves a plan: the verifier's lists name it, and it allows the plan. -/
structure Serves (circuit : Capability) (plan : Plan) : Prop where
  system : ∀ systems, plan.systemFilter.proofSystems = some systems → circuit.system ∈ systems
  systemId : ∀ ids, plan.systemFilter.systemIds = some ids →
    ∃ id ∈ ids, circuit.params.get SYSTEM_ID_PARAM = some id
  describes : Describes sj profile circuit plan

/-- The profile allows the stored format for the requested one. -/
def FormatAllowed (requested stored : String) : Prop :=
  (∃ rule, profile.formatRule requested = some rule ∧ stored ∈ rule.storedFormats) ∨
    (profile.formatRule requested = none ∧ profile.unknownFormat = .matchAny)

/-- Everything that was checked before a credential is an answer to a `zkp_req` query, with
the plan and the circuit it is answered with. -/
structure Gate (context : RequestContext) (cq : CredentialQuery) (c : Db.Credential)
    (selection : ZkpReqSelection) : Prop where
  /-- The raw query with the id plans. -/
  planned : ∃ raw, ProfilePolicy.rawQuery context cq.id = some raw ∧
    plan sj (sj.write raw) (context.clientMetadata.map sj.write) = .ok selection.plan
  satisfiable : unsatisfiable selection.plan = .ok ()
  sourceFormat : c.format = selection.plan.sourceFormat
  allowed : FormatAllowed profile cq.format c.format
  /-- The circuit is the first one registered that serves the plan. -/
  circuit : ∃ before after,
    profile.capabilities.get ZKP_REQ_CAPABILITY =
        some (before ++ selection.capability :: after) ∧
      (∀ other ∈ before, ¬ Serves sj profile other selection.plan) ∧
      Serves sj profile selection.capability selection.plan

end Gate

section Accepting

variable {sj : SerdeJson} {policy : ProfilePolicy} {cq : CredentialQuery} {c : Db.Credential}

/-! ## 1. Circuits -/

theorem capabilitiesServe_iff {text : String} {p : Plan} :
    policy.capabilitiesServe sj text p = true ↔
      ∃ capabilities rule, Capabilities.parse sj text = .ok capabilities ∧
        policy.profile.formatRule ZKP_REQ_FORMAT = some rule ∧
        capabilities.serves ZKP_REQ_FORMAT
          (rule.storedFormats.filter (· == p.sourceFormat)) (requestedTypes p)
          (p.functions.map fun f => { functionId := f.functionId, params := f.params.toMap }) =
            true := by
  unfold ProfilePolicy.capabilitiesServe
  cases hparse : Capabilities.parse sj text with
  | error e => simp
  | ok capabilities =>
    cases hrule : policy.profile.formatRule ZKP_REQ_FORMAT with
    | none => simp
    | some rule => simp

/-- The description of a circuit, once the verifier's lists name it. -/
theorem describes_iff {circuit : Capability} {p : Plan} :
    (match circuit.params.get CAPABILITIES_PARAM with
      | some text => policy.capabilitiesServe sj text p
      | none =>
        if (circuit.params.get CREDENTIAL_TYPE_PARAM).any fun ours =>
            !(requestedTypes p).contains ours then false
        else
          match circuit.params.get FUNCTIONS_PARAM with
          | some declared =>
            p.functions.all fun f => (split ',' declared).any fun d => trim d == f.functionId
          | none => true) = true ↔ Describes sj policy.profile circuit p := by
  cases hcapabilities : circuit.params.get CAPABILITIES_PARAM with
  | some text =>
    simp only [capabilitiesServe_iff]
    constructor
    · rintro ⟨capabilities, rule, hparse, hrule, hserves⟩
      exact .capabilities hcapabilities hparse hrule hserves
    · intro h
      cases h with
      | capabilities declared parsed mapped serves =>
        cases hcapabilities.symm.trans declared
        exact ⟨_, _, parsed, mapped, serves⟩
      | plain undeclared _ _ => cases hcapabilities.symm.trans undeclared
  | none =>
    have hplain : Describes sj policy.profile circuit p ↔
        (∀ type, circuit.params.get CREDENTIAL_TYPE_PARAM = some type →
          type ∈ requestedTypes p) ∧
        ∀ declared, circuit.params.get FUNCTIONS_PARAM = some declared →
          ∀ f ∈ p.functions, f.functionId ∈ (split ',' declared).map trim := by
      constructor
      · intro h
        cases h with
        | capabilities declared _ _ _ => cases hcapabilities.symm.trans declared
        | plain _ credentialType functions => exact ⟨credentialType, functions⟩
      · exact fun h => .plain hcapabilities h.1 h.2
    rw [hplain]
    simp only
    cases circuit.params.get CREDENTIAL_TYPE_PARAM with
    | none => cases circuit.params.get FUNCTIONS_PARAM <;> simp
    | some type =>
      by_cases htype : type ∈ requestedTypes p
      · cases circuit.params.get FUNCTIONS_PARAM <;> simp [htype]
      · simp [htype]

theorem circuitServes_iff {circuit : Capability} {p : Plan} :
    policy.circuitServes sj circuit p = true ↔ Serves sj policy.profile circuit p := by
  have hsystem : (p.systemFilter.proofSystems.any fun systems =>
      !systems.contains circuit.system) = false ↔
      ∀ systems, p.systemFilter.proofSystems = some systems → circuit.system ∈ systems := by
    cases p.systemFilter.proofSystems <;> simp
  have hid : (p.systemFilter.systemIds.any fun ids =>
      !ids.any fun id => some id == circuit.params.get SYSTEM_ID_PARAM) = false ↔
      ∀ ids, p.systemFilter.systemIds = some ids →
        ∃ id ∈ ids, circuit.params.get SYSTEM_ID_PARAM = some id := by
    cases p.systemFilter.systemIds with
    | none => simp
    | some ids => simp [@eq_comm _ (circuit.params.get SYSTEM_ID_PARAM)]
  have hserves : Serves sj policy.profile circuit p ↔
      (∀ systems, p.systemFilter.proofSystems = some systems → circuit.system ∈ systems) ∧
      (∀ ids, p.systemFilter.systemIds = some ids →
        ∃ id ∈ ids, circuit.params.get SYSTEM_ID_PARAM = some id) ∧
      Describes sj policy.profile circuit p :=
    ⟨fun h => ⟨h.system, h.systemId, h.describes⟩, fun h => ⟨h.1, h.2.1, h.2.2⟩⟩
  rw [hserves, ← hsystem, ← hid]
  unfold ProfilePolicy.circuitServes
  simp only
  split
  · next h => exact iff_of_false Bool.false_ne_true fun h' => by rw [h'.1] at h; cases h
  · next h =>
    split
    · next hids =>
      exact iff_of_false Bool.false_ne_true fun h' => by rw [h'.2.1] at hids; cases hids
    · next hids =>
      rw [Bool.not_eq_true] at h hids
      exact describes_iff.trans ⟨fun hd => ⟨h, hids, hd⟩, fun hall => hall.2.2⟩

/-! ## 2. Accepting -/

theorem formatAccepts_iff {stored : String} :
    policy.formatAccepts cq stored = true ↔ FormatAllowed policy.profile cq.format stored := by
  unfold ProfilePolicy.formatAccepts FormatAllowed
  cases policy.profile.formatRule cq.format with
  | some rule => simp
  | none => cases policy.profile.unknownFormat <;> simp

/-- The plan of a raw query, when it is satisfiable. -/
theorem planned_eq_some {context : RequestContext} {raw : Value} {p : Plan} :
    ProfilePolicy.planned sj context raw = some p ↔
      plan sj (sj.write raw) (context.clientMetadata.map sj.write) = .ok p ∧
        unsatisfiable p = .ok () := by
  unfold ProfilePolicy.planned
  cases plan sj (sj.write raw) (context.clientMetadata.map sj.write) with
  | error e => simp
  | ok p' =>
    simp only [Except.ok.injEq]
    cases hsat : unsatisfiable p' with
    | error e =>
      refine iff_of_false (by simp) ?_
      rintro ⟨rfl, hok⟩
      rw [hsat] at hok
      cases hok
    | ok u =>
      simp only [Option.some.injEq]
      constructor
      · rintro rfl
        exact ⟨rfl, hsat⟩
      · exact fun h => h.1

/-- A `zkp_req` query accepts a credential exactly through the gate. -/
theorem accepts_iff_gate {context : RequestContext} (hcontext : policy.context = some context)
    {selection : ZkpReqSelection} :
    (policy.formatAccepts cq c.format = true ∧ policy.zkpReqSelection sj cq = some selection ∧
        selection.plan.sourceFormat = c.format) ↔
      Gate sj policy.profile context cq c selection := by
  rw [formatAccepts_iff]
  unfold ProfilePolicy.zkpReqSelection
  constructor
  · rintro ⟨hallowed, hselection, hformat⟩
    obtain ⟨context', hcontext', h⟩ := Option.bind_eq_some_iff.mp hselection
    cases hcontext.symm.trans hcontext'
    obtain ⟨raw, hraw, h⟩ := Option.bind_eq_some_iff.mp h
    obtain ⟨p, hplan, h⟩ := Option.bind_eq_some_iff.mp h
    obtain ⟨circuits, hcircuits, h⟩ := Option.bind_eq_some_iff.mp h
    obtain ⟨circuit, hcircuit, h⟩ := Option.bind_eq_some_iff.mp h
    cases h
    obtain ⟨hplanned, hsatisfiable⟩ := planned_eq_some.mp hplan
    obtain ⟨hserves, before, after, hlist, hbefore⟩ :=
      List.find?_eq_some_iff_append.mp hcircuit
    refine ⟨⟨raw, hraw, hplanned⟩, hsatisfiable, hformat.symm, hallowed, before, after, ?_, ?_,
      circuitServes_iff.mp hserves⟩
    · rw [hcircuits, hlist]
    · intro other hother hserves'
      have hnot := hbefore other hother
      rw [circuitServes_iff.mpr hserves'] at hnot
      cases hnot
  · rintro ⟨⟨raw, hraw, hplanned⟩, hsatisfiable, hformat, hallowed, before, after, hcircuits,
      hbefore, hserves⟩
    refine ⟨hallowed, ?_, hformat.symm⟩
    refine Option.bind_eq_some_iff.mpr ⟨context, hcontext, ?_⟩
    refine Option.bind_eq_some_iff.mpr ⟨raw, hraw, ?_⟩
    refine Option.bind_eq_some_iff.mpr ⟨_, planned_eq_some.mpr ⟨hplanned, hsatisfiable⟩, ?_⟩
    refine Option.bind_eq_some_iff.mpr ⟨_, hcircuits, ?_⟩
    refine Option.bind_eq_some_iff.mpr ⟨selection.capability, ?_, rfl⟩
    refine List.find?_eq_some_iff_append.mpr
      ⟨circuitServes_iff.mpr hserves, before, after, rfl, fun other hother => ?_⟩
    rw [Bool.not_eq_true', Bool.eq_false_iff]
    exact fun h => hbefore other hother (circuitServes_iff.mp h)

/-- A match of a `zkp_req` query has passed the gate. -/
theorem gate_of_policyMatches {context : RequestContext}
    (hcontext : policy.context = some context) (hformat : cq.format = ZKP_REQ_FORMAT)
    (h : policy.policyMatches sj cq { credential := c } = true) :
    ∃ selection, policy.zkpReqSelection sj cq = some selection ∧
      Gate sj policy.profile context cq c selection := by
  have haccepts := queryAccepts_of_policyMatches h
  rw [ProfilePolicy.queryAccepts, if_pos hformat] at haccepts
  simp only [ProfilePolicy.policyMatches, Bool.and_eq_true] at h
  cases hselection : policy.zkpReqSelection sj cq with
  | none =>
    rw [hselection] at haccepts
    cases haccepts
  | some selection =>
    rw [hselection] at haccepts
    exact ⟨selection, rfl, (accepts_iff_gate hcontext).mp
      ⟨h.1.1.1, hselection, beq_iff_eq.mp haccepts⟩⟩

end Accepting

/-! ## 3. Outcomes -/

section Outcomes

variable (sj : SerdeJson) (db : CredentialDatabase) (context : RequestContext)

/-- The record of a credential that passed the gate: no claims, and the circuit and the plan
it passed with. -/
def GatedRecord (cq : CredentialQuery) (m : FfiMatchedCredential) : Prop :=
  ∃ c ∈ db.credentials, ∃ selection, Gate sj db.profile context cq c selection ∧
    m.credentialId = c.id ∧ m.claims = [] ∧ m.zkpReq = some (sj.write selection.toJson)

/-- A `zkp_req` query has the records of credentials that passed the gate, and none if no
credential can pass it. -/
def GatedQuery (cq : CredentialQuery) (credentials : List FfiMatchedCredential) : Prop :=
  cq.format = ZKP_REQ_FORMAT →
    (∀ m ∈ credentials, GatedRecord sj db context cq m) ∧
      ((∀ c ∈ db.credentials, ∀ selection, ¬ Gate sj db.profile context cq c selection) →
        credentials = [])

end Outcomes

section Matching

variable {sj : SerdeJson} {db : CredentialDatabase} {context : RequestContext} {query : DcqlQuery}
  {cq : CredentialQuery}

/-- Whatever is reported for a `zkp_req` query has passed the gate. -/
theorem reported_gated (husable : UsableIds query.credentials) (hcq : cq ∈ query.credentials)
    (hformat : cq.format = ZKP_REQ_FORMAT) {c : Db.Credential} (hc : c ∈ db.credentials)
    {m : FfiMatchedCredential} (h : Reported sj db context query cq c m) :
    GatedRecord sj db context cq m := by
  obtain ⟨hpolicy, candidate, hcandidate, rfl⟩ := h
  obtain ⟨selection, hselection, hgate⟩ := gate_of_policyMatches rfl hformat hpolicy
  have hfound := DcqlQuery.credential_of_mem husable hcq
  refine ⟨c, hc, selection, hgate, (candidateOf_eq_some.mp hcandidate).2, ?_, ?_⟩
  · rw [member_claims hfound, if_pos ⟨hformat, by rw [hselection]; rfl⟩]
  · show (((query.credential cq.id).map fun first => resolve sj _ first candidate).bind
      (·.zkpReq)).map _ = _
    rw [hfound]
    show ((resolve sj (Picker.policyOf db context) cq candidate).zkpReq).map _ = _
    unfold resolve
    simp only [hformat, if_true, hselection, Option.map_some]

theorem evaluate_gated (husable : UsableIds query.credentials) (w : PointerWidth) :
    let outcome := Ffi.evaluate sj w db query context
    List.Forall₂ (fun cq qm => qm.queryId = cq.id ∧ GatedQuery sj db context cq qm.credentials)
      query.credentials outcome.queryMatches ∧
    ∀ combination ∈ outcome.combinations, ∀ m ∈ combination.members,
      ∀ cq ∈ query.credentials, m.queryId = cq.id → cq.format = ZKP_REQ_FORMAT →
        GatedRecord sj db context cq m := by
  constructor
  · rw [evaluate_queryMatches, List.forall₂_map_right_iff, List.forall₂_same]
    intro cq hcq
    refine ⟨rfl, fun hformat => ?_⟩
    have hrecords : ∀ m ∈ (Ffi.queryMatch sj (Picker.policyOf db context) query
        (queryMatch (credentials sj db)
          ((Picker.policyOf db context).policyMatches sj) cq)).credentials,
        GatedRecord sj db context cq m := by
      intro m hm
      obtain ⟨candidate, hcandidate, rfl⟩ := List.mem_map.mp hm
      obtain ⟨c, hc, hpolicy, hselected⟩ := mem_blobCandidates.mp hcandidate
      exact reported_gated husable hcq hformat hc ⟨hpolicy, candidate, hselected, rfl⟩
    refine ⟨hrecords, fun hnone => List.eq_nil_iff_forall_not_mem.mpr fun m hm => ?_⟩
    obtain ⟨c, hc, selection, hgate, _⟩ := hrecords m hm
    exact hnone c hc selection hgate
  · intro combination hcombination m hm cq hcq hid hformat
    obtain ⟨cq', hcq', c, hc, hreported⟩ := evaluate_member hcombination hm
    have hsame : cq' = cq := by
      have hids : cq'.id = cq.id := by
        obtain ⟨_, candidate, _, rfl⟩ := hreported
        exact hid
      have hfound := DcqlQuery.credential_of_mem husable hcq
      rw [← hids, DcqlQuery.credential_of_mem husable hcq'] at hfound
      exact Option.some.inj hfound
    subst hsame
    exact reported_gated husable hcq' hformat hc hreported

/-- The query to evaluate has usable ids. -/
theorem queryOf_ok {texts : DcqlTexts} {dcqlJson : String}
    (h : Ffi.queryOf texts (DcqlQuery.fromJson sj texts dcqlJson) context = .ok query) :
    UsableIds query.credentials := by
  unfold Ffi.queryOf at h
  split at h
  · next hstrict =>
    cases h
    exact DcqlQuery.fromJson_ok hstrict
  · split at h
    · cases h
    · split at h
      · cases h
      · split at h
        · cases h
        · next hvalid =>
          cases h
          exact DcqlQuery.validate_ok.mp hvalid

/-- The context of a bare query has the raw query and the metadata it was given. -/
theorem dcqlContext_ok {texts : DcqlTexts} {dcqlJson : String} {clientMetadataJson : Option String}
    (h : Ffi.dcqlContext sj texts dcqlJson clientMetadataJson = .ok (query, context)) :
    UsableIds query.credentials ∧ sj.fromStr dcqlJson = some context.dcqlQueryRaw ∧
      context.clientMetadata = clientMetadataJson.bind sj.fromStr := by
  unfold Ffi.dcqlContext at h
  split at h
  · cases h
  · next raw hraw =>
    obtain ⟨clientMetadata, hmetadata, h⟩ := bind_eq_ok.mp h
    obtain ⟨read, hread, h⟩ := bind_eq_ok.mp h
    obtain ⟨found, hfound, h⟩ := bind_eq_ok.mp h
    cases h
    have hcontext : RequestContext.fromDcql sj raw clientMetadata = .ok context := by
      unfold Ffi.bareContext at hread
      split at hread
      · next hok =>
        cases hread
        exact hok
      · split at hread <;> cases hread
    obtain ⟨_, _, rfl⟩ := map_eq_ok.mp hcontext
    refine ⟨queryOf_ok hfound, hraw, ?_⟩
    unfold Ffi.readClientMetadata at hmetadata
    split at hmetadata
    · cases hmetadata
      rfl
    · split at hmetadata
      · cases hmetadata
      · next value hvalue =>
        cases hmetadata
        exact hvalue.symm

/-- Every record that `match_dcql_with_context` gives for a `zkp_req` query, under the query or
in a combination, is that of a credential that passed the gate; if none can pass it, the query
has no candidate. -/
theorem matchDcqlWithContext_gated (sj : SerdeJson) (w : PointerWidth) (texts : DcqlTexts)
    (ciborium : Ciborium) (blob : List UInt8) (dcqlJson : String)
    (clientMetadataJson : Option String) (outcome : FfiMatchOutcome)
    (h : Ffi.matchDcqlWithContext sj w texts ciborium blob dcqlJson clientMetadataJson =
      .ok outcome) :
    ∃ db query context, CredentialDatabase.fromCbor ciborium blob = .ok db ∧
      Ffi.dcqlContext sj texts dcqlJson clientMetadataJson = .ok (query, context) ∧
      sj.fromStr dcqlJson = some context.dcqlQueryRaw ∧
      context.clientMetadata = clientMetadataJson.bind sj.fromStr ∧
      List.Forall₂ (fun cq qm => qm.queryId = cq.id ∧ GatedQuery sj db context cq qm.credentials)
        query.credentials outcome.queryMatches ∧
      ∀ combination ∈ outcome.combinations, ∀ m ∈ combination.members,
        ∀ cq ∈ query.credentials, m.queryId = cq.id → cq.format = ZKP_REQ_FORMAT →
          GatedRecord sj db context cq m := by
  obtain ⟨db, hdb, h⟩ := bind_eq_ok.mp h
  obtain ⟨⟨query, context⟩, hcontext, h⟩ := bind_eq_ok.mp h
  cases h
  have hread : CredentialDatabase.fromCbor ciborium blob = .ok db := by
    unfold Ffi.decode at hdb
    split at hdb
    · cases hdb
    · next hok =>
      cases hdb
      exact hok
  obtain ⟨husable, hraw, hmetadata⟩ := dcqlContext_ok hcontext
  obtain ⟨hqueries, hcombinations⟩ := @evaluate_gated sj db context query husable w
  exact ⟨db, query, context, hread, hcontext, hraw, hmetadata, hqueries, hcombinations⟩

/-- A `zkp_req` query for a nym_auth attestation. -/
def provedQuery : Value :=
  .ofMembers
    [("id", .string "q"), ("format", .string ZKP_REQ_FORMAT),
     ("meta", .ofMembers
       [("source_format", .string SOURCE_MSO_MDOC), ("doctype_value", .string NYM_AUTH_DOCTYPE)]),
     ("_req", .array [.ofMembers
       [("fn_id", .string "age_check"), ("return", .string "a"),
        ("params", .ofMembers [("ge", .string "2008-10-10")])]])]

/-- The wallet with one circuit has one record for it, without claims. -/
theorem matchDcqlWithContext_gated_nym :
    let dcql := Value.ofMembers [("credentials", .array [provedQuery])]
    ∃ outcome, Ffi.matchDcqlWithContext (.ofValues [dcql, provedQuery]) .w64 ⟨id, id⟩ nymReader
        nymBlob dcql.compact none = .ok outcome ∧
      outcome.queryMatches.map (fun qm => qm.credentials.map (·.credentialId)) = [["nym-1"]] ∧
      ∀ qm ∈ outcome.queryMatches, ∀ m ∈ qm.credentials, m.claims = [] := by
  intro dcql
  have hids : (Ffi.matchDcqlWithContext (.ofValues [dcql, provedQuery]) .w64 ⟨id, id⟩ nymReader
      nymBlob dcql.compact none).toOption.map (fun outcome =>
        outcome.queryMatches.map fun qm => qm.credentials.map (·.credentialId)) =
      some [["nym-1"]] := by
    decide +kernel
  have hformats : (Ffi.dcqlContext (.ofValues [dcql, provedQuery]) ⟨id, id⟩ dcql.compact
      none).toOption.map (fun found => found.1.credentials.map (·.format)) =
      some [ZKP_REQ_FORMAT] := by
    decide +kernel
  obtain ⟨outcome, houtcome, hids⟩ := exists_ok_of_toOption hids
  refine ⟨outcome, houtcome, hids, fun qm hqm m hm => ?_⟩
  obtain ⟨db, query, context, _, hcontext, _, _, hqueries, _⟩ :=
    matchDcqlWithContext_gated _ _ _ _ _ _ _ _ houtcome
  rw [hcontext] at hformats
  obtain ⟨cq, hcq, _, hgated⟩ := forall₂_mem_right hqueries hqm
  have hformat : cq.format ∈ query.credentials.map (·.format) := List.mem_map_of_mem hcq
  rw [show query.credentials.map (·.format) = _ from Option.some.inj hformats] at hformat
  obtain ⟨_, _, _, _, _, hclaims, _⟩ :=
    (hgated (List.mem_singleton.mp hformat)).1 m hm
  exact hclaims

end Matching

end DcMatcher
