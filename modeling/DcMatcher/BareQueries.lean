import DcMatcher.Negotiation

/-!
# A query without its envelope

A wallet that has the query of a DC API request and its `client_metadata` may ask for a match with
either function of `matching.rs`.

Results:
1. `evaluate_context_congr`: an outcome depends on the query and the metadata only, not on the
   rest of what a request says.
2. `matchDcqlWithContext_eq_iff`: both give the same outcome exactly if the ids of the query are
   usable and its text repeats no member of a struct. The reader of requests checks neither.
-/

namespace DcMatcher

open Lists

/-! ## 1. What an outcome depends on -/

section Evaluating

variable {sj : SerdeJson} {profile : MatchProfile} {context context' : RequestContext}

theorem zkpReqSelection_context_congr (hraw : context.dcqlQueryRaw = context'.dcqlQueryRaw)
    (hmetadata : context.clientMetadata = context'.clientMetadata) :
    ProfilePolicy.zkpReqSelection sj { profile, context := some context } =
      ProfilePolicy.zkpReqSelection sj { profile, context := some context' } := by
  have hrawQuery : ProfilePolicy.rawQuery context = ProfilePolicy.rawQuery context' := by
    funext id
    unfold ProfilePolicy.rawQuery
    rw [hraw]
  have hplanned : ProfilePolicy.planned sj context = ProfilePolicy.planned sj context' := by
    funext raw
    unfold ProfilePolicy.planned
    rw [hmetadata]
  funext query
  unfold ProfilePolicy.zkpReqSelection
  rw [Option.bind_eq_bind, Option.bind_eq_bind, Option.bind_some, Option.bind_some, hrawQuery,
    hplanned]
  rfl

theorem policyMatches_context_congr (hraw : context.dcqlQueryRaw = context'.dcqlQueryRaw)
    (hmetadata : context.clientMetadata = context'.clientMetadata) :
    ProfilePolicy.policyMatches sj { profile, context := some context } =
      ProfilePolicy.policyMatches sj { profile, context := some context' } := by
  funext query c
  unfold ProfilePolicy.policyMatches ProfilePolicy.queryAccepts
  rw [zkpReqSelection_context_congr hraw hmetadata]
  rfl

theorem resolve_context_congr (hraw : context.dcqlQueryRaw = context'.dcqlQueryRaw)
    (hmetadata : context.clientMetadata = context'.clientMetadata) :
    resolve sj { profile, context := some context } =
      resolve sj { profile, context := some context' } := by
  funext query candidate
  unfold resolve
  rw [zkpReqSelection_context_congr hraw hmetadata]
  rfl

/-- An outcome depends on the raw query and the metadata of its context. -/
theorem evaluate_context_congr (w : PointerWidth) (db : CredentialDatabase) (query : DcqlQuery)
    (hraw : context.dcqlQueryRaw = context'.dcqlQueryRaw)
    (hmetadata : context.clientMetadata = context'.clientMetadata) :
    Ffi.evaluate sj w db query context = Ffi.evaluate sj w db query context' := by
  have hmember : Ffi.member sj { profile := db.profile, context := some context } query =
      Ffi.member sj { profile := db.profile, context := some context' } query := by
    funext queryId candidate
    unfold Ffi.member
    rw [resolve_context_congr hraw hmetadata]
  have hmatch : Ffi.queryMatch sj { profile := db.profile, context := some context } query =
      Ffi.queryMatch sj { profile := db.profile, context := some context' } query := by
    funext m
    unfold Ffi.queryMatch
    rw [hmember]
  have hcombination :
      Ffi.combination sj { profile := db.profile, context := some context } query =
        Ffi.combination sj { profile := db.profile, context := some context' } query := by
    funext c
    unfold Ffi.combination
    rw [hmember]
  simp only [Ffi.evaluate, policyMatches_context_congr hraw hmetadata, hmatch, hcombination]

end Evaluating

/-! ## 2. The two functions -/

section Doors

variable {sj : SerdeJson} {texts : DcqlTexts} {context : RequestContext} {query : DcqlQuery}

/-- The raw query of a context was read as its typed one. -/
theorem parsed_of_extractContext {parser : Parser} {protocol : String} {data : Value}
    (h : extractContext sj parser protocol data = .ok context) :
    parseDcqlOrZkpReq sj context.dcqlQueryRaw = .ok context.dcqlQuery := by
  unfold extractContext at h
  split at h
  · cases h
  · split at h
    · cases h
    · obtain ⟨query, hquery, rfl⟩ := map_eq_ok.mp h
      exact hquery

theorem parsed_of_chosen {profile : MatchProfile} {request : List UInt8}
    (h : chosen sj profile request = some (context, query)) :
    parseDcqlOrZkpReq sj context.dcqlQueryRaw = .ok context.dcqlQuery ∧
      context.matchingQuery = some query := by
  obtain ⟨context', hcontext, hquery⟩ := Option.bind_eq_some_iff.mp h
  obtain ⟨query', hquery, hpair⟩ := Option.map_eq_some_iff.mp hquery
  cases hpair
  refine ⟨?_, hquery⟩
  rw [firstSupportedContext_none] at hcontext
  obtain ⟨before, entry, after, _, hentry, _⟩ := List.findSome?_eq_some_iff.mp hcontext
  obtain ⟨protocol, _, hentry⟩ := Option.bind_eq_some_iff.mp hentry
  obtain ⟨parser, _, hentry⟩ := Option.bind_eq_some_iff.mp hentry
  obtain ⟨data, _, hentry⟩ := Option.bind_eq_some_iff.mp hentry
  cases hextracted : extractContext sj parser protocol data with
  | error e =>
    rw [hextracted] at hentry
    cases hentry
  | ok found =>
    rw [hextracted] at hentry
    cases hentry
    exact parsed_of_extractContext hextracted

/-- What is left of a context without its envelope. -/
def RequestContext.bare (context : RequestContext) : RequestContext :=
  { context with protocol := "", signed := false, clientId := none, expectedOrigins := none }

/-- The strict reader of a text whose value was read. -/
theorem fromJson_eq {json : String} {document : Document}
    (hdocument : sj.events (utf8 json) = some document) {raw : Value}
    (hraw : Value.ofDocument document = raw) :
    DcqlQuery.fromJson sj texts json =
      match DcqlQuery.ofValue raw with
      | none => .error (.json (texts.readError json))
      | some query =>
        if DcqlQuery.repeatsField document then .error (.json (texts.readError json))
        else query.validate.map fun _ => query := by
  unfold DcqlQuery.fromJson DcqlQuery.fromStr
  rw [hdocument, Option.bind_some, hraw]
  cases DcqlQuery.repeatsField document with
  | true => cases DcqlQuery.ofValue raw <;> rfl
  | false => cases DcqlQuery.ofValue raw <;> rfl

/-- What the strict path evaluates, of the query and the metadata of a request. -/
theorem queryOf_bare (hparsed : parseDcqlOrZkpReq sj context.dcqlQueryRaw = .ok context.dcqlQuery)
    (hquery : context.matchingQuery = some query) {json : String} {document : Document}
    (hdocument : sj.events (utf8 json) = some document)
    (hraw : Value.ofDocument document = context.dcqlQueryRaw) {found : DcqlQuery} :
    Ffi.queryOf texts (DcqlQuery.fromJson sj texts json) context.bare = .ok found ↔
      found = query ∧ UsableIds query.credentials ∧
        (context.dcqlQuery ≠ none → DcqlQuery.repeatsField document = false) := by
  have hbare : context.bare.matchingQuery = some query := hquery
  have htyped : context.bare.dcqlQuery = context.dcqlQuery := rfl
  unfold Ffi.queryOf
  rw [fromJson_eq hdocument hraw, ← parseDcqlOrZkpReq_ok hparsed, hbare, htyped,
    ← DcqlQuery.validate_ok]
  cases hcontext : context.dcqlQuery with
  | some typed =>
    have hsame : typed = query := by
      unfold RequestContext.matchingQuery at hquery
      rw [hcontext] at hquery
      exact Option.some.inj hquery
    subst hsame
    cases DcqlQuery.repeatsField document with
    | true => simp
    | false =>
      cases hvalid : typed.validate with
      | error e => simp [Except.map, hvalid]
      | ok _ => simpa [Except.map, hvalid] using eq_comm
  | none =>
    cases hvalid : query.validate with
    | error e => simp [hvalid]
    | ok _ => simpa [hvalid] using eq_comm

end Doors

/-- Given the query and the metadata of the entry that a request is answered for, both functions
give the same outcome exactly if the ids of the query are usable and, where it is DCQL, its text
repeats no member of a struct. -/
theorem matchDcqlWithContext_eq_iff (sj : SerdeJson) (w : PointerWidth) (texts : DcqlTexts)
    (ciborium : Ciborium) {blob : List UInt8} {db : CredentialDatabase}
    (hdb : CredentialDatabase.fromCbor ciborium blob = .ok db) {requestJson : String}
    {context : RequestContext} {query : DcqlQuery}
    (hchosen : chosen sj db.profile (utf8 requestJson) = some (context, query))
    {dcqlJson : String} {document : Document}
    (hdocument : sj.events (utf8 dcqlJson) = some document)
    (hraw : Value.ofDocument document = context.dcqlQueryRaw) {clientMetadataJson : Option String}
    (hmetadata : clientMetadataJson.map sj.fromStr = context.clientMetadata.map some) :
    Ffi.matchDcqlWithContext sj w texts ciborium blob dcqlJson clientMetadataJson =
        Ffi.matchDcApiRequest sj w ciborium blob requestJson ↔
      UsableIds query.credentials ∧
        (context.dcqlQuery ≠ none → DcqlQuery.repeatsField document = false) := by
  obtain ⟨hparsed, hquery⟩ := parsed_of_chosen hchosen
  have hdecode : Ffi.decode ciborium blob = .ok db := by
    unfold Ffi.decode
    rw [hdb]
  have hrequest : Ffi.matchDcApiRequest sj w ciborium blob requestJson =
      .ok (Ffi.evaluate sj w db query context) := by
    unfold Ffi.matchDcApiRequest
    rw [hdecode]
    exact matchRequest_of_chosen sj w hchosen
  have hread : Ffi.readClientMetadata sj clientMetadataJson = .ok context.clientMetadata := by
    cases clientMetadataJson with
    | none =>
      rw [Option.map_none, eq_comm, Option.map_eq_none_iff] at hmetadata
      rw [hmetadata]
      rfl
    | some text =>
      obtain ⟨value, hvalue, htext⟩ := Option.map_eq_some_iff.mp hmetadata.symm
      rw [hvalue]
      simp only [Ffi.readClientMetadata, ← htext]
  have hvalue : sj.fromStr dcqlJson = some context.dcqlQueryRaw := by
    rw [SerdeJson.fromStr, SerdeJson.fromSlice, hdocument, Option.map_some, hraw]
  have hcontext : Ffi.dcqlContext sj texts dcqlJson clientMetadataJson =
      (Ffi.queryOf texts (DcqlQuery.fromJson sj texts dcqlJson) context.bare).map
        fun query => (query, context.bare) := by
    have hbare : Ffi.bareContext sj texts (DcqlQuery.fromJson sj texts dcqlJson)
        context.dcqlQueryRaw context.clientMetadata = .ok context.bare := by
      unfold Ffi.bareContext RequestContext.fromDcql
      rw [hparsed]
      rfl
    simp only [Ffi.dcqlContext, hvalue, hread, bind, Except.bind, hbare]
    rfl
  have hwith : Ffi.matchDcqlWithContext sj w texts ciborium blob dcqlJson clientMetadataJson =
      (Ffi.queryOf texts (DcqlQuery.fromJson sj texts dcqlJson) context.bare).map
        fun query => Ffi.evaluate sj w db query context.bare := by
    simp only [Ffi.matchDcqlWithContext, hdecode, hcontext]
    cases Ffi.queryOf texts (DcqlQuery.fromJson sj texts dcqlJson) context.bare <;> rfl
  have hbare : Ffi.evaluate sj w db query context.bare = Ffi.evaluate sj w db query context :=
    evaluate_context_congr w db query rfl rfl
  rw [hwith, hrequest, ← hbare]
  constructor
  · intro heq
    obtain ⟨found, hfound, _⟩ := map_eq_ok.mp heq
    exact ((queryOf_bare hparsed hquery hdocument hraw).mp hfound).2
  · intro husable
    rw [(queryOf_bare hparsed hquery hdocument hraw).mpr ⟨rfl, husable⟩]
    rfl

/-- The query of `repeatedId`. -/
def repeatedQuery : Value :=
  .ofMembers [("credentials", .array [bareQuery "q" "mso_mdoc", bareQuery "q" "dc+sd-jwt"])]

/-- A query with a repeated id is matched in its request and refused without it. -/
theorem matchDcqlWithContext_eq_iff_repeated_id :
    Ffi.matchDcqlWithContext (.ofValues [repeatedId, repeatedQuery]) .w64 ⟨id, id⟩ emptyReader
        emptyBlob repeatedQuery.compact none ≠
      Ffi.matchDcApiRequest (.ofValues [repeatedId, repeatedQuery]) .w64 emptyReader emptyBlob
        repeatedId.compact := by
  have hread : (chosen (.ofValues [repeatedId, repeatedQuery]) .sirosDefault
      (utf8 repeatedId.compact)).map (fun found => found.1.dcqlQueryRaw) =
        some (.ofDocument repeatedQuery.toDocument) := rfl
  have hshape : (chosen (.ofValues [repeatedId, repeatedQuery]) .sirosDefault
      (utf8 repeatedId.compact)).map (fun found =>
        (found.1.clientMetadata.isNone, found.2.validate)) =
          some (true, .error (.duplicateCredentialId "q")) := by
    decide +kernel
  have hdocument : (SerdeJson.ofValues [repeatedId, repeatedQuery]).events
      (utf8 repeatedQuery.compact) = some repeatedQuery.toDocument := rfl
  obtain ⟨found, hfound, hraw⟩ := Option.map_eq_some_iff.mp hread
  rw [hfound] at hshape
  obtain ⟨hmetadata, hinvalid⟩ := Prod.mk.inj (Option.some.inj hshape)
  intro heq
  have husable := ((matchDcqlWithContext_eq_iff _ .w64 ⟨id, id⟩ emptyReader fromCbor_emptyBlob
    hfound hdocument hraw.symm (by rw [Option.isNone_iff_eq_none.mp hmetadata]; rfl)).mp heq).1
  rw [DcqlQuery.validate_ok.mpr husable] at hinvalid
  cases hinvalid

end DcMatcher
