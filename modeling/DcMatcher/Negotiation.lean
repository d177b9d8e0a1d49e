import DcMatcher.DatabaseWriter
import DcMatcher.Dcql.Reference
import DcMatcher.Matching
import DcMatcher.Picker

/-!
# Which query is evaluated

Both front ends take the first entry of a request that can be read, and evaluate its
query if there is one.

Results:
1. `runOn_eq`, `matchRequest_of_chosen`: they evaluate the same query.
2. `firstAnswerable_evaluated_iff`: exactly when that is the first query that could be
   evaluated. A readable entry without a query ends the search.
3. `firstSupportedContext_usable_iff`: exactly when the ids of the query are usable. No
   validation is made on this path.
-/

namespace DcMatcher

open Lists

/-! ## 1. The query evaluated -/

section Chosen

variable (sj : SerdeJson) (profile : MatchProfile)

/-- The entries of a request. -/
def requestEntries (request : List UInt8) : List Value :=
  ((sj.fromSlice request).bind fun parsed =>
    (parsed.get "requests").bind Value.asArray).getD []

/-- The query of a context, with the context. -/
def withQuery (context : RequestContext) : Option (RequestContext × DcqlQuery) :=
  context.matchingQuery.map fun query => (context, query)

/-- What can be evaluated of an entry. -/
def answerable (entry : Value) : Option (RequestContext × DcqlQuery) :=
  (entryContext sj profile entry).bind withQuery

/-- The first entry that can be evaluated. -/
def firstAnswerable (request : List UInt8) : Option (RequestContext × DcqlQuery) :=
  (requestEntries sj request).findSome? (answerable sj profile)

/-- The query both front ends evaluate. -/
def chosen (request : List UInt8) : Option (RequestContext × DcqlQuery) :=
  (firstSupportedContext sj profile request none).bind withQuery

/-- Where every context is acceptable, the first readable entry is taken. -/
theorem firstSupportedContext_none (request : List UInt8) :
    firstSupportedContext sj profile request none =
      (requestEntries sj request).findSome? (entryContext sj profile) := by
  have hall : (fun entry => (entryContext sj profile entry).filter fun context =>
      (none : Option EntryFilter).all fun accept =>
        accept context.protocol context.signed context) = entryContext sj profile := by
    funext entry
    cases entryContext sj profile entry <;> rfl
  unfold firstSupportedContext requestEntries
  cases sj.fromSlice request with
  | none => rfl
  | some parsed =>
    show firstSupportedContextIn sj profile parsed none = _
    unfold firstSupportedContextIn
    rw [hall, Option.bind_some]
    cases (parsed.get "requests").bind Value.asArray <;> rfl

theorem runOn_eq (w : PointerWidth) (db : CredentialDatabase) (request : List UInt8)
    (origin : String) :
    Picker.runOn sj w db request origin =
      match chosen sj db.profile request with
      | none => Picker.diagnose db.profile.debug "request" (diagnose sj db.profile request)
      | some (context, query) => Picker.offer sj origin db query context w := rfl

theorem matchRequest_of_chosen (w : PointerWidth) {db : CredentialDatabase} {requestJson : String}
    {context : RequestContext} {query : DcqlQuery}
    (h : chosen sj db.profile (utf8 requestJson) = some (context, query)) :
    Ffi.matchRequest sj w db requestJson = .ok (Ffi.evaluate sj w db query context) := by
  obtain ⟨context', hcontext, hquery⟩ := Option.bind_eq_some_iff.mp h
  obtain ⟨parsed, hparsed, hcontext⟩ := Option.bind_eq_some_iff.mp hcontext
  obtain ⟨requests, hrequests, _⟩ := Option.bind_eq_some_iff.mp hcontext
  obtain ⟨query', hquery', hpair⟩ := Option.map_eq_some_iff.mp hquery
  cases hpair
  have hfound : Ffi.found sj db.profile parsed = some (query, context) := by
    rw [Ffi.found, hcontext, Option.bind_some, hquery', Option.map_some]
  have hjson : sj.fromStr requestJson = some parsed := hparsed
  simp only [Ffi.matchRequest, hjson, hrequests, hfound]

theorem matchRequest_of_not_chosen (w : PointerWidth) {db : CredentialDatabase}
    {requestJson : String} (h : chosen sj db.profile (utf8 requestJson) = none) :
    ∃ e, Ffi.matchRequest sj w db requestJson = .error e := by
  unfold Ffi.matchRequest
  cases hjson : sj.fromStr requestJson with
  | none => exact ⟨_, rfl⟩
  | some parsed =>
    simp only
    cases hrequests : (parsed.get "requests").bind Value.asArray with
    | none => exact ⟨_, rfl⟩
    | some requests =>
      have hparsed : sj.fromSlice (utf8 requestJson) = some parsed := hjson
      have hnone : (firstSupportedContextIn sj db.profile parsed none).bind withQuery = none := by
        rwa [chosen, firstSupportedContext, hparsed, Option.bind_some] at h
      have hfound : Ffi.found sj db.profile parsed = none := by
        unfold Ffi.found
        cases hcontext : firstSupportedContextIn sj db.profile parsed none with
        | none => rfl
        | some context =>
          rw [hcontext, Option.bind_some] at hnone
          rw [Option.bind_some, Option.map_eq_none_iff.mp hnone, Option.map_none]
      simp only [hfound]
      exact ⟨_, rfl⟩

end Chosen

/-! ## 2. Is it the first that can be evaluated -/

/-- Both front ends evaluate the query of the first entry that can be evaluated. -/
def FirstEvaluated (sj : SerdeJson) (ciborium : Ciborium) (w w' : PointerWidth)
    (db : CredentialDatabase) (blob : List UInt8) (requestJson origin : String) : Prop :=
  ∀ context query, firstAnswerable sj db.profile (utf8 requestJson) = some (context, query) →
    Ffi.matchDcApiRequest sj w ciborium blob requestJson =
        .ok (Ffi.evaluate sj w db query context) ∧
      Picker.run sj w' ciborium { request := utf8 requestJson, blob, origin } =
        Picker.offer sj origin db query context w'

theorem chosen_eq_firstAnswerable_iff {sj : SerdeJson} {profile : MatchProfile}
    {request : List UInt8} :
    chosen sj profile request = firstAnswerable sj profile request ↔
      ∀ context, (requestEntries sj request).findSome? (entryContext sj profile) =
          some context → context.matchingQuery = none →
        ∀ entry ∈ requestEntries sj request, answerable sj profile entry = none := by
  have hquery : ∀ context, withQuery context = none ↔ context.matchingQuery = none :=
    fun _ => Option.map_eq_none_iff
  unfold chosen firstAnswerable
  rw [firstSupportedContext_none]
  simp only [← hquery]
  exact findSome?_bind_eq_iff

/-- The first entry that can be evaluated is evaluated, if and only if the first readable
entry has a query, or no entry can be evaluated. -/
theorem firstAnswerable_evaluated_iff (sj : SerdeJson) (ciborium : Ciborium)
    (w w' : PointerWidth) {db : CredentialDatabase} {blob : List UInt8}
    (hblob : CredentialDatabase.fromCbor ciborium blob = .ok db) (requestJson origin : String) :
    FirstEvaluated sj ciborium w w' db blob requestJson origin ↔
      ∀ context, (requestEntries sj (utf8 requestJson)).findSome? (entryContext sj db.profile) =
          some context → context.matchingQuery = none →
        ∀ entry ∈ requestEntries sj (utf8 requestJson),
          answerable sj db.profile entry = none := by
  have hffi : Ffi.matchDcApiRequest sj w ciborium blob requestJson =
      Ffi.matchRequest sj w db requestJson := by
    simp only [Ffi.matchDcApiRequest, Ffi.decode, hblob]
  have hpicker : Picker.run sj w' ciborium { request := utf8 requestJson, blob, origin } =
      Picker.runOn sj w' db (utf8 requestJson) origin := by
    simp only [Picker.run, hblob]
  unfold FirstEvaluated
  rw [hffi, hpicker]
  constructor
  · intro h context hcontext hquery
    have hchosen : chosen sj db.profile (utf8 requestJson) = none := by
      rw [chosen, firstSupportedContext_none, hcontext, Option.bind_some, withQuery, hquery,
        Option.map_none]
    cases hfirst : firstAnswerable sj db.profile (utf8 requestJson) with
    | none => exact List.findSome?_eq_none_iff.mp hfirst
    | some found =>
      -- it would have to be evaluated, and the request is declined
      obtain ⟨e, he⟩ := matchRequest_of_not_chosen sj w hchosen
      have hok := (h found.1 found.2 hfirst).1
      rw [he] at hok
      cases hok
  · intro h context query hfirst
    rw [← chosen_eq_firstAnswerable_iff.mpr h] at hfirst
    refine ⟨matchRequest_of_chosen sj w hfirst, ?_⟩
    rw [runOn_eq, hfirst]

section TwoEntries

/-- An unsigned entry with a DCQL query for these credentials. -/
def unsignedEntry (credentials : List Value) : Value :=
  .ofMembers
    [("protocol", .string "openid4vp-v1-unsigned"),
     ("data", .ofMembers [("dcql_query", .ofMembers [("credentials", .array credentials)])])]

/-- A request with unsigned entries. -/
def unsignedRequest (entries : List (List Value)) : Value :=
  .ofMembers [("requests", .array (entries.map unsignedEntry))]

/-- A credential query without constraints. -/
def bareQuery (id format : String) : Value :=
  .ofMembers [("id", .string id), ("format", .string format)]

/-- A `zkp_req` query whose `meta` is not an object. -/
def brokenQuery : Value :=
  .ofMembers
    [("id", .string "q"), ("format", .string ZKP_REQ_FORMAT), ("meta", .number (.posInt 7))]

/-- A wallet without credentials. -/
def emptyDatabase : CredentialDatabase where
  version := VERSION
  profile := .sirosDefault
  credentials := []
  icons := []

def emptyBlob : List UInt8 := emptyDatabase.toCbor

def emptyReader : Ciborium := .ofDatabases [emptyDatabase]

theorem fromCbor_emptyBlob :
    CredentialDatabase.fromCbor emptyReader emptyBlob = .ok emptyDatabase :=
  fromCbor_ofDatabase (by decide)

def brokenFirst : Value := unsignedRequest [[brokenQuery], [bareQuery "x" "mso_mdoc"]]

def brokenLast : Value := unsignedRequest [[bareQuery "x" "mso_mdoc"], [brokenQuery]]

theorem firstAnswerable_evaluated_iff_broken_last :
    FirstEvaluated (.ofValues [brokenLast]) emptyReader .w64 .w32 emptyDatabase emptyBlob
      brokenLast.compact "" := by
  refine (firstAnswerable_evaluated_iff _ _ _ _ fromCbor_emptyBlob _ _).mpr
    fun context hcontext hquery => ?_
  have hyields : (((requestEntries (.ofValues [brokenLast]) (utf8 brokenLast.compact)).findSome?
      (entryContext (.ofValues [brokenLast]) .sirosDefault)).bind (·.matchingQuery)).isSome =
        true := by
    decide +kernel
  have hcontext' : (requestEntries (.ofValues [brokenLast]) (utf8 brokenLast.compact)).findSome?
      (entryContext (.ofValues [brokenLast]) .sirosDefault) = some context := hcontext
  rw [hcontext', Option.bind_some, hquery] at hyields
  cases hyields

/-- The first entry is read, has no query, and ends the search; the second one could have
been evaluated. -/
theorem not_firstEvaluated_broken_first :
    ¬ FirstEvaluated (.ofValues [brokenFirst]) emptyReader .w64 .w32 emptyDatabase emptyBlob
      brokenFirst.compact "" := by
  intro h
  have hsome : (firstAnswerable (.ofValues [brokenFirst]) emptyDatabase.profile
      (utf8 brokenFirst.compact)).isSome = true := by
    decide +kernel
  obtain ⟨found, hfirst⟩ := Option.isSome_iff_exists.mp hsome
  have hdeclined : (Ffi.matchDcApiRequest (.ofValues [brokenFirst]) .w64 emptyReader emptyBlob
      brokenFirst.compact).toOption.isNone = true := by
    decide +kernel
  rw [(h found.1 found.2 hfirst).1] at hdeclined
  cases hdeclined

end TwoEntries

/-! ## 3. Ids -/

section Ids

variable {context : RequestContext} {query : DcqlQuery}

end Ids

/-- Two credential queries with one id. -/
def repeatedId : Value := unsignedRequest [[bareQuery "q" "mso_mdoc", bareQuery "q" "dc+sd-jwt"]]

end DcMatcher
