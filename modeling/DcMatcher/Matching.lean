import DcMatcher.Display
import DcMatcher.Evaluator

/-!
# Matching for a wallet library

`siros-dc-matcher-ffi/src/matching.rs`: what a wallet is told about a DC API request.
-/

namespace DcMatcher

/-- `u32::MAX`. -/
def U32_MAX : Nat := 2 ^ 32 - 1

/-- Why a request could not be matched. -/
inductive MatchError
  | blob (reason : String)
  | request (reason : String)
  | unsupportedProtocol (offered : List String)
deriving DecidableEq, Repr

structure FfiCapability where
  system : String
  params : Table String
deriving DecidableEq, Repr

/-- One credential answering one credential query. -/
structure FfiMatchedCredential where
  queryId : String
  credentialId : String
  claims : List (List String)
  capabilities : List FfiCapability
  meta_ : Table String
  zkpReq : Option String
deriving DecidableEq, Repr

/-- One way to satisfy the request. -/
structure FfiCombination where
  members : List FfiMatchedCredential
  purposes : List String
deriving DecidableEq, Repr

/-- The credentials answering one credential query. -/
structure FfiQueryMatch where
  queryId : String
  credentials : List FfiMatchedCredential
deriving DecidableEq, Repr

/-- The outcome of matching. -/
structure FfiMatchOutcome where
  queryMatches : List FfiQueryMatch
  satisfiable : Bool
  combinations : List FfiCombination
  dropped : Nat
  droppedIsExact : Bool
deriving DecidableEq, Repr

namespace Ffi

/-- How many combinations to return at most. -/
def MAX_COMBINATIONS (w : PointerWidth) : Usize w := ⟨32, w.limit_lt⟩

section Evaluate

variable (sj : SerdeJson) (policy : ProfilePolicy) (query : DcqlQuery)

/-- The record of a match, from what `resolve` gives when the query is found. -/
def member (queryId : String) (candidate : Candidate) : FfiMatchedCredential :=
  let resolved := (query.credential queryId).map fun cq => resolve sj policy cq candidate
  { queryId
    credentialId := candidate.credentialId
    claims := (resolved.map (·.claims)).getD []
    capabilities :=
      ((resolved.map (·.capabilities)).getD []).map fun c =>
        { system := c.system, params := c.params }
    zkpReq := (resolved.bind (·.zkpReq)).map fun selection => sj.write selection.toJson
    meta_ := (resolved.map (·.meta_)).getD [] }

/-- The candidates of one query. -/
def queryMatch (m : QueryMatch) : FfiQueryMatch where
  queryId := m.queryId
  credentials := m.candidates.map (member sj policy query m.queryId)

/-- One combination. -/
def combination (c : Combination) : FfiCombination where
  members := c.members.map fun m => member sj policy query m.1 m.2
  purposes := c.purposes.map (Purpose.display sj)

end Evaluate

section Match

variable (sj : SerdeJson) (w : PointerWidth)

/-- `evaluate`. -/
def evaluate (db : CredentialDatabase) (query : DcqlQuery) (context : RequestContext) :
    FfiMatchOutcome :=
  let policy : ProfilePolicy := { profile := db.profile, context := some context }
  let result := execute query (credentials sj db) (policy.policyMatches sj)
  let enumerated := result.combinations w (MAX_COMBINATIONS w)
  let count := enumerated.dropped.count
  let dropped := min count U32_MAX
  { queryMatches := result.queryMatches.map (queryMatch sj policy query)
    satisfiable := result.satisfiable
    combinations := enumerated.combinations.map (combination sj policy query)
    dropped
    droppedIsExact := enumerated.dropped.isExact && dropped == count }

/-- `decode`. -/
def decode (ciborium : Ciborium) (blob : List UInt8) : Except MatchError CredentialDatabase :=
  match CredentialDatabase.fromCbor ciborium blob with
  | .error e => .error (.blob e.text)
  | .ok db => .ok db

/-- The context and query that `match_dc_api_request` evaluates. -/
def found (profile : MatchProfile) (parsed : Value) : Option (DcqlQuery × RequestContext) :=
  (firstSupportedContextIn sj profile parsed none).bind fun context =>
    context.matchingQuery.map fun query => (query, context)

/-- Why nothing was found: no protocol is answered, or one is and could not be read. -/
def declined (profile : MatchProfile) (requestJson : String) (requests : List Value) :
    MatchError :=
  let offered := requests.filterMap fun e => (e.get "protocol").bind Value.asStr
  if offered.any fun p => (profile.parserFor p).isSome then
    .request (diagnose sj profile (utf8 requestJson))
  else .unsupportedProtocol offered

/-- `match_dc_api_request`, for a blob that was read. -/
def matchRequest (db : CredentialDatabase) (requestJson : String) :
    Except MatchError FfiMatchOutcome :=
  match sj.fromStr requestJson with
  | none => .error (.request (sj.readError (utf8 requestJson)))
  | some parsed =>
    match (parsed.get "requests").bind Value.asArray with
    | none => .error (.unsupportedProtocol [])
    | some requests =>
      match found sj db.profile parsed with
      | some (query, context) => .ok (evaluate sj w db query context)
      | none => .error (declined sj db.profile requestJson requests)

/-- `match_dc_api_request`. -/
def matchDcApiRequest (ciborium : Ciborium) (blob : List UInt8) (requestJson : String) :
    Except MatchError FfiMatchOutcome :=
  match decode ciborium blob with
  | .error e => .error e
  | .ok db => matchRequest sj w db requestJson

/-- The query of `match_dcql_with_context`: the strict one, or, where the text is no DCQL for
the sake of a `zkp_req` query, the one to match. -/
def queryOf (texts : DcqlTexts) (strict : Except QueryError DcqlQuery)
    (context : RequestContext) : Except MatchError DcqlQuery :=
  match strict with
  | .ok query => .ok query
  | .error e =>
    if context.dcqlQuery.isSome then .error (.request (e.text texts))
    else
      match context.matchingQuery with
      | none => .error (.request (e.text texts))
      | some query =>
        match query.validate with
        | .error e => .error (.request (e.text texts))
        | .ok () => .ok query

/-- The client metadata of `match_dcql_with_context`. -/
def readClientMetadata : Option String → Except MatchError (Option Value)
  | none => .ok none
  | some text =>
    match sj.fromStr text with
    | none => .error (.request (sj.readError (utf8 text)))
    | some value => .ok (some value)

/-- The context of `match_dcql_with_context`. Of two errors the one of the strict reader is
reported. -/
def bareContext (texts : DcqlTexts) (strict : Except QueryError DcqlQuery) (raw : Value)
    (clientMetadata : Option Value) : Except MatchError RequestContext :=
  match RequestContext.fromDcql sj raw clientMetadata with
  | .ok context => .ok context
  | .error e =>
    match strict with
    | .error strict => .error (.request (strict.text texts))
    | .ok _ => .error (.request e.text)

/-- The query and the context that `match_dcql_with_context` evaluates. -/
def dcqlContext (texts : DcqlTexts) (dcqlJson : String) (clientMetadataJson : Option String) :
    Except MatchError (DcqlQuery × RequestContext) :=
  match sj.fromStr dcqlJson with
  | none => .error (.request (sj.readError (utf8 dcqlJson)))
  | some raw => do
    let clientMetadata ← readClientMetadata sj clientMetadataJson
    let strict := DcqlQuery.fromJson sj texts dcqlJson
    let context ← bareContext sj texts strict raw clientMetadata
    let query ← queryOf texts strict context
    return (query, context)

/-- `match_dcql_with_context`. -/
def matchDcqlWithContext (texts : DcqlTexts) (ciborium : Ciborium) (blob : List UInt8)
    (dcqlJson : String) (clientMetadataJson : Option String) :
    Except MatchError FfiMatchOutcome := do
  let db ← decode ciborium blob
  let (query, context) ← dcqlContext sj texts dcqlJson clientMetadataJson
  return evaluate sj w db query context

/-- `match_dcql`. -/
def matchDcql (texts : DcqlTexts) (ciborium : Ciborium) (blob : List UInt8) (dcqlJson : String) :
    Except MatchError FfiMatchOutcome :=
  matchDcqlWithContext sj w texts ciborium blob dcqlJson none

end Match

end Ffi

end DcMatcher
