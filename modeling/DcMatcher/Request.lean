import DcMatcher.Base64url
import DcMatcher.Dcql.Query
import DcMatcher.Profile

/-!
# Reading the request

`request.rs`: which protocol entry of a DC API request to answer, and the DCQL query it
carries. No signature is checked.

Results:
1. `entryContext_eq_some`: the entry a context comes from has a protocol the profile
   answers, and the typed query is the raw one, read as DCQL.
2. `matchingQuery_credentials`: the query to evaluate is read from the raw one, as it is or
   without the claims of its `zkp_req` credentials.
-/

namespace DcMatcher

open Lists

/-- Why one protocol's request data yielded no DCQL query. -/
inductive NoQuery
  | noData
  | noQueryAndNoRequest
  | requestNotAJwsOrObject
  | jwsObjectHasNoPayload
  | shapeDoesNotMatchProtocol
  | notACompactJws
  | payloadNotBase64url
  | payloadNotJson
  | payloadHasNoDcqlQuery
  | malformed (reason : String)
  | noParser
deriving DecidableEq, Repr

/-- `NoQuery`'s texts. -/
def NoQuery.text : NoQuery → String
  | .noData => "request entry has no `data`"
  | .noQueryAndNoRequest => "data has neither `dcql_query` nor a `request` to decode"
  | .requestNotAJwsOrObject => "data.request is neither a JWS string nor a JWS JSON object"
  | .jwsObjectHasNoPayload => "the JWS JSON object has no string `payload` member"
  | .shapeDoesNotMatchProtocol =>
    "the request shape does not match the protocol it is labelled with"
  | .notACompactJws => "data.request is not a compact JWS"
  | .payloadNotBase64url => "JWS payload is not unpadded base64url"
  | .payloadNotJson => "JWS payload is not JSON"
  | .payloadHasNoDcqlQuery => "JWS payload has no `dcql_query`"
  | .malformed reason => "dcql_query failed to parse: " ++ reason
  | .noParser => "no parser for this protocol in this build"

/-- What one request entry carries. -/
structure RequestContext where
  protocol : String
  signed : Bool
  clientId : Option String
  expectedOrigins : Option (List String)
  clientMetadata : Option Value
  dcqlQueryRaw : Value
  dcqlQuery : Option DcqlQuery

/-! ## The object an entry carries -/

/-- The one request shape a protocol id is allowed to arrive in. -/
inductive Shape
  | inline
  | compactJws
  | jwsJson
deriving DecidableEq, Repr

/-- `Shape::of`. -/
def Shape.of (protocol : String) : Shape :=
  match protocol with
  | "openid4vp-v1-signed" => .compactJws
  | "openid4vp-v1-multisigned" => .jwsJson
  | _ => .inline

/-- `compact_payload`: the middle segment of a compact JWS. -/
def compactPayload (jws : String) : Except NoQuery (List UInt8) :=
  match splitn '.' 4 jws.toList with
  | [header, payload, _] =>
    if header.isEmpty || payload.isEmpty then .error .notACompactJws
    else
      match Base64url.decode payload with
      | none => .error .payloadNotBase64url
      | some bytes => .ok bytes
  | _ => .error .notACompactJws

/-- `json_serialization_payload`. -/
def jsonSerializationPayload (value : Value) (missing : NoQuery) : Except NoQuery (List UInt8) :=
  match value.get "payload" with
  | some (.string payload) =>
    match Base64url.decode payload with
    | none => .error .payloadNotBase64url
    | some bytes => .ok bytes
  | _ => .error missing

/-- `json_payload`: the payload of a JWS JSON Serialization object. -/
def jsonPayload (data : Value) : Except NoQuery (List UInt8) :=
  match data.get "request" with
  | some (.object m) => jsonSerializationPayload (.object m) .jwsObjectHasNoPayload
  | some (.string _) => .error .shapeDoesNotMatchProtocol
  | some _ => .error .requestNotAJwsOrObject
  | none =>
    if (data.get "dcql_query").isSome then .error .shapeDoesNotMatchProtocol
    else jsonSerializationPayload data .noQueryAndNoRequest

section Reading

variable (sj : SerdeJson)

/-- `payload_object`. -/
def payloadObject (payload : List UInt8) : Except NoQuery (Value × Bool) :=
  match sj.fromSlice payload with
  | none => .error .payloadNotJson
  | some object =>
    if (object.get "dcql_query").isNone then .error .payloadHasNoDcqlQuery
    else .ok (object, true)

/-- `request_object`: the request object, and whether its protocol is a signed shape. -/
def requestObject (parser : Parser) (protocol : String) (data : Value) :
    Except NoQuery (Value × Bool) :=
  match parser with
  | .openid4vpV1 =>
    match Shape.of protocol with
    | .inline =>
      match data.get "dcql_query" with
      | some _ => .ok (data, false)
      | none =>
        if (data.get "request").isSome then .error .shapeDoesNotMatchProtocol
        else .error .noQueryAndNoRequest
    | .compactJws =>
      match data.get "request" with
      | some (.string jws) => compactPayload jws >>= payloadObject sj
      | none =>
        if (data.get "dcql_query").isSome then .error .shapeDoesNotMatchProtocol
        else .error .notACompactJws
      | some _ => .error .notACompactJws
    | .jwsJson => jsonPayload data >>= payloadObject sj
  | .isoMdocApi => .error .noParser

/-! ## The query -/

/-- `parse_dcql`. -/
def parseDcql (value : Value) : Except NoQuery DcqlQuery :=
  match DcqlQuery.ofValue value with
  | some query => .ok query
  | none => .error (.malformed (sj.dcqlError value))

/-- Whether a raw credential query is one for `zkp_req`. -/
def isZkpReq (credential : Value) : Bool :=
  (credential.get "format").bind Value.asStr == some "zkp_req"

/-- `parse_dcql_or_zkp_req`. -/
def parseDcqlOrZkpReq (raw : Value) : Except NoQuery (Option DcqlQuery) :=
  match DcqlQuery.ofValue raw with
  | some query => .ok (some query)
  | none =>
    match (raw.get "credentials").bind Value.asArray, raw.asObject with
    | some credentials, some object =>
      if !credentials.any isZkpReq then .error (.malformed (sj.dcqlError raw))
      else
        -- the `zkp_req` queries aside, it has to be DCQL
        let rest := credentials.filter fun c => !isZkpReq c
        match DcqlQuery.ofValue (.object (object.insert "credentials" (.array rest))) with
        | some _ => .ok none
        | none => .error (.malformed (sj.dcqlError raw))
    | _, _ => .error (.malformed (sj.dcqlError raw))

/-- `extract_context`. -/
def extractContext (parser : Parser) (protocol : String) (data : Value) :
    Except NoQuery RequestContext :=
  match requestObject sj parser protocol data with
  | .error e => .error e
  | .ok (object, signed) =>
    match object.get "dcql_query" with
    | none => .error .payloadHasNoDcqlQuery
    | some raw =>
      (parseDcqlOrZkpReq sj raw).map fun dcqlQuery =>
        { protocol
          signed
          clientId := (object.get "client_id").bind Value.asStr
          expectedOrigins :=
            ((object.get "expected_origins").bind Value.asArray).bind (Lists.collect Value.asStr)
          clientMetadata := object.get "client_metadata"
          dcqlQueryRaw := raw
          dcqlQuery }

/-- `extract_query`. -/
def extractQuery (parser : Parser) (protocol : String) (data : Value) :
    Except NoQuery DcqlQuery :=
  match requestObject sj parser protocol data with
  | .error e => .error e
  | .ok (object, _) =>
    match object.get "dcql_query" with
    | none => .error .payloadHasNoDcqlQuery
    | some raw => parseDcql sj raw

/-- `RequestContext::from_dcql`. -/
def RequestContext.fromDcql (dcqlQueryRaw : Value) (clientMetadata : Option Value) :
    Except NoQuery RequestContext :=
  (parseDcqlOrZkpReq sj dcqlQueryRaw).map fun dcqlQuery =>
    { protocol := ""
      signed := false
      clientId := none
      expectedOrigins := none
      clientMetadata
      dcqlQueryRaw
      dcqlQuery }

end Reading

/-- The body of the loop in `matching_query`. -/
def withoutClaims (credential : Value) : Value :=
  match credential with
  | .object m => if isZkpReq credential then .object (Map.remove m "claims") else credential
  | _ => credential

/-- `RequestContext::matching_query`. -/
def RequestContext.matchingQuery (context : RequestContext) : Option DcqlQuery :=
  match context.dcqlQuery with
  | some query => some query
  | none =>
    match context.dcqlQueryRaw with
    | .object m =>
      match Map.get m "credentials" with
      | some (.array credentials) =>
        DcqlQuery.ofValue
          (.object (Map.insert m "credentials" (.array (credentials.map withoutClaims))))
      | _ => none
    | _ => none

/-! ## Choosing an entry -/

/-- A caller's say over which entry of `requests` is used. -/
abbrev EntryFilter := String → Bool → RequestContext → Bool

section Choosing

variable (sj : SerdeJson) (profile : MatchProfile)

/-- The context of one entry of `requests`, if the profile answers its protocol and its
data can be read. -/
def entryContext (entry : Value) : Option RequestContext := do
  let protocol ← (entry.get "protocol").bind Value.asStr
  let parser ← profile.parserFor protocol
  let data ← entry.get "data"
  (extractContext sj parser protocol data).toOption

/-- `first_supported_context_in`. -/
def firstSupportedContextIn (parsed : Value) (accept : Option EntryFilter) :
    Option RequestContext :=
  ((parsed.get "requests").bind Value.asArray).bind fun requests =>
    requests.findSome? fun entry =>
      (entryContext sj profile entry).filter fun context =>
        accept.all fun accept => accept context.protocol context.signed context

/-- `first_supported_context`. -/
def firstSupportedContext (request : List UInt8) (accept : Option EntryFilter) :
    Option RequestContext :=
  (sj.fromSlice request).bind fun parsed => firstSupportedContextIn sj profile parsed accept

/-- What `diagnose` says of one entry. -/
def diagnoseEntry (entry : Value) : String :=
  let protocol := ((entry.get "protocol").bind Value.asStr).getD "<missing protocol>"
  match profile.parserFor protocol with
  | none => protocol ++ ": not in registered profile"
  | some parser =>
    match entry.get "data" with
    | none => protocol ++ ": " ++ NoQuery.noData.text
    | some data =>
      match extractQuery sj parser protocol data with
      | .ok q =>
        protocol ++ ": dcql_query parsed (" ++ toString q.credentials.length ++
          " credential queries) - should not have reached here"
      | .error e => protocol ++ ": " ++ e.text

/-- `diagnose`. -/
def diagnose (request : List UInt8) : String :=
  match sj.fromSlice request with
  | none =>
    "request (" ++ toString request.length ++ " bytes) is not valid JSON: " ++
      sj.readError request
  | some parsed =>
    match (parsed.get "requests").bind Value.asArray with
    | none => "request JSON has no `requests` array"
    | some [] => "`requests` array is empty"
    | some requests => " | ".intercalate (requests.map (diagnoseEntry sj profile))

end Choosing

/-! ## What is read -/

theorem parseDcqlOrZkpReq_ok {sj : SerdeJson} {raw : Value} {query : Option DcqlQuery}
    (h : parseDcqlOrZkpReq sj raw = .ok query) : query = DcqlQuery.ofValue raw := by
  unfold parseDcqlOrZkpReq at h
  split at h
  · next hquery =>
    cases h
    exact hquery.symm
  · next hquery =>
    rw [hquery]
    split at h
    · simp only at h
      split_ifs at h
      split at h
      · cases h
        rfl
      · cases h
    · cases h

/-- The typed query of a context is its raw one, read as DCQL. -/
def RequestContext.Read (context : RequestContext) : Prop :=
  context.dcqlQuery = DcqlQuery.ofValue context.dcqlQueryRaw

end DcMatcher
