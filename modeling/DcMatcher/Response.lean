import DcMatcher.Base64url
import DcMatcher.CborReader
import DcMatcher.ProofTime

/-!
# Responses to `zkp_req` requests

`zkp_req_response.rs`: `parseResponse` checks the entry of a `vp_token` against the plan
of the request it answers.
-/

namespace DcMatcher

open Lists

/-- Length in bytes of a `pseudonym` result with `prf` `sha-256`. -/
def PSEUDONYM_LEN_SHA256 : Nat := 32
/-- Length in bytes of a `pseudonym` result with `prf` `hashdh-bls12381g1`. -/
def PSEUDONYM_LEN_HASHDH : Nat := 48
/-- Most certificates an `issuer_key_set` may carry. -/
def ISSUER_KEY_SET_MAX : Nat := 8
/-- Largest element of an `issuer_key_set`, in bytes. -/
def ISSUER_KEY_MAX_BYTES : Nat := 4096
/-- Largest encoded presentation. -/
def MAX_PRESENTATION_INPUT : Nat := 2 * 1024 * 1024

/-- Why a `zkp_req` response was refused. `index` is the position of the presentation. -/
inductive InvalidResponse
  | responseNotParseable
  | duplicateMember (member : String)
  | queryIdMissing
  | presentationsNotArray
  | presentationsEmpty
  | presentationsMultipleNotAllowed
  | presentationNotString (index : Nat)
  | presentationNotBase64url (index : Nat)
  | cborMalformed (index : Nat)
  | cborIndefiniteLength (index : Nat)
  | cborTrailingBytes (index : Nat)
  | cborDuplicateKey (index : Nat)
  | presentationNotMap (index : Nat)
  | presentationKeyNotText (index : Nat)
  | presentationUnknownMember (index : Nat) (member : String)
  | presentationMemberMissing (index : Nat) (member : String)
  | presentationMemberWrongType (index : Nat) (member : String)
  | systemIdNotOffered (index : Nat)
  | proofEmpty (index : Nat)
  | issuerKeySetEmpty (index : Nat)
  | issuerKeySetTooMany (index : Nat)
  | issuerKeyNotBytes (index : Nat)
  | issuerKeyEmpty (index : Nat)
  | issuerKeyTooLarge (index : Nat)
  | proofTimeMissing (index : Nat)
  | proofTimeNotTdate (index : Nat)
  | proofTimeForm (index : Nat)
  | resultKeyNotText (index : Nat)
  | resultHandleUnexpected (handle : String)
  | resultHandleMissing (handle : String)
  | resultFunctionUnknown (handle : String)
  | resultWrongType (handle : String)
  | resultNotSatisfied (handle : String)
  | pseudonymPrfUnknown (handle : String)
  | pseudonymWrongLength (handle : String)
deriving DecidableEq, Repr

/-- A validated result value. -/
inductive ResultValue
  | pseudonym (bytes : List UInt8)
  | predicate
deriving DecidableEq, Repr

/-- A presentation that passed the checks. -/
structure Presentation where
  systemId : String
  proof : List UInt8
  issuerKeySet : List (List UInt8)
  proofTime : Option String
  results : List (String × ResultValue)
deriving DecidableEq, Repr

def MEMBERS : List String := ["system_id", "proof", "issuer_key_set", "proof_time", "results"]

def REQUIRED : List String := ["system_id", "proof", "issuer_key_set", "results"]

/-- An entry with a text key, by its name. -/
def named : Cbor × Cbor → Option (String × Cbor)
  | (.text name, value) => some (name, value)
  | _ => none

/-- The first value of a name. -/
def findMember (members : List (String × Cbor)) (name : String) : Option Cbor :=
  (members.find? fun m => m.1 == name).map Prod.snd

/-! ## The parts of a presentation -/

/-- The body of the loop over the issuer keys. -/
def checkIssuerKey (index : Nat) : Cbor → Except InvalidResponse (List UInt8)
  | .bytes bytes =>
    if bytes.isEmpty then .error (.issuerKeyEmpty index)
    else if bytes.length > ISSUER_KEY_MAX_BYTES then .error (.issuerKeyTooLarge index)
    else .ok bytes
  | _ => .error (.issuerKeyNotBytes index)

/-- `check_issuer_key_set`: encoding and limits only. -/
def checkIssuerKeySet (index : Nat) (keys : List Cbor) :
    Except InvalidResponse (List (List UInt8)) :=
  if keys.isEmpty then .error (.issuerKeySetEmpty index)
  else if keys.length > ISSUER_KEY_SET_MAX then .error (.issuerKeySetTooMany index)
  else collectOk (checkIssuerKey index) keys

/-- `check_proof_time`. -/
def checkProofTime (plan : Plan) (index : Nat) :
    Option Cbor → Except InvalidResponse (Option String)
  | none =>
    if plan.sourceFormat = SOURCE_MSO_MDOC then .error (.proofTimeMissing index) else .ok none
  | some (.tag 0 (.text text)) =>
    match ProofTime.parse text with
    | .error _ => .error (.proofTimeForm index)
    | .ok _ => .ok (some text)
  | some _ => .error (.proofTimeNotTdate index)

/-- The length of a pseudonym, by its `prf`. -/
def pseudonymLength : Option String → Option Nat
  | some "sha-256" => some PSEUDONYM_LEN_SHA256
  | some "hashdh-bls12381g1" => some PSEUDONYM_LEN_HASHDH
  | _ => none

/-- The check of one value, by the parameters of its function. -/
def checkValue (handle : String) (params : Params) (value : Cbor) :
    Except InvalidResponse ResultValue :=
  match params with
  | .pseudonym _ _ prf _ _ =>
    match pseudonymLength prf with
    | none => .error (.pseudonymPrfUnknown handle)
    | some want =>
      match value with
      | .bytes bytes =>
        if bytes.length ≠ want then .error (.pseudonymWrongLength handle)
        else .ok (.pseudonym bytes)
      | _ => .error (.resultWrongType handle)
  | .ageCheck _ _ _ =>
    match value with
    | .bool true => .ok .predicate
    | .bool false => .error (.resultNotSatisfied handle)
    | _ => .error (.resultWrongType handle)
  | .unknown _ => .error (.resultFunctionUnknown handle)

/-- The body of the loop over the functions. -/
def checkFunction (results : List (String × Cbor)) (function : PlannedFunction) :
    Except InvalidResponse (String × ResultValue) :=
  match findMember results function.handle with
  | none => .error (.resultHandleMissing function.handle)
  | some value =>
    (checkValue function.handle function.params value).map fun checked =>
      (function.handle, checked)

/-- `check_results`: handles first, unexpected, then missing, all before any value. -/
def checkResults (plan : Plan) (index : Nat) (results : List (Cbor × Cbor)) :
    Except InvalidResponse (List (String × ResultValue)) :=
  match collect named results with
  | none => .error (.resultKeyNotText index)
  | some results =>
    -- the handles first, whatever the values are
    let wanted := plan.functions.map (·.handle)
    match results.find? fun r => r.1 ∉ wanted with
    | some (handle, _) => .error (.resultHandleUnexpected handle)
    | none =>
      match plan.functions.find? fun f => !results.any fun r => r.1 == f.handle with
      | some function => .error (.resultHandleMissing function.handle)
      | none => collectOk (checkFunction results) plan.functions

/-! ## A presentation -/

/-- The part of `check_presentation` after the types of the members. -/
def checkTyped (plan : Plan) (index : Nat) (systemId : String) (proof : List UInt8)
    (keys : List Cbor) (results : List (Cbor × Cbor)) (proofTimeItem : Option Cbor) :
    Except InvalidResponse Presentation :=
  if !plan.systemFilter.systemIds.any (·.contains systemId) then
    .error (.systemIdNotOffered index)
  else if proof.isEmpty then .error (.proofEmpty index)
  else do
    let issuerKeySet ← checkIssuerKeySet index keys
    let proofTime ← checkProofTime plan index proofTimeItem
    let results ← checkResults plan index results
    return { systemId, proof, issuerKeySet, proofTime, results }

/-- The types of the members. -/
def checkTypes (plan : Plan) (index : Nat) (members : List (String × Cbor)) :
    Except InvalidResponse Presentation :=
  match findMember members "system_id" with
  | some (.text systemId) =>
    match findMember members "proof" with
    | some (.bytes proof) =>
      match findMember members "issuer_key_set" with
      | some (.array keys) =>
        match findMember members "results" with
        | some (.map results) =>
          checkTyped plan index systemId proof keys results (findMember members "proof_time")
        | _ => .error (.presentationMemberWrongType index "results")
      | _ => .error (.presentationMemberWrongType index "issuer_key_set")
    | _ => .error (.presentationMemberWrongType index "proof")
  | _ => .error (.presentationMemberWrongType index "system_id")

/-- The part of `check_presentation` after decoding. -/
def checkMembers (plan : Plan) (index : Nat) (entries : List (Cbor × Cbor)) :
    Except InvalidResponse Presentation :=
  match collect named entries with
  | none => .error (.presentationKeyNotText index)
  | some members =>
    match members.find? fun m => m.1 ∉ MEMBERS with
    | some (name, _) => .error (.presentationUnknownMember index name)
    | none =>
      match REQUIRED.find? fun name => (findMember members name).isNone with
      | some name => .error (.presentationMemberMissing index name)
      | none => checkTypes plan index members

def InvalidResponse.ofCbor (index : Nat) : CborError → InvalidResponse
  | .malformed => .cborMalformed index
  | .indefinite => .cborIndefiniteLength index
  | .trailing => .cborTrailingBytes index
  | .duplicateKey => .cborDuplicateKey index

/-- `check_presentation`. -/
def checkPresentation (plan : Plan) (index : Nat) (element : Document) :
    Except InvalidResponse Presentation :=
  match element with
  | .string text =>
    match Base64url.decodeWithLimit text MAX_PRESENTATION_INPUT with
    | none => .error (.presentationNotBase64url index)
    | some bytes =>
      match decodeCbor bytes with
      | .error e => .error (.ofCbor index e)
      | .ok (.map entries) => checkMembers plan index entries
      | .ok _ => .error (.presentationNotMap index)
  | _ => .error (.presentationNotString index)

/-- The presentations in order, with their positions. -/
def checkPresentations (plan : Plan) (index : Nat) :
    List Document → Except InvalidResponse (List Presentation)
  | [] => .ok []
  | element :: elements =>
    match checkPresentation plan index element with
    | .error e => .error e
    | .ok p => (checkPresentations plan (index + 1) elements).map fun ps => p :: ps

/-- Whether the query sets `multiple: true`. -/
def Plan.allowsMultiple (plan : Plan) : Bool :=
  match plan.raw.get "multiple" with
  | some (.bool true) => true
  | _ => false

/-- `parse_response`. The source reads the token into a type of its own, `Json`, which keeps
repeated members: it is the `Document` of the text. -/
def parseResponse (sj : SerdeJson) (plan : Plan) (vpTokenJson : String) :
    Except InvalidResponse (List Presentation) :=
  match sj.events (utf8 vpTokenJson) with
  | some (.object token) =>
    match firstRepeat [] (token.map Prod.fst) with
    | some member => .error (.duplicateMember member)
    | none =>
      match (plan.raw.get "id").bind Value.asStr with
      | none => .error .queryIdMissing
      | some queryId =>
        match token.find? fun member => member.1 == queryId with
        | none => .error .queryIdMissing
        | some (_, .array presentations) =>
          if presentations.isEmpty then .error .presentationsEmpty
          else if presentations.length > 1 ∧ !plan.allowsMultiple then
            .error .presentationsMultipleNotAllowed
          else checkPresentations plan 0 presentations
        | some _ => .error .presentationsNotArray
  | _ => .error .responseNotParseable

end DcMatcher
