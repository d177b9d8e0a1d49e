import DcMatcher.CircuitCapabilities
import DcMatcher.Db
import DcMatcher.Dcql.Eval
import DcMatcher.Request

/-!
# Evaluating the match profile

`evaluator.rs`: the part of matching that DCQL leaves to the deployment. Formats, `meta`
rules and capabilities come from the registered profile; a `zkp_req` query is answered
from its plan.
-/

namespace DcMatcher

open Lists

/-! ## Credentials of the blob -/

/-- `claim_value`: the stored text as JSON, or as a string. -/
def claimValue (sj : SerdeJson) (claim : Db.Claim) : Value :=
  (sj.fromStr claim.value).getD (.string claim.value)

/-- A credential from the registered blob, wrapped so DCQL can evaluate it. -/
structure BlobCredential (sj : SerdeJson) where
  credential : Db.Credential

/-- The first claim stored under these keys. -/
def Db.Credential.storedClaim (credential : Db.Credential) (keys : List String) :
    Option Db.Claim :=
  credential.claims.find? fun c => c.path == keys

/-- `BlobCredential::claim`. -/
def BlobCredential.claim {sj : SerdeJson} (c : BlobCredential sj) (path : List PathComponent) :
    Except PathError (List Value) :=
  if path.isEmpty then .error .malformed
  else
    match collect PathComponent.asKey path with
    | none => .error .empty
    | some wanted =>
      match c.credential.storedClaim wanted with
      | none => .error .empty
      | some stored => .ok [claimValue sj stored]

instance {sj : SerdeJson} : Credential (BlobCredential sj) where
  id c := c.credential.id
  format c := c.credential.format
  claim c path := c.claim path
  hasCryptographicHolderBinding _ := true

/-- `credentials`. -/
def credentials (sj : SerdeJson) (db : CredentialDatabase) : List (BlobCredential sj) :=
  db.credentials.map BlobCredential.mk

/-! ## Capabilities -/

/-- `trigger_is_required`. -/
def triggerIsRequired (trigger : MetaTrigger) (query : CredentialQuery) : Bool :=
  match trigger.requiredFlag with
  | none => true
  | some flag => ((query.meta_.get flag).bind Value.asBool).getD false

/-- `as_text`. -/
def asText (sj : SerdeJson) : Value → Option String
  | .string s => some s
  | .number n => some (sj.numberText n)
  | .bool b => some (if b then "true" else "false")
  | _ => none

/-- `satisfies`: whether a held capability satisfies one entry from the verifier's list. -/
def satisfies (sj : SerdeJson) (held : Capability) (requested : Value) : Bool :=
  match requested.asObject with
  | none => false
  | some entry =>
    if (Map.get entry "system").bind Value.asStr != some held.system then false
    else
      (entry.filter fun member => member.1 != "id" && member.1 != "system").all fun member =>
        match held.params.get member.1 with
        | some ours => asText sj member.2 == some ours
        | none => true

/-- `requested_types`. -/
def requestedTypes (plan : Plan) : List String :=
  let member (key : String) : Option Value := (plan.raw.get "meta").bind fun m => m.get key
  let doctype := (member "doctype_value").bind Value.asStr
  let vcts := (((member "vct_values").bind Value.asArray).getD []).filterMap Value.asStr
  let schema := (member "schema_id_value").bind Value.asStr
  doctype.toList ++ schema.toList ++ vcts

/-- The members of the parameters as they are written: the declared ones that are there,
then the others. -/
def Params.toMap : Params → Map
  | .pseudonym config ver prf verifierContext extra =>
    Map.ofList (
      (config.map fun v => ("config", Value.string v)).toList ++
      (ver.map fun v => ("ver", Value.number v)).toList ++
      (prf.map fun v => ("prf", Value.string v)).toList ++
      (verifierContext.map fun v => ("verifier_context", Value.string v)).toList ++ extra)
  | .ageCheck ge le extra =>
    Map.ofList (
      (ge.map fun v => ("ge", Value.string v)).toList ++
      (le.map fun v => ("le", Value.string v)).toList ++ extra)
  | .unknown map => map

/-- Evaluates a `MatchProfile`. -/
structure ProfilePolicy where
  profile : MatchProfile
  context : Option RequestContext

/-- The circuit a `zkp_req` query will be answered with, and what it asked. -/
structure ZkpReqSelection where
  capability : Capability
  plan : Plan

/-! ### As JSON -/

/-- An array of strings. -/
def Value.texts (texts : List String) : Value := .array (texts.map .string)

/-- A string or `null`. -/
def Value.ofOption (text : Option String) : Value := (text.map Value.string).getD .null

/-- `Capability`'s derived writer. -/
def Capability.toValue (capability : Capability) : Value :=
  .ofMembers
    [("system", .string capability.system),
     ("params", .object (capability.params.map fun param => (param.1, .string param.2)))]

/-- `PlannedFunction`'s derived writer. -/
def PlannedFunction.toValue (function : PlannedFunction) : Value :=
  .ofMembers
    [("function_id", .string function.functionId), ("handle", .string function.handle),
     ("params", .object function.params.toMap)]

/-- `SystemFilter`'s derived writer. A list the verifier did not send is left out. -/
def SystemFilter.toValue (filter : SystemFilter) : Value :=
  .ofMembers (
    (filter.proofSystems.map fun v => ("proof_systems", Value.texts v)).toList ++
    (filter.systemIds.map fun v => ("system_ids", Value.texts v)).toList)

/-- `Plan`'s derived writer. -/
def Plan.toValue (plan : Plan) : Value :=
  .ofMembers
    [("functions", .array (plan.functions.map PlannedFunction.toValue)),
     ("system_filter", plan.systemFilter.toValue),
     ("source_format", .string plan.sourceFormat),
     ("meta_doctype", .ofOption plan.metaDoctype),
     ("meta_schema_id", .ofOption plan.metaSchemaId),
     ("raw", plan.raw)]

/-- `ZkpReqSelection::to_json`. -/
def ZkpReqSelection.toJson (selection : ZkpReqSelection) : Value :=
  .ofMembers [("circuit", selection.capability.toValue), ("plan", selection.plan.toValue)]

/-! ### Which ones a query needs -/

namespace ProfilePolicy

variable (sj : SerdeJson) (policy : ProfilePolicy)

/-- `capabilities_serve`: the `capabilities` rule, for one circuit, against one plan. -/
def capabilitiesServe (text : String) (plan : Plan) : Bool :=
  match Capabilities.parse sj text with
  | .error _ => false
  | .ok capabilities =>
    match policy.profile.formatRule ZKP_REQ_FORMAT with
    | none => false
    | some rule =>
      capabilities.serves ZKP_REQ_FORMAT (rule.storedFormats.filter (· == plan.sourceFormat))
        (requestedTypes plan)
        (plan.functions.map fun f => { functionId := f.functionId, params := f.params.toMap })

/-- `circuit_serves`: whether a circuit can serve a planned request. -/
def circuitServes (capability : Capability) (plan : Plan) : Bool :=
  let filter := plan.systemFilter
  if filter.proofSystems.any fun systems => !systems.contains capability.system then false
  else if filter.systemIds.any fun ids =>
      !ids.any fun id => some id == capability.params.get SYSTEM_ID_PARAM then false
  else
    match capability.params.get CAPABILITIES_PARAM with
    | some text => policy.capabilitiesServe sj text plan
    | none =>
      if (capability.params.get CREDENTIAL_TYPE_PARAM).any fun ours =>
          !(requestedTypes plan).contains ours then false
      else
        match capability.params.get FUNCTIONS_PARAM with
        | some declared =>
          plan.functions.all fun f => (split ',' declared).any fun d => trim d == f.functionId
        | none => true

/-- The raw query that `zkp_req_selection` finds for an id. -/
def rawQuery (context : RequestContext) (id : String) : Option Value :=
  ((context.dcqlQueryRaw.get "credentials").bind Value.asArray).bind fun credentials =>
    credentials.find? fun c => (c.get "id").bind Value.asStr == some id

/-- The plan of a `zkp_req` query, unless it is unsatisfiable. -/
def planned (context : RequestContext) (raw : Value) : Option Plan :=
  match plan sj (sj.write raw) (context.clientMetadata.map sj.write) with
  | .error _ => none
  | .ok plan =>
    match unsatisfiable plan with
    | .error _ => none
    | .ok () => some plan

/-- `zkp_req_selection`. -/
def zkpReqSelection (query : CredentialQuery) : Option ZkpReqSelection := do
  let context ← policy.context
  let raw ← rawQuery context query.id
  let plan ← planned sj context raw
  let circuits ← policy.profile.capabilities.get ZKP_REQ_CAPABILITY
  let capability ← circuits.find? fun capability => policy.circuitServes sj capability plan
  return { capability, plan }

/-- The body of the loop over the triggers. -/
def addTrigger (query : CredentialQuery) (counts : MetaTrigger → Bool)
    (out : List Requirement) (trigger : MetaTrigger) : List Requirement :=
  if !query.meta_.containsKey trigger.whenMetaPresent then out
  else if !counts trigger then out
  else
    let requirement := { capability := trigger.capability, fromMeta := trigger.whenMetaPresent }
    if out.contains requirement then out else out ++ [requirement]

/-- The requirements of the format rule, and those of the triggers that count. -/
def requirementsOf (query : CredentialQuery) (counts : MetaTrigger → Bool) : List Requirement :=
  policy.profile.metaTriggers.foldl (addTrigger query counts)
    (((policy.profile.formatRule query.format).map (·.requires)).getD [])

/-- `requirements`: what must hold for a match. -/
def requirements (query : CredentialQuery) : List Requirement :=
  policy.requirementsOf query fun trigger => triggerIsRequired trigger query

/-- `applicable_capabilities`: what would apply if the wallet can manage it. -/
def applicableCapabilities (query : CredentialQuery) : List Requirement :=
  policy.requirementsOf query fun _ => true

/-- The body of the loop of `capability_for`: the verifier's first entry that a held
capability satisfies. -/
def chooseCapability (query : CredentialQuery) (requirement : Requirement) :
    Option Capability := do
  let held ← policy.profile.capabilities.get requirement.capability
  let requested ← (query.meta_.get requirement.fromMeta).bind Value.asArray
  requested.findSome? fun entry => held.find? fun c => satisfies sj c entry

/-- `capability_for`. -/
def capabilityFor (query : CredentialQuery) (requires : List Requirement) :
    Option (List Capability) :=
  collect (policy.chooseCapability sj query) requires

end ProfilePolicy

/-! ## The policy -/

/-- Doctype of the ISO/IEC 18013-5 nym_auth attestation. -/
def NYM_AUTH_DOCTYPE : String := "eu.europa.ec.eudi.nym_auth.1"
/-- Schema identifier of the `bbs_cd` nym_auth attestation. -/
def NYM_AUTH_BBS_SCHEMA : String := "eu.europa.ec.eudi.nym_auth.bbs.1"
/-- Attributes of a nym_auth attestation that no presentation may disclose. -/
def NYM_AUTH_UNDISCLOSABLE : List String := ["ssc", "psc", "secret_seed", "birth_date"]

/-- `is_nym_auth`. -/
def isNymAuth (credential : Db.Credential) : Bool :=
  (credential.doctype.toList ++ credential.vct.toList).any fun t =>
    t == NYM_AUTH_DOCTYPE || t == NYM_AUTH_BBS_SCHEMA

/-- The body of the loop over the components of a path. -/
def undisclosable : PathComponent → Bool
  | .key k => NYM_AUTH_UNDISCLOSABLE.contains k
  | .null => true
  | .index _ => false

/-- `discloses_nym_auth_secrets`. -/
def disclosesNymAuthSecrets (query : CredentialQuery) : Bool :=
  query.claims.isEmpty || query.claims.any fun claim => claim.path.any undisclosable

/-- `credential_field`. -/
def credentialField (cred : Db.Credential) (field : String) : Option String :=
  match field with
  | "doctype" => cred.doctype
  | "vct" => cred.vct
  | "format" => some cred.format
  | _ => none

/-- `meta_matches`. A key the verifier did not send is not a constraint. -/
def metaMatches (rule : MetaRule) (query : CredentialQuery) (cred : Db.Credential) : Bool :=
  if rule.op = .ignore then true
  else
    match query.meta_.get rule.metaKey with
    | none => true
    | some requested =>
      match rule.field.bind (credentialField cred) with
      -- the credential cannot be compared, so it does not match
      | none => false
      | some field =>
        match rule.op with
        | .eq => requested.asStr == some field
        | .isIn => requested.asArray.any fun vs => vs.any fun v => v.asStr == some field
        | .hasPrefix => requested.asStr.any fun p => p.toList.isPrefixOf field.toList
        | .exists => true
        | .ignore => true

namespace ProfilePolicy

variable (sj : SerdeJson) (policy : ProfilePolicy)

/-- Whether the profile maps the requested format onto the stored one. -/
def formatAccepts (query : CredentialQuery) (stored : String) : Bool :=
  match policy.profile.formatRule query.format with
  | some rule => rule.storedFormats.contains stored
  | none =>
    -- no rule for the format
    match policy.profile.unknownFormat with
    | .reject => false
    | .matchAny => true

/-- What the format of the query asks of the credential: a servable plan over it, or that
no secret of a nym_auth attestation is disclosed. -/
def queryAccepts (query : CredentialQuery) (credential : Db.Credential) : Bool :=
  if query.format = ZKP_REQ_FORMAT then
    (policy.zkpReqSelection sj query).any fun selection =>
      selection.plan.sourceFormat == credential.format
  else !(isNymAuth credential && disclosesNymAuthSecrets query)

/-- Whether the wallet has the capabilities the query requires. -/
def capabilitiesAccept (query : CredentialQuery) : Bool :=
  let required := policy.requirements query
  required.isEmpty || (policy.capabilityFor sj query required).isSome

/-- `ProfilePolicy::matches`. -/
def policyMatches : Policy (BlobCredential sj) := fun query c =>
  policy.formatAccepts query c.credential.format &&
    policy.queryAccepts sj query c.credential &&
    policy.capabilitiesAccept sj query &&
    policy.profile.metaRules.all fun rule => metaMatches rule query c.credential

end ProfilePolicy

/-! ## Details of a match -/

/-- What a caller needs about one matched credential, beyond its identity. -/
structure Resolved where
  claims : List (List String)
  capabilities : List Capability
  meta_ : Table String
  zkpReq : Option ZkpReqSelection

/-- The keys of a path, as they are reported. -/
def pathKeys (path : List PathComponent) : List String := path.filterMap PathComponent.asKey

/-- `resolve`. -/
def resolve (sj : SerdeJson) (policy : ProfilePolicy) (query : CredentialQuery)
    (candidate : Candidate) : Resolved :=
  let applicable := policy.applicableCapabilities query
  let zkpReq := if query.format = ZKP_REQ_FORMAT then policy.zkpReqSelection sj query else none
  { claims :=
      if zkpReq.isSome then [] else candidate.claims.map fun claim => pathKeys claim.path
    capabilities :=
      if applicable.isEmpty then []
      else (policy.capabilityFor sj query applicable).getD []
    meta_ := query.meta_.filterMap fun member => (asText sj member.2).map fun t => (member.1, t)
    zkpReq }

end DcMatcher
