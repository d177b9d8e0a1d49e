import DcMatcher.Display
import DcMatcher.Evaluator

/-!
# The matcher binary

`siros-dc-matcher-wasm`: `run` reads the request and the blob and emits the credential
sets of the picker. What the host receives is the list of the sets, in order.
-/

namespace DcMatcher

open Lists

namespace Picker

/-! ## Sets and entries -/

/-- A display field of an entry. -/
structure Field where
  name : C8Str
  value : C8Str
deriving DecidableEq

/-- The field of a row `(name, value)`. -/
def Field.ofRow (row : String × String) : Field where
  name := .ofLossy row.1
  value := .ofLossy row.2

/-- A verification entry of a set. -/
structure Entry where
  credId : C8Str
  icon : List UInt8
  title : C8Str
  subtitle : C8Str
  disclaimer : Option C8Str
  data : C8Str
  fields : List Field
deriving DecidableEq

/-- A set of entries that the picker selects together: one slot for each, at least one. -/
structure EntrySet where
  id : C8Str
  entries : List Entry
  nonempty : entries ≠ []
deriving DecidableEq

/-- One credential offered in the picker, with the fields shown on it. -/
structure Member where
  credentialId : String
  title : String
  subtitle : String
  data : String
  icon : List UInt8
  disclaimer : Option String
  fields : List (String × String)

/-- `HostStrings::of` and `entry`. -/
def Member.entry (m : Member) : Entry where
  credId := .ofLossy m.credentialId
  icon := m.icon
  title := .ofLossy m.title
  subtitle := .ofLossy m.subtitle
  disclaimer := m.disclaimer.map .ofLossy
  data := .ofLossy m.data
  fields := m.fields.map .ofRow

/-- `emit_set`. A combination with no members emits nothing. -/
def emitSet (setId : String) (members : List Member) : List EntrySet :=
  match members with
  | [] => []
  | first :: others =>
    [{ id := .ofLossy setId
       entries := first.entry :: others.map Member.entry
       nonempty := List.cons_ne_nil _ _ }]

/-- Prefix of the set ids. -/
def SET_PREFIX : String := "siros"

/-- How many combinations to offer at most. -/
def MAX_COMBINATIONS (w : PointerWidth) : Usize w := ⟨32, w.limit_lt⟩

/-- A 64x64 solid-colour PNG, for entries that have no icon of their own. -/
def FALLBACK_ICON_PNG : List UInt8 :=
  [0x89, 0x50, 0x4E, 0x47, 0x0D, 0x0A, 0x1A, 0x0A, 0x00, 0x00, 0x00, 0x0D, 0x49, 0x48, 0x44, 0x52,
   0x00, 0x00, 0x00, 0x40, 0x00, 0x00, 0x00, 0x40, 0x08, 0x02, 0x00, 0x00, 0x00, 0x25, 0x0B, 0xE6,
   0x89, 0x00, 0x00, 0x00, 0x50, 0x49, 0x44, 0x41, 0x54, 0x78, 0xDA, 0xED, 0xCF, 0x41, 0x09, 0x00,
   0x00, 0x08, 0x04, 0xB0, 0xCB, 0x61, 0x10, 0xDB, 0xD8, 0xBF, 0x86, 0x11, 0x7C, 0x0B, 0x83, 0x15,
   0x58, 0xAA, 0xE7, 0xB5, 0x08, 0x08, 0x08, 0x08, 0x08, 0x08, 0x08, 0x08, 0x08, 0x08, 0x08, 0x08,
   0x08, 0x08, 0x08, 0x08, 0x08, 0x08, 0x08, 0x08, 0x08, 0x08, 0x08, 0x08, 0x08, 0x08, 0x08, 0x08,
   0x08, 0x08, 0x08, 0x08, 0x08, 0x08, 0x08, 0x08, 0x08, 0x08, 0x08, 0x08, 0x08, 0x08, 0x08, 0x08,
   0x08, 0x08, 0x08, 0x5C, 0x16, 0x49, 0xAB, 0xD0, 0x97, 0x3A, 0x79, 0x4A, 0x21, 0x00, 0x00, 0x00,
   0x00, 0x49, 0x45, 0x4E, 0x44, 0xAE, 0x42, 0x60, 0x82]

/-! ## Diagnostics -/

/-- `Diagnostics::emit`: one entry in its own set, if the profile asks for it. -/
def diagnose (enabled : Bool) (kind message : String) : List EntrySet :=
  if !enabled then []
  else
    emitSet ("siros-debug-" ++ kind)
      [{ credentialId := "siros-debug-entry"
         title := "[SIROS DEBUG] no match"
         subtitle := message
         data := "\x7b\x7d"
         icon := FALLBACK_ICON_PNG
         disclaimer := none
         fields := [] }]

/-! ## Rows -/

/-- The row of a stored claim. -/
def claimRow (stored : Db.Claim) : String × String :=
  (stored.display, stored.displayValue.getD stored.value)

/-- `disclosed_fields`: the display fields for the claims a match discloses. -/
def disclosedFields (credential : Db.Credential) (candidate : Candidate) :
    List (String × String) :=
  (candidate.claims.filterMap fun claim => credential.storedClaim (pathKeys claim.path)).map
    claimRow

/-- The longest row value emitted. -/
def ROW_MAX_CHARS : Nat := 80

/-- Said on every row of a `zkp_req` entry. -/
def UNVERIFIED : String := "(unverified request)"

/-- `clip`: at most `max` characters, ending in an ellipsis if it had to cut. -/
def clip (text : String) (max : Nat) : String :=
  if text.toList.length ≤ max then text
  else String.ofList (text.toList.take (max - 1) ++ [Char.ofNat 0x2026])

/-- What a planned function asks for. -/
def functionText (function : PlannedFunction) : String × String :=
  match function.params with
  | .ageCheck ge le _ =>
    ("Age check",
      match ge, le with
      | some ge, some le => "born " ++ ge ++ " to " ++ le
      | some ge, none => "born on or after " ++ ge
      | none, some le => "born on or before " ++ le
      | none, none => "")
  | .pseudonym config _ _ _ _ => ("Pseudonym", (config.map fun c => "config " ++ c).getD "")
  | .unknown _ => (function.functionId, "")

/-- The row of a planned function. The detail is clipped, never the marker. -/
def functionRow (function : PlannedFunction) : String × String :=
  let (label, detail) := functionText function
  (clip label ROW_MAX_CHARS,
    if detail.isEmpty then UNVERIFIED
    else clip detail (ROW_MAX_CHARS - byteLen UNVERIFIED - 1) ++ " " ++ UNVERIFIED)

/-- `zkp_req_rows`. -/
def zkpReqRows (plan : Plan) : List (String × String) := plan.functions.map functionRow

/-! ## The invocation -/

/-- What the host hands one invocation. -/
structure Input where
  request : List UInt8
  blob : List UInt8
  origin : String

section Offer

variable (sj : SerdeJson) (origin : String) (db : CredentialDatabase) (query : DcqlQuery)
  (context : RequestContext)

/-- The policy of an invocation. -/
def policyOf : ProfilePolicy := { profile := db.profile, context := some context }

/-- What `resolve` gives for a member, if its query is found. -/
def resolvedMember (queryId : String) (candidate : Candidate) : Option Resolved :=
  (query.credential queryId).map fun cq => resolve sj (policyOf db context) cq candidate

/-- The `data` of an entry. -/
def entryData (dropped : Dropped) (queryId credentialId : String) (resolved : Option Resolved) :
    Value :=
  .ofMembers
    [("matcher", .string "siros-dc-matcher"),
     ("protocol", .string context.protocol),
     ("query_id", .string queryId),
     ("credential_id", .string credentialId),
     ("capabilities",
       .array (((resolved.map (·.capabilities)).getD []).map Capability.toValue)),
     ("claims", .array (((resolved.map (·.claims)).getD []).map Value.texts)),
     ("zkp_req", ((resolved.bind (·.zkpReq)).map (·.toJson)).getD .null),
     ("verified_origin", .string origin),
     ("combinations_dropped", .number (.posInt (UInt64.ofNat dropped.count))),
     ("combinations_dropped_is_exact", .bool dropped.isExact)]

/-- The icon of a credential, or the fallback when it has no image bytes. -/
def iconOf (credential : Db.Credential) : List UInt8 :=
  ((db.iconBytes credential).filter fun bytes => !bytes.isEmpty).getD FALLBACK_ICON_PNG

/-- A member of a combination that was resolved to its credential. -/
def offerMember (dropped : Dropped) (purpose : Option String)
    (found : String × Candidate × Db.Credential) : Member :=
  let (queryId, candidate, credential) := found
  let resolved := resolvedMember sj db query context queryId candidate
  { credentialId := credential.id
    title := credential.title
    subtitle := credential.subtitle
    data := sj.write (entryData origin context dropped queryId credential.id resolved)
    icon := iconOf db credential
    disclaimer := purpose
    fields :=
      match resolved.bind (·.zkpReq) with
      | some zk => zkpReqRows zk.plan
      | none => disclosedFields credential candidate }

/-- The credential of a member. -/
def findCredential (m : DcMatcher.Member) : Option (String × Candidate × Db.Credential) :=
  (db.credentials.find? fun c => c.id == m.2.credentialId).map fun credential =>
    (m.1, m.2, credential)

/-- The body of the loop over the combinations. -/
def offerCombination (dropped : Dropped) (numbered : Combination × Nat) : List EntrySet :=
  match collect (findCredential db) numbered.1.members with
  -- a combination is offered whole or not at all
  | none => []
  | some found =>
    emitSet (SET_PREFIX ++ "-" ++ toString numbered.2)
      (found.map (offerMember sj origin db query context dropped
        (Purpose.line numbered.1.purposes)))

/-- The part of `run` once the request was read. -/
def offer (w : PointerWidth) : List EntrySet :=
  let held := credentials sj db
  let result := execute query held ((policyOf db context).policyMatches sj)
  if !result.satisfiable then
    diagnose db.profile.debug "unsatisfiable"
      (context.protocol ++ ": parsed " ++ toString query.credentials.length ++
        " cred queries, not satisfiable")
  else
    let enumerated := result.combinations w (MAX_COMBINATIONS w)
    if enumerated.combinations.isEmpty then
      diagnose db.profile.debug "zero"
        (context.protocol ++ ": satisfiable but zero combinations (" ++ toString held.length ++
          " held)")
    else
      enumerated.combinations.zipIdx.flatMap
        (offerCombination sj origin db query context enumerated.dropped)

end Offer

section Run

variable (sj : SerdeJson) (w : PointerWidth)

/-- `run`, for a blob that was read. -/
def runOn (db : CredentialDatabase) (request : List UInt8) (origin : String) : List EntrySet :=
  match (firstSupportedContext sj db.profile request none).bind fun context =>
      context.matchingQuery.map fun query => (context, query) with
  | none => diagnose db.profile.debug "request" (DcMatcher.diagnose sj db.profile request)
  | some (context, query) => offer sj origin db query context w

/-- `run`. -/
def run (ciborium : Ciborium) (input : Input) : List EntrySet :=
  match CredentialDatabase.fromCbor ciborium input.blob with
  | .error _ => []
  | .ok db => runOn sj w db input.request input.origin

end Run

end Picker

end DcMatcher
