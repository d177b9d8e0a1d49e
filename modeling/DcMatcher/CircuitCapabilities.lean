import DcMatcher.Profile
import DcMatcher.ZkpReq

/-!
# Circuit capabilities

`circuit_capabilities.rs`: the structured description of a `zkp_req` circuit, and the
rule that matches a planned request to it. `parse` is strict; what it refuses is named,
not worded, since no caller reads the reason.
-/

namespace DcMatcher

open Lists

/-- The only capabilities schema version this build reads. -/
def SCHEMA : UInt64 := 1

/-- A capabilities object that breaks the schema. -/
inductive SchemaViolation
  | notObject (what : String)
  | unknownMember (what key : String)
  | required (what key : String)
  | neitherEnumNorType
  | bothEnumAndType
  | unknownType (ty : Value)
  | enumNotArray
  | enumValueNotText
  | enumValueTwice (value : String)
  | enumEmpty
  | maxBelowOne (function : String)
  | alwaysNotBool (function : String)
  | paramsNotObject (function : String)
  | paramNameEmpty (function : String)
  | param (function name : String) (reason : SchemaViolation)
  | schemaVersion
  | credentialRequired
  | issuanceProfile
  | functionsNotArray
  | duplicateFunction (function : String)
  | functionsEmpty

inductive CapabilitiesError
  | json
  | schema (violation : SchemaViolation)

/-- The type names a `{"type": ...}` constraint can use. -/
inductive ParamKind
  | fullDate
  | string
  | integer
deriving DecidableEq, Repr

/-- What a param's value must satisfy. -/
inductive Constraint
  | enum (values : List String)
  | type (kind : ParamKind)
deriving DecidableEq, Repr

/-- One function a circuit supports. -/
structure FunctionCap where
  id : String
  max : Option UInt64
  always : Bool
  params : Table Constraint
deriving DecidableEq, Repr

/-- What a circuit declares it can prove. -/
structure Capabilities where
  presentation : String
  credentialFormat : String
  credentialType : String
  functions : List FunctionCap
deriving DecidableEq, Repr

/-! ## Reading -/

/-- `object`: an object whose keys are all in `allowed`. -/
def objectWith (value : Value) (what : String) (allowed : List String) :
    Except SchemaViolation Map :=
  match value.asObject with
  | none => .error (.notObject what)
  | some map =>
    match map.find? fun member => member.1 ∉ allowed with
    | some (unknown, _) => .error (.unknownMember what unknown)
    | none => .ok map

/-- `required_text`. -/
def requiredText (map : Map) (key what : String) : Except SchemaViolation String :=
  match (map.get key).bind Value.asStr with
  | some text => if text.isEmpty then .error (.required what key) else .ok text
  | none => .error (.required what key)

/-- A member that is `null` reads as absent. -/
def Map.getSome (map : Map) (key : String) : Option Value :=
  match map.get key with
  | some .null => none
  | v => v

namespace Constraint

/-- The body of the loop over the values of an `enum`. -/
def readEnumValue : Value → Except SchemaViolation String
  | .string v => if v.isEmpty then .error .enumValueNotText else .ok v
  | _ => .error .enumValueNotText

/-- The loop over the values of an `enum`, with those seen so far. -/
def readEnum (seen : List String) : List Value → Except SchemaViolation (List String)
  | [] => .ok []
  | value :: values =>
    match readEnumValue value with
    | .error e => .error e
    | .ok v =>
      if v ∈ seen then .error (.enumValueTwice v)
      else (readEnum (v :: seen) values).map fun list => v :: list

/-- `Constraint::read`. -/
def read (value : Value) : Except SchemaViolation Constraint :=
  match objectWith value "a constraint" ["enum", "type"] with
  | .error e => .error e
  | .ok map =>
    match Map.getSome map "enum", Map.getSome map "type" with
    | none, none => .error .neitherEnumNorType
    | none, some ty =>
      match ty.asStr with
      | some "full-date" => .ok (.type .fullDate)
      | some "string" => .ok (.type .string)
      | some "integer" => .ok (.type .integer)
      | _ => .error (.unknownType ty)
    | some values, none =>
      match values.asArray with
      | none => .error .enumNotArray
      | some [] => .error .enumEmpty
      | some values => (readEnum [] values).map .enum
    | some _, some _ => .error .bothEnumAndType

end Constraint

/-- Whether a finite `f64` is an integer of at most `2^53` either way. -/
def F64.isExactInteger (f : F64) : Bool :=
  let exponent := (f.bits >>> 52 &&& 0x7FF).toNat
  let fraction := (f.bits &&& 0xFFFFFFFFFFFFF).toNat
  if exponent = 0 then fraction == 0
  else if exponent < 1075 then (2 ^ 52 + fraction) % 2 ^ (1075 - exponent) == 0
  else exponent == 1075 || (exponent == 1076 && fraction == 0)

/-- Whether `as_f64` gives an integer of at most `2^53` either way. `2^53 + 1` rounds to
`2^53`. -/
def Number.isExactInteger : Number → Bool
  | .posInt n => n.toNat ≤ 2 ^ 53 + 1
  | .negInt n => -(2 ^ 53 + 1) ≤ n.toInt
  | .float f => f.isExactInteger

/-- `Constraint::accepts`. -/
def Constraint.accepts (constraint : Constraint) (value : Value) : Bool :=
  match constraint with
  | .enum values => value.asStr.any fun s => values.contains s
  | .type .string => value.asStr.isSome
  | .type .fullDate => value.asStr.any isFullDate
  | .type .integer =>
    match value with
    | .number n => n.isExactInteger
    | _ => false

namespace FunctionCap

/-- The member `max`. -/
def readMax (id : String) : Option Value → Except SchemaViolation (Option UInt64)
  | none => .ok none
  | some v =>
    match v.asU64 with
    | some n => if 1 ≤ n then .ok (some n) else .error (.maxBelowOne id)
    | none => .error (.maxBelowOne id)

/-- The member `always`. -/
def readAlways (id : String) : Option Value → Except SchemaViolation Bool
  | none => .ok false
  | some v =>
    match v.asBool with
    | some always => .ok always
    | none => .error (.alwaysNotBool id)

/-- The body of the loop over the declared params. -/
def readParam (id : String) (declared : String × Value) :
    Except SchemaViolation (String × Constraint) :=
  if declared.1.isEmpty then .error (.paramNameEmpty id)
  else
    match Constraint.read declared.2 with
    | .error e => .error (.param id declared.1 e)
    | .ok constraint => .ok (declared.1, constraint)

/-- The member `params`. -/
def readParams (id : String) : Option Value → Except SchemaViolation (Table Constraint)
  | none => .ok []
  | some (.object declared) => collectOk (readParam id) declared
  | some _ => .error (.paramsNotObject id)

/-- `FunctionCap::read`. -/
def read (value : Value) : Except SchemaViolation FunctionCap := do
  let map ← objectWith value "a function" ["id", "max", "always", "params"]
  let id ← requiredText map "id" "function "
  let max ← readMax id (Map.getSome map "max")
  let always ← readAlways id (Map.getSome map "always")
  let params ← readParams id (Map.getSome map "params")
  return { id, max, always, params }

end FunctionCap

namespace Capabilities

/-- The loop over `functions`, with the ids seen so far. -/
def readFunctions (seen : List String) : List Value → Except SchemaViolation (List FunctionCap)
  | [] => .ok []
  | entry :: entries =>
    match FunctionCap.read entry with
    | .error e => .error e
    | .ok function =>
      if function.id ∈ seen then .error (.duplicateFunction function.id)
      else (readFunctions (function.id :: seen) entries).map fun list => function :: list

/-- The schema version. -/
def readSchema (map : Map) : Except SchemaViolation Unit :=
  if (map.get "schema").bind Value.asU64 = some SCHEMA then .ok () else .error .schemaVersion

/-- The member `credential`. -/
def readCredential (map : Map) : Except SchemaViolation Map :=
  match map.get "credential" with
  | none => .error .credentialRequired
  | some credential =>
    objectWith credential "credential" ["format", "type", "issuance_profile"]

/-- `issuance_profile`, which is accepted and ignored. -/
def checkIssuanceProfile (credential : Map) : Except SchemaViolation Unit :=
  match credential.get "issuance_profile" with
  | none => .ok ()
  | some (.string profile) => if profile.isEmpty then .error .issuanceProfile else .ok ()
  | some _ => .error .issuanceProfile

/-- The member `functions`. -/
def readFunctionList (map : Map) : Except SchemaViolation (List FunctionCap) :=
  match (map.get "functions").bind Value.asArray with
  | none => .error .functionsNotArray
  | some [] => .error .functionsEmpty
  | some listed => readFunctions [] listed

/-- `Capabilities::read`. -/
def read (value : Value) : Except SchemaViolation Capabilities := do
  let map ← objectWith value "capabilities" ["schema", "presentation", "credential", "functions"]
  readSchema map
  let presentation ← requiredText map "presentation" ""
  let credential ← readCredential map
  checkIssuanceProfile credential
  let credentialFormat ← requiredText credential "format" "credential."
  let credentialType ← requiredText credential "type" "credential."
  let functions ← readFunctionList map
  return { presentation, credentialFormat, credentialType, functions }

/-- `Capabilities::parse`. -/
def parse (sj : SerdeJson) (text : String) : Except CapabilitiesError Capabilities :=
  match sj.fromStr text with
  | none => .error .json
  | some value =>
    match read value with
    | .error e => .error (.schema e)
    | .ok capabilities => .ok capabilities

end Capabilities

/-! ## The rule -/

/-- One requested function instance. -/
structure RequestedItem where
  functionId : String
  params : Map

/-- Whether a function supports an item that names it. -/
def FunctionCap.supports (function : FunctionCap) (item : RequestedItem) : Bool :=
  item.params.all fun member =>
    (Table.get function.params member.1).any fun constraint => constraint.accepts member.2

/-- The checks of one declared function against all items. -/
def FunctionCap.counted (function : FunctionCap) (items : List RequestedItem) : Bool :=
  let n := (items.filter fun item => item.functionId == function.id).length
  (function.max.all fun max => n ≤ max.toNat) && (0 < n || !function.always)

/-- `Capabilities::serves`. -/
def Capabilities.serves (capabilities : Capabilities) (presentation : String)
    (credentialFormats credentialTypes : List String) (items : List RequestedItem) : Bool :=
  if capabilities.presentation != presentation ||
      !credentialFormats.contains capabilities.credentialFormat ||
      !credentialTypes.contains capabilities.credentialType then false
  else
    (items.all fun item =>
      (capabilities.functions.find? fun f => f.id == item.functionId).any fun function =>
        function.supports item) &&
      capabilities.functions.all fun function => function.counted items

end DcMatcher
