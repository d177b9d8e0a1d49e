import DcMatcher.Json
import DcMatcher.Lib.Lists

/-!
# The planner for `zkp_req` credential queries

`zkp_req.rs`: `plan` reads a credential query into a `Plan` or refuses its structure,
`unsatisfiable` applies the rules that need only the request.

Results:
1. `plan_ok`: a plan keeps the query it was made from, and its functions, at least one,
   have distinct handles.
2. `plan_functions`: its functions are those of the query's `_req`, in order.
-/

namespace DcMatcher

open Lists

/-- `source_format` of an attestation proved with circuits. -/
def SOURCE_MSO_MDOC : String := "mso_mdoc"
/-- `source_format` of a committed-disclosure attestation. -/
def SOURCE_BBS_CD : String := "bbs_cd"
/-- The only pseudonym function version. -/
def PSEUDONYM_VER : UInt64 := 1
/-- Minimum span of an `age_check` range, in days. -/
def MIN_AGE_SPAN_DAYS : Int := 365

/-! ## Dates -/

/-- The days of a month, as both date readers compute them. -/
def monthDays (year month : Int) : Option Int :=
  let leap := year.tmod 4 == 0 && (year.tmod 100 != 0 || year.tmod 400 == 0)
  match month with
  | 1 | 3 | 5 | 7 | 8 | 10 | 12 => some 31
  | 4 | 6 | 9 | 11 => some 30
  | 2 => some (if leap then 29 else 28)
  | _ => none

/-- `is_full_date`: `YYYY-MM-DD` with a real calendar day. -/
def isFullDate (s : String) : Bool :=
  let digits (p : String) (len : Nat) : Bool := byteLen p == len && (utf8 p).all isAsciiDigit
  match split '-' s with
  | [y, m, d] =>
    if !(digits y 4 && digits m 2 && digits d 2) then false
    else
      match parseU32 (utf8 y), parseU32 (utf8 m), parseU32 (utf8 d) with
      | some year, some month, some day =>
        match monthDays year month with
        | none => false
        | some days => 1 ≤ day && (day : Int) ≤ days
      | _, _, _ => false
  | _ => false

/-- `days_from_civil`: proleptic Gregorian (year, month, day) to days since 1970-01-01. -/
def daysFromCivil (y m d : Int) : Int :=
  let y := if m ≤ 2 then y - 1 else y
  let era := y / 400
  let yoe := y % 400
  let mp := (m + 9).tmod 12
  let doy := (153 * mp + 2).tdiv 5 + d - 1
  let doe := yoe * 365 + yoe.tdiv 4 - yoe.tdiv 100 + doy
  era * 146097 + doe - 719468

/-- `day_number`. -/
def dayNumber (date : String) : Option Int :=
  match split '-' date with
  | y :: m :: d :: _ => do
    let y ← parseI64 (utf8 y)
    let m ← parseI64 (utf8 m)
    let d ← parseI64 (utf8 d)
    return daysFromCivil y m d
  | _ => none

/-! ## The plan -/

/-- What a parameter of a planned function looks like. -/
inductive ParamType
  | string
  | fullDate
  | integer
deriving DecidableEq, Repr

structure ParamSpec where
  name : String
  ty : ParamType
deriving DecidableEq, Repr

/-- Which normaliser arm builds a function's `Params`. -/
inductive FnKind
  | pseudonym
  | ageCheck
deriving DecidableEq, Repr

structure FnSpec where
  functionId : String
  kind : FnKind
  params : List ParamSpec
deriving DecidableEq, Repr

/-- The function table. -/
def FUNCTIONS : List FnSpec :=
  [{ functionId := "pseudonym"
     kind := .pseudonym
     params := [⟨"config", .string⟩, ⟨"ver", .integer⟩, ⟨"prf", .string⟩,
       ⟨"verifier_context", .string⟩] },
   { functionId := "age_check"
     kind := .ageCheck
     params := [⟨"ge", .fullDate⟩, ⟨"le", .fullDate⟩] }]

/-- The normalised parameters of one function call. -/
inductive Params
  | pseudonym (config : Option String) (ver : Option Number) (prf : Option String)
      (verifierContext : Option String) (extra : Map)
  | ageCheck (ge le : Option String) (extra : Map)
  | unknown (map : Map)

/-- One function call from `_req`. -/
structure PlannedFunction where
  functionId : String
  handle : String
  params : Params

/-- What the verifier said it accepts. -/
structure SystemFilter where
  proofSystems : Option (List String)
  systemIds : Option (List String)
deriving DecidableEq, Repr

/-- A normalised `zkp_req` credential query. -/
structure Plan where
  functions : List PlannedFunction
  systemFilter : SystemFilter
  sourceFormat : String
  metaDoctype : Option String
  metaSchemaId : Option String
  raw : Value

/-- A structurally invalid `zkp_req` request. -/
inductive InvalidRequest
  | queryNotParseable
  | reqMissingOrEmpty
  | itemMissingFunctionId (index : Nat)
  | itemMissingHandle (index : Nat)
  | paramWrongType (handle param : String)
  | paramInvalidFullDate (handle param : String)
  | duplicateHandle (handle : String)
  | claimsPresent
  | claimSetsPresent
  | reqSetsPresent
  | invalidMeta
  | invalidClientMetadata
deriving DecidableEq, Repr

/-! ## Planning -/

structure Meta where
  sourceFormat : String
  doctype : Option String
  schemaId : Option String

/-- An optional string member of `meta`. -/
def readMetaText (m : Map) (key : String) : Except InvalidRequest (Option String) :=
  match m.get key with
  | none => .ok none
  | some (.string s) => .ok (some s)
  | some _ => .error .invalidMeta

/-- `read_meta`. -/
def readMeta (meta_ : Option Value) : Except InvalidRequest Meta :=
  match meta_.bind Value.asObject with
  | none => .error .invalidMeta
  | some m =>
    match m.get "source_format" with
    | some (.string sourceFormat) => do
      let doctype ← readMetaText m "doctype_value"
      let schemaId ← readMetaText m "schema_id_value"
      if (m.get "vct_values").all fun vct =>
          vct.asArray.any fun a => a.all fun v => v.asStr.isSome then
        .ok { sourceFormat, doctype, schemaId }
      else .error .invalidMeta
    | _ => .error .invalidMeta

/-- `is_integer`. -/
def isInteger : Value → Bool
  | .number n => n.isInteger
  | _ => false

/-- The body of the loop over the declared parameters. -/
def checkParam (handle : String) (map : Map) (param : ParamSpec) : Except InvalidRequest Unit :=
  match map.get param.name with
  | none => .ok ()
  | some value =>
    match param.ty with
    | .integer => if isInteger value then .ok () else .error (.paramWrongType handle param.name)
    | .string | .fullDate =>
      match value.asStr with
      | none => .error (.paramWrongType handle param.name)
      | some text =>
        if param.ty = .fullDate ∧ !isFullDate text then
          .error (.paramInvalidFullDate handle param.name)
        else .ok ()

/-- The text of a parameter, if it is there. -/
def paramText (map : Map) (name : String) : Option String := (map.get name).bind Value.asStr

/-- The arm that builds the parameters; what is not declared is kept as it is. -/
def normaliseParams (kind : FnKind) (map : Map) : Params :=
  match kind with
  | .pseudonym =>
    .pseudonym (paramText map "config")
      ((map.get "ver").bind fun v => match v with | .number n => some n | _ => none)
      (paramText map "prf") (paramText map "verifier_context")
      ((((map.remove "config").remove "prf").remove "verifier_context").remove "ver")
  | .ageCheck =>
    .ageCheck (paramText map "ge") (paramText map "le") ((map.remove "ge").remove "le")

/-- `read_params`, with the object of parameters. -/
def readParamsFrom (functionId handle : String) (map : Map) : Except InvalidRequest Params :=
  match FUNCTIONS.find? fun s => s.functionId == functionId with
  | none => .ok (.unknown map)
  | some spec => (collectOk (checkParam handle map) spec.params).map fun _ =>
      normaliseParams spec.kind map

/-- `read_params`. -/
def readParams (functionId handle : String) : Option Value → Except InvalidRequest Params
  | none => readParamsFrom functionId handle []
  | some (.object map) => readParamsFrom functionId handle map
  | some _ => .error (.paramWrongType handle "params")

/-- The loop of `read_items`, with the handles seen so far. -/
def readItemsFrom (index : Nat) (seen : List String) :
    List Value → Except InvalidRequest (List PlannedFunction)
  | [] => .ok []
  | item :: items =>
    match (item.get "fn_id").bind Value.asStr with
    | none => .error (.itemMissingFunctionId index)
    | some functionId =>
      match (item.get "return").bind Value.asStr with
      | none => .error (.itemMissingHandle index)
      | some handle =>
        if handle ∈ seen then .error (.duplicateHandle handle)
        else
          match readParams functionId handle (item.get "params") with
          | .error e => .error e
          | .ok params =>
            (readItemsFrom (index + 1) (handle :: seen) items).map fun functions =>
              { functionId, handle, params } :: functions

/-- `read_items`. -/
def readItems (req : Value) : Except InvalidRequest (List PlannedFunction) :=
  match req.asArray with
  | some (item :: items) => readItemsFrom 0 [] (item :: items)
  | _ => .error .reqMissingOrEmpty

/-- `string_list`. -/
def stringList : Option Value → Except InvalidRequest (Option (List String))
  | none => .ok none
  | some value =>
    match value.asArray.bind (collect Value.asStr) with
    | none => .error .invalidClientMetadata
    | some list => .ok (some list)

/-- A member that is absent, an object, or wrong. -/
def objectMember (m : Map) (key : String) : Except InvalidRequest (Option Map) :=
  match m.get key with
  | none => .ok none
  | some v =>
    match v.asObject with
    | none => .error .invalidClientMetadata
    | some m => .ok (some m)

/-- `read_system_filter`. An absent member reads like an empty object: no filter. -/
def readSystemFilter (sj : SerdeJson) (clientMetadataJson : String) :
    Except InvalidRequest SystemFilter :=
  match (sj.fromStr clientMetadataJson).bind Value.asObject with
  | none => .error .invalidClientMetadata
  | some metadata => do
    let formats ← objectMember metadata "vp_formats_supported"
    let entry ← objectMember (formats.getD []) "zkp_req"
    let proofSystems ← stringList ((entry.getD []).get "proof_system_values")
    let systemIds ← stringList ((entry.getD []).get "system_id_values")
    return { proofSystems, systemIds }

/-- The functions of `plan`. -/
def planFunctions (query : Map) : Except InvalidRequest (List PlannedFunction) :=
  match query.get "_req" with
  | none => .error .reqMissingOrEmpty
  | some req => readItems req

/-- The system filter of `plan`. -/
def planFilter (sj : SerdeJson) : Option String → Except InvalidRequest SystemFilter
  | none => .ok { proofSystems := none, systemIds := none }
  | some text => readSystemFilter sj text

/-- `plan`. -/
def plan (sj : SerdeJson) (credentialQueryJson : String) (clientMetadataJson : Option String) :
    Except InvalidRequest Plan :=
  match sj.fromStr credentialQueryJson with
  | some (.object query) =>
    if Map.containsKey query "claims" then .error .claimsPresent
    else if Map.containsKey query "claim_sets" then .error .claimSetsPresent
    else if Map.containsKey query "_req_sets" then .error .reqSetsPresent
    else do
      let meta_ ← readMeta (Map.get query "meta")
      let functions ← planFunctions query
      let systemFilter ← planFilter sj clientMetadataJson
      return {
        functions
        systemFilter
        sourceFormat := meta_.sourceFormat
        metaDoctype := meta_.doctype
        metaSchemaId := meta_.schemaId
        raw := .object query }
  | _ => .error .queryNotParseable

/-! ## Satisfiability -/

/-- Why a well-formed request is unsatisfiable by the rulebook's own rules. -/
inductive Unsatisfiable
  | sourceFormatUnsupported
  | metaTypeValueInvalid
  | holderBindingWaived
  | functionUnknown
  | pseudonymRepeated
  | ageCheckRepeated
  | pseudonymConfigMissing
  | pseudonymConfigUnknown
  | pseudonymVerMissing
  | pseudonymVerUnsupported
  | pseudonymPrfMissing
  | pseudonymPrfUnsupported
  | verifierContextInvalid
  | ageCheckNoBound
  | ageCheckInverted
  | ageCheckSpanTooShort
deriving DecidableEq, Repr

/-- Pseudonym configurations, with whether `bbs_cd` defines them. -/
def CONFIGS : List (String × Bool) :=
  [("known-offender-matching-ssc", true), ("known-offender-matching-psc", false),
   ("account-recovery-ssc", false), ("user-managed-pseudonym-xsite-ssc", false)]

/-- The arm of the loop for a `pseudonym`, after the count. -/
def checkPseudonym (bbs : Bool) (config : Option String) (ver : Option Number)
    (prf verifierContext : Option String) : Except Unsatisfiable Unit :=
  match config with
  | none => .error .pseudonymConfigMissing
  | some config =>
    match CONFIGS.find? fun c => c.1 == config with
    | none => .error .pseudonymConfigUnknown
    | some (_, bbsOk) =>
      match ver with
      | none => .error .pseudonymVerMissing
      | some ver =>
        if ver.asU64 ≠ some PSEUDONYM_VER then .error .pseudonymVerUnsupported
        else
          match prf with
          | none => .error .pseudonymPrfMissing
          | some prf =>
            let prfOk := if bbs then prf == "hashdh-bls12381g1" && bbsOk else prf == "sha-256"
            if !prfOk then .error .pseudonymPrfUnsupported
            else
              let wantsContext := config == "account-recovery-ssc"
              let contextOk : Bool := match verifierContext with
                | some c => wantsContext && 1 ≤ byteLen c && byteLen c ≤ 64
                | none => !wantsContext
              if contextOk then .ok () else .error .verifierContextInvalid

/-- The arm of the loop for an `age_check`, after the count. -/
def checkAge (ge le : Option String) : Except Unsatisfiable Unit :=
  match ge, le with
  | none, none => .error .ageCheckNoBound
  | some ge, some le =>
    match dayNumber ge, dayNumber le with
    | some ge, some le =>
      if le < ge then .error .ageCheckInverted
      else if le - ge + 1 < MIN_AGE_SPAN_DAYS then .error .ageCheckSpanTooShort
      else .ok ()
    | _, _ => .error .ageCheckNoBound
  | _, _ => .ok ()

/-- The loop over the functions, with whether a `pseudonym` and an `age_check` were seen. -/
def checkFunctions (bbs : Bool) (pseudonym ageCheck : Bool) :
    List PlannedFunction → Except Unsatisfiable Unit
  | [] => .ok ()
  | function :: functions =>
    match function.params with
    | .unknown _ => .error .functionUnknown
    | .pseudonym config ver prf verifierContext _ =>
      -- counted before its parameters are looked at
      if pseudonym then .error .pseudonymRepeated
      else
        match checkPseudonym bbs config ver prf verifierContext with
        | .error e => .error e
        | .ok () => checkFunctions bbs true ageCheck functions
    | .ageCheck ge le _ =>
      if ageCheck then .error .ageCheckRepeated
      else
        match checkAge ge le with
        | .error e => .error e
        | .ok () => checkFunctions bbs pseudonym true functions

/-- The part of `unsatisfiable` before the functions: the source format's own type value,
and holder binding. -/
def checkMeta (bbs : Bool) (plan : Plan) : Except Unsatisfiable Unit :=
  let typeOk :=
    if bbs then plan.metaSchemaId.isSome && plan.metaDoctype.isNone
    else plan.metaDoctype.isSome && plan.metaSchemaId.isNone
  let hasVct := ((plan.raw.get "meta").bind fun m => m.get "vct_values").isSome
  if !typeOk || hasVct then .error .metaTypeValueInvalid
  else
    match plan.raw.get "require_cryptographic_holder_binding" with
    | some (.bool false) => .error .holderBindingWaived
    | _ => .ok ()

/-- `unsatisfiable`. -/
def unsatisfiable (plan : Plan) : Except Unsatisfiable Unit :=
  if plan.sourceFormat ≠ SOURCE_MSO_MDOC ∧ plan.sourceFormat ≠ SOURCE_BBS_CD then
    .error .sourceFormatUnsupported
  else
    let bbs := plan.sourceFormat == SOURCE_BBS_CD
    match checkMeta bbs plan with
    | .error e => .error e
    | .ok () => checkFunctions bbs false false plan.functions

/-! ## What a plan is -/

/-- Handles are distinct, and none was seen before. -/
theorem readItemsFrom_handles {index : Nat} {seen : List String} {items : List Value}
    {functions : List PlannedFunction} (h : readItemsFrom index seen items = .ok functions) :
    (functions.map (·.handle)).Nodup ∧ (∀ f ∈ functions, f.handle ∉ seen) ∧
      functions.length = items.length := by
  induction items generalizing index seen functions with
  | nil =>
    cases h
    exact ⟨List.nodup_nil, by simp, rfl⟩
  | cons item items ih =>
    unfold readItemsFrom at h
    split at h
    · cases h
    · split at h
      · cases h
      · next handle _ =>
        split at h
        · cases h
        · next hnew =>
          split at h
          · cases h
          · obtain ⟨rest, hrest, rfl⟩ := map_eq_ok.mp h
            obtain ⟨hnodup, hseen, hlength⟩ := ih hrest
            refine ⟨?_, ?_, by simp [hlength]⟩
            · rw [List.map_cons, List.nodup_cons]
              refine ⟨fun hmem => ?_, hnodup⟩
              obtain ⟨f, hf, hsame⟩ := List.mem_map.mp hmem
              exact hseen f hf (hsame ▸ List.mem_cons_self)
            · exact List.forall_mem_cons.mpr
                ⟨hnew, fun f hf hmem => hseen f hf (List.mem_cons_of_mem _ hmem)⟩

theorem readItems_handles {req : Value} {functions : List PlannedFunction}
    (h : readItems req = .ok functions) :
    functions ≠ [] ∧ (functions.map (·.handle)).Nodup := by
  unfold readItems at h
  split at h
  · obtain ⟨hnodup, _, hlength⟩ := readItemsFrom_handles h
    refine ⟨fun hnil => ?_, hnodup⟩
    simp [hnil] at hlength
  · cases h

/-- A plan keeps the query it was made from; its functions have distinct handles, and
there is at least one. -/
theorem plan_ok {sj : SerdeJson} {text : String} {clientMetadata : Option String} {p : Plan}
    (h : plan sj text clientMetadata = .ok p) :
    sj.fromStr text = some p.raw ∧ p.functions ≠ [] ∧ (p.functions.map (·.handle)).Nodup := by
  unfold plan at h
  split at h
  · next query hquery =>
    split at h
    · cases h
    · split at h
      · cases h
      · split at h
        · cases h
        · obtain ⟨meta_, hmeta, h⟩ := bind_eq_ok.mp h
          obtain ⟨functions, hfunctions, h⟩ := bind_eq_ok.mp h
          obtain ⟨filter, hfilter, h⟩ := bind_eq_ok.mp h
          cases h
          unfold planFunctions at hfunctions
          split at hfunctions
          · cases hfunctions
          · exact ⟨hquery, readItems_handles hfunctions⟩
  · cases h

/-- The function is what an item of `_req` asks for. -/
structure PlannedFunction.ReadFrom (item : Value) (f : PlannedFunction) : Prop where
  functionId : (item.get "fn_id").bind Value.asStr = some f.functionId
  handle : (item.get "return").bind Value.asStr = some f.handle
  params : readParams f.functionId f.handle (item.get "params") = .ok f.params

theorem readItemsFrom_functions {index : Nat} {seen : List String} {items : List Value}
    {functions : List PlannedFunction} (h : readItemsFrom index seen items = .ok functions) :
    List.Forall₂ PlannedFunction.ReadFrom items functions := by
  induction items generalizing index seen functions with
  | nil =>
    cases h
    exact .nil
  | cons item items ih =>
    unfold readItemsFrom at h
    split at h
    · cases h
    · next functionId hfunctionId =>
      split at h
      · cases h
      · next handle hhandle =>
        split at h
        · cases h
        · split at h
          · cases h
          · next params hparams =>
            obtain ⟨rest, hrest, rfl⟩ := map_eq_ok.mp h
            exact .cons ⟨hfunctionId, hhandle, hparams⟩ (ih hrest)

theorem planFunctions_ok {query : Map} {functions : List PlannedFunction}
    (h : planFunctions query = .ok functions) :
    ∃ items, (query.get "_req").bind Value.asArray = some items ∧
      List.Forall₂ PlannedFunction.ReadFrom items functions := by
  unfold planFunctions at h
  split at h
  · cases h
  · next req hreq =>
    unfold readItems at h
    split at h
    · next item items hitems =>
      exact ⟨item :: items, by rw [hreq]; exact hitems, readItemsFrom_functions h⟩
    · cases h

/-- The functions of a plan are those of the query's `_req`, in order. -/
theorem plan_functions {sj : SerdeJson} {text : String} {clientMetadata : Option String} {p : Plan}
    (h : plan sj text clientMetadata = .ok p) :
    ∃ items, (p.raw.get "_req").bind Value.asArray = some items ∧
      List.Forall₂ PlannedFunction.ReadFrom items p.functions := by
  unfold plan at h
  split at h
  · split_ifs at h
    obtain ⟨meta_, _, h⟩ := bind_eq_ok.mp h
    obtain ⟨functions, hfunctions, h⟩ := bind_eq_ok.mp h
    obtain ⟨filter, _, h⟩ := bind_eq_ok.mp h
    cases h
    exact planFunctions_ok hfunctions
  · cases h

end DcMatcher
