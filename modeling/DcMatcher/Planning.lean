import DcMatcher.Evaluator
import DcMatcher.FullDate

/-!
# What is planned

Which credential queries `plan` of `zkp_req.rs` takes, stated over the JSON values alone, and
what its plan keeps of them. The parameters of a function are moved into the typed members of
`Params` and written back with what was left over; `Params.toMap` is that writing.

Results:
1. `readItems_ok_iff`, `readMeta_ok_iff`, `readSystemFilter_ok_iff`: what each reader takes.
2. `toMap_readParams`: the parameters are written as they were read.
3. `plan_exact`: a query is planned exactly when it has the shape, and the plan keeps it.
-/

namespace DcMatcher

open Lists

/-! ## Shapes -/

namespace Shape

def text (v : Value) : Prop := ∃ s, v = .string s

def array (P : Value → Prop) (v : Value) : Prop := ∃ items, v = .array items ∧ ∀ x ∈ items, P x

def object (P : Map → Prop) (v : Value) : Prop := ∃ m, v = .object m ∧ P m

/-- The member is there, and is as `P` says. -/
def required (key : String) (P : Value → Prop) (m : Map) : Prop :=
  ∃ v, Map.get m key = some v ∧ P v

/-- The member is as `P` says if it is there. -/
def whenPresent (key : String) (P : Value → Prop) (m : Map) : Prop :=
  ∀ v, Map.get m key = some v → P v

def absent (key : String) (m : Map) : Prop := Map.get m key = none

end Shape

open Shape

/-- The values of a declared parameter. -/
def ParamType.Admits : ParamType → Value → Prop
  | .string => text
  | .integer => fun v => ∃ n : Number, v = .number n ∧ n.isInteger = true
  | .fullDate => fun v => ∃ s, v = .string s ∧ ∃ d : Calendar.Day, utf8 s = d.text

/-- Every declared parameter of a known function has its type. -/
def ParamsShape (functionId : String) (params : Map) : Prop :=
  ∀ spec ∈ FUNCTIONS, spec.functionId = functionId →
    ∀ param ∈ spec.params, whenPresent param.name param.ty.Admits params

/-- An item of `_req`. -/
structure ItemShape (item : Value) : Prop where
  handle : ∃ handle, item.get "return" = some (.string handle)
  function : ∃ functionId, item.get "fn_id" = some (.string functionId) ∧
    ∀ v, item.get "params" = some v → object (ParamsShape functionId) v

/-- A non-empty array of items with distinct handles. -/
def ReqShape (v : Value) : Prop :=
  ∃ items, v = .array items ∧ items ≠ [] ∧ (∀ item ∈ items, ItemShape item) ∧
    items.Pairwise fun a b => a.get "return" ≠ b.get "return"

structure MetaShape (m : Map) : Prop where
  sourceFormat : required "source_format" text m
  doctype : whenPresent "doctype_value" text m
  schemaId : whenPresent "schema_id_value" text m
  vct : whenPresent "vct_values" (array text) m

structure QueryShape (query : Map) : Prop where
  claims : absent "claims" query
  claimSets : absent "claim_sets" query
  reqSets : absent "_req_sets" query
  meta_ : required "meta" (object MetaShape) query
  req : required "_req" ReqShape query

/-- The entry for `zkp_req` among the formats of the verifier. -/
structure EntryShape (entry : Map) : Prop where
  proofSystems : whenPresent "proof_system_values" (array text) entry
  systemIds : whenPresent "system_id_values" (array text) entry

def ClientMetadataShape (metadata : Map) : Prop :=
  whenPresent "vp_formats_supported" (object (whenPresent "zkp_req" (object EntryShape))) metadata

/-- A credential query, with the metadata of the client if there are any. -/
structure RequestShape (sj : SerdeJson) (text : String) (clientMetadata : Option String) :
    Prop where
  query : ∃ query, sj.fromStr text = some (.object query) ∧ QueryShape query
  clientMetadata : ∀ t, clientMetadata = some t →
    ∃ metadata, sj.fromStr t = some (.object metadata) ∧ ClientMetadataShape metadata

/-! ## What a plan keeps -/

/-- A member of the entry for `zkp_req` in the metadata of the client. -/
def filterMember (sj : SerdeJson) (clientMetadata : Option String) (key : String) :
    Option Value :=
  (((clientMetadata.bind sj.fromStr).bind fun m => m.get "vp_formats_supported").bind
    fun formats => formats.get "zkp_req").bind fun entry => entry.get key

/-- The function is the item: its identifier and handle, and its parameters member for
member. -/
structure PlannedFunction.Keeps (item : Value) (f : PlannedFunction) : Prop where
  functionId : item.get "fn_id" = some (.string f.functionId)
  handle : item.get "return" = some (.string f.handle)
  params : Value.object f.params.toMap = (item.get "params").getD (.object [])

/-- The plan is the request. -/
structure Plan.Keeps (sj : SerdeJson) (text : String) (clientMetadata : Option String)
    (p : Plan) : Prop where
  raw : sj.fromStr text = some p.raw
  functions : ∃ items, p.raw.get "_req" = some (.array items) ∧
    List.Forall₂ PlannedFunction.Keeps items p.functions
  meta_ : ∃ m, p.raw.get "meta" = some (.object m) ∧
    Map.get m "source_format" = some (.string p.sourceFormat) ∧
    Map.get m "doctype_value" = p.metaDoctype.map .string ∧
    Map.get m "schema_id_value" = p.metaSchemaId.map .string
  proofSystems : filterMember sj clientMetadata "proof_system_values" =
    p.systemFilter.proofSystems.map Value.texts
  systemIds : filterMember sj clientMetadata "system_id_values" =
    p.systemFilter.systemIds.map Value.texts

/-! ## `meta` -/

theorem asObject_eq_some {v : Value} {m : Map} : v.asObject = some m ↔ v = .object m := by
  cases v <;> simp [Value.asObject]

theorem asArray_eq_some {v : Value} {items : List Value} :
    v.asArray = some items ↔ v = .array items := by
  cases v <;> simp [Value.asArray]

theorem asStr_eq_some_iff {v : Value} {s : String} : v.asStr = some s ↔ v = .string s := by
  cases v <;> simp [Value.asStr]

/-- A member of one kind is read, or is absent. -/
theorem whenPresent_iff {α : Type} {m : Map} {key : String} {P : Value → Prop} (f : α → Value)
    (Q : α → Prop) (hP : ∀ v, P v ↔ ∃ a, v = f a ∧ Q a) :
    whenPresent key P m ↔ ∃ r : Option α, Map.get m key = r.map f ∧ ∀ a ∈ r, Q a := by
  unfold whenPresent
  cases Map.get m key with
  | none =>
    constructor
    · exact fun _ => ⟨none, rfl, fun a ha => by cases ha⟩
    · exact fun _ v hv => by cases hv
  | some v =>
    constructor
    · intro h
      obtain ⟨a, rfl, ha⟩ := (hP v).mp (h v rfl)
      refine ⟨some a, rfl, fun b hb => ?_⟩
      cases hb
      exact ha
    · rintro ⟨r, hr, hQ⟩ w hw
      obtain ⟨a, rfl, ha⟩ := Option.map_eq_some_iff.mp hr.symm
      obtain rfl := Option.some.inj hw
      exact (hP v).mpr ⟨a, ha.symm, hQ a rfl⟩

theorem whenPresent_text_iff {m : Map} {key : String} :
    whenPresent key text m ↔ ∃ r : Option String, Map.get m key = r.map .string := by
  rw [whenPresent_iff Value.string (fun _ => True) fun v => by simp [text]]
  simp

theorem readMetaText_eq_ok {m : Map} {key : String} {r : Option String} :
    readMetaText m key = .ok r ↔ Map.get m key = r.map .string := by
  unfold readMetaText
  cases h : Map.get m key with
  | none => simp [eq_comm]
  | some v =>
    cases v with
    | string s => cases r <;> simp [eq_comm]
    | _ => cases r <;> simp

/-- An array of texts, as it is checked. -/
theorem array_text_iff {v : Value} :
    array text v ↔ (v.asArray.any fun a => a.all fun x => x.asStr.isSome) = true := by
  rw [Option.any_eq_true]
  constructor
  · rintro ⟨items, rfl, hall⟩
    refine ⟨items, rfl, List.all_eq_true.mpr fun x hx => ?_⟩
    obtain ⟨s, rfl⟩ := hall x hx
    rfl
  · rintro ⟨items, hitems, hall⟩
    refine ⟨items, asArray_eq_some.mp hitems, fun x hx => ?_⟩
    obtain ⟨s, hs⟩ := Option.isSome_iff_exists.mp (List.all_eq_true.mp hall x hx)
    exact ⟨s, asStr_eq_some_iff.mp hs⟩

theorem whenPresent_all {m : Map} {key : String} {P : Value → Prop} {p : Value → Bool}
    (h : ∀ v, P v ↔ p v = true) : whenPresent key P m ↔ (Map.get m key).all p = true := by
  unfold whenPresent
  cases Map.get m key with
  | none => simp
  | some v => simp [h]

/-- What `read_meta` gives, and of what. -/
theorem readMeta_eq_ok {v : Option Value} {r : Meta} :
    readMeta v = .ok r ↔ ∃ m, v = some (.object m) ∧
      Map.get m "source_format" = some (.string r.sourceFormat) ∧
      Map.get m "doctype_value" = r.doctype.map .string ∧
      Map.get m "schema_id_value" = r.schemaId.map .string ∧
      whenPresent "vct_values" (array text) m := by
  unfold readMeta
  cases hv : v.bind Value.asObject with
  | none =>
    simp only [reduceCtorEq, false_iff]
    rintro ⟨m, rfl, _⟩
    cases hv
  | some m =>
    obtain ⟨w, rfl, hw⟩ := Option.bind_eq_some_iff.mp hv
    obtain rfl := asObject_eq_some.mp hw
    simp only [Option.some.injEq, Value.object.injEq, exists_eq_left', whenPresent_all
      fun v => array_text_iff]
    split
    · next s hs =>
      rw [bind_eq_ok]
      constructor
      · rintro ⟨doctype, hdoctype, h⟩
        obtain ⟨schemaId, hschema, h⟩ := bind_eq_ok.mp h
        split at h
        · next hvct =>
          cases h
          exact ⟨hs, readMetaText_eq_ok.mp hdoctype, readMetaText_eq_ok.mp hschema, hvct⟩
        · cases h
      · rintro ⟨hsource, hdoctype, hschema, hvct⟩
        refine ⟨r.doctype, readMetaText_eq_ok.mpr hdoctype, ?_⟩
        refine bind_eq_ok.mpr ⟨r.schemaId, readMetaText_eq_ok.mpr hschema, ?_⟩
        rw [if_pos hvct]
        rw [hs] at hsource
        cases hsource
        rfl
    · next hno =>
      simp only [reduceCtorEq, false_iff]
      exact fun h => hno _ h.1

theorem readMeta_ok_iff {query : Map} :
    (∃ r, readMeta (Map.get query "meta") = .ok r) ↔ required "meta" (object MetaShape) query := by
  constructor
  · rintro ⟨r, hr⟩
    obtain ⟨m, hm, hsource, hdoctype, hschema, hvct⟩ := readMeta_eq_ok.mp hr
    exact ⟨.object m, hm, m, rfl, ⟨_, hsource, _, rfl⟩, whenPresent_text_iff.mpr ⟨_, hdoctype⟩,
      whenPresent_text_iff.mpr ⟨_, hschema⟩, hvct⟩
  · rintro ⟨_, hm, m, rfl, ⟨_, hsource, s, rfl⟩, hdoctype, hschema, hvct⟩
    obtain ⟨doctype, hdoctype⟩ := whenPresent_text_iff.mp hdoctype
    obtain ⟨schemaId, hschema⟩ := whenPresent_text_iff.mp hschema
    exact ⟨⟨s, doctype, schemaId⟩, readMeta_eq_ok.mpr
      ⟨m, hm, hsource, hdoctype, hschema, hvct⟩⟩

/-! ## Parameters -/

theorem isInteger_iff {v : Value} :
    isInteger v = true ↔ ∃ n : Number, v = .number n ∧ n.isInteger = true := by
  cases v <;> simp [isInteger]

theorem checkParam_eq_ok {handle : String} {map : Map} {param : ParamSpec} :
    checkParam handle map param = .ok () ↔ whenPresent param.name param.ty.Admits map := by
  unfold checkParam whenPresent
  cases h : Map.get map param.name with
  | none => simp
  | some v =>
    simp only [Option.some.injEq, forall_eq']
    cases hty : param.ty with
    | integer =>
      simp only [ParamType.Admits, ← isInteger_iff]
      split <;> simp [*]
    | string =>
      cases v <;> simp [ParamType.Admits, text, Value.asStr]
    | fullDate =>
      simp only [ParamType.Admits, ← isFullDate_iff]
      cases v with
      | string s =>
        cases hdate : isFullDate s <;> simp [Value.asStr, hdate]
      | _ => simp [Value.asStr]

/-- With distinct identifiers, the rules for a function are those of its entry. -/
theorem paramsShape_iff {functionId : String} {map : Map} :
    ParamsShape functionId map ↔
      ∀ spec, FUNCTIONS.find? (fun s => s.functionId == functionId) = some spec →
        ∀ param ∈ spec.params, whenPresent param.name param.ty.Admits map := by
  constructor
  · intro h spec hfind
    exact h spec (List.mem_of_find?_eq_some hfind) (by simpa using List.find?_some hfind)
  · rintro h spec hspec rfl
    exact h spec (find?_key_of_mem (by decide) hspec)

theorem readParamsFrom_ok_iff {functionId handle : String} {map : Map} :
    (∃ params, readParamsFrom functionId handle map = .ok params) ↔
      ParamsShape functionId map := by
  unfold readParamsFrom
  rw [paramsShape_iff]
  cases hfind : FUNCTIONS.find? fun s => s.functionId == functionId with
  | none => simp
  | some spec =>
    simp only [Option.some.injEq, forall_eq', map_eq_ok]
    constructor
    · rintro ⟨params, units, hunits, _⟩ param hparam
      obtain ⟨_, _, hok⟩ := forall₂_mem_left (collectOk_eq_ok.mp hunits) hparam
      exact checkParam_eq_ok.mp hok
    · intro h
      refine ⟨_, spec.params.map fun _ => (), collectOk_eq_ok.mpr ?_, rfl⟩
      exact List.forall₂_map_right_iff.mpr
        (List.forall₂_same.mpr fun param hparam => checkParam_eq_ok.mpr (h param hparam))

theorem readParams_ok_iff {functionId handle : String} {params : Option Value} :
    (∃ r, readParams functionId handle params = .ok r) ↔
      ∀ v, params = some v → object (ParamsShape functionId) v := by
  cases params with
  | none =>
    have hempty : ParamsShape functionId [] := fun _ _ _ _ _ _ h => by cases h
    simp [readParams, readParamsFrom_ok_iff, hempty]
  | some v =>
    cases v <;> simp [readParams, readParamsFrom_ok_iff, object]

/-! ### Written back -/

/-- A text that was taken out is written as it was. -/
theorem paramText_written {map : Map} {name : String}
    (h : whenPresent name text map ∨ whenPresent name ParamType.fullDate.Admits map) :
    ((paramText map name).map fun s => (name, Value.string s)) =
      (Map.get map name).map fun v => (name, v) := by
  unfold paramText
  cases hget : Map.get map name with
  | none => rfl
  | some v =>
    have htext : ∃ s, v = .string s := by
      rcases h with h | h
      · exact h v hget
      · obtain ⟨s, hs, _⟩ := h v hget
        exact ⟨s, hs⟩
    obtain ⟨s, rfl⟩ := htext
    rfl

/-- So is a number. -/
theorem number_written {map : Map} {name : String} {f : Value → Option Number}
    (hf : ∀ n, f (.number n) = some n) (h : whenPresent name ParamType.integer.Admits map) :
    (((Map.get map name).bind f).map fun n => (name, Value.number n)) =
      (Map.get map name).map fun v => (name, v) := by
  cases hget : Map.get map name with
  | none => rfl
  | some v =>
    obtain ⟨n, rfl, _⟩ := h v hget
    rw [Option.bind_some, hf]
    rfl

theorem toMap_pseudonym {map : Map} (hmap : KeyOrder.Ordered map)
    (hconfig : whenPresent "config" text map)
    (hver : whenPresent "ver" ParamType.integer.Admits map)
    (hprf : whenPresent "prf" text map) (hcontext : whenPresent "verifier_context" text map) :
    (normaliseParams .pseudonym map).toMap = map := by
  have hrest : (((map.remove "config").remove "prf").remove "verifier_context").remove "ver" =
      KeyOrder.without map ["config", "ver", "prf", "verifier_context"] := by
    simp only [Map.remove_eq_without, KeyOrder.without_without]
    refine KeyOrder.without_congr fun key => ?_
    simp only [List.mem_append, List.mem_cons, List.not_mem_nil, or_false]
    tauto
  show Map.ofList _ = map
  rw [Map.ofList_eq, paramText_written (Or.inl hconfig), number_written (fun _ => rfl) hver,
    paramText_written (Or.inl hprf), paramText_written (Or.inl hcontext), hrest]
  have hback := hmap.insertAll_pick ["config", "ver", "prf", "verifier_context"]
  simp only [KeyOrder.pick, List.flatMap_cons, List.flatMap_nil, List.append_nil,
    ← List.append_assoc] at hback
  exact hback

theorem toMap_ageCheck {map : Map} (hmap : KeyOrder.Ordered map)
    (hge : whenPresent "ge" ParamType.fullDate.Admits map)
    (hle : whenPresent "le" ParamType.fullDate.Admits map) :
    (normaliseParams .ageCheck map).toMap = map := by
  have hrest : (map.remove "ge").remove "le" = KeyOrder.without map ["ge", "le"] := by
    simp only [Map.remove_eq_without, KeyOrder.without_without]
    rfl
  show Map.ofList _ = map
  rw [Map.ofList_eq, paramText_written (Or.inr hge), paramText_written (Or.inr hle), hrest]
  have hback := hmap.insertAll_pick ["ge", "le"]
  simp only [KeyOrder.pick, List.flatMap_cons, List.flatMap_nil, List.append_nil] at hback
  exact hback

/-- The parameters of a function are written as they were read. -/
theorem toMap_readParamsFrom {functionId handle : String} {map : Map} {params : Params}
    (hmap : KeyOrder.Ordered map) (h : readParamsFrom functionId handle map = .ok params) :
    params.toMap = map := by
  have hshape := paramsShape_iff.mp (readParamsFrom_ok_iff.mp ⟨params, h⟩)
  unfold readParamsFrom at h
  cases hfind : FUNCTIONS.find? fun s => s.functionId == functionId with
  | none =>
    rw [hfind] at h
    cases h
    rfl
  | some spec =>
    rw [hfind] at h
    obtain ⟨_, _, rfl⟩ := map_eq_ok.mp h
    have hdeclared := hshape spec hfind
    rcases List.mem_cons.mp (List.mem_of_find?_eq_some hfind) with rfl | hspec
    · exact toMap_pseudonym hmap (hdeclared ⟨"config", .string⟩ (by simp))
        (hdeclared ⟨"ver", .integer⟩ (by simp)) (hdeclared ⟨"prf", .string⟩ (by simp))
        (hdeclared ⟨"verifier_context", .string⟩ (by simp))
    · obtain rfl := List.mem_singleton.mp hspec
      exact toMap_ageCheck hmap (hdeclared ⟨"ge", .fullDate⟩ (by simp))
        (hdeclared ⟨"le", .fullDate⟩ (by simp))

theorem toMap_readParams {functionId handle : String} {v : Option Value} {params : Params}
    (hv : ∀ w, v = some w → w.Ordered) (h : readParams functionId handle v = .ok params) :
    Value.object params.toMap = v.getD (.object []) := by
  unfold readParams at h
  split at h
  · rw [toMap_readParamsFrom KeyOrder.ordered_nil h]
    rfl
  · next map =>
    cases hv _ rfl with
    | object hmap _ =>
      rw [toMap_readParamsFrom hmap h]
      rfl
  · cases h

/-! ## Items -/

theorem itemShape_iff {item : Value} :
    ItemShape item ↔ ∃ functionId handle params,
      (item.get "fn_id").bind Value.asStr = some functionId ∧
      (item.get "return").bind Value.asStr = some handle ∧
      readParams functionId handle (item.get "params") = .ok params := by
  simp only [Value.asStr_eq_some]
  constructor
  · rintro ⟨⟨handle, hhandle⟩, functionId, hfunction, hparams⟩
    obtain ⟨params, hok⟩ := readParams_ok_iff.mpr hparams
    exact ⟨functionId, handle, params, hfunction, hhandle, hok⟩
  · rintro ⟨functionId, handle, params, hfunction, hhandle, hok⟩
    exact ⟨⟨handle, hhandle⟩, functionId, hfunction, readParams_ok_iff.mp ⟨params, hok⟩⟩

/-- One item is taken, with a handle that was not seen, and then the others. -/
theorem readItemsFrom_cons_ok_iff {index : Nat} {seen : List String} {item : Value}
    {items : List Value} :
    (∃ functions, readItemsFrom index seen (item :: items) = .ok functions) ↔
      ItemShape item ∧ ∃ handle, item.get "return" = some (.string handle) ∧ handle ∉ seen ∧
        ∃ functions, readItemsFrom (index + 1) (handle :: seen) items = .ok functions := by
  rw [itemShape_iff, readItemsFrom]
  constructor
  · rintro ⟨functions, h⟩
    split at h
    · cases h
    · next functionId hfunction =>
      split at h
      · cases h
      · next handle hhandle =>
        split at h
        · cases h
        · next hnew =>
          split at h
          · cases h
          · next params hparams =>
            obtain ⟨rest, hrest, _⟩ := map_eq_ok.mp h
            exact ⟨⟨functionId, handle, params, hfunction, hhandle, hparams⟩, handle,
              Value.asStr_eq_some.mp hhandle, hnew, rest, hrest⟩
  · rintro ⟨⟨functionId, handle, params, hfunction, hhandle, hparams⟩, handle', hhandle', hnew,
      rest, hrest⟩
    have hsame : handle = handle' := by
      rw [Value.asStr_eq_some, hhandle'] at hhandle
      cases hhandle
      rfl
    subst hsame
    rw [hfunction, hhandle]
    simp only [if_neg hnew, hparams, hrest]
    exact ⟨_, rfl⟩

/-- Which items are read, after some handles were seen. -/
theorem readItemsFrom_ok_iff {index : Nat} {seen : List String} {items : List Value} :
    (∃ functions, readItemsFrom index seen items = .ok functions) ↔
      (∀ item ∈ items, ItemShape item) ∧
        (items.Pairwise fun a b => a.get "return" ≠ b.get "return") ∧
        ∀ item ∈ items, ∀ handle ∈ seen, item.get "return" ≠ some (.string handle) := by
  induction items generalizing index seen with
  | nil => simp [readItemsFrom]
  | cons item items ih =>
    rw [readItemsFrom_cons_ok_iff, List.forall_mem_cons, List.pairwise_cons,
      List.forall_mem_cons]
    constructor
    · rintro ⟨hitem, handle, hhandle, hnew, hrest⟩
      obtain ⟨hitems, hpair, hseen⟩ := ih.mp hrest
      refine ⟨⟨hitem, hitems⟩, ⟨fun other hother heq => ?_, hpair⟩, fun h hh heq => ?_,
        fun other hother h hh => hseen other hother h (List.mem_cons_of_mem _ hh)⟩
      · exact hseen other hother handle List.mem_cons_self (by rw [← heq, hhandle])
      · rw [hhandle] at heq
        cases heq
        exact hnew hh
    · rintro ⟨⟨hitem, hitems⟩, ⟨hhead, hpair⟩, hfresh, hseen⟩
      obtain ⟨handle, hhandle⟩ := hitem.handle
      refine ⟨hitem, handle, hhandle, fun hmem => hfresh handle hmem hhandle, ih.mpr
        ⟨hitems, hpair, fun other hother h hh heq => ?_⟩⟩
      rcases List.mem_cons.mp hh with rfl | hh
      · exact hhead other hother (by rw [hhandle, heq])
      · exact hseen other hother h hh heq

theorem readItems_ok_iff {query : Map} :
    (∃ functions, planFunctions query = .ok functions) ↔ required "_req" ReqShape query := by
  unfold planFunctions required
  cases hreq : Map.get query "_req" with
  | none => simp
  | some req =>
    simp only [Option.some.injEq, exists_eq_left']
    unfold readItems ReqShape
    cases harray : req.asArray with
    | none =>
      simp only [reduceCtorEq, exists_false, false_iff]
      rintro ⟨items, rfl, _⟩
      cases harray
    | some items =>
      obtain rfl := asArray_eq_some.mp harray
      cases items with
      | nil => simp
      | cons item items =>
        simp only [readItemsFrom_ok_iff, Value.array.injEq, exists_eq_left', ne_eq, reduceCtorEq,
          not_false_eq_true, true_and, List.not_mem_nil, false_implies, implies_true, and_true]

/-- What the functions keep of the items. -/
theorem planFunctions_keeps {query : Map} {functions : List PlannedFunction}
    (hquery : (Value.object query).Ordered) (h : planFunctions query = .ok functions) :
    ∃ items, Map.get query "_req" = some (.array items) ∧
      List.Forall₂ PlannedFunction.Keeps items functions := by
  obtain ⟨items, hitems, hall⟩ := planFunctions_ok h
  obtain ⟨req, hreq, harray⟩ := Option.bind_eq_some_iff.mp hitems
  obtain rfl := asArray_eq_some.mp harray
  have hordered : (Value.array items).Ordered := hquery.of_get hreq
  refine ⟨items, hreq, (forall₂_and_mem_left hall).imp ?_⟩
  rintro item f ⟨hmem, hread⟩
  have hitem : item.Ordered := by
    cases hordered with
    | array h => exact h item hmem
  exact ⟨Value.asStr_eq_some.mp hread.functionId, Value.asStr_eq_some.mp hread.handle,
    toMap_readParams (fun w hw => hitem.of_get hw) hread.params⟩

/-! ## The metadata of the client -/

/-- The texts of an array, if all its values are. -/
theorem texts_read {v : Value} {list : List String} :
    v.asArray.bind (collect Value.asStr) = some list ↔ v = Value.texts list := by
  simp only [Option.bind_eq_some_iff, asArray_eq_some, collect_eq_some, asStr_eq_some_iff]
  constructor
  · rintro ⟨items, rfl, hall⟩
    unfold Value.texts
    rw [← List.map_id items]
    exact congrArg _ (forall₂_map_eq hall fun _ _ h => h)
  · rintro rfl
    exact ⟨_, rfl, List.forall₂_map_left_iff.mpr (List.forall₂_same.mpr fun _ _ => rfl)⟩

theorem stringList_eq_ok {v : Option Value} {r : Option (List String)} :
    stringList v = .ok r ↔ v = r.map Value.texts := by
  cases v with
  | none => cases r <;> simp [stringList]
  | some v =>
    unfold stringList
    cases hlist : v.asArray.bind (collect Value.asStr) with
    | none =>
      simp only [hlist, reduceCtorEq, false_iff]
      intro h
      obtain ⟨list, _, hv⟩ := Option.map_eq_some_iff.mp h.symm
      rw [texts_read.mpr hv.symm] at hlist
      cases hlist
    | some list =>
      simp only [hlist, Except.ok.injEq]
      constructor
      · rintro rfl
        exact congrArg some (texts_read.mp hlist)
      · intro h
        obtain ⟨list', rfl, hv⟩ := Option.map_eq_some_iff.mp h.symm
        exact hlist.symm.trans (texts_read.mpr hv.symm)

theorem array_text_iff_texts {v : Value} : array text v ↔ ∃ list, v = Value.texts list := by
  constructor
  · rintro ⟨items, rfl, hall⟩
    have hread : ∃ list, collect Value.asStr items = some list := exists_collect fun x hx => by
      obtain ⟨s, rfl⟩ := hall x hx
      exact ⟨s, rfl⟩
    obtain ⟨list, hlist⟩ := hread
    exact ⟨list, texts_read.mp hlist⟩
  · rintro ⟨list, rfl⟩
    refine ⟨_, rfl, fun x hx => ?_⟩
    obtain ⟨s, _, rfl⟩ := List.mem_map.mp hx
    exact ⟨s, rfl⟩

theorem whenPresent_texts_iff {m : Map} {key : String} :
    whenPresent key (array text) m ↔ ∃ r, stringList (Map.get m key) = .ok r := by
  rw [whenPresent_iff Value.texts (fun _ => True) fun v => by simp [array_text_iff_texts]]
  simp [stringList_eq_ok]

theorem objectMember_eq_ok {m : Map} {key : String} {r : Option Map} :
    objectMember m key = .ok r ↔ Map.get m key = r.map .object := by
  unfold objectMember
  cases Map.get m key with
  | none => cases r <;> simp
  | some v =>
    cases v with
    | object m' => cases r <;> simp [Value.asObject, eq_comm]
    | _ => cases r <;> simp [Value.asObject]

/-- What `read_system_filter` gives, and of what. -/
theorem readSystemFilter_eq_ok {sj : SerdeJson} {t : String} {filter : SystemFilter} :
    readSystemFilter sj t = .ok filter ↔ ∃ metadata, sj.fromStr t = some (.object metadata) ∧
      ∃ formats entry, Map.get metadata "vp_formats_supported" = Option.map .object formats ∧
        Map.get (formats.getD []) "zkp_req" = Option.map .object entry ∧
        Map.get (entry.getD []) "proof_system_values" = filter.proofSystems.map Value.texts ∧
        Map.get (entry.getD []) "system_id_values" = filter.systemIds.map Value.texts := by
  unfold readSystemFilter
  cases hm : (sj.fromStr t).bind Value.asObject with
  | none =>
    simp only [reduceCtorEq, false_iff]
    rintro ⟨metadata, hread, _⟩
    rw [hread] at hm
    cases hm
  | some metadata =>
    obtain ⟨v, hread, hv⟩ := Option.bind_eq_some_iff.mp hm
    obtain rfl := asObject_eq_some.mp hv
    simp only [hread, Option.some.injEq, Value.object.injEq, exists_eq_left']
    constructor
    · intro h
      obtain ⟨formats, hformats, h⟩ := bind_eq_ok.mp h
      obtain ⟨entry, hentry, h⟩ := bind_eq_ok.mp h
      obtain ⟨proofSystems, hproof, h⟩ := bind_eq_ok.mp h
      obtain ⟨systemIds, hsystem, h⟩ := bind_eq_ok.mp h
      cases h
      exact ⟨formats, entry, objectMember_eq_ok.mp hformats, objectMember_eq_ok.mp hentry,
        stringList_eq_ok.mp hproof, stringList_eq_ok.mp hsystem⟩
    · rintro ⟨formats, entry, hformats, hentry, hproof, hsystem⟩
      exact bind_eq_ok.mpr ⟨_, objectMember_eq_ok.mpr hformats,
        bind_eq_ok.mpr ⟨_, objectMember_eq_ok.mpr hentry,
          bind_eq_ok.mpr ⟨_, stringList_eq_ok.mpr hproof,
            bind_eq_ok.mpr ⟨_, stringList_eq_ok.mpr hsystem, rfl⟩⟩⟩⟩

/-- An optional object, read like an empty one when it is absent. -/
theorem whenPresent_object_iff {m : Map} {key : String} {P : Map → Prop} (hempty : P []) :
    whenPresent key (object P) m ↔
      ∃ r : Option Map, Map.get m key = r.map .object ∧ P (r.getD []) := by
  have hP : ∀ v, object P v ↔ ∃ inner, v = .object inner ∧ P inner := fun v => Iff.rfl
  rw [whenPresent_iff Value.object P hP]
  refine exists_congr fun r => and_congr_right fun _ => ?_
  cases r with
  | none => simp [hempty]
  | some inner => simp

theorem entryShape_iff {entry : Map} :
    EntryShape entry ↔ ∃ filter : SystemFilter,
      Map.get entry "proof_system_values" = filter.proofSystems.map Value.texts ∧
        Map.get entry "system_id_values" = filter.systemIds.map Value.texts := by
  constructor
  · rintro ⟨hproof, hsystem⟩
    obtain ⟨proofSystems, hproof⟩ := whenPresent_texts_iff.mp hproof
    obtain ⟨systemIds, hsystem⟩ := whenPresent_texts_iff.mp hsystem
    exact ⟨⟨proofSystems, systemIds⟩, stringList_eq_ok.mp hproof, stringList_eq_ok.mp hsystem⟩
  · rintro ⟨filter, hproof, hsystem⟩
    exact ⟨whenPresent_texts_iff.mpr ⟨_, stringList_eq_ok.mpr hproof⟩,
      whenPresent_texts_iff.mpr ⟨_, stringList_eq_ok.mpr hsystem⟩⟩

theorem readSystemFilter_ok_iff {sj : SerdeJson} {t : String} :
    (∃ filter, readSystemFilter sj t = .ok filter) ↔
      ∃ metadata, sj.fromStr t = some (.object metadata) ∧ ClientMetadataShape metadata := by
  have hentry : EntryShape [] := entryShape_iff.mpr ⟨⟨none, none⟩, rfl, rfl⟩
  have hformats : whenPresent "zkp_req" (object EntryShape) [] := fun _ h => by cases h
  unfold ClientMetadataShape
  simp only [readSystemFilter_eq_ok, whenPresent_object_iff hformats,
    whenPresent_object_iff hentry, entryShape_iff]
  constructor
  · rintro ⟨filter, metadata, hread, formats, entry, hf, he, hmembers⟩
    exact ⟨metadata, hread, formats, hf, entry, he, filter, hmembers⟩
  · rintro ⟨metadata, hread, formats, hf, entry, he, filter, hmembers⟩
    exact ⟨filter, metadata, hread, formats, entry, hf, he, hmembers⟩

theorem planFilter_ok_iff {sj : SerdeJson} {clientMetadata : Option String} :
    (∃ filter, planFilter sj clientMetadata = .ok filter) ↔ ∀ t, clientMetadata = some t →
      ∃ metadata, sj.fromStr t = some (.object metadata) ∧ ClientMetadataShape metadata := by
  cases clientMetadata with
  | none => simp [planFilter]
  | some t => simp [planFilter, readSystemFilter_ok_iff]

theorem get_map_object {r : Option Map} (key : String) :
    ((r.map Value.object).bind fun v => v.get key) = Map.get (r.getD []) key := by
  cases r <;> rfl

/-- What the filter keeps of the metadata. -/
theorem planFilter_keeps {sj : SerdeJson} {clientMetadata : Option String}
    {filter : SystemFilter} (h : planFilter sj clientMetadata = .ok filter) :
    filterMember sj clientMetadata "proof_system_values" =
        filter.proofSystems.map Value.texts ∧
      filterMember sj clientMetadata "system_id_values" =
        filter.systemIds.map Value.texts := by
  cases clientMetadata with
  | none =>
    cases h
    exact ⟨rfl, rfl⟩
  | some t =>
    obtain ⟨metadata, hread, formats, entry, hformats, hentry, hproof, hsystem⟩ :=
      readSystemFilter_eq_ok.mp h
    have hmember : ∀ key, filterMember sj (some t) key = Map.get (entry.getD []) key := by
      intro key
      unfold filterMember
      rw [Option.bind_some, hread, Option.bind_some, Value.get_object, hformats, get_map_object,
        hentry, get_map_object]
    exact ⟨(hmember _).trans hproof, (hmember _).trans hsystem⟩

/-! ## The plan -/

theorem containsKey_iff {m : Map} {key : String} :
    m.containsKey key = false ↔ absent key m := by
  unfold Map.containsKey absent
  cases Map.get m key <;> simp

/-- The steps of `plan`, over a query that was read. -/
theorem plan_eq_ok {sj : SerdeJson} {t : String} {clientMetadata : Option String} {p : Plan} :
    plan sj t clientMetadata = .ok p ↔ ∃ query, sj.fromStr t = some (.object query) ∧
      absent "claims" query ∧ absent "claim_sets" query ∧ absent "_req_sets" query ∧
      ∃ meta_, readMeta (Map.get query "meta") = .ok meta_ ∧
        planFunctions query = .ok p.functions ∧
        planFilter sj clientMetadata = .ok p.systemFilter ∧ p.raw = .object query ∧
        p.sourceFormat = meta_.sourceFormat ∧ p.metaDoctype = meta_.doctype ∧
        p.metaSchemaId = meta_.schemaId := by
  simp only [← containsKey_iff]
  constructor
  · intro h
    unfold plan at h
    split at h
    · next query hquery =>
      split_ifs at h with hclaims hsets hreq
      obtain ⟨meta_, hmeta, h⟩ := bind_eq_ok.mp h
      obtain ⟨functions, hfunctions, h⟩ := bind_eq_ok.mp h
      obtain ⟨filter, hfilter, h⟩ := bind_eq_ok.mp h
      cases h
      exact ⟨query, hquery, Bool.not_eq_true _ ▸ hclaims, Bool.not_eq_true _ ▸ hsets,
        Bool.not_eq_true _ ▸ hreq, meta_, hmeta, hfunctions, hfilter, rfl, rfl, rfl, rfl⟩
    · cases h
  · rintro ⟨query, hquery, hclaims, hsets, hreq, meta_, hmeta, hfunctions, hfilter, hraw, hsource,
      hdoctype, hschema⟩
    unfold plan
    simp only [hquery, hclaims, hsets, hreq, Bool.false_eq_true, if_false]
    refine bind_eq_ok.mpr ⟨_, hmeta, bind_eq_ok.mpr ⟨_, hfunctions,
      bind_eq_ok.mpr ⟨_, hfilter, ?_⟩⟩⟩
    cases p
    simp only at hraw hsource hdoctype hschema
    subst hraw hsource hdoctype hschema
    rfl

theorem plan_ok_iff {sj : SerdeJson} {t : String} {clientMetadata : Option String} :
    (∃ p, plan sj t clientMetadata = .ok p) ↔ RequestShape sj t clientMetadata := by
  simp only [plan_eq_ok]
  constructor
  · rintro ⟨p, query, hquery, hclaims, hsets, hreq, meta_, hmeta, hfunctions, hfilter, _⟩
    exact ⟨⟨query, hquery, hclaims, hsets, hreq, readMeta_ok_iff.mp ⟨_, hmeta⟩,
      readItems_ok_iff.mp ⟨_, hfunctions⟩⟩, planFilter_ok_iff.mp ⟨_, hfilter⟩⟩
  · rintro ⟨⟨query, hquery, hclaims, hsets, hreq, hmeta, hitems⟩, hmetadata⟩
    obtain ⟨meta_, hmeta⟩ := readMeta_ok_iff.mpr hmeta
    obtain ⟨functions, hfunctions⟩ := readItems_ok_iff.mpr hitems
    obtain ⟨filter, hfilter⟩ := planFilter_ok_iff.mpr hmetadata
    exact ⟨⟨functions, filter, meta_.sourceFormat, meta_.doctype, meta_.schemaId, .object query⟩,
      query, hquery, hclaims, hsets, hreq, meta_, hmeta, hfunctions, hfilter, rfl, rfl, rfl, rfl⟩

theorem plan_keeps {sj : SerdeJson} {t : String} {clientMetadata : Option String} {p : Plan}
    (h : plan sj t clientMetadata = .ok p) : p.Keeps sj t clientMetadata := by
  obtain ⟨query, hquery, _, _, _, meta_, hmeta, hfunctions, hfilter, hraw, hsource, hdoctype,
    hschema⟩ := plan_eq_ok.mp h
  have hordered : (Value.object query).Ordered := SerdeJson.fromSlice_ordered hquery
  obtain ⟨items, hitems, hkept⟩ := planFunctions_keeps hordered hfunctions
  obtain ⟨m, hm, hms, hmd, hmi, _⟩ := readMeta_eq_ok.mp hmeta
  obtain ⟨hproof, hsystem⟩ := planFilter_keeps hfilter
  exact {
    raw := by rw [hraw]; exact hquery
    functions := ⟨items, by rw [hraw]; exact hitems, hkept⟩
    meta_ := ⟨m, by rw [hraw]; exact hm, by rw [hsource]; exact hms, by rw [hdoctype]; exact hmd,
      by rw [hschema]; exact hmi⟩
    proofSystems := hproof
    systemIds := hsystem }

/-- A credential query is planned exactly when it has the shape, and its plan keeps it. -/
theorem plan_exact (sj : SerdeJson) (text : String) (clientMetadata : Option String) :
    ((∃ p, plan sj text clientMetadata = .ok p) ↔ RequestShape sj text clientMetadata) ∧
      ∀ p, plan sj text clientMetadata = .ok p → p.Keeps sj text clientMetadata :=
  ⟨plan_ok_iff, fun _ => plan_keeps⟩

/-- An age check and a pseudonym, with parameters the table does not declare. -/
def agedNym : Value :=
  .ofMembers
    [("meta", .ofMembers [("source_format", .string SOURCE_MSO_MDOC)]),
     ("_req", .array
       [.ofMembers
          [("fn_id", .string "age_check"), ("return", .string "age"),
           ("params", .ofMembers [("ge", .string "2008-10-10"), ("note", .null)])],
        .ofMembers
          [("fn_id", .string "pseudonym"), ("return", .string "nym"),
           ("params", .ofMembers [("ver", .number (.posInt 1)), ("salt", .string "s")])]])]

theorem plan_exact_agedNym :
    ∃ p, plan (.ofValues [agedNym]) agedNym.compact none = .ok p ∧
      p.Keeps (.ofValues [agedNym]) agedNym.compact none := by
  have hok : (plan (.ofValues [agedNym]) agedNym.compact none).toBool = true := by
    decide +kernel
  cases hp : plan (.ofValues [agedNym]) agedNym.compact none with
  | error e =>
    rw [hp] at hok
    cases hok
  | ok p => exact ⟨p, rfl, (plan_exact _ _ _).2 p hp⟩

end DcMatcher
