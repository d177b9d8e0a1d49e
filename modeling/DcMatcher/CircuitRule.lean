import DcMatcher.CircuitCapabilities
import DcMatcher.Planning

/-!
# The rule of a circuit

What `circuit_capabilities.rs` reads and answers, stated over the JSON values and lists alone: the
description that capabilities are read from, and the rule for the requests they serve.

Results:
1. `parse_eq_ok`: what is parsed is exactly what a description of the schema says.
2. `serves_iff`: what is parsed serves exactly the requests that meet the rule.
3. `serves_reordered`: the order of the lists makes no difference.
4. `capabilities_exact`: the three together.
-/

namespace DcMatcher

open Lists Shape

/-! ## 1. Descriptions -/

/-- Every member has one of these names. -/
def OnlyMembers (allowed : List String) (m : Map) : Prop := ∀ member ∈ m, member.1 ∈ allowed

/-- The name of a type in a constraint. -/
def ParamKind.text : ParamKind → String
  | .fullDate => "full-date"
  | .string => "string"
  | .integer => "integer"

/-- An object that says the constraint: one of `enum` and `type`, where `null` is absent. -/
inductive Constraint.SaidBy (m : Map) : Constraint → Prop
  | enum {values : List String} : OnlyMembers ["enum", "type"] m →
      Map.getSome m "enum" = some (.array (values.map .string)) → Map.getSome m "type" = none →
      values ≠ [] → "" ∉ values → values.Nodup → SaidBy m (.enum values)
  | type {kind : ParamKind} : OnlyMembers ["enum", "type"] m →
      Map.getSome m "enum" = none → Map.getSome m "type" = some (.string kind.text) →
      SaidBy m (.type kind)

/-- A member of `params` that declares a param. -/
structure ParamSaidBy (declared : String × Value) (param : String × Constraint) : Prop where
  name : declared.1 = param.1
  name_ne : param.1 ≠ ""
  constraint : object (fun m => param.2.SaidBy m) declared.2

/-- An object that says the function. -/
structure FunctionCap.SaidBy (m : Map) (f : FunctionCap) : Prop where
  members : OnlyMembers ["id", "max", "always", "params"] m
  id : Map.get m "id" = some (.string f.id)
  id_ne : f.id ≠ ""
  max : Map.getSome m "max" = f.max.map fun n => .number (.posInt n)
  max_pos : ∀ n ∈ f.max, 1 ≤ n
  always : Map.getSome m "always" = some (.bool f.always) ∨
    Map.getSome m "always" = none ∧ f.always = false
  params : ∃ declared : Map, (Map.getSome m "params" = some (.object declared) ∨
    Map.getSome m "params" = none ∧ declared = []) ∧ List.Forall₂ ParamSaidBy declared f.params

/-- The credential of a description. -/
structure CredentialSaidBy (m : Map) (c : Capabilities) : Prop where
  members : OnlyMembers ["format", "type", "issuance_profile"] m
  format : Map.get m "format" = some (.string c.credentialFormat)
  format_ne : c.credentialFormat ≠ ""
  type : Map.get m "type" = some (.string c.credentialType)
  type_ne : c.credentialType ≠ ""
  issuanceProfile : whenPresent "issuance_profile" (fun v => ∃ s, v = .string s ∧ s ≠ "") m

/-- An object that says the capabilities. -/
structure Capabilities.SaidBy (m : Map) (c : Capabilities) : Prop where
  members : OnlyMembers ["schema", "presentation", "credential", "functions"] m
  schema : Map.get m "schema" = some (.number (.posInt 1))
  presentation : Map.get m "presentation" = some (.string c.presentation)
  presentation_ne : c.presentation ≠ ""
  credential : ∃ credential, Map.get m "credential" = some (.object credential) ∧
    CredentialSaidBy credential c
  functions : ∃ entries, Map.get m "functions" = some (.array entries) ∧
    List.Forall₂ (fun entry f => object (fun m => FunctionCap.SaidBy m f) entry) entries
      c.functions
  functions_ne : c.functions ≠ []
  functions_distinct : (c.functions.map (·.id)).Nodup

/-! ### The readers -/

theorem objectWith_eq_ok {v : Value} {what : String} {allowed : List String} {m : Map} :
    objectWith v what allowed = .ok m ↔ v = .object m ∧ OnlyMembers allowed m := by
  unfold objectWith OnlyMembers
  cases v with
  | object members =>
    simp only [Value.asObject, Value.object.injEq]
    cases hfind : members.find? fun member => decide (member.1 ∉ allowed) with
    | none =>
      have hall := List.find?_eq_none.mp hfind
      simp only [decide_eq_true_eq, not_not] at hall
      simp only [Except.ok.injEq, iff_self_and]
      rintro rfl
      exact hall
    | some member =>
      have hbad : member.1 ∉ allowed := by simpa using List.find?_some hfind
      simp only [reduceCtorEq, false_iff]
      rintro ⟨rfl, hall⟩
      exact hbad (hall member (List.mem_of_find?_eq_some hfind))
  | _ => simp [Value.asObject]

theorem requiredText_eq_ok {m : Map} {key what s : String} :
    requiredText m key what = .ok s ↔ Map.get m key = some (.string s) ∧ s ≠ "" := by
  unfold requiredText
  rw [← Value.asStr_eq_some]
  cases (Map.get m key).bind Value.asStr with
  | none => simp
  | some text =>
    simp only [String.isEmpty_iff, Option.some.injEq]
    split
    · next hempty =>
      simp only [reduceCtorEq, false_iff, hempty]
      rintro ⟨rfl, hne⟩
      exact hne rfl
    · next hne =>
      simp only [Except.ok.injEq, iff_self_and]
      rintro rfl
      exact hne

theorem readEnumValue_eq_ok {v : Value} {s : String} :
    Constraint.readEnumValue v = .ok s ↔ v = .string s ∧ s ≠ "" := by
  cases v with
  | string text =>
    simp only [Constraint.readEnumValue, String.isEmpty_iff, Value.string.injEq]
    split
    · next hempty =>
      simp only [reduceCtorEq, false_iff, hempty]
      rintro ⟨rfl, hne⟩
      exact hne rfl
    · next hne =>
      simp only [Except.ok.injEq, iff_self_and]
      rintro rfl
      exact hne
  | _ => simp [Constraint.readEnumValue]

theorem readEnum_eq_ok {seen list : List String} {values : List Value} :
    Constraint.readEnum seen values = .ok list ↔
      values = list.map .string ∧ "" ∉ list ∧ list.Nodup ∧ ∀ s ∈ list, s ∉ seen := by
  induction values generalizing seen list with
  | nil => cases list <;> simp [Constraint.readEnum]
  | cons v values ih =>
    unfold Constraint.readEnum
    constructor
    · intro h
      split at h
      · cases h
      · next s hs =>
        obtain ⟨rfl, hne⟩ := readEnumValue_eq_ok.mp hs
        split at h
        · cases h
        · next hnew =>
          obtain ⟨rest, hrest, rfl⟩ := map_eq_ok.mp h
          obtain ⟨rfl, hempty, hnodup, hseen⟩ := ih.mp hrest
          refine ⟨rfl, ?_, List.nodup_cons.mpr ⟨?_, hnodup⟩, ?_⟩
          · exact List.not_mem_cons_of_ne_of_not_mem (Ne.symm hne) hempty
          · exact fun hmem => hseen s hmem List.mem_cons_self
          · exact List.forall_mem_cons.mpr
              ⟨hnew, fun t ht hmem => hseen t ht (List.mem_cons_of_mem s hmem)⟩
    · rintro ⟨hvalues, hempty, hnodup, hseen⟩
      obtain ⟨s, rest, rfl, rfl, rfl⟩ := List.map_eq_cons_iff.mp hvalues.symm
      obtain ⟨hs, hempty⟩ := List.ne_and_not_mem_of_not_mem_cons hempty
      obtain ⟨hnew, hnodup⟩ := List.nodup_cons.mp hnodup
      obtain ⟨hsnew, hseen⟩ := List.forall_mem_cons.mp hseen
      rw [readEnumValue_eq_ok.mpr ⟨rfl, Ne.symm hs⟩]
      simp only [if_neg hsnew]
      refine map_eq_ok.mpr ⟨rest, ih.mpr ⟨rfl, hempty, hnodup, fun t ht hmem => ?_⟩, rfl⟩
      rcases List.mem_cons.mp hmem with rfl | hmem
      · exact hnew ht
      · exact hseen t ht hmem

/-- The members of a constraint are read as they stand. -/
theorem Constraint.read_members {m : Map} {c : Constraint}
    (honly : OnlyMembers ["enum", "type"] m) :
    Constraint.read (.object m) = .ok c ↔ c.SaidBy m := by
  unfold Constraint.read
  rw [objectWith_eq_ok.mpr ⟨rfl, honly⟩]
  simp only
  constructor
  · intro h
    split at h
    · cases h
    · next ty henum htype =>
      have hkind : ∀ kind : ParamKind, ty.asStr = some kind.text →
          (Constraint.type kind).SaidBy m := fun kind hty =>
        .type honly henum (by rw [htype, asStr_eq_some_iff.mp hty])
      split at h
      · next hty => cases h; exact hkind .fullDate hty
      · next hty => cases h; exact hkind .string hty
      · next hty => cases h; exact hkind .integer hty
      · cases h
    · next values henum htype =>
      split at h
      · cases h
      · cases h
      · next items hne hitems =>
        obtain ⟨list, hlist, rfl⟩ := map_eq_ok.mp h
        obtain ⟨rfl, hempty, hnodup, -⟩ := readEnum_eq_ok.mp hlist
        refine .enum honly ?_ htype ?_ hempty hnodup
        · rw [henum, asArray_eq_some.mp hitems]
        · rintro rfl
          exact hne rfl
    · cases h
  · rintro (⟨-, henum, htype, hne, hempty, hnodup⟩ | ⟨-, henum, htype⟩)
    · next values =>
      rw [henum, htype]
      obtain ⟨s, rest, rfl⟩ := List.exists_cons_of_ne_nil hne
      exact map_eq_ok.mpr ⟨_, readEnum_eq_ok.mpr ⟨rfl, hempty, hnodup, by simp⟩, rfl⟩
    · next kind =>
      rw [henum, htype]
      cases kind <;> rfl

theorem Constraint.read_eq_ok {v : Value} {c : Constraint} :
    Constraint.read v = .ok c ↔ object (fun m => c.SaidBy m) v := by
  constructor
  · intro h
    have hm : ∃ m, objectWith v "a constraint" ["enum", "type"] = .ok m := by
      unfold Constraint.read at h
      split at h
      · cases h
      · next m hm => exact ⟨m, hm⟩
    obtain ⟨m, hm⟩ := hm
    obtain ⟨rfl, honly⟩ := objectWith_eq_ok.mp hm
    exact ⟨m, rfl, (Constraint.read_members honly).mp h⟩
  · rintro ⟨m, rfl, h⟩
    have honly : OnlyMembers ["enum", "type"] m := by
      cases h <;> assumption
    exact (Constraint.read_members honly).mpr h

theorem readMax_eq_ok {id : String} {v : Option Value} {r : Option UInt64} :
    FunctionCap.readMax id v = .ok r ↔
      v = r.map (fun n => .number (.posInt n)) ∧ ∀ n ∈ r, 1 ≤ n := by
  have hnumber : ∀ {v : Value} {n : UInt64}, v.asU64 = some n ↔ v = .number (.posInt n) := by
    intro v n
    cases v with
    | number k => cases k <;> simp [Value.asU64, Number.asU64]
    | _ => simp [Value.asU64]
  unfold FunctionCap.readMax
  cases v with
  | none => cases r <;> simp
  | some v =>
    simp only
    constructor
    · intro h
      split at h
      · next n hn =>
        split at h
        · next hpos =>
          cases h
          exact ⟨congrArg some (hnumber.mp hn), by rintro _ ⟨⟩; exact hpos⟩
        · cases h
      · cases h
    · rintro ⟨hv, hpos⟩
      obtain ⟨n, rfl, hn⟩ := Option.map_eq_some_iff.mp hv.symm
      rw [hnumber.mpr hn.symm]
      exact if_pos (hpos n rfl)

theorem readAlways_eq_ok {id : String} {v : Option Value} {r : Bool} :
    FunctionCap.readAlways id v = .ok r ↔ v = some (.bool r) ∨ v = none ∧ r = false := by
  cases v with
  | none => simp [FunctionCap.readAlways, eq_comm]
  | some v => cases v <;> simp [FunctionCap.readAlways, Value.asBool]

theorem readParam_eq_ok {id : String} {declared : String × Value} {param : String × Constraint} :
    FunctionCap.readParam id declared = .ok param ↔ ParamSaidBy declared param := by
  unfold FunctionCap.readParam
  simp only [String.isEmpty_iff]
  constructor
  · intro h
    split at h
    · cases h
    · next hne =>
      split at h
      · cases h
      · next c hc =>
        cases h
        exact ⟨rfl, hne, Constraint.read_eq_ok.mp hc⟩
  · rintro ⟨hname, hne, hc⟩
    rw [if_neg (hname ▸ hne), Constraint.read_eq_ok.mpr hc, hname]

theorem readParams_eq_ok {id : String} {v : Option Value} {params : Table Constraint} :
    FunctionCap.readParams id v = .ok params ↔
      ∃ declared : Map, (v = some (.object declared) ∨ v = none ∧ declared = []) ∧
        List.Forall₂ ParamSaidBy declared params := by
  have hlist : ∀ declared : Map, collectOk (FunctionCap.readParam id) declared = .ok params ↔
      List.Forall₂ ParamSaidBy declared params := fun declared => by
    simp only [collectOk_eq_ok, readParam_eq_ok]
  unfold FunctionCap.readParams
  split
  · simp [eq_comm]
  · simp [hlist]
  · next hnone =>
    simp only [reduceCtorEq, false_iff]
    rintro ⟨declared, h | ⟨h, _⟩, _⟩
    · exact hnone declared (Option.some.inj h)
    · cases h

theorem FunctionCap.read_eq_ok {v : Value} {f : FunctionCap} :
    FunctionCap.read v = .ok f ↔ object (fun m => f.SaidBy m) v := by
  simp only [FunctionCap.read, bind_eq_ok, objectWith_eq_ok, requiredText_eq_ok, readMax_eq_ok,
    readAlways_eq_ok, readParams_eq_ok, pure, Except.pure, Except.ok.injEq]
  constructor
  · rintro ⟨m, ⟨rfl, hmembers⟩, id, ⟨hid, hid_ne⟩, max, ⟨hmax, hpos⟩, always, halways, params,
      hparams, rfl⟩
    exact ⟨m, rfl, hmembers, hid, hid_ne, hmax, hpos, halways, hparams⟩
  · rintro ⟨m, rfl, h⟩
    exact ⟨m, ⟨rfl, h.members⟩, f.id, ⟨h.id, h.id_ne⟩, f.max, ⟨h.max, h.max_pos⟩, f.always,
      h.always, f.params, h.params, rfl⟩

theorem readFunctions_eq_ok {seen : List String} {entries : List Value}
    {functions : List FunctionCap} :
    Capabilities.readFunctions seen entries = .ok functions ↔
      List.Forall₂ (fun entry f => object (fun m => FunctionCap.SaidBy m f) entry) entries
        functions ∧ (functions.map (·.id)).Nodup ∧ ∀ f ∈ functions, f.id ∉ seen := by
  induction entries generalizing seen functions with
  | nil => cases functions <;> simp [Capabilities.readFunctions]
  | cons entry entries ih =>
    unfold Capabilities.readFunctions
    constructor
    · intro h
      split at h
      · cases h
      · next f hf =>
        split at h
        · cases h
        · next hnew =>
          obtain ⟨rest, hrest, rfl⟩ := map_eq_ok.mp h
          obtain ⟨hall, hnodup, hseen⟩ := ih.mp hrest
          refine ⟨.cons (FunctionCap.read_eq_ok.mp hf) hall, ?_, ?_⟩
          · rw [List.map_cons, List.nodup_cons]
            refine ⟨fun hmem => ?_, hnodup⟩
            obtain ⟨g, hg, hsame⟩ := List.mem_map.mp hmem
            exact hseen g hg (hsame ▸ List.mem_cons_self)
          · exact List.forall_mem_cons.mpr
              ⟨hnew, fun g hg hmem => hseen g hg (List.mem_cons_of_mem _ hmem)⟩
    · rintro ⟨hall, hnodup, hseen⟩
      cases hall with
      | cons hf hall =>
        rw [List.map_cons, List.nodup_cons] at hnodup
        obtain ⟨hnew, hseen⟩ := List.forall_mem_cons.mp hseen
        rw [FunctionCap.read_eq_ok.mpr hf]
        simp only [if_neg hnew]
        refine map_eq_ok.mpr ⟨_, ih.mpr ⟨hall, hnodup.2, fun g hg hmem => ?_⟩, rfl⟩
        rcases List.mem_cons.mp hmem with hsame | hmem
        · exact hnodup.1 (hsame ▸ List.mem_map_of_mem hg)
        · exact hseen g hg hmem

theorem readSchema_eq_ok {m : Map} :
    Capabilities.readSchema m = .ok () ↔ Map.get m "schema" = some (.number (.posInt 1)) := by
  have hnumber : ∀ v : Value, v.asU64 = some SCHEMA ↔ v = .number (.posInt 1) := by
    intro v
    cases v with
    | number k => cases k <;> simp [Value.asU64, Number.asU64, SCHEMA]
    | _ => simp [Value.asU64]
  unfold Capabilities.readSchema
  cases Map.get m "schema" with
  | none => simp
  | some v => simp [hnumber]

theorem readCredential_eq_ok {m credential : Map} :
    Capabilities.readCredential m = .ok credential ↔
      Map.get m "credential" = some (.object credential) ∧
        OnlyMembers ["format", "type", "issuance_profile"] credential := by
  unfold Capabilities.readCredential
  cases Map.get m "credential" with
  | none => simp
  | some v => simp [objectWith_eq_ok]

theorem checkIssuanceProfile_eq_ok {credential : Map} :
    Capabilities.checkIssuanceProfile credential = .ok () ↔
      whenPresent "issuance_profile" (fun v => ∃ s, v = .string s ∧ s ≠ "") credential := by
  unfold Capabilities.checkIssuanceProfile whenPresent
  cases Map.get credential "issuance_profile" with
  | none => simp
  | some v => cases v <;> simp [String.isEmpty_iff]

theorem readFunctionList_eq_ok {m : Map} {functions : List FunctionCap} :
    Capabilities.readFunctionList m = .ok functions ↔
      (∃ entries, Map.get m "functions" = some (.array entries) ∧
        List.Forall₂ (fun entry f => object (fun m => FunctionCap.SaidBy m f) entry) entries
          functions) ∧ functions ≠ [] ∧ (functions.map (·.id)).Nodup := by
  have harray : ∀ entries, (Map.get m "functions").bind Value.asArray = some entries ↔
      Map.get m "functions" = some (.array entries) := fun entries => by
    rw [Option.bind_eq_some_iff]
    simp [asArray_eq_some]
  unfold Capabilities.readFunctionList
  simp only [← harray]
  cases (Map.get m "functions").bind Value.asArray with
  | none => simp
  | some entries =>
    simp only [Option.some.injEq, exists_eq_left']
    cases entries with
    | nil =>
      simp only [reduceCtorEq, List.forall₂_nil_left_iff, false_iff]
      exact fun h => h.2.1 h.1
    | cons entry entries =>
      simp only [readFunctions_eq_ok, List.not_mem_nil, not_false_eq_true, implies_true, and_true]
      constructor
      · rintro ⟨hall, hnodup⟩
        refine ⟨hall, ?_, hnodup⟩
        rintro rfl
        cases hall
      · rintro ⟨hall, -, hnodup⟩
        exact ⟨hall, hnodup⟩

theorem Capabilities.read_eq_ok {v : Value} {c : Capabilities} :
    Capabilities.read v = .ok c ↔ object (fun m => c.SaidBy m) v := by
  simp only [Capabilities.read, bind_eq_ok, objectWith_eq_ok, requiredText_eq_ok,
    readCredential_eq_ok, readFunctionList_eq_ok, pure, Except.pure, Except.ok.injEq]
  constructor
  · rintro ⟨m, ⟨rfl, hmembers⟩, ⟨⟩, hschema, presentation, ⟨hpresentation, hpresentation_ne⟩,
      credential, ⟨hcredential, honly⟩, ⟨⟩, hprofile, format, ⟨hformat, hformat_ne⟩, type,
      ⟨htype, htype_ne⟩, functions, ⟨hfunctions, hne, hdistinct⟩, rfl⟩
    exact ⟨m, rfl, hmembers, readSchema_eq_ok.mp hschema, hpresentation, hpresentation_ne,
      ⟨credential, hcredential, honly, hformat, hformat_ne, htype, htype_ne,
        checkIssuanceProfile_eq_ok.mp hprofile⟩, hfunctions, hne, hdistinct⟩
  · rintro ⟨m, rfl, h⟩
    obtain ⟨credential, hcredential, hc⟩ := h.credential
    exact ⟨m, ⟨rfl, h.members⟩, (), readSchema_eq_ok.mpr h.schema, c.presentation,
      ⟨h.presentation, h.presentation_ne⟩, credential, ⟨hcredential, hc.members⟩, (),
      checkIssuanceProfile_eq_ok.mpr hc.issuanceProfile, c.credentialFormat,
      ⟨hc.format, hc.format_ne⟩, c.credentialType, ⟨hc.type, hc.type_ne⟩, c.functions,
      ⟨h.functions, h.functions_ne, h.functions_distinct⟩, rfl⟩

/-- What is parsed is exactly what a description of the schema says. -/
theorem parse_eq_ok {sj : SerdeJson} {text : String} {c : Capabilities} :
    Capabilities.parse sj text = .ok c ↔
      ∃ m, sj.fromStr text = some (.object m) ∧ c.SaidBy m := by
  unfold Capabilities.parse
  cases sj.fromStr text with
  | none => simp
  | some v =>
    simp only
    constructor
    · intro h
      split at h
      · cases h
      · next c' hc =>
        cases h
        obtain ⟨m, rfl, hm⟩ := Capabilities.read_eq_ok.mp hc
        exact ⟨m, rfl, hm⟩
    · rintro ⟨m, hv, hm⟩
      cases hv
      rw [Capabilities.read_eq_ok.mpr ⟨m, rfl, hm⟩]

/-- Identifiers of functions are distinct, and so are the names of the params of each. -/
structure Capabilities.Distinct (c : Capabilities) : Prop where
  functions : (c.functions.map (·.id)).Nodup
  params : ∀ f ∈ c.functions, (f.params.map Prod.fst).Nodup

theorem ordered_getSome {m : Map} (hm : (Value.object m).Ordered) {key : String} {v : Value}
    (h : Map.getSome m key = some v) : v.Ordered := by
  unfold Map.getSome at h
  split at h
  · cases h
  · exact hm.of_get h

/-- The names come from the keys of an object. -/
theorem FunctionCap.SaidBy.params_distinct {m : Map} {f : FunctionCap}
    (hm : (Value.object m).Ordered) (h : f.SaidBy m) : (f.params.map Prod.fst).Nodup := by
  obtain ⟨declared, hdeclared, hall⟩ := h.params
  rw [← forall₂_map_eq hall fun _ _ hp => hp.name]
  rcases hdeclared with hdeclared | ⟨-, rfl⟩
  · cases ordered_getSome hm hdeclared with
    | object hkeys _ => exact List.pairwise_map.mpr (hkeys.imp fun h => ne_of_lt h)
  · exact List.nodup_nil

theorem distinct_of_parse {sj : SerdeJson} {text : String} {c : Capabilities}
    (h : Capabilities.parse sj text = .ok c) : c.Distinct := by
  obtain ⟨m, hm, hsaid⟩ := parse_eq_ok.mp h
  have hordered : (Value.object m).Ordered := SerdeJson.fromSlice_ordered hm
  obtain ⟨entries, hentries, hall⟩ := hsaid.functions
  refine ⟨hsaid.functions_distinct, fun f hf => ?_⟩
  obtain ⟨entry, hentry, m', rfl, hf⟩ := forall₂_mem_right hall hf
  have hlist : (Value.array entries).Ordered := hordered.of_get hentries
  cases hlist with
  | array hitems => exact hf.params_distinct (hitems _ hentry)

/-! ## 2. The rule -/

/-- The values that a constraint allows. -/
def Constraint.Admits : Constraint → Value → Prop
  | .enum values => fun v => ∃ s ∈ values, v = .string s
  | .type .string => text
  | .type .fullDate => fun v => ∃ s, v = .string s ∧ ∃ d : Calendar.Day, utf8 s = d.text
  | .type .integer => fun v => ∃ n : Number, v = .number n ∧ n.isExactInteger = true

/-- The capabilities serve a request. -/
structure Capabilities.Serves (c : Capabilities) (presentation : String)
    (credentialFormats credentialTypes : List String) (items : List RequestedItem) : Prop where
  presentation : c.presentation = presentation
  credentialFormat : c.credentialFormat ∈ credentialFormats
  credentialType : c.credentialType ∈ credentialTypes
  declared : ∀ item ∈ items, ∃ f ∈ c.functions, f.id = item.functionId ∧
    ∀ param ∈ item.params, ∃ constraint, (param.1, constraint) ∈ f.params ∧
      constraint.Admits param.2
  max : ∀ f ∈ c.functions, ∀ max ∈ f.max,
    items.countP (fun item => item.functionId == f.id) ≤ max.toNat
  always : ∀ f ∈ c.functions, f.always = true → ∃ item ∈ items, item.functionId = f.id

theorem accepts_iff {constraint : Constraint} {v : Value} :
    constraint.accepts v = true ↔ constraint.Admits v := by
  cases constraint with
  | enum values => cases v <;> simp [Constraint.accepts, Constraint.Admits, Value.asStr]
  | type kind =>
    cases kind with
    | string => cases v <;> simp [Constraint.accepts, Constraint.Admits, Value.asStr, text]
    | fullDate =>
      cases v <;> simp [Constraint.accepts, Constraint.Admits, Value.asStr, isFullDate_iff]
    | integer => cases v <;> simp [Constraint.accepts, Constraint.Admits]

/-- With distinct keys, looking a key up finds its entry. -/
theorem Table.get_eq_some_iff {α : Type} {t : Table α} (ht : (t.map Prod.fst).Nodup) {key : String}
    {x : α} : Table.get t key = some x ↔ (key, x) ∈ t := by
  unfold Table.get
  constructor
  · intro h
    obtain ⟨⟨k, y⟩, hfind, rfl⟩ := Option.map_eq_some_iff.mp h
    have hkey : k = key := by simpa using List.find?_some hfind
    exact hkey ▸ List.mem_of_find?_eq_some hfind
  · intro h
    rw [find?_key_of_mem ht h]
    rfl

theorem supports_iff {f : FunctionCap} (hf : (f.params.map Prod.fst).Nodup) {item : RequestedItem} :
    f.supports item = true ↔ ∀ param ∈ item.params, ∃ constraint,
      (param.1, constraint) ∈ f.params ∧ constraint.Admits param.2 := by
  unfold FunctionCap.supports
  simp only [List.all_eq_true, Option.any_eq_true, Table.get_eq_some_iff hf, accepts_iff]

theorem counted_iff {f : FunctionCap} {items : List RequestedItem} :
    f.counted items = true ↔
      (∀ max ∈ f.max, items.countP (fun item => item.functionId == f.id) ≤ max.toNat) ∧
        (f.always = true → ∃ item ∈ items, item.functionId = f.id) := by
  have hpos : 0 < items.countP (fun item => item.functionId == f.id) ↔
      ∃ item ∈ items, item.functionId = f.id := by
    rw [List.countP_pos_iff]
    simp
  unfold FunctionCap.counted
  simp only [← List.countP_eq_length_filter, Bool.and_eq_true, Option.all_eq_true,
    decide_eq_true_eq, Bool.or_eq_true, Bool.not_eq_true', hpos]
  cases f.always <;> simp

theorem declared_iff {c : Capabilities} (hc : c.Distinct) {item : RequestedItem} :
    ((c.functions.find? fun f => f.id == item.functionId).any fun f => f.supports item) = true ↔
      ∃ f ∈ c.functions, f.id = item.functionId ∧ ∀ param ∈ item.params, ∃ constraint,
        (param.1, constraint) ∈ f.params ∧ constraint.Admits param.2 := by
  rw [Option.any_eq_true]
  constructor
  · rintro ⟨f, hfind, hsupports⟩
    have hf := List.mem_of_find?_eq_some hfind
    exact ⟨f, hf, by simpa using List.find?_some hfind,
      (supports_iff (hc.params f hf)).mp hsupports⟩
  · rintro ⟨f, hf, hid, hparams⟩
    refine ⟨f, ?_, (supports_iff (hc.params f hf)).mpr hparams⟩
    rw [← hid]
    exact find?_key_of_mem hc.functions hf

/-- With distinct names, exactly the requests that meet the rule are served. -/
theorem serves_iff {c : Capabilities} (hc : c.Distinct) {presentation : String}
    {credentialFormats credentialTypes : List String} {items : List RequestedItem} :
    c.serves presentation credentialFormats credentialTypes items = true ↔
      c.Serves presentation credentialFormats credentialTypes items := by
  unfold Capabilities.serves
  by_cases hcredential : c.presentation = presentation ∧ c.credentialFormat ∈ credentialFormats ∧
    c.credentialType ∈ credentialTypes
  · obtain ⟨hpresentation, hformat, htype⟩ := hcredential
    rw [if_neg (by simp [hpresentation, hformat, htype])]
    simp only [Bool.and_eq_true, List.all_eq_true, declared_iff hc, counted_iff]
    constructor
    · rintro ⟨hdeclared, hcounted⟩
      exact ⟨hpresentation, hformat, htype, hdeclared, fun f hf => (hcounted f hf).1,
        fun f hf => (hcounted f hf).2⟩
    · intro h
      exact ⟨h.declared, fun f hf => ⟨h.max f hf, h.always f hf⟩⟩
  · have hrefused : (c.presentation != presentation ||
        !credentialFormats.contains c.credentialFormat ||
        !credentialTypes.contains c.credentialType) = true := by
      simp only [Bool.or_eq_true, bne_iff_ne, Bool.not_eq_true', List.contains_eq_mem,
        decide_eq_false_iff_not]
      tauto
    rw [if_pos hrefused]
    simp only [Bool.false_eq_true, false_iff]
    exact fun h => hcredential ⟨h.presentation, h.credentialFormat, h.credentialType⟩

/-! ## 3. The order -/

/-- The same constraint but for the order of its values. -/
def Constraint.Reordered : Constraint → Constraint → Prop
  | .enum values, .enum values' => values.Perm values'
  | .type kind, .type kind' => kind = kind'
  | _, _ => False

/-- The same function but for the order of its params. -/
structure FunctionCap.Reordered (f g : FunctionCap) : Prop where
  id : f.id = g.id
  max : f.max = g.max
  always : f.always = g.always
  params : UpToOrder (fun p q => p.1 = q.1 ∧ p.2.Reordered q.2) f.params g.params

/-- The same capabilities but for the order of the functions. -/
structure Capabilities.Reordered (c d : Capabilities) : Prop where
  presentation : c.presentation = d.presentation
  credentialFormat : c.credentialFormat = d.credentialFormat
  credentialType : c.credentialType = d.credentialType
  functions : UpToOrder FunctionCap.Reordered c.functions d.functions

/-- The same item but for the order of its params. -/
structure RequestedItem.Reordered (i j : RequestedItem) : Prop where
  functionId : i.functionId = j.functionId
  params : i.params.Perm j.params

theorem Constraint.Reordered.symm {c d : Constraint} (h : c.Reordered d) : d.Reordered c := by
  cases c <;> cases d
  · exact List.Perm.symm h
  · exact h.elim
  · exact h.elim
  · exact Eq.symm h

theorem Constraint.Reordered.admits {c d : Constraint} (h : c.Reordered d) {v : Value}
    (hv : c.Admits v) : d.Admits v := by
  cases c <;> cases d
  · obtain ⟨s, hs, rfl⟩ := hv
    exact ⟨s, List.Perm.mem_iff h |>.mp hs, rfl⟩
  · exact h.elim
  · exact h.elim
  · cases h
    exact hv

theorem FunctionCap.Reordered.symm {f g : FunctionCap} (h : f.Reordered g) : g.Reordered f :=
  ⟨h.id.symm, h.max.symm, h.always.symm, h.params.symm fun h => ⟨h.1.symm, h.2.symm⟩⟩

theorem Capabilities.Reordered.symm {c d : Capabilities} (h : c.Reordered d) : d.Reordered c :=
  ⟨h.presentation.symm, h.credentialFormat.symm, h.credentialType.symm,
    h.functions.symm fun h => h.symm⟩

theorem RequestedItem.Reordered.symm {i j : RequestedItem} (h : i.Reordered j) : j.Reordered i :=
  ⟨h.functionId.symm, h.params.symm⟩

theorem Capabilities.Reordered.distinct {c d : Capabilities} (h : c.Reordered d)
    (hc : c.Distinct) : d.Distinct := by
  refine ⟨(h.functions.map_perm fun h => h.id).nodup_iff.mp hc.functions, fun g hg => ?_⟩
  obtain ⟨f, hf, hfg⟩ := h.functions.exists_left hg
  exact (hfg.params.map_perm fun h => h.1).nodup_iff.mp (hc.params f hf)

/-- The rule does not look at the order. -/
theorem Capabilities.Serves.reordered {c d : Capabilities} (hcd : c.Reordered d)
    {presentation : String} {credentialFormats credentialTypes : List String}
    {items items' : List RequestedItem} (hitems : UpToOrder RequestedItem.Reordered items items')
    (h : c.Serves presentation credentialFormats credentialTypes items) :
    d.Serves presentation credentialFormats credentialTypes items' where
  presentation := hcd.presentation ▸ h.presentation
  credentialFormat := hcd.credentialFormat ▸ h.credentialFormat
  credentialType := hcd.credentialType ▸ h.credentialType
  declared := by
    intro item' hitem'
    obtain ⟨item, hitem, hsame⟩ := hitems.exists_left hitem'
    obtain ⟨f, hf, hid, hparams⟩ := h.declared item hitem
    obtain ⟨g, hg, hfg⟩ := hcd.functions.exists_right hf
    refine ⟨g, hg, hfg.id ▸ hsame.functionId ▸ hid, fun param hparam => ?_⟩
    obtain ⟨constraint, hdeclared, hadmits⟩ := hparams param (hsame.params.mem_iff.mpr hparam)
    obtain ⟨⟨name, constraint'⟩, hdeclared', hname, hconstraint⟩ :=
      hfg.params.exists_right hdeclared
    obtain rfl : param.1 = name := hname
    exact ⟨constraint', hdeclared', hconstraint.admits hadmits⟩
  max := by
    intro g hg max hmax
    obtain ⟨f, hf, hfg⟩ := hcd.functions.exists_left hg
    have hcount := hitems.countP_eq (p := fun item => item.functionId == f.id)
      (q := fun item => item.functionId == g.id)
      fun hsame => by rw [hsame.functionId, hfg.id]
    rw [← hcount]
    exact h.max f hf max (hfg.max ▸ hmax)
  always := by
    intro g hg halways
    obtain ⟨f, hf, hfg⟩ := hcd.functions.exists_left hg
    obtain ⟨item, hitem, hid⟩ := h.always f hf (hfg.always ▸ halways)
    obtain ⟨item', hitem', hsame⟩ := hitems.exists_right hitem
    exact ⟨item', hitem', hfg.id ▸ hsame.functionId ▸ hid⟩

theorem serves_reordered {c d : Capabilities} (hc : c.Distinct) (hcd : c.Reordered d)
    {presentation : String} {credentialFormats credentialTypes : List String}
    {items items' : List RequestedItem}
    (hitems : UpToOrder RequestedItem.Reordered items items') :
    d.serves presentation credentialFormats credentialTypes items' =
      c.serves presentation credentialFormats credentialTypes items := by
  rw [Bool.eq_iff_iff, serves_iff hc, serves_iff (hcd.distinct hc)]
  constructor
  · exact Capabilities.Serves.reordered hcd.symm (hitems.symm fun h => h.symm)
  · exact Capabilities.Serves.reordered hcd hitems

/-- What is parsed is exactly what a description of the schema says; it serves exactly the
requests that meet the rule, in whatever order the lists are. -/
theorem capabilities_exact (sj : SerdeJson) (text : String) (c : Capabilities) :
    (Capabilities.parse sj text = .ok c ↔
      ∃ m, sj.fromStr text = some (.object m) ∧ c.SaidBy m) ∧
    (Capabilities.parse sj text = .ok c →
      ∀ presentation credentialFormats credentialTypes items,
        (c.serves presentation credentialFormats credentialTypes items = true ↔
          c.Serves presentation credentialFormats credentialTypes items) ∧
        ∀ d items', c.Reordered d → UpToOrder RequestedItem.Reordered items items' →
          d.serves presentation credentialFormats credentialTypes items' =
            c.serves presentation credentialFormats credentialTypes items) :=
  ⟨parse_eq_ok, fun h _ _ _ _ =>
    ⟨serves_iff (distinct_of_parse h), fun _ _ hcd hitems =>
      serves_reordered (distinct_of_parse h) hcd hitems⟩⟩

/-- A constraint with both members, one of them `null`. -/
def nullEnum : Map := Map.ofList [("enum", .null), ("type", .string "full-date")]

/-- A circuit that always checks an age, once. -/
def ageCircuit : Value :=
  .ofMembers
    [("schema", .number (.posInt 1)), ("presentation", .string "zkp_req"),
     ("credential", .ofMembers [("format", .string "mso_mdoc"), ("type", .string "nym")]),
     ("functions", .array
       [.ofMembers
          [("id", .string "age_check"), ("max", .number (.posInt 1)), ("always", .bool true),
           ("params", .ofMembers [("ge", .object nullEnum)])]])]

theorem capabilities_exact_ageCircuit :
    ∃ c, Capabilities.parse (.ofValues [ageCircuit]) ageCircuit.compact = .ok c ∧
      c.Serves "zkp_req" ["mso_mdoc"] ["nym"]
        [⟨"age_check", [("ge", .string "2008-10-10")]⟩] := by
  have hserves : (Capabilities.parse (.ofValues [ageCircuit]) ageCircuit.compact).toOption.map
      (fun c => c.serves "zkp_req" ["mso_mdoc"] ["nym"]
        [⟨"age_check", [("ge", .string "2008-10-10")]⟩]) = some true := by decide +kernel
  obtain ⟨c, hc, hserves⟩ := exists_ok_of_toOption hserves
  exact ⟨c, hc, (((capabilities_exact _ _ c).2 hc _ _ _ _).1).mp hserves⟩

/-- A constraint with both `enum` and `type` is accepted if one of them is `null`. -/
theorem parse_nullEnum :
    (Capabilities.parse (.ofValues [ageCircuit]) ageCircuit.compact).toBool = true ∧
      (∃ f, (ageCircuit.get "functions").bind Value.asArray = some [f] ∧
        ((f.get "params").bind fun params => params.get "ge") = some (.object nullEnum)) ∧
      Map.containsKey nullEnum "enum" = true ∧ Map.containsKey nullEnum "type" = true := by
  refine ⟨by decide +kernel, ⟨_, rfl, rfl⟩, by decide, by decide⟩

end DcMatcher
