import DcMatcher.Wasm.Preserved

/-!
# The imports and exports of a matcher

`scripts/check_matcher_abi.py`: every import of a matcher must be a function of the host with
exactly its signature, and every export that the host calls must be there. A release is checked
after `strip` removed the two environment imports.

Results:
1. `readInterface_eq`: the interface is that of the content of the module.
2. `check_passes_iff`: what a module without violations is, and from which level on the host
   provides its imports.
3. `check_strip`: the check of a stripped module finds what it found before, the two environment
   imports apart.
-/

namespace DcMatcher.Wasm

open Lists Readers

/-! ## The host -/

def HEADER : String := "the header"

def WASI_PREVIEW_1 : String := "WASI preview 1"

/-- `HostFunction`: a function the host provides from a level on. -/
structure HostFunction where
  module : String
  name : String
  level : Nat
  signature : Signature
  source : String
deriving DecidableEq, Repr

/-- `credman`, of `fn(*params)`. -/
def credman (module name : String) (level : Nat) (params : List ValType)
    (results : List ValType) : HostFunction :=
  ⟨module, name, level, ⟨params, results⟩, HEADER⟩

/-- `wasi`: a function the host provides at every level. -/
def wasi (name : String) (params results : List ValType) : HostFunction :=
  ⟨"wasi_snapshot_preview1", name, 1, ⟨params, results⟩, WASI_PREVIEW_1⟩

/-- `[I32] * count`. -/
def i32s (count : Nat) : List ValType := List.replicate count .i32

def HOST_FUNCTIONS : List HostFunction :=
  [credman "credman" "AddEntry" 1 (.i64 :: i32s 6) [],
   credman "credman" "AddField" 1 [.i64, .i32, .i32] [],
   credman "credman" "AddStringIdEntry" 1 (i32s 7) [],
   credman "credman" "AddFieldForStringIdEntry" 1 (i32s 3) [],
   credman "credman" "GetRequestBuffer" 1 [.i32] [],
   credman "credman" "GetRequestSize" 1 [.i32] [],
   credman "credman" "ReadCredentialsBuffer" 1 [.i32, .i32, .i32] [.i32],
   credman "credman" "GetCredentialsSize" 1 [.i32] [],
   credman "credman" "GetWasmVersion" 1 [.i32] [],
   credman "credman" "AddPaymentEntry" 1 (i32s 11) [],
   credman "credman" "AddInlineIssuanceEntry" 1 (i32s 5) [],
   credman "credman" "SetAdditionalDisclaimerAndUrlForVerificationEntry" 1 (i32s 4) [],
   credman "credman" "GetCallingAppInfo" 1 [.i32] [],
   credman "credman_v2" "AddEntrySet" 2 [.i32, .i32] [],
   credman "credman_v2" "AddEntryToSet" 2 (i32s 10) [],
   credman "credman_v2" "AddFieldToEntrySet" 2 (i32s 5) [],
   credman "credman_v2" "AddPaymentEntryToSet" 2 (i32s 14) [],
   credman "credman_v2" "AddPaymentEntryToSetV2" 3 (i32s 15) [],
   credman "credman_v4" "SelfDeclarePackageInfo" 4 (i32s 3) [],
   credman "credman_v5" "AddMetadataDisplayTextToEntrySet" 5 (i32s 4) [],
   credman "credman_v6" "SetAdditionalDisclaimerAndUrlForVerificationEntryInCredentialSet" 6
     (i32s 6) [],
   credman "credman_v7" "SetDelegationTypeForEntryInSet" 7 (i32s 4) [],
   wasi "fd_write" [.i32, .i32, .i32, .i32] [.i32],
   wasi "fd_seek" [.i32, .i64, .i32, .i32] [.i32],
   wasi "fd_close" [.i32] [.i32],
   wasi "fd_fdstat_get" [.i32, .i32] [.i32],
   wasi "proc_exit" [.i32] []]

/-- `by_import_name` refuses a table with a name twice; this one has none. -/
theorem HOST_FUNCTIONS_distinct : (HOST_FUNCTIONS.map fun f => (f.module, f.name)).Nodup := by
  decide

/-- `HOST_FUNCTIONS.get`. -/
def hostFunction (module name : String) : Option HostFunction :=
  HOST_FUNCTIONS.find? fun f => (f.module, f.name) = (module, name)

/-- An export the host needs: `CalledFunction` or `AccessedMemory`. -/
inductive RequiredExport
  | calledFunction (name : String) (signature : Signature)
  | accessedMemory (name : String)
deriving DecidableEq, Repr

namespace RequiredExport

def name : RequiredExport → String
  | calledFunction name _ | accessedMemory name => name

def kind : RequiredExport → ExternKind
  | calledFunction _ _ => .func
  | accessedMemory _ => .memory

end RequiredExport

/-- The host calls `_start` with no arguments and reads `memory`. -/
def REQUIRED_EXPORTS : List RequiredExport :=
  [.calledFunction "_start" ⟨[], []⟩, .accessedMemory "memory"]

/-! ## The interface -/

/-- `Import.module`. -/
def Import.module : Import → String
  | .function item => item.module
  | .other item => item.module

/-- `Import.name`. -/
def Import.name : Import → String
  | .function item => item.name
  | .other item => item.name

/-- `ModuleInterface`: a module's function types, imports and exports, and the type index of each
function, imported ones first. -/
structure ModuleInterface where
  types : List Signature
  imports : List Import
  exports : List Export
  functionTypes : List Nat
deriving DecidableEq, Repr

namespace ModuleInterface

variable (self : ModuleInterface)

/-- `ModuleInterface.export`. -/
def exportNamed (name : String) : Option Export := self.exports.find? fun e => e.name == name

/-- `self.types[index]`. An index that was read is in range. -/
def typeAt (index : Nat) : Signature := self.types.getD index ⟨[], []⟩

/-- `ModuleInterface.signature_of`. -/
def signatureOf (item : FunctionImport) : Signature := self.typeAt item.typeIndex

/-- `ModuleInterface.function_signature`. -/
def functionSignature (index : Nat) : Signature := self.typeAt (self.functionTypes.getD index 0)

end ModuleInterface

/-- `read_interface`. -/
def readInterface (module : List UInt8) : Except WasmFormatError ModuleInterface := do
  let sections ← readSections module
  let types ← sectionItems sections .type readSignature
  let imports ← sectionItems sections .imports (readImport types.length)
  let defined ← sectionItems sections .function (index types.length "type")
  let functionTypes := (imports.filterMap Import.function?).map (·.typeIndex) ++ defined
  let exports ← sectionItems sections .exports (readExport functionTypes.length)
  return { types, imports, exports, functionTypes }

/-! ## Texts -/

/-- `str(kind)`. -/
def ExternKind.text : ExternKind → String
  | func => "func"
  | table => "table"
  | memory => "memory"
  | global => "global"
  | tag => "tag"

/-- `str(type)`. -/
def ValType.text : ValType → String
  | i32 => "i32"
  | i64 => "i64"
  | f32 => "f32"
  | f64 => "f64"
  | v128 => "v128"
  | funcref => "funcref"
  | externref => "externref"

/-- A Python tuple of strings without a quote, as `str` shows it. -/
def tupleText : List String → String
  | [] => "()"
  | [one] => "('" ++ one ++ "',)"
  | texts => "(" ++ ", ".intercalate (texts.map fun text => "'" ++ text ++ "'") ++ ")"

/-- `Signature.__str__`. -/
def Signature.text (signature : Signature) : String :=
  "(" ++ tupleText (signature.params.map ValType.text) ++ ", " ++
    tupleText (signature.results.map ValType.text) ++ ")"

/-! ## The check -/

/-- `Report`. -/
structure Report where
  imports : List String
  level : Nat
  violations : List String
deriving DecidableEq, Repr

/-- `f"{item.module}.{item.name}"`. -/
def Import.shown (item : Import) : String := item.module ++ "." ++ item.name

/-- `import_violation`. -/
def importViolation (interface : ModuleInterface) (item : Import) : Option String :=
  match item with
  | .other other =>
    some (item.shown ++ ": imports a " ++ other.kind.text ++ "; the host provides functions only")
  | .function function =>
    match hostFunction function.module function.name with
    | none =>
      some (item.shown ++ ": not in the Credential Manager ABI or the known WASI subset")
    | some host =>
      if interface.signatureOf function = host.signature then none
      else
        some (item.shown ++ ": signature " ++ (interface.signatureOf function).text ++ ", " ++
          host.source ++ " gives " ++ host.signature.text)

/-- `export_violation`. -/
def exportViolation (interface : ModuleInterface) (required : RequiredExport) : Option String :=
  match interface.exportNamed required.name with
  | none => some ("export " ++ required.name ++ " is missing")
  | some found =>
    if found.kind ≠ required.kind then
      some ("export " ++ required.name ++ " is a " ++ found.kind.text ++ ", the host needs a " ++
        required.kind.text)
    else
      match required with
      | .accessedMemory _ => none
      | .calledFunction name signature =>
        if interface.functionSignature found.index = signature then none
        else
          some ("export " ++ name ++ " has signature " ++
            (interface.functionSignature found.index).text ++ ", the host calls " ++
            signature.text)

/-- `import_line`. -/
def importLine (interface : ModuleInterface) (item : Import) : String :=
  item.shown ++ " " ++
    match item with
    | .function function => (interface.signatureOf function).text
    | .other other => other.kind.text

/-- `level_needed`. -/
def levelNeeded (imports : List Import) : Nat :=
  ((imports.filterMap fun item => hostFunction item.module item.name).map (·.level)).max?.getD 1

/-- `check`, once the interface was read. -/
def reportOf (interface : ModuleInterface) : Report where
  imports := interface.imports.map (importLine interface)
  level := levelNeeded interface.imports
  violations := interface.imports.filterMap (importViolation interface) ++
    REQUIRED_EXPORTS.filterMap (exportViolation interface)

/-- `check`. -/
def check (module : List UInt8) : Except WasmFormatError Report :=
  (readInterface module).map reportOf

/-! ## 1. The interface of a module -/

/-- What a module says of its imports, exports and function types. -/
def Module.interface (m : Module) : ModuleInterface where
  types := m.types
  imports := m.imports.map Prod.fst
  exports := m.exports
  functionTypes := m.functionImports.map (·.typeIndex) ++ m.functions.map Prod.fst

theorem map_fst_spanned {α : Type} (p : Read α) : Prod.fst <$> spanned p = p := by
  funext r
  rw [map_run]
  unfold spanned
  cases p r <;> rfl

/-- Items without the bytes they were read from. -/
theorem sectionItems_fst {α : Type} {p : Read α} {ss : List Section} {id : SectionId}
    {as : List (α × List UInt8)} (h : sectionItems ss id (spanned p) = .ok as) :
    sectionItems ss id p = .ok (as.map Prod.fst) := by
  unfold sectionItems at h ⊢
  cases hfind : ss.find? fun s => s.id = id with
  | none =>
    rw [hfind] at h
    cases h
    rfl
  | some s =>
    rw [hfind] at h
    have hmap := items_map (spanned p) Prod.fst s
    rw [map_fst_spanned] at hmap
    exact hmap.trans (congrArg (Except.map _) h)

/-- The interface that is read is that of the content. -/
theorem readInterface_eq {bytes : List UInt8} {m : Module} (hm : readModule bytes = .ok m) :
    readInterface bytes = .ok m.interface := by
  obtain ⟨ss, hsections, hsays⟩ := readModule_eq_ok.mp hm
  have himports := sectionItems_fst
    ((sectionItems_eq_ok (readImport_local _).spanned).mpr hsays.imports)
  have hfunctions := sectionItems_fst
    ((sectionItems_eq_ok (index_local _ _).spanned).mpr hsays.functions)
  have hexports := (sectionItems_eq_ok (readExport_local _)).mpr hsays.exports
  have hcount : m.functionCount = m.interface.functionTypes.length := by
    unfold Module.functionCount Module.interface
    rw [List.length_append, List.length_map, List.length_map]
  have hitems : (m.imports.map Prod.fst).filterMap Import.function? = m.functionImports :=
    List.filterMap_map
  rw [hcount] at hexports
  unfold readInterface
  refine bind_eq_ok.mpr ⟨ss, hsections, ?_⟩
  refine bind_eq_ok.mpr ⟨_, (sectionItems_eq_ok readSignature_local).mpr hsays.types, ?_⟩
  refine bind_eq_ok.mpr ⟨_, himports, ?_⟩
  refine bind_eq_ok.mpr ⟨_, hfunctions, ?_⟩
  simp only [hitems]
  exact bind_eq_ok.mpr ⟨_, hexports, rfl⟩

/-! ## 2. A module without violations -/

theorem hostFunction_eq_some {module name : String} {host : HostFunction} :
    hostFunction module name = some host ↔
      host ∈ HOST_FUNCTIONS ∧ host.module = module ∧ host.name = name := by
  unfold hostFunction
  constructor
  · intro h
    have hkey := List.find?_some h
    rw [decide_eq_true_eq, Prod.mk.injEq] at hkey
    exact ⟨List.mem_of_find?_eq_some h, hkey⟩
  · rintro ⟨hmem, rfl, rfl⟩
    exact find?_key_of_mem HOST_FUNCTIONS_distinct hmem

/-- The host provides an import at a level: a function of its table, with its signature. -/
def Provides (interface : ModuleInterface) (level : Nat) (item : Import) : Prop :=
  ∃ function host, item = .function function ∧ host ∈ HOST_FUNCTIONS ∧
    host.module = function.module ∧ host.name = function.name ∧
    host.signature = interface.signatureOf function ∧ host.level ≤ level

/-- An export is what the host needs: the first one of its name. -/
def Exports (interface : ModuleInterface) (required : RequiredExport) : Prop :=
  ∃ found, interface.exportNamed required.name = some found ∧ found.kind = required.kind ∧
    ∀ name signature, required = .calledFunction name signature →
      interface.functionSignature found.index = signature

section Accepted

variable {interface : ModuleInterface}

theorem importViolation_eq_none {item : Import} :
    importViolation interface item = none ↔ ∃ level, Provides interface level item := by
  cases item with
  | other other =>
    exact ⟨fun h => (nomatch h), fun ⟨_, _, _, h, _⟩ => (nomatch h)⟩
  | function function =>
    unfold importViolation Provides
    simp only
    cases hhost : hostFunction function.module function.name with
    | none =>
      refine ⟨fun h => (nomatch h), ?_⟩
      rintro ⟨level, item, host, hitem, hmem, hmodule, hname, _⟩
      cases hitem
      rw [hostFunction_eq_some.mpr ⟨hmem, hmodule, hname⟩] at hhost
      cases hhost
    | some host =>
      obtain ⟨hmem, hmodule, hname⟩ := hostFunction_eq_some.mp hhost
      simp only
      split
      · next hsignature =>
        exact ⟨fun _ => ⟨host.level, function, host, rfl, hmem, hmodule, hname, hsignature.symm,
          Nat.le_refl _⟩, fun _ => rfl⟩
      · next hsignature =>
        refine ⟨fun h => (nomatch h), ?_⟩
        rintro ⟨level, item, other, hitem, hmem', hmodule', hname', hsame, _⟩
        cases hitem
        rw [hostFunction_eq_some.mpr ⟨hmem', hmodule', hname'⟩] at hhost
        cases hhost
        exact absurd hsame.symm hsignature

theorem exportViolation_eq_none {required : RequiredExport} :
    exportViolation interface required = none ↔ Exports interface required := by
  unfold exportViolation Exports
  cases hfound : interface.exportNamed required.name with
  | none => simp
  | some found =>
    simp only [Option.some.injEq, exists_eq_left']
    by_cases hkind : found.kind = required.kind
    · cases required with
      | calledFunction name signature =>
        simp only [hkind, ne_eq, not_true_eq_false, if_false]
        split
        · next hsignature =>
          refine ⟨fun _ => ⟨trivial, fun _ _ h => ?_⟩, fun _ => rfl⟩
          cases h
          exact hsignature
        · next hsignature =>
          exact ⟨fun h => (nomatch h), fun h => absurd (h.2 _ _ rfl) hsignature⟩
      | accessedMemory name =>
        simp only [hkind, ne_eq, not_true_eq_false, if_false]
        exact ⟨fun _ => ⟨trivial, fun _ _ h => (nomatch h)⟩, fun _ => trivial⟩
    · simp only [hkind, ne_eq, not_false_eq_true, if_true]
      exact ⟨fun h => (nomatch h), fun h => (nomatch h.1)⟩

/-- From the level needed on, the host provides what is in its table. -/
theorem levelNeeded_le_iff {imports : List Import} {level : Nat} (hlevel : 1 ≤ level) :
    levelNeeded imports ≤ level ↔
      ∀ item ∈ imports, ∀ host, hostFunction item.module item.name = some host →
        host.level ≤ level := by
  have hhosts : ∀ n, (∀ l ∈ (imports.filterMap fun item =>
      hostFunction item.module item.name).map (·.level), l ≤ n) ↔
        ∀ item ∈ imports, ∀ host, hostFunction item.module item.name = some host →
          host.level ≤ n := by
    intro n
    rw [List.forall_mem_map]
    simp only [List.mem_filterMap]
    exact ⟨fun h item hitem host hhost => h host ⟨item, hitem, hhost⟩,
      fun h host ⟨item, hitem, hhost⟩ => h item hitem host hhost⟩
  rw [← hhosts]
  unfold levelNeeded
  cases hmax : ((imports.filterMap fun item =>
      hostFunction item.module item.name).map (·.level)).max? with
  | none =>
    rw [List.max?_eq_none_iff.mp hmax]
    exact ⟨fun _ _ h => absurd h List.not_mem_nil, fun _ => hlevel⟩
  | some n =>
    obtain ⟨hmem, hle⟩ := List.max?_eq_some_iff.mp hmax
    exact ⟨fun h l hl => Nat.le_trans (hle l hl) h, fun h => h n hmem⟩

/-- A module passes the check exactly if its interface can be read, the host provides every import
and every export that the host needs is there; and it does so at every level from the one that is
reported on. -/
theorem check_passes_iff (module : List UInt8) (level : Nat) (hlevel : 1 ≤ level) :
    (∃ report, check module = .ok report ∧ report.violations = [] ∧ report.level ≤ level) ↔
      ∃ interface, readInterface module = .ok interface ∧
        (∀ item ∈ interface.imports, Provides interface level item) ∧
        ∀ required ∈ REQUIRED_EXPORTS, Exports interface required := by
  constructor
  · rintro ⟨report, hcheck, hnone, hle⟩
    obtain ⟨interface, hread, rfl⟩ := map_eq_ok.mp hcheck
    obtain ⟨himports, hexports⟩ := List.append_eq_nil_iff.mp hnone
    refine ⟨interface, hread, fun item hitem => ?_, fun required hrequired => ?_⟩
    · obtain ⟨_, function, host, rfl, hmem, hmodule, hname, hsignature, _⟩ :=
        importViolation_eq_none.mp (List.filterMap_eq_nil_iff.mp himports item hitem)
      have hhost := hostFunction_eq_some.mpr ⟨hmem, hmodule, hname⟩
      exact ⟨function, host, rfl, hmem, hmodule, hname, hsignature,
        (levelNeeded_le_iff hlevel).mp hle _ hitem host hhost⟩
    · exact exportViolation_eq_none.mp (List.filterMap_eq_nil_iff.mp hexports required hrequired)
  · rintro ⟨interface, hread, himports, hexports⟩
    refine ⟨reportOf interface, map_eq_ok.mpr ⟨interface, hread, rfl⟩, ?_, ?_⟩
    · refine List.append_eq_nil_iff.mpr ⟨?_, ?_⟩
      · exact List.filterMap_eq_nil_iff.mpr fun item hitem =>
          importViolation_eq_none.mpr ⟨level, himports item hitem⟩
      · exact List.filterMap_eq_nil_iff.mpr fun required hrequired =>
          exportViolation_eq_none.mpr (hexports required hrequired)
    · refine (levelNeeded_le_iff hlevel).mpr fun item hitem host hhost => ?_
      obtain ⟨function, found, rfl, hmem, hmodule, hname, _, hle⟩ := himports item hitem
      cases (hostFunction_eq_some.mpr ⟨hmem, hmodule, hname⟩).symm.trans hhost
      exact hle

end Accepted

/-! ## 3. A stripped module -/

namespace Module

variable {m : Module} {a b : FunctionImport} {low high : Nat}
  (ht : m.targets = [(a, low), (b, high)])

include ht

/-- A function has the type it had, under its new index. -/
theorem functionTypes_stripped (i : Nat) :
    m.stripped.interface.functionTypes[m.renumbering.apply i]? =
      m.interface.functionTypes[i]? := by
  have hlength := length_functionImports_stripped ht
  have htypes : ∀ m : Module, m.interface.functionTypes =
      m.functionImports.map (·.typeIndex) ++ m.functions.map Prod.fst := fun _ => rfl
  rw [htypes, htypes]
  cases hi : m.functionImports[i]? with
  | some item =>
    have hlt := (List.getElem?_eq_some_iff.mp hi).1
    have hold : (m.functionImports.map (·.typeIndex) ++ m.functions.map Prod.fst)[i]? =
        some item.typeIndex := by
      rw [List.getElem?_append_left (by rwa [List.length_map]), List.getElem?_map, hi]
      rfl
    rw [hold]
    cases htarget : isTarget item with
    | false =>
      have hkept := import_stripped ht hi htarget
      have hlt' := (List.getElem?_eq_some_iff.mp hkept).1
      rw [List.getElem?_append_left (by rwa [List.length_map]), List.getElem?_map, hkept]
      rfl
    | true =>
      obtain ⟨k, hk, hitem⟩ := target_stripped ht hi htarget
      rw [List.getElem?_map] at hitem
      obtain ⟨x, hx, rfl⟩ := Option.map_eq_some_iff.mp hitem
      have hlt' := (List.getElem?_eq_some_iff.mp hx).1
      rw [hk, List.getElem?_append_right (by rw [List.length_map]; omega), List.length_map,
        Nat.add_sub_cancel_left, stripped_functions, List.map_append, List.map_map,
        List.getElem?_append_left (by rwa [List.length_map]), List.getElem?_map, hx]
      rfl
  | none =>
    have hle := List.getElem?_eq_none_iff.mp hi
    have htargets : m.targets.length = 2 := by rw [ht]; rfl
    have hsame : m.renumbering.apply i = i := by
      have hcases := Renumbering.apply_cases (renumbering_ordered ht) i
      have himported : m.renumbering.imported = m.functionImports.length := rfl
      obtain ⟨hlow, hhigh⟩ := renumbering_ordered ht
      rcases hcases with h | h | h | h | h | h <;> omega
    have hindex : i - m.stripped.functionImports.length =
        2 + (i - m.functionImports.length) := by omega
    rw [hsame, List.getElem?_append_right (by rw [List.length_map]; omega),
      List.getElem?_append_right (by rw [List.length_map]; omega), List.length_map,
      List.length_map, hindex, stripped_functions, List.map_append, List.map_map,
      List.getElem?_append_right (by rw [List.length_map]; omega), List.length_map, htargets,
      Nat.add_sub_cancel_left]

/-- An export violates what it did. -/
theorem exportViolation_stripped (required : RequiredExport) :
    exportViolation m.stripped.interface required = exportViolation m.interface required := by
  have hsignature : ∀ i, m.stripped.interface.functionSignature (m.renumbering.apply i) =
      m.interface.functionSignature i := by
    intro i
    unfold ModuleInterface.functionSignature
    rw [List.getD_eq_getElem?_getD, List.getD_eq_getElem?_getD, functionTypes_stripped ht]
    rfl
  have hnamed : m.stripped.interface.exportNamed required.name =
      (m.interface.exportNamed required.name).map (Export.renumber m.renumbering.apply) :=
    List.find?_map
  unfold exportViolation
  rw [hnamed]
  cases m.interface.exportNamed required.name with
  | none => rfl
  | some found =>
    rw [Option.map_some]
    cases required with
    | accessedMemory name => rfl
    | calledFunction name signature =>
      by_cases hkind : found.kind = .func
      · have hindex : (found.renumber m.renumbering.apply).index =
            m.renumbering.apply found.index := if_pos hkind
        simp only [hindex, hsignature]
        rfl
      · have hkept : found.renumber m.renumbering.apply = found := by
          unfold Export.renumber
          rw [if_neg hkind]
        simp only [hkept, RequiredExport.kind, ne_eq, hkind, not_false_eq_true, if_true]

/-- The imports that go. -/
theorem filter_isTarget_imports :
    m.interface.imports.filter Import.isTarget = [.function a, .function b] := by
  have hfunctions : m.interface.imports.filter Import.isTarget =
      (m.functionImports.filter isTarget).map Import.function := by
    unfold interface functionImports
    simp only
    induction m.imports with
    | nil => rfl
    | cons i imports ih =>
      obtain ⟨item, bytes⟩ := i
      cases item with
      | function item =>
        show List.filter Import.isTarget (.function item :: imports.map Prod.fst) =
          (List.filter isTarget (item :: imports.filterMap fun i => i.1.function?)).map .function
        rw [List.filter_cons, List.filter_cons, Import.isTarget_function, ih]
        cases isTarget item <;> rfl
      | other item => exact ih
  have htargets : m.functionImports.filter isTarget = m.targets.map Prod.fst := by
    have hfst := congrArg (List.filter isTarget) (List.zipIdx_map_fst 0 m.functionImports)
    rw [List.filter_map] at hfst
    exact hfst.symm
  rw [hfunctions, htargets, ht]
  rfl

omit ht in
theorem imports_stripped_interface :
    m.stripped.interface.imports = m.interface.imports.filter fun i => !i.isTarget := by
  unfold interface
  rw [stripped_imports, List.filter_map]
  rfl

end Module

/-- What the check says of an environment import. -/
def environViolation (name : String) : String :=
  TARGET_MODULE ++ "." ++ name ++ ": not in the Credential Manager ABI or the known WASI subset"

/-- The host has neither of the two imports. -/
theorem importViolation_target {interface : ModuleInterface} {item : FunctionImport}
    (h : isTarget item = true) :
    item.name ∈ TARGET_FIELDS ∧ importViolation interface (.function item) =
      some (environViolation item.name) ∧ hostFunction item.module item.name = none := by
  obtain ⟨module, name, typeIndex⟩ := item
  obtain ⟨hmodule, hname⟩ := (Bool.and_eq_true _ _).mp h
  obtain rfl : module = TARGET_MODULE := beq_iff_eq.mp hmodule
  have hname : name ∈ TARGET_FIELDS := List.contains_iff_mem.mp hname
  have hnone : ∀ name ∈ TARGET_FIELDS, hostFunction TARGET_MODULE name = none := by decide
  refine ⟨hname, ?_, hnone name hname⟩
  simp only [importViolation, hnone name hname]
  rfl

/-- The result of `strip` can be read exactly if the sections that grow still have sizes. -/
theorem readInterface_strip {bytes out : List UInt8} {rewrite : Rewrite} {m : Module}
    (hm : readModule bytes = .ok m) (hs : strip bytes = .ok (out, rewrite)) :
    (m.Fits → readInterface out = .ok m.stripped.interface) ∧
      ∀ interface, readInterface out = .ok interface → m.Fits := by
  obtain ⟨ss, a, b, hsections, hsays, ht, _, _, hfunction, rfl⟩ := strip_eq hm hs
  have hsizes := sizes_written_iff (readSections_inOrder hsections) (sizes_of_sections hsections)
    hsays ht hfunction
  constructor
  · intro hfits
    have hids : (m.written (pairs ss)).map Prod.fst = ss.map Section.id := by
      unfold Module.written pairs
      rw [List.map_map, List.map_map]
      rfl
    have horder : InOrder (-1) ((m.written (pairs ss)).map Prod.fst) := by
      rw [hids]
      exact readSections_inOrder hsections
    obtain ⟨ss', hsections', hpairs⟩ := readSections_encode horder (hsizes.mpr hfits)
    have hsays' : Says (pairs ss') m.stripped := by
      rw [show pairs ss' = m.written (pairs ss) from hpairs]
      exact says_stripped hsays ht hfunction (hsizes.mpr hfits)
    exact readInterface_eq (readModule_eq_ok.mpr ⟨ss', hsections', hsays'⟩)
  · intro interface hread
    obtain ⟨ss', hsections', _⟩ := bind_eq_ok.mp hread
    exact hsizes.mp (sizes_of_readSections hsections')

/-- What the check of a stripped module reports, beside that of the module it was made of. -/
structure Stripped (report report' : Report) : Prop where
  level : report'.level = report.level
  /-- The two environment imports were violations, and nothing else changed. -/
  violations : ∃ first ∈ TARGET_FIELDS, ∃ second ∈ TARGET_FIELDS,
    report.violations.Perm
      (environViolation first :: environViolation second :: report'.violations)
  ordered : report'.violations.Sublist report.violations
  imports : report'.imports.Sublist report.imports

theorem stripped_report {m : Module} {a b : FunctionImport} {low high : Nat}
    (ht : m.targets = [(a, low), (b, high)]) :
    Stripped (reportOf m.interface) (reportOf m.stripped.interface) := by
  obtain ⟨_, _, _, _, _, _, _, ha, hb⟩ := Module.exists_split ht
  obtain ⟨hfirst, ha, _⟩ := @importViolation_target m.interface a ha
  obtain ⟨hsecond, hb, _⟩ := @importViolation_target m.interface b hb
  have hviolation : importViolation m.stripped.interface = importViolation m.interface := by
    funext item
    cases item <;> rfl
  have hline : importLine m.stripped.interface = importLine m.interface := by
    funext item
    cases item <;> rfl
  have hexports : REQUIRED_EXPORTS.filterMap (exportViolation m.stripped.interface) =
      REQUIRED_EXPORTS.filterMap (exportViolation m.interface) :=
    List.filterMap_congr fun required _ => Module.exportViolation_stripped ht required
  have hkept : m.stripped.interface.imports.Sublist m.interface.imports := by
    rw [Module.imports_stripped_interface]
    exact List.filter_sublist
  constructor
  case level =>
    show levelNeeded _ = levelNeeded _
    unfold levelNeeded
    rw [Module.imports_stripped_interface, List.filterMap_filter]
    refine congrArg (fun hosts : List HostFunction => (hosts.map (·.level)).max?.getD 1) ?_
    refine List.filterMap_congr fun item _ => ?_
    cases item with
    | other _ => rfl
    | function function =>
      rw [Import.isTarget_function]
      cases htarget : isTarget function with
      | false => rfl
      | true => exact (@importViolation_target m.interface function htarget).2.2.symm
  case violations =>
    refine ⟨a.name, hfirst, b.name, hsecond, ?_⟩
    have hparts := (List.filter_append_perm Import.isTarget m.interface.imports).filterMap
      (importViolation m.interface)
    rw [List.filterMap_append, Module.filter_isTarget_imports ht,
      List.filterMap_cons_some ha, List.filterMap_cons_some hb, List.filterMap_nil,
      ← Module.imports_stripped_interface] at hparts
    show List.Perm (_ ++ _) (_ :: _ :: (_ ++ _))
    rw [hviolation, hexports]
    exact (hparts.symm.append_right _).trans (List.Perm.refl _)
  case ordered =>
    show List.Sublist (_ ++ _) (_ ++ _)
    rw [hviolation, hexports]
    exact (hkept.filterMap _).append (List.Sublist.refl _)
  case imports =>
    show List.Sublist (List.map _ _) (List.map _ _)
    rw [hline]
    exact hkept.map _

/-- A module that `strip` accepts is checked without its two environment imports: the same level,
and the same violations but theirs. The result can be checked exactly if the sections that grow
still have sizes. -/
theorem check_strip {bytes out : List UInt8} {rewrite : Rewrite} {m : Module}
    (hm : readModule bytes = .ok m) (hs : strip bytes = .ok (out, rewrite)) :
    ∃ report, check bytes = .ok report ∧ ((∃ report', check out = .ok report') ↔ m.Fits) ∧
      ∀ report', check out = .ok report' → Stripped report report' := by
  obtain ⟨_, ⟨a, low⟩, ⟨b, high⟩, _, _, ht, _⟩ := strip_eq hm hs
  have hread := readInterface_strip hm hs
  refine ⟨reportOf m.interface, map_eq_ok.mpr ⟨_, readInterface_eq hm, rfl⟩, ⟨?_, ?_⟩, ?_⟩
  · rintro ⟨report', h⟩
    obtain ⟨interface, hinterface, _⟩ := map_eq_ok.mp h
    exact hread.2 interface hinterface
  · exact fun hfits => ⟨_, map_eq_ok.mpr ⟨_, hread.1 hfits, rfl⟩⟩
  · intro report' h
    obtain ⟨interface, hinterface, rfl⟩ := map_eq_ok.mp h
    cases (hread.1 (hread.2 interface hinterface)).symm.trans hinterface
    exact stripped_report ht

/-- A matcher that declares sets, with its function types, imports, functions, exports and code. -/
def matcher (imports functions : List (List UInt8)) (start : UInt8) (code : List (List UInt8)) :
    List UInt8 :=
  encodeModule
    [(.type, encodeVector
       [[0x60, 0x00, 0x00], [0x60, 0x02, 0x7F, 0x7F, 0x01, 0x7F], [0x60, 0x02, 0x7F, 0x7F, 0x00]]),
     (.imports, encodeVector imports),
     (.function, encodeVector functions),
     (.memory, encodeVector [[0x00, 0x01]]),
     (.exports, encodeVector
       [encodeName "_start" ++ [0x00, start], encodeName "memory" ++ [0x02, 0x00]]),
     (.code, encodeVector code)]

def environImport (name : String) : List UInt8 :=
  encodeName TARGET_MODULE ++ encodeName name ++ [0x00, 0x01]

def addEntrySetImport : List UInt8 :=
  encodeName "credman_v2" ++ encodeName "AddEntrySet" ++ [0x00, 0x02]

/-- As it is built, with the two environment imports. -/
def builtMatcher : List UInt8 :=
  matcher [environImport "environ_get", environImport "environ_sizes_get", addEntrySetImport]
    [[0x00]] 0x03 [[0x02, 0x00, 0x0B]]

/-- What it says. -/
def builtContent : Module where
  types := [⟨[], []⟩, ⟨[.i32, .i32], [.i32]⟩, ⟨[.i32, .i32], []⟩]
  imports :=
    [(.function ⟨TARGET_MODULE, "environ_get", 1⟩, environImport "environ_get"),
     (.function ⟨TARGET_MODULE, "environ_sizes_get", 1⟩, environImport "environ_sizes_get"),
     (.function ⟨"credman_v2", "AddEntrySet", 2⟩, addEntrySetImport)]
  functions := [(0, [0x00])]
  exports := [⟨"_start", .func, 3⟩, ⟨"memory", .memory, 0⟩]
  start := none
  elements := []
  globals := []
  code := some [⟨[0x00], [⟨0x0B, [0x0B], []⟩]⟩]
  copied := [(.memory, encodeVector [[0x00, 0x01]])]

/-- As it is released. -/
def releasedMatcher : List UInt8 :=
  matcher [addEntrySetImport] [[0x01], [0x01], [0x00]] 0x03
    [stubBody "environ_get", stubBody "environ_sizes_get", [0x02, 0x00, 0x0B]]

theorem check_passes_iff_released :
    ∃ interface, readInterface releasedMatcher = .ok interface ∧
      (∀ item ∈ interface.imports, Provides interface 2 item) ∧
      ∀ required ∈ REQUIRED_EXPORTS, Exports interface required := by
  refine (check_passes_iff releasedMatcher 2 (by decide)).mp ?_
  exact ⟨⟨["credman_v2.AddEntrySet (('i32', 'i32'), ())"], 2, []⟩, by decide +kernel, rfl,
    Nat.le_refl 2⟩

theorem check_strip_built :
    ∃ rewrite report, strip builtMatcher = .ok (releasedMatcher, rewrite) ∧
      check releasedMatcher = .ok report ∧ report.level = 2 ∧ report.violations = [] := by
  have hm : readModule builtMatcher = .ok builtContent := by decide +kernel
  have hout : (strip builtMatcher).map Prod.fst = .ok releasedMatcher := by decide +kernel
  obtain ⟨⟨out, rewrite⟩, hs, rfl⟩ := map_eq_ok.mp hout
  obtain ⟨report, hreport, hread, hstripped⟩ := check_strip hm hs
  obtain ⟨report', hreport'⟩ := hread.mpr (by decide +kernel)
  have hbefore : (check builtMatcher).map (fun report => (report.level, report.violations.length)) =
      .ok (2, 2) := by decide +kernel
  rw [hreport] at hbefore
  obtain ⟨hlevel, hlength⟩ := Prod.mk.inj (Except.ok.inj hbefore)
  obtain ⟨hsame, ⟨first, _, second, _, hviolations⟩, _, _⟩ := hstripped report' hreport'
  have hnone : report'.violations.length = 0 := by
    have hlengths := hviolations.length_eq.symm.trans hlength
    rw [List.length_cons, List.length_cons] at hlengths
    exact Nat.add_right_cancel (Nat.add_right_cancel hlengths)
  exact ⟨rewrite, report', hs, hreport', hsame.trans hlevel, List.length_eq_zero_iff.mp hnone⟩

end DcMatcher.Wasm
