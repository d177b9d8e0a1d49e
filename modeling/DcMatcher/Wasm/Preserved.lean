import DcMatcher.Wasm.Rewritten
import DcMatcher.Wasm.Says
import DcMatcher.Wasm.Stripped

/-!
# What `strip` preserves

The script writes the sections of `Module.stripped`, and they are read back as long as their sizes
fit: so a module is preserved exactly when `Module.stripped` preserves it.

Results:
1. `planRewrite_eq`: the plan of the script is `Module.targets` and `Module.renumbering`.
2. `payload_eq`, `strip_eq`: what the script writes.
3. `says_stripped`: it says `Module.stripped`.
4. `strip_preserves_iff`: when the module is preserved.
-/

namespace DcMatcher.Wasm

open Readers

/-! ## The plan -/

/-- The loop over the imports: those that stay, those that go, and how many are functions. -/
theorem foldl_next (items : List (Import × List UInt8)) (loop : ImportLoop) :
    items.foldl ImportLoop.next loop =
      ⟨loop.kept ++ (items.filter fun i => !i.1.isTarget).map Prod.snd,
        loop.removed ++ (((items.filterMap fun i => i.1.function?).zipIdx loop.imported).filter
          fun x => isTarget x.1).map fun x => (⟨x.2, x.1.name⟩, x.1.typeIndex),
        loop.imported + (items.filterMap fun i => i.1.function?).length⟩ := by
  induction items generalizing loop with
  | nil =>
    obtain ⟨kept, removed, imported⟩ := loop
    simp
  | cons i items ih =>
    obtain ⟨kept, removed, imported⟩ := loop
    obtain ⟨item, bytes⟩ := i
    rw [List.foldl_cons, ih]
    cases item with
    | other item => simp [ImportLoop.next, Import.function?, Import.isTarget]
    | function item =>
      cases hitem : isTarget item with
      | true => simp [ImportLoop.next, Import.function?, hitem, Nat.add_assoc, Nat.add_comm 1]
      | false => simp [ImportLoop.next, Import.function?, hitem, Nat.add_assoc, Nat.add_comm 1]

/-- The plan that the content of the module gives. -/
def Module.plan (m : Module) (a b : FunctionImport × Nat) : Rewrite where
  imports :=
    { payload := encodeVector (m.stripped.imports.map Prod.snd)
      imported := m.functionImports.length
      removed := (⟨a.2, a.1.name⟩, ⟨b.2, b.1.name⟩)
      stubType := a.1.typeIndex }
  renumber := m.renumbering
  typeCount := m.types.length
  functionCount := m.functionCount

theorem orFormat_eq_ok {α : Type} {x : Except WasmFormatError α} {a : α} :
    orFormat x = .ok a ↔ x = .ok a := by
  cases x with
  | error e => simp [orFormat]
  | ok b => simp [orFormat]

theorem sectionWith_eq_ok {ss : List Section} {id : SectionId} {s : Section} :
    sectionWith ss id = .ok s ↔ ss.find? (fun s => s.id = id) = some s := by
  unfold sectionWith
  cases ss.find? fun s => s.id = id with
  | none => simp
  | some t => simp

theorem payload?_of_find? {ss : List Section} {id : SectionId} {s : Section}
    (h : ss.find? (fun s => s.id = id) = some s) : payload? (pairs ss) id = some s.payload := by
  rw [payload?_pairs, h]
  rfl

/-- The imports that were read, and the plan they give. -/
theorem rewriteImports_eq_ok {m : Module} {s : Section} {imports : ImportRewrite}
    (hitems : Reads (vector (spanned (readImport m.types.length))) s.payload m.imports)
    (h : rewriteImports s m.types.length = .ok imports) :
    ∃ a b, m.targets = [a, b] ∧ a.1.typeIndex = b.1.typeIndex ∧
      imports = (m.plan a b).imports := by
  obtain ⟨items, hread, h⟩ := Lists.bind_eq_ok.mp h
  have hread' := (evaluate_filled (vector_local (readImport_local _).spanned)).mp
    (orFormat_eq_ok.mp hread)
  cases hread'.unique hitems
  simp only [foldl_next, List.nil_append, Nat.zero_add] at h
  have htargets : ((m.imports.filterMap fun i => i.1.function?).zipIdx.filter
      fun x => isTarget x.1) = m.targets := rfl
  rw [htargets] at h
  split at h
  · next first firstType second secondType hremoved =>
    split_ifs at h with htype
    cases h
    obtain ⟨a, b, hab⟩ : ∃ a b, m.targets = [a, b] := by
      have hlength := congrArg List.length hremoved
      rw [List.length_map] at hlength
      exact List.length_eq_two.mp hlength
    rw [hab] at hremoved
    cases hremoved
    exact ⟨a, b, hab, not_not.mp htype, rfl⟩
  · cases h

/-- The count of a vector is that of its items. -/
theorem evaluate_count {α : Type} {p : Read α} (hp : Local p) {s : Section} {as : List α}
    (h : Reads (vector p) s.payload as) {n : Nat} (hn : evaluate u32 s.reader = .ok n) :
    n = as.length := by
  obtain ⟨count, xs, hcount, hbytes, rfl, _⟩ := exists_of_reads_vector hp h
  obtain ⟨r', hn⟩ := evaluate_eq_ok.mp hn
  have hread := hcount s.start (xs.flatMap Prod.snd)
  rw [← hbytes] at hread
  cases hn.symm.trans hread
  rw [List.length_map]

/-- The plan of the script is that of the content. -/
theorem planRewrite_eq {ss : List Section} {m : Module} {rewrite : Rewrite}
    (hm : Says (pairs ss) m) (h : planRewrite ss = .ok rewrite) :
    ∃ a b, m.targets = [a, b] ∧ a.1.typeIndex = b.1.typeIndex ∧ rewrite = m.plan a b ∧
      (payload? (pairs ss) .function).isSome := by
  obtain ⟨types, htypes, h⟩ := Lists.bind_eq_ok.mp h
  obtain rfl : types = m.types :=
    ((sectionItems_eq_ok readSignature_local).mp (orFormat_eq_ok.mp htypes)).unique hm.types
  obtain ⟨s, hs, h⟩ := Lists.bind_eq_ok.mp h
  obtain ⟨imports, himports, h⟩ := Lists.bind_eq_ok.mp h
  obtain ⟨t, ht, h⟩ := Lists.bind_eq_ok.mp h
  obtain ⟨defined, hdefined, h⟩ := Lists.bind_eq_ok.mp h
  cases h
  have hspayload := payload?_of_find? (sectionWith_eq_ok.mp hs)
  have htpayload := payload?_of_find? (sectionWith_eq_ok.mp ht)
  obtain ⟨a, b, htargets, htype, rfl⟩ :=
    rewriteImports_eq_ok (hm.imports.of_some hspayload) himports
  refine ⟨a, b, htargets, htype, ?_, by rw [htpayload]; rfl⟩
  have hcount := evaluate_count (index_local _ _).spanned (hm.functions.of_some htpayload)
    (orFormat_eq_ok.mp hdefined)
  rw [hcount]
  have hrenumber : m.renumbering = ⟨m.functionImports.length, (a.2, b.2)⟩ :=
    Module.renumbering_eq htargets
  unfold Module.plan
  rw [hrenumber]
  rfl

/-! ## What the script writes -/

/-- The payload of a section of `m`, and what was there where the section holds no function index
or is not read for one. -/
def Module.payload (m : Module) (copied : List UInt8) : SectionId → List UInt8
  | .imports => encodeVector (m.imports.map Prod.snd)
  | .function => encodeVector (m.functions.map Prod.snd)
  | .exports => encodeVector (m.exports.map Export.encode)
  | .start => (m.start.map encodeU32).getD []
  | .element => encodeVector (m.elements.map ElementSegment.encode)
  | .code => encodeVector ((m.code.getD []).map Body.encode)
  | _ => copied

theorem Module.payload_start (m : Module) (copied : List UInt8) :
    m.payload copied .start = (m.start.map encodeU32).getD [] := rfl

theorem Module.payload_code (m : Module) (copied : List UInt8) :
    m.payload copied .code = encodeVector ((m.code.getD []).map Body.encode) := rfl

section Payload

variable {m : Module} {a b : FunctionImport × Nat} {s : Section} {bytes : List UInt8}

theorem functionSection_eq (ht : m.targets = [a, b]) (htype : a.1.typeIndex = b.1.typeIndex)
    (hm : Reads (vector (spanned (index m.types.length "type"))) s.payload m.functions)
    (h : (m.plan a b).functionSection s = .ok bytes) :
    bytes = encodeVector (m.stripped.functions.map Prod.snd) := by
  obtain ⟨r', h⟩ := evaluate_eq_ok.mp h
  obtain ⟨n, r₁, hn, h⟩ := bind_eq_ok.mp h
  obtain ⟨types, r₂, htypes, h⟩ := bind_eq_ok.mp h
  obtain ⟨_, r₃, hend, hpure⟩ := bind_eq_ok.mp h
  cases pure_eq_ok.mp hpure
  obtain ⟨count, hcount, hbytes, _⟩ := exists_of_reads_vector_spanned (index_local _ _) hm
  have hread := hcount s.start (m.functions.flatMap Prod.snd)
  rw [← hbytes] at hread
  cases hn.symm.trans hread
  obtain ⟨_, _, hrest⟩ := (spanned_eq_ok ((index_local _ _).many _)).mp htypes
  rw [(expectEnd_eq_ok.mp hend).1, List.append_nil] at hrest
  rw [Module.stripped_functions, ht, ← hrest]
  show encodeU32 (m.functions.length + 2) ++
      (encodeU32 a.1.typeIndex ++ encodeU32 a.1.typeIndex) ++ m.functions.flatMap Prod.snd =
    encodeU32 (((_ :: _ :: m.functions).map Prod.snd).length) ++
      (encodeU32 a.1.typeIndex ++ (encodeU32 b.1.typeIndex ++ (m.functions.map Prod.snd).flatten))
  rw [← htype, ← List.flatMap_def, List.length_map, List.append_assoc, List.append_assoc]
  rfl

theorem exportSection_eq
    (hm : Reads (vector (readExport m.functionCount)) s.payload m.exports)
    (h : (m.plan a b).exportSection s = .ok bytes) :
    bytes = encodeVector (m.stripped.exports.map Export.encode) := by
  obtain ⟨exports, hexports, hpure⟩ := Lists.bind_eq_ok.mp h
  cases hpure
  cases ((items_eq_ok (readExport_local _)).mp hexports).unique hm
  rw [Module.stripped_exports, List.map_map]
  rfl

theorem startSection_eq {start : Nat}
    (hm : Reads (index m.functionCount "function") s.payload start)
    (h : (m.plan a b).startSection s = .ok bytes) :
    bytes = encodeU32 (m.renumbering.apply start) := by
  obtain ⟨r', h⟩ := evaluate_eq_ok.mp h
  obtain ⟨i, r₁, hi, h⟩ := bind_eq_ok.mp h
  obtain ⟨_, r₂, _, hpure⟩ := bind_eq_ok.mp h
  cases pure_eq_ok.mp hpure
  cases hi.symm.trans (hm.all s.start)
  rfl

theorem elementSection_eq (hm : Reads (vector readElementSegment) s.payload m.elements)
    (h : (m.plan a b).elementSection s = .ok bytes) :
    bytes = encodeVector (m.stripped.elements.map ElementSegment.encode) := by
  obtain ⟨segments, hsegments, hpure⟩ := Lists.bind_eq_ok.mp h
  cases hpure
  rw [renumberElementSegment_eq, items_map] at hsegments
  obtain ⟨elements, helements, rfl⟩ := Lists.map_eq_ok.mp hsegments
  cases ((items_eq_ok readElementSegment_local).mp helements).unique hm
  rw [Module.stripped_elements, List.map_map]
  rfl

theorem codeSection_eq (ht : m.targets = [a, b]) {bodies : List Body} (hcode : m.code = some bodies)
    (hm : Reads (vector readBody) s.payload bodies)
    (h : (m.plan a b).codeSection s = .ok bytes) :
    bytes = encodeVector ((m.stripped.code.getD []).map Body.encode) := by
  obtain ⟨rewritten, hrewritten, hpure⟩ := Lists.bind_eq_ok.mp h
  cases hpure
  rw [renumberBody_eq, items_map] at hrewritten
  obtain ⟨bodies', hbodies, rfl⟩ := Lists.map_eq_ok.mp hrewritten
  cases ((items_eq_ok readBody_local).mp hbodies).unique hm
  rw [Module.stripped_code, hcode, ht]
  show encodeVector ([stubBody a.1.name, stubBody b.1.name] ++ _) =
    encodeVector (([stub a.1.name, stub b.1.name] ++ _).map Body.encode)
  rw [List.map_append, List.map_map, ← stub_encode, ← stub_encode]
  rfl

/-- What the script writes for a section that is the only one with its id. -/
theorem payload_eq {ss : List Section} (hm : Says (pairs ss) m) (ht : m.targets = [a, b])
    (htype : a.1.typeIndex = b.1.typeIndex)
    (hs : s.id ≠ .custom → payload? (pairs ss) s.id = some s.payload)
    (h : (m.plan a b).payload s = .ok bytes) : bytes = m.stripped.payload s.payload s.id := by
  unfold Rewrite.payload at h
  cases hid : s.id with
  | imports =>
    rw [hid] at h
    cases h
    rfl
  | function =>
    rw [hid] at h hs
    exact functionSection_eq ht htype (hm.functions.of_some (hs (by decide))) h
  | exports =>
    rw [hid] at h hs
    exact exportSection_eq (hm.exports.of_some (hs (by decide))) h
  | start =>
    rw [hid] at h hs
    obtain ⟨i, hi, hread⟩ := hm.start.of_some (hs (by decide))
    rw [startSection_eq hread h, Module.payload_start, Module.stripped_start, hi]
    rfl
  | element =>
    rw [hid] at h hs
    exact elementSection_eq (hm.elements.of_some (hs (by decide))) h
  | code =>
    rw [hid] at h hs
    obtain ⟨bodies, hbodies, hread⟩ := hm.code.of_some (hs (by decide))
    exact codeSection_eq ht hbodies hread h
  | _ =>
    rw [hid] at h
    cases h
    rfl

end Payload

theorem writeSections_eq {rewrite : Rewrite} {f : Section → List UInt8} {ss : List Section}
    {bytes : List UInt8}
    (hf : ∀ s ∈ ss, ∀ payload, rewrite.payload s = .ok payload → payload = f s)
    (h : writeSections rewrite ss = .ok bytes) :
    bytes = encodeSections (ss.map fun s => (s.id, f s)) := by
  induction ss generalizing bytes with
  | nil =>
    cases h
    rfl
  | cons s ss ih =>
    obtain ⟨hs, hss⟩ := List.forall_mem_cons.mp hf
    obtain ⟨payload, hpayload, h⟩ := Lists.bind_eq_ok.mp h
    obtain ⟨rest, hrest, hpure⟩ := Lists.bind_eq_ok.mp h
    cases hpure
    rw [ih hss hrest, hs payload hpayload]
    rfl

/-- The sections of the stripped module. -/
def Module.written (m : Module) (sections : List (SectionId × List UInt8)) :
    List (SectionId × List UInt8) :=
  sections.map fun s => (s.1, m.stripped.payload s.2 s.1)

/-- The script writes the sections of the stripped module. -/
theorem strip_eq {bytes out : List UInt8} {rewrite : Rewrite} {m : Module}
    (hm : readModule bytes = .ok m) (hs : strip bytes = .ok (out, rewrite)) :
    ∃ ss a b, readSections bytes = .ok ss ∧ Says (pairs ss) m ∧ m.targets = [a, b] ∧
      a.1.typeIndex = b.1.typeIndex ∧ rewrite.renumber = m.renumbering ∧
      (payload? (pairs ss) .function).isSome ∧ out = encodeModule (m.written (pairs ss)) := by
  obtain ⟨ss, hsections, hsays⟩ := readModule_eq_ok.mp hm
  obtain ⟨ss', hsections', h⟩ := Lists.bind_eq_ok.mp hs
  cases hsections.symm.trans (orFormat_eq_ok.mp hsections')
  obtain ⟨rewrite', hplan, h⟩ := Lists.bind_eq_ok.mp h
  obtain ⟨rewritten, hwritten, hpure⟩ := Lists.bind_eq_ok.mp h
  cases hpure
  obtain ⟨a, b, ht, htype, rfl, hfunction⟩ := planRewrite_eq hsays hplan
  refine ⟨ss, a, b, hsections, hsays, ht, htype, rfl, hfunction, ?_⟩
  have horder := readSections_inOrder hsections
  have hall : ∀ s ∈ ss, ∀ payload, (m.plan a b).payload s = .ok payload →
      payload = m.stripped.payload s.payload s.id := fun s hmem payload =>
    payload_eq hsays ht htype fun hcustom =>
      payload?_of_find? (find?_of_inOrder horder hmem hcustom)
  rw [writeSections_eq hall (orFormat_eq_ok.mp hwritten)]
  unfold encodeModule Module.written pairs
  rw [List.map_map]
  rfl

/-! ## What was written says -/

theorem payload?_written (m : Module) (sections : List (SectionId × List UInt8))
    (id : SectionId) :
    payload? (m.written sections) id =
      (payload? sections id).map fun bytes => m.stripped.payload bytes id := by
  unfold payload? Module.written
  rw [List.find?_map, Option.map_map]
  show ((sections.find? fun s => s.1 = id).map _) = _
  cases hfind : sections.find? fun s => s.1 = id with
  | none => rfl
  | some s =>
    have hid : s.1 = id := by simpa using List.find?_some hfind
    show some (m.stripped.payload s.2 s.1) = some (m.stripped.payload s.2 id)
    rw [hid]

theorem mem_of_payload? {sections : List (SectionId × List UInt8)} {id : SectionId}
    {bytes : List UInt8} (h : payload? sections id = some bytes) : (id, bytes) ∈ sections := by
  obtain ⟨s, hs, rfl⟩ := Option.map_eq_some_iff.mp h
  have hid : s.1 = id := by simpa using List.find?_some hs
  rw [← hid]
  exact List.mem_of_find?_eq_some hs

/-- A payload of sections with sizes has one. -/
theorem length_payload_lt {m : Module} {sections : List (SectionId × List UInt8)}
    (hsize : ∀ s ∈ m.written sections, s.2.length < 2 ^ 32) {id : SectionId} {bytes : List UInt8}
    (h : payload? sections id = some bytes) : (m.stripped.payload bytes id).length < 2 ^ 32 := by
  refine hsize (id, _) (mem_of_payload? ?_)
  rw [payload?_written, h]
  rfl

theorem otherSections_written (m : Module) (sections : List (SectionId × List UInt8)) :
    otherSections (m.written sections) = otherSections sections := by
  unfold Module.written
  induction sections with
  | nil => rfl
  | cons s sections ih =>
    obtain ⟨id, bytes⟩ := s
    unfold otherSections at ih ⊢
    rw [List.map_cons, List.filter_cons, List.filter_cons, ih]
    cases id <;> rfl

section Says

variable {sections : List (SectionId × List UInt8)} {m : Module} (hm : Says sections m)

include hm

theorem functionImports_lt : m.functionImports.length < 2 ^ 32 :=
  Nat.lt_of_le_of_lt (List.length_filterMap_le _ _)
    (hm.imports.length_lt (readImport_local _).spanned)

/-- New indices can be written. -/
theorem apply_lt_two_pow {a b : FunctionImport × Nat} (ht : m.targets = [a, b]) :
    ∀ f < 2 ^ 32, m.renumbering.apply f < 2 ^ 32 := fun _ =>
  Renumbering.apply_lt (Module.renumbering_ordered ht) (Nat.le_of_lt (functionImports_lt hm))

/-- The imports are read from the bytes that they come with. -/
theorem reads_imports {i : Import × List UInt8} (hi : i ∈ m.imports) :
    Reads (readImport m.types.length) i.2 i.1 := by
  obtain ⟨bytes, hread⟩ := hm.imports.reads (readImport_local _).spanned i hi
  exact (Reads.of_spanned (readImport_local _) hread).2

/-- The type of a stub. -/
theorem reads_target {x : FunctionImport × Nat} (hx : x ∈ m.targets) :
    Reads (spanned (index m.types.length "type")) (encodeU32 x.1.typeIndex)
      (x.1.typeIndex, encodeU32 x.1.typeIndex) := by
  have hmem : x.1 ∈ m.functionImports := List.fst_mem_of_mem_zipIdx (List.mem_filter.mp hx).1
  obtain ⟨i, hi, hfunction⟩ := List.mem_filterMap.mp hmem
  obtain ⟨item, bytes⟩ := i
  cases item with
  | other item => cases hfunction
  | function item =>
    cases hfunction
    obtain ⟨hlt, hfits⟩ := typeIndex_lt (reads_imports hm hi)
    exact (reads_index hlt hfits).spanned

/-- The functions of the stripped module are read from the bytes that they come with. -/
theorem reads_functions_stripped {f : Nat × List UInt8} (hf : f ∈ m.stripped.functions) :
    Reads (spanned (index m.types.length "type")) f.2 f := by
  rcases List.mem_append.mp hf with hf | hf
  · obtain ⟨x, hx, rfl⟩ := List.mem_map.mp hf
    exact reads_target hm hx
  · obtain ⟨bytes, hread⟩ := hm.functions.reads (index_local _ _).spanned f hf
    exact (Reads.of_spanned (index_local _ _) hread).2.spanned

/-- Its bodies are read from what they are written as, if they fit. -/
theorem reads_code_stripped {g : Nat → Nat} (hg : ∀ f < 2 ^ 32, g f < 2 ^ 32) {names : List String}
    {bodies : List Body} (hcode : m.code = some bodies)
    (hsize : (encodeVector ((names.map stub ++ bodies.map (Body.renumber g)).map
      Body.encode)).length < 2 ^ 32) :
    ∀ b ∈ names.map stub ++ bodies.map (Body.renumber g), Reads readBody b.encode b := by
  intro b hb
  have hlength := length_item_le (List.mem_map_of_mem hb : b.encode ∈ _)
  rcases List.mem_append.mp hb with hb | hb
  · obtain ⟨name, _, rfl⟩ := List.mem_map.mp hb
    exact reads_stub name
  · obtain ⟨old, hold, rfl⟩ := List.mem_map.mp hb
    have hread : ∃ bytes, Reads readBody bytes old := by
      cases hpayload : payload? sections .code with
      | none => cases hcode.symm.trans (hm.code.eq_none hpayload)
      | some bytes =>
        obtain ⟨bodies', hbodies', hread⟩ := hm.code.of_some hpayload
        cases hcode.symm.trans hbodies'
        have hitems : FilledItems readBody (some bytes) bodies := hread
        exact hitems.reads readBody_local old hold
    obtain ⟨bytes, hread⟩ := hread
    refine reads_renumber_body hg hread ?_
    have hencode : (old.renumber g).encode =
        encodeU32 (old.renumber g).content.length ++ (old.renumber g).content := rfl
    rw [hencode, List.length_append] at hlength
    omega

/-- Sections of the stripped module that fit say what it is. -/
theorem says_stripped {a b : FunctionImport × Nat} (ht : m.targets = [a, b])
    (hfunction : (payload? sections .function).isSome)
    (hsize : ∀ s ∈ m.written sections, s.2.length < 2 ^ 32) :
    Says (m.written sections) m.stripped := by
  have hcount : ∀ f < m.functionCount, m.renumbering.apply f < m.functionCount := fun f =>
    Renumbering.apply_lt (Module.renumbering_ordered ht) (Nat.le_add_right _ _)
  have hbound := apply_lt_two_pow hm ht
  have hfunctions : m.stripped.functionCount = m.functionCount := Module.functionCount_stripped ht
  have hcopied : ∀ {id : SectionId}, (∀ bytes, m.stripped.payload bytes id = bytes) →
      payload? (m.written sections) id = payload? sections id := by
    intro id hid
    rw [payload?_written]
    cases payload? sections id with
    | none => rfl
    | some bytes => exact congrArg some (hid bytes)
  constructor
  case types =>
    rw [hcopied fun _ => rfl]
    exact hm.types
  case imports =>
    rw [payload?_written]
    refine FilledItems.of_map (fun hnone => ?_) fun bytes h => ?_
    · rw [Module.stripped_imports, hm.imports.eq_nil hnone]
      rfl
    · exact reads_encodeVector (name_productive.bind _).spanned (fun i hi =>
        (reads_imports hm (List.mem_of_mem_filter hi)).spanned) (length_payload_lt hsize h)
  case functions =>
    rw [payload?_written]
    refine FilledItems.of_map (fun hnone => ?_) fun bytes h => ?_
    · rw [hnone] at hfunction
      cases hfunction
    · exact reads_encodeVector (u32_productive.checked _).spanned
        (fun f hf => reads_functions_stripped hm hf) (length_payload_lt hsize h)
  case exports =>
    rw [payload?_written, hfunctions]
    refine FilledItems.of_map (fun hnone => ?_) fun bytes h => ?_
    · rw [Module.stripped_exports, hm.exports.eq_nil hnone]
      rfl
    · refine reads_encodeVector (name_productive.bind _) (fun e he => ?_)
        (length_payload_lt hsize h)
      obtain ⟨old, hold, rfl⟩ := List.mem_map.mp he
      obtain ⟨_, hread⟩ := hm.exports.reads (readExport_local _) old hold
      exact reads_renumber_export hbound hcount hread
  case start =>
    rw [payload?_written, hfunctions]
    refine Filled.of_map (fun hnone => ?_) fun bytes h => ?_
    · rw [Module.stripped_start, hm.start.eq_none hnone]
      rfl
    · obtain ⟨i, hi, hread⟩ := hm.start.of_some h
      obtain ⟨hu32, hlt⟩ := index_eq_ok.mp (hread 0 [])
      have hnew : m.stripped.start = some (m.renumbering.apply i) := by
        rw [Module.stripped_start, hi]
        rfl
      refine ⟨m.renumbering.apply i, hnew, ?_⟩
      rw [Module.payload_start, hnew]
      exact reads_index (hcount i hlt) (hbound i (u32_lt hu32))
  case elements =>
    rw [payload?_written]
    refine FilledItems.of_map (fun hnone => ?_) fun bytes h => ?_
    · rw [Module.stripped_elements, hm.elements.eq_nil hnone]
      rfl
    · refine reads_encodeVector ((u32_productive.checked _).bind _) (fun s hs => ?_)
        (length_payload_lt hsize h)
      obtain ⟨old, hold, rfl⟩ := List.mem_map.mp hs
      obtain ⟨_, hread⟩ := hm.elements.reads readElementSegment_local old hold
      exact reads_renumber_segment hbound hread
  case globals =>
    rw [hcopied fun _ => rfl]
    exact hm.globals
  case code =>
    rw [payload?_written]
    refine Filled.of_map (fun hnone => ?_) fun bytes h => ?_
    · rw [Module.stripped_code, hm.code.eq_none hnone]
      rfl
    · obtain ⟨bodies, hbodies, _⟩ := hm.code.of_some h
      have hnew : m.stripped.code = some ((m.targets.map fun x => x.1.name).map stub ++
          bodies.map (Body.renumber m.renumbering.apply)) := by
        rw [Module.stripped_code, hbodies, List.map_map]
        rfl
      have hlength := length_payload_lt hsize h
      rw [Module.payload_code, hnew] at hlength ⊢
      exact ⟨_, rfl, reads_encodeVector (u32_productive.bind _)
        (reads_code_stripped hm hbound hbodies hlength) hlength⟩
  case copied =>
    rw [otherSections_written]
    exact hm.copied

end Says

/-! ## Sizes -/

/-- The sections that the rewrite can lengthen have sizes. -/
def Module.Fits (m : Module) : Prop :=
  ∀ id ∈ [SectionId.function, .exports, .element, .code], (m.stripped.payload [] id).length < 2 ^ 32

instance (m : Module) : Decidable m.Fits :=
  inferInstanceAs (Decidable (∀ id ∈ [SectionId.function, .exports, .element, .code],
    (m.stripped.payload [] id).length < 2 ^ 32))

instance (m : Module) : Decidable m.GlobalsStay :=
  inferInstanceAs (Decidable (∀ x ∈ m.globals, ∀ f ∈ functionsOf x.init, m.renumbering.apply f = f))

theorem length_targets (m : Module) :
    (m.imports.filter fun i => i.1.isTarget).length = m.targets.length := by
  have htargets : m.targets.length = m.functionImports.countP isTarget := by
    have hzip := congrArg (List.filter isTarget) (List.zipIdx_map_fst 0 m.functionImports)
    rw [List.filter_map] at hzip
    have hlength := congrArg List.length hzip
    rw [List.length_map] at hlength
    rw [List.countP_eq_length_filter]
    exact hlength
  rw [htargets, ← List.countP_eq_length_filter]
  unfold Module.functionImports
  rw [List.countP_filterMap]
  refine List.countP_congr fun i _ => ?_
  cases i.1 with
  | function item => simp [Import.function?]
  | other item => simp [Import.function?, Import.isTarget]

/-- The import section does not grow: what goes takes more bytes than a count can. -/
theorem length_imports_le {m : Module} {a b : FunctionImport × Nat} (ht : m.targets = [a, b])
    {bytes : List UInt8}
    (hm : Reads (vector (spanned (readImport m.types.length))) bytes m.imports) :
    (encodeVector (m.stripped.imports.map Prod.snd)).length ≤ bytes.length := by
  obtain ⟨count, hcount, rfl, hall⟩ := exists_of_reads_vector_spanned (readImport_local _) hm
  have hcount_pos := List.length_pos_iff.mpr (hcount.ne_nil u32_productive)
  have hkept := m.stripped_imports
  have hfive : (encodeU32 m.stripped.imports.length).length ≤ 5 := by
    refine length_encodeU32_le_five ?_
    rw [hkept]
    exact Nat.lt_of_le_of_lt (List.length_filter_le _ _) (lt_of_reads_u32 hcount)
  have hsplit : ((m.imports.filter fun i => i.1.isTarget).flatMap Prod.snd).length +
      (m.stripped.imports.flatMap Prod.snd).length = (m.imports.flatMap Prod.snd).length := by
    rw [hkept, ← List.length_append, ← List.flatMap_append]
    exact ((List.filter_append_perm (fun i => i.1.isTarget) m.imports).flatMap_right
      Prod.snd).length_eq
  have hgone : 4 ≤ ((m.imports.filter fun i => i.1.isTarget).flatMap Prod.snd).length := by
    have hlength : (m.imports.filter fun i => i.1.isTarget).length = 2 := by
      rw [length_targets, ht]
      rfl
    obtain ⟨x, y, hxy⟩ := List.length_eq_two.mp hlength
    have hlarge : ∀ i ∈ m.imports.filter fun i => i.1.isTarget, 2 ≤ i.2.length := fun i hi =>
      two_le_length_import (hall i (List.mem_of_mem_filter hi))
    rw [hxy] at hlarge ⊢
    have hx := hlarge x List.mem_cons_self
    have hy := hlarge y (List.mem_cons_of_mem x List.mem_cons_self)
    rw [List.flatMap_cons, List.flatMap_singleton, List.length_append]
    omega
  unfold encodeVector
  rw [List.length_map, ← List.flatMap_def, List.length_append, List.length_append]
  omega

/-- The rewritten sections have sizes if and only if those do that the rewrite can lengthen. -/
theorem sizes_written_iff {ss : List Section} {m : Module} {a b : FunctionImport × Nat}
    (horder : InOrder (-1) (ss.map Section.id)) (hold : ∀ s ∈ ss, s.payload.length < 2 ^ 32)
    (hm : Says (pairs ss) m) (ht : m.targets = [a, b])
    (hfunction : (payload? (pairs ss) .function).isSome) :
    (∀ s ∈ m.written (pairs ss), s.2.length < 2 ^ 32) ↔ m.Fits := by
  have hone : (encodeVector []).length < 2 ^ 32 := by decide +kernel
  constructor
  · intro h
    -- a section that is not there has nothing to write
    have habsent : ∀ {id : SectionId}, (payload? (pairs ss) id = none →
        m.stripped.payload [] id = encodeVector []) → (∀ bytes,
        m.stripped.payload bytes id = m.stripped.payload [] id) →
        (m.stripped.payload [] id).length < 2 ^ 32 := by
      intro id hnone hsame
      cases hpayload : payload? (pairs ss) id with
      | none =>
        rw [hnone hpayload]
        exact hone
      | some bytes =>
        rw [← hsame bytes]
        exact length_payload_lt h hpayload
    intro id hid
    simp only [List.mem_cons, List.not_mem_nil, or_false] at hid
    rcases hid with rfl | rfl | rfl | rfl
    · refine habsent (fun hnone => ?_) fun _ => rfl
      rw [hnone] at hfunction
      cases hfunction
    · refine habsent (fun hnone => ?_) fun _ => rfl
      show encodeVector (m.stripped.exports.map Export.encode) = _
      rw [Module.stripped_exports, hm.exports.eq_nil hnone]
      rfl
    · refine habsent (fun hnone => ?_) fun _ => rfl
      show encodeVector (m.stripped.elements.map ElementSegment.encode) = _
      rw [Module.stripped_elements, hm.elements.eq_nil hnone]
      rfl
    · refine habsent (fun hnone => ?_) fun _ => rfl
      rw [Module.payload_code, Module.stripped_code, hm.code.eq_none hnone]
      rfl
  · intro h s hs
    obtain ⟨pair, hpair, rfl⟩ := List.mem_map.mp hs
    obtain ⟨t, ht', rfl⟩ := List.mem_map.mp hpair
    have hthere : t.id ≠ .custom → payload? (pairs ss) t.id = some t.payload := fun hcustom =>
      payload?_of_find? (find?_of_inOrder horder ht' hcustom)
    show (m.stripped.payload t.payload t.id).length < 2 ^ 32
    cases hid : t.id with
    | imports =>
      rw [hid] at hthere
      have himports := hm.imports.of_some (hthere (by decide))
      exact Nat.lt_of_le_of_lt (length_imports_le ht himports) (hold t ht')
    | start =>
      rw [hid] at hthere
      obtain ⟨i, hi, hread⟩ := hm.start.of_some (hthere (by decide))
      obtain ⟨hu32, _⟩ := index_eq_ok.mp (hread 0 [])
      have hbound := apply_lt_two_pow hm ht i (u32_lt hu32)
      have hnew : m.stripped.payload t.payload .start =
          encodeU32 (m.renumbering.apply i) := by
        rw [Module.payload_start, Module.stripped_start, hi]
        rfl
      rw [hnew]
      have hfive := length_encodeU32_le_five hbound
      omega
    | function => exact h .function (by decide)
    | exports => exact h .exports (by decide)
    | element => exact h .element (by decide)
    | code => exact h .code (by decide)
    | _ => exact hold t ht'

/-! ## Preservation -/

/-- A module that `strip` accepts is preserved if and only if it has a code section, its globals
name no function that moves, and the sections that grow still have sizes. -/
theorem strip_preserves_iff {bytes out : List UInt8} {rewrite : Rewrite} {m : Module}
    (hm : readModule bytes = .ok m) (hs : strip bytes = .ok (out, rewrite)) :
    (∃ m', readModule out = .ok m' ∧ Preserves rewrite.renumber m m') ↔
      m.code.isSome ∧ m.GlobalsStay ∧ m.Fits := by
  obtain ⟨ss, a, b, hsections, hsays, ht, _, hrenumber, hfunction, rfl⟩ := strip_eq hm hs
  have hsizes := sizes_written_iff (readSections_inOrder hsections) (sizes_of_sections hsections)
    hsays ht hfunction
  rw [hrenumber]
  -- what can be read of the result is the stripped module
  have hread : m.Fits → readModule (encodeModule (m.written (pairs ss))) = .ok m.stripped := by
    intro hfits
    have horder : InOrder (-1) ((m.written (pairs ss)).map Prod.fst) := by
      have hids : (m.written (pairs ss)).map Prod.fst = ss.map Section.id := by
        unfold Module.written pairs
        rw [List.map_map, List.map_map]
        rfl
      rw [hids]
      exact readSections_inOrder hsections
    obtain ⟨ss', hsections', hpairs⟩ := readSections_encode horder (hsizes.mpr hfits)
    have hsame : pairs ss' = m.written (pairs ss) := hpairs
    refine readModule_eq_ok.mpr ⟨ss', hsections', ?_⟩
    rw [hsame]
    exact says_stripped hsays ht hfunction (hsizes.mpr hfits)
  constructor
  · rintro ⟨m', hm', hpreserves⟩
    obtain ⟨ss', hsections', _⟩ := readModule_eq_ok.mp hm'
    have hfits := hsizes.mp (sizes_of_readSections hsections')
    cases hm'.symm.trans (hread hfits)
    obtain ⟨hcode, hstay⟩ := (preserves_stripped_iff ht).mp hpreserves
    exact ⟨hcode, hstay, hfits⟩
  · rintro ⟨hcode, hstay, hfits⟩
    exact ⟨m.stripped, hread hfits, (preserves_stripped_iff ht).mpr ⟨hcode, hstay⟩⟩

/-- A module that imports the two functions and `fd_write`, which its own function calls; and a
global of this type, with this initialiser. -/
def sample (type : UInt8) (init : List UInt8) : List UInt8 :=
  let imported (name : String) : List UInt8 := encodeName TARGET_MODULE ++ encodeName name ++ [0, 0]
  encodeModule
    [(.type, encodeVector [[0x60, 0x02, 0x7F, 0x7F, 0x01, 0x7F]]),
      (.imports, encodeVector
        [imported "environ_get", imported "environ_sizes_get", imported "fd_write"]),
      (.function, encodeVector [[0x00]]),
      (.global, encodeVector [[type, 0x00] ++ init]),
      (.exports, encodeVector [encodeName "run" ++ [0x00, 0x03]]),
      (.code, encodeVector [[0x08, 0x00, 0x20, 0x00, 0x20, 0x01, 0x10, 0x02, 0x0B]])]

/-- What it says. -/
def sampleContent (type : ValType) (init : List Instr) : Module where
  types := [⟨[.i32, .i32], [.i32]⟩]
  imports := ["environ_get", "environ_sizes_get", "fd_write"].map fun name =>
    (.function ⟨TARGET_MODULE, name, 0⟩, encodeName TARGET_MODULE ++ encodeName name ++ [0, 0])
  functions := [(0, [0x00])]
  exports := [⟨"run", .func, 3⟩]
  start := none
  elements := []
  globals := [⟨type, .const, init⟩]
  code := some [⟨[0x00],
    [⟨0x20, [0x20], [.other [0x00]]⟩, ⟨0x20, [0x20], [.other [0x01]]⟩,
      ⟨0x10, [0x10], [.function 2]⟩, ⟨0x0B, [0x0B], []⟩]⟩]
  copied := []

/-- What is written for it: `fd_write` is function 0, and the stubs are functions 1 and 2. -/
def sampleStripped (type : UInt8) (init : List UInt8) : List UInt8 :=
  encodeModule
    [(.type, encodeVector [[0x60, 0x02, 0x7F, 0x7F, 0x01, 0x7F]]),
      (.imports, encodeVector [encodeName TARGET_MODULE ++ encodeName "fd_write" ++ [0, 0]]),
      (.function, encodeVector [[0x00], [0x00], [0x00]]),
      (.global, encodeVector [[type, 0x00] ++ init]),
      (.exports, encodeVector [encodeName "run" ++ [0x00, 0x03]]),
      (.code, encodeVector [stubBody "environ_get", stubBody "environ_sizes_get",
        [0x08, 0x00, 0x20, 0x00, 0x20, 0x01, 0x10, 0x00, 0x0B]])]

/-- The plan for it. -/
def samplePlan : Rewrite where
  imports :=
    { payload := encodeVector [encodeName TARGET_MODULE ++ encodeName "fd_write" ++ [0, 0]]
      imported := 3
      removed := (⟨0, "environ_get"⟩, ⟨1, "environ_sizes_get"⟩)
      stubType := 0 }
  renumber := ⟨3, (0, 1)⟩
  typeCount := 1
  functionCount := 4

/-- With a global that is 0, the module is preserved. -/
theorem strip_preserves_iff_number :
    strip (sample 0x7F [0x41, 0x00, 0x0B]) =
        .ok (sampleStripped 0x7F [0x41, 0x00, 0x0B], samplePlan) ∧
      ∃ m', readModule (sampleStripped 0x7F [0x41, 0x00, 0x0B]) = .ok m' ∧
        Preserves samplePlan.renumber
          (sampleContent .i32 [⟨0x41, [0x41], [.other [0x00]]⟩, ⟨0x0B, [0x0B], []⟩]) m' := by
  have hs : strip (sample 0x7F [0x41, 0x00, 0x0B]) =
      .ok (sampleStripped 0x7F [0x41, 0x00, 0x0B], samplePlan) := by decide +kernel
  have hm : readModule (sample 0x7F [0x41, 0x00, 0x0B]) =
      .ok (sampleContent .i32 [⟨0x41, [0x41], [.other [0x00]]⟩, ⟨0x0B, [0x0B], []⟩]) := by
    decide +kernel
  exact ⟨hs, (strip_preserves_iff hm hs).mpr ⟨rfl, by decide, by decide +kernel⟩⟩

/-- With a global that is `fd_write`, the module is not: the global of the result is the stub of
`environ_sizes_get`. -/
theorem strip_shifts_global :
    readModule (sample 0x70 [0xD2, 0x02, 0x0B]) =
        .ok (sampleContent .funcref [⟨0xD2, [0xD2], [.function 2]⟩, ⟨0x0B, [0x0B], []⟩]) ∧
      strip (sample 0x70 [0xD2, 0x02, 0x0B]) =
        .ok (sampleStripped 0x70 [0xD2, 0x02, 0x0B], samplePlan) ∧
      ¬ ∃ m', readModule (sampleStripped 0x70 [0xD2, 0x02, 0x0B]) = .ok m' ∧
        Preserves samplePlan.renumber
          (sampleContent .funcref [⟨0xD2, [0xD2], [.function 2]⟩, ⟨0x0B, [0x0B], []⟩]) m' := by
  refine ⟨by decide +kernel, by decide +kernel, ?_⟩
  rintro ⟨m', hm', hpreserves⟩
  have hglobals : (readModule (sampleStripped 0x70 [0xD2, 0x02, 0x0B])).map Module.globals =
      .ok [⟨.funcref, .const, [⟨0xD2, [0xD2], [.function 2]⟩, ⟨0x0B, [0x0B], []⟩]⟩] := by
    decide +kernel
  rw [hm'] at hglobals
  have hcopied := Except.ok.inj hglobals
  have hmoved := hpreserves.globals
  rw [hcopied] at hmoved
  exact absurd hmoved (by decide)

end DcMatcher.Wasm
