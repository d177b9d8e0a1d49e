import DcMatcher.Lib.Lists
import DcMatcher.Wasm.Codec
import DcMatcher.Wasm.Module
import DcMatcher.Wasm.Rewritten

/-!
# What sections say

`readModule` looks at the payload of one section after the other. `Says` is the same relation
between payloads and content without the reader: each payload is an encoding of its part.

Results:
1. `FilledItems.unique`, `FilledItems.reads`: a payload says one thing, item by item.
2. `readModule_eq_ok`: a module is read as `m` if and only if its sections say `m`.
-/

namespace DcMatcher.Wasm

open Readers

variable {α β : Type}

/-! ## Payloads -/

/-- Sections by their ids and payloads. -/
def pairs (ss : List Section) : List (SectionId × List UInt8) := ss.map fun s => (s.id, s.payload)

/-- The payload of the first section with this id. -/
def payload? (sections : List (SectionId × List UInt8)) (id : SectionId) : Option (List UInt8) :=
  (sections.find? fun s => s.1 = id).map Prod.snd

theorem payload?_pairs (ss : List Section) (id : SectionId) :
    payload? (pairs ss) id = (ss.find? fun s => s.id = id).map Section.payload := by
  unfold payload? pairs
  rw [List.find?_map, Option.map_map]
  rfl

/-- A payload that is there is of something, and nothing is there without one. -/
def Filled (p : Read α) : Option (List UInt8) → Option α → Prop
  | none, a => a = none
  | some bytes, a => ∃ x, a = some x ∧ Reads p bytes x

/-- The items of a payload, none without one. -/
def FilledItems (p : Read α) : Option (List UInt8) → List α → Prop
  | none, as => as = []
  | some bytes, as => Reads (vector p) bytes as

section Filled

variable {p : Read α} {payload : Option (List UInt8)} {bytes : List UInt8}

theorem Filled.eq_none {a : Option α} (h : Filled p payload a) (hnone : payload = none) :
    a = none := by
  rw [hnone] at h
  exact h

theorem Filled.of_some {a : Option α} (h : Filled p payload a) (hsome : payload = some bytes) :
    ∃ x, a = some x ∧ Reads p bytes x := by
  rw [hsome] at h
  exact h

theorem FilledItems.eq_nil {as : List α} (h : FilledItems p payload as) (hnone : payload = none) :
    as = [] := by
  rw [hnone] at h
  exact h

theorem FilledItems.of_some {as : List α} (h : FilledItems p payload as)
    (hsome : payload = some bytes) : Reads (vector p) bytes as := by
  rw [hsome] at h
  exact h

theorem FilledItems.unique {as as' : List α} (h : FilledItems p payload as)
    (h' : FilledItems p payload as') : as = as' := by
  cases hpayload : payload with
  | none => rw [h.eq_nil hpayload, h'.eq_nil hpayload]
  | some bytes => exact (h.of_some hpayload).unique (h'.of_some hpayload)

/-- Each item has bytes that it was read from. -/
theorem FilledItems.reads (hp : Local p) {as : List α} (h : FilledItems p payload as) :
    ∀ a ∈ as, ∃ bytes, Reads p bytes a := by
  cases hpayload : payload with
  | none =>
    rw [h.eq_nil hpayload]
    exact fun a ha => absurd ha List.not_mem_nil
  | some bytes =>
    obtain ⟨_, xs, _, _, rfl, hall⟩ := exists_of_reads_vector hp (h.of_some hpayload)
    exact List.forall_mem_map.mpr fun x hx => ⟨x.2, hall x hx⟩

theorem FilledItems.length_lt (hp : Local p) {as : List α} (h : FilledItems p payload as) :
    as.length < 2 ^ 32 := by
  cases hpayload : payload with
  | none =>
    rw [h.eq_nil hpayload]
    exact Nat.two_pow_pos 32
  | some bytes => exact (vector_eq_ok hp (h.of_some hpayload 0 [])).1

/-- Items under a new payload. -/
theorem FilledItems.of_map {f : List UInt8 → List UInt8} {as : List α}
    (hnone : payload = none → as = [])
    (hsome : ∀ bytes, payload = some bytes → Reads (vector p) (f bytes) as) :
    FilledItems p (payload.map f) as := by
  cases payload with
  | none => exact hnone rfl
  | some bytes => exact hsome bytes rfl

theorem Filled.of_map {f : List UInt8 → List UInt8} {a : Option α}
    (hnone : payload = none → a = none)
    (hsome : ∀ bytes, payload = some bytes → ∃ x, a = some x ∧ Reads p (f bytes) x) :
    Filled p (payload.map f) a := by
  cases payload with
  | none => exact hnone rfl
  | some bytes => exact hsome bytes rfl

end Filled

theorem sectionItems_eq_ok {p : Read α} (hp : Local p) {ss : List Section} {id : SectionId}
    {as : List α} :
    sectionItems ss id p = .ok as ↔ FilledItems p (payload? (pairs ss) id) as := by
  rw [payload?_pairs]
  unfold sectionItems
  cases ss.find? fun s => s.id = id with
  | none =>
    show Except.ok [] = _ ↔ as = []
    rw [Except.ok.injEq, eq_comm]
  | some s => exact items_eq_ok hp

theorem readStart_eq_ok {ss : List Section} {count : Nat} {start : Option Nat} :
    readStart ss count = .ok start ↔
      Filled (index count "function") (payload? (pairs ss) .start) start := by
  rw [payload?_pairs]
  unfold readStart
  cases ss.find? fun s => s.id = .start with
  | none =>
    show Except.ok none = _ ↔ start = none
    rw [Except.ok.injEq, eq_comm]
  | some s =>
    show Except.map some (evaluate _ s.reader) = _ ↔ ∃ i, start = some i ∧ _
    rw [Lists.map_eq_ok]
    simp only [evaluate_filled (index_local count "function")]
    constructor
    · rintro ⟨i, hi, rfl⟩
      exact ⟨i, rfl, hi⟩
    · rintro ⟨i, rfl, hi⟩
      exact ⟨i, hi, rfl⟩

theorem readCode_eq_ok {ss : List Section} {code : Option (List Body)} :
    readCode ss = .ok code ↔ Filled (vector readBody) (payload? (pairs ss) .code) code := by
  rw [payload?_pairs]
  unfold readCode
  cases ss.find? fun s => s.id = .code with
  | none =>
    show Except.ok none = _ ↔ code = none
    rw [Except.ok.injEq, eq_comm]
  | some s =>
    show Except.map some (s.items readBody) = _ ↔ ∃ bodies, code = some bodies ∧ _
    rw [Lists.map_eq_ok]
    simp only [items_eq_ok readBody_local]
    constructor
    · rintro ⟨bodies, hbodies, rfl⟩
      exact ⟨bodies, rfl, hbodies⟩
    · rintro ⟨bodies, rfl, hbodies⟩
      exact ⟨bodies, hbodies, rfl⟩

/-- The sections whose content is not read. -/
def otherSections (sections : List (SectionId × List UInt8)) : List (SectionId × List UInt8) :=
  sections.filter fun s => s.1 ∉ CONTENT_SECTIONS

theorem copiedSections_eq (ss : List Section) : copiedSections ss = otherSections (pairs ss) := by
  unfold copiedSections otherSections pairs
  rw [List.filter_map]
  rfl

/-! ## Content -/

/-- The sections are an encoding of `m`. -/
structure Says (sections : List (SectionId × List UInt8)) (m : Module) : Prop where
  types : FilledItems readSignature (payload? sections .type) m.types
  imports : FilledItems (spanned (readImport m.types.length)) (payload? sections .imports) m.imports
  functions : FilledItems (spanned (index m.types.length "type")) (payload? sections .function)
    m.functions
  exports : FilledItems (readExport m.functionCount) (payload? sections .exports) m.exports
  start : Filled (index m.functionCount "function") (payload? sections .start) m.start
  elements : FilledItems readElementSegment (payload? sections .element) m.elements
  globals : FilledItems readGlobal (payload? sections .global) m.globals
  code : Filled (vector readBody) (payload? sections .code) m.code
  copied : m.copied = otherSections sections

/-- A module is read as what its sections say. -/
theorem readModule_eq_ok {bytes : List UInt8} {m : Module} :
    readModule bytes = .ok m ↔ ∃ ss, readSections bytes = .ok ss ∧ Says (pairs ss) m := by
  unfold readModule
  constructor
  · intro h
    obtain ⟨ss, hsections, h⟩ := Lists.bind_eq_ok.mp h
    obtain ⟨types, htypes, h⟩ := Lists.bind_eq_ok.mp h
    obtain ⟨imports, himports, h⟩ := Lists.bind_eq_ok.mp h
    obtain ⟨functions, hfunctions, h⟩ := Lists.bind_eq_ok.mp h
    obtain ⟨exports, hexports, h⟩ := Lists.bind_eq_ok.mp h
    obtain ⟨start, hstart, h⟩ := Lists.bind_eq_ok.mp h
    obtain ⟨elements, helements, h⟩ := Lists.bind_eq_ok.mp h
    obtain ⟨globals, hglobals, h⟩ := Lists.bind_eq_ok.mp h
    obtain ⟨code, hcode, h⟩ := Lists.bind_eq_ok.mp h
    cases h
    exact ⟨ss, hsections,
      { types := (sectionItems_eq_ok readSignature_local).mp htypes
        imports := (sectionItems_eq_ok (readImport_local _).spanned).mp himports
        functions := (sectionItems_eq_ok (index_local _ _).spanned).mp hfunctions
        exports := (sectionItems_eq_ok (readExport_local _)).mp hexports
        start := readStart_eq_ok.mp hstart
        elements := (sectionItems_eq_ok readElementSegment_local).mp helements
        globals := (sectionItems_eq_ok readGlobal_local).mp hglobals
        code := readCode_eq_ok.mp hcode
        copied := copiedSections_eq ss }⟩
  · rintro ⟨ss, hsections, h⟩
    have hcopied : m.copied = copiedSections ss := h.copied.trans (copiedSections_eq ss).symm
    refine Lists.bind_eq_ok.mpr ⟨ss, hsections, ?_⟩
    refine Lists.bind_eq_ok.mpr ⟨_, (sectionItems_eq_ok readSignature_local).mpr h.types, ?_⟩
    refine Lists.bind_eq_ok.mpr
      ⟨_, (sectionItems_eq_ok (readImport_local _).spanned).mpr h.imports, ?_⟩
    refine Lists.bind_eq_ok.mpr
      ⟨_, (sectionItems_eq_ok (index_local _ _).spanned).mpr h.functions, ?_⟩
    refine Lists.bind_eq_ok.mpr ⟨_, (sectionItems_eq_ok (readExport_local _)).mpr h.exports, ?_⟩
    refine Lists.bind_eq_ok.mpr ⟨_, readStart_eq_ok.mpr h.start, ?_⟩
    refine Lists.bind_eq_ok.mpr
      ⟨_, (sectionItems_eq_ok readElementSegment_local).mpr h.elements, ?_⟩
    refine Lists.bind_eq_ok.mpr ⟨_, (sectionItems_eq_ok readGlobal_local).mpr h.globals, ?_⟩
    refine Lists.bind_eq_ok.mpr ⟨_, readCode_eq_ok.mpr h.code, ?_⟩
    rw [← hcopied]
    rfl

end DcMatcher.Wasm
