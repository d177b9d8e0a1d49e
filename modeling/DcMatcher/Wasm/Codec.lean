import DcMatcher.Wasm.Leb128

/-!
# Reading back the binary format

What the writers of `wasm_binary.py` write is what its readers read, wherever it stands.

Results:
1. `exists_of_reads_vector`, `reads_encodeVector`, `reads_sized`, `items_eq_ok`: vectors, sized
   contents and sections of items.
2. `readImport_local`, `readExport_local`: imports and exports are read wherever they stand.
3. `readSections_encode`, `sizes_of_readSections`, `find?_of_inOrder`: sections in the right order
   are read back if and only if their sizes fit, and each id has one.
-/

namespace DcMatcher.Wasm

open Readers

variable {α : Type}

/-! ## Bytes -/

theorem reads_byte (b : UInt8) : Reads byte [b] b := fun _ _ => rfl

theorem byte_local : Local byte := by
  rintro ⟨offset, rest⟩ a r' h
  cases rest with
  | nil => cases h
  | cons b rest =>
    cases h
    exact ⟨[a], rfl, rfl, reads_byte a⟩

theorem byte_productive : Productive byte := by
  intro offset out h
  cases h

theorem u32_productive : Productive u32 := by
  have hloop : Productive (leb128Loop 5 0 0) := byte_productive.bind _
  exact (hloop.checked _).bind _

theorem take_eq_ok {count : Nat} {r r' t : Reader} :
    take count r = .ok (t, r') ↔ count ≤ r.rest.length ∧ t = ⟨r.offset, r.rest.take count⟩ ∧
      r' = ⟨r.offset + count, r.rest.drop count⟩ := by
  unfold take
  simp only
  by_cases h : count > r.rest.length
  · rw [if_pos h]
    constructor
    · intro hok
      cases hok
    · rintro ⟨hle, _⟩
      exact absurd hle (Nat.not_le_of_gt h)
  · rw [if_neg h]
    constructor
    · intro hok
      cases hok
      exact ⟨Nat.le_of_not_gt h, rfl, rfl⟩
    · rintro ⟨_, rfl, rfl⟩
      rfl

theorem take_append {offset : Nat} {bytes tail : List UInt8} :
    take bytes.length ⟨offset, bytes ++ tail⟩ =
      .ok (⟨offset, bytes⟩, ⟨offset + bytes.length, tail⟩) := by
  rw [take_eq_ok]
  simp

theorem reads_raw (bytes : List UInt8) : Reads (raw bytes.length) bytes bytes := by
  intro offset tail
  unfold raw
  rw [bind_eq_ok]
  exact ⟨_, _, take_append, rfl⟩

theorem raw_local (count : Nat) : Local (raw count) := by
  intro r a r' h
  unfold raw at h
  obtain ⟨t, r₁, htake, hpure⟩ := bind_eq_ok.mp h
  obtain ⟨hle, rfl, rfl⟩ := take_eq_ok.mp htake
  cases pure_eq_ok.mp hpure
  have hlength : (r.rest.take count).length = count := List.length_take_of_le hle
  refine ⟨r.rest.take count, ?_, ?_, ?_⟩
  · show r = ⟨r.offset, r.rest.take count ++ r.rest.drop count⟩
    rw [List.take_append_drop]
  · show r.offset + count = _
    rw [hlength]
  · have hreads := reads_raw (r.rest.take count)
    rw [hlength] at hreads
    exact hreads

/-! ## Vectors, sized contents and sections of items -/

theorem vector_local {p : Read α} (hp : Local p) : Local (vector p) :=
  u32_local.bind fun n => hp.many n

theorem vector_map {β : Type} (p : Read α) (f : α → β) :
    vector (f <$> p) = List.map f <$> vector p := by
  unfold vector
  simp only [many_map]
  simp only [map_eq_pure_bind, bind_assoc]

/-- A count, and the items side by side. -/
theorem reads_vector {p : Read α} {xs : List (α × List UInt8)} (h : ∀ x ∈ xs, Reads p x.2 x.1)
    (hcount : xs.length < 2 ^ 32) :
    Reads (vector p) (encodeVector (xs.map Prod.snd)) (xs.map Prod.fst) := by
  have hreads := (reads_u32 hcount).bind (Reads.many h)
  unfold encodeVector
  rw [List.length_map, ← List.flatMap_def]
  exact hreads

theorem vector_eq_ok {p : Read α} (hp : Local p) {r r' : Reader} {as : List α}
    (h : vector p r = .ok (as, r')) :
    as.length < 2 ^ 32 ∧ ∃ xs : List (α × List UInt8), as = xs.map Prod.fst ∧
      ∀ x ∈ xs, Reads p x.2 x.1 := by
  obtain ⟨n, r₁, hcount, hmany⟩ := bind_eq_ok.mp h
  obtain ⟨xs, rfl, rfl, hall, _⟩ := many_eq_ok hp hmany
  rw [List.length_map]
  exact ⟨u32_lt hcount, xs, rfl, hall⟩

/-- A vector is the bytes of its count, and those of its items. -/
theorem exists_of_reads_vector {p : Read α} (hp : Local p) {bytes : List UInt8} {as : List α}
    (h : Reads (vector p) bytes as) :
    ∃ (count : List UInt8) (xs : List (α × List UInt8)), Reads u32 count xs.length ∧
      bytes = count ++ xs.flatMap Prod.snd ∧ as = xs.map Prod.fst ∧
      ∀ x ∈ xs, Reads p x.2 x.1 := by
  obtain ⟨n, r₁, hcount, hmany⟩ := bind_eq_ok.mp (h 0 [])
  obtain ⟨count, hbytes, _, hcount⟩ := u32_local _ _ _ hcount
  obtain ⟨xs, rfl, rfl, hall, hrest⟩ := many_eq_ok hp hmany
  refine ⟨count, xs, hcount, ?_, rfl, hall⟩
  have hsame := congrArg Reader.rest hbytes
  simp only [hrest, List.append_nil] at hsame
  exact hsame

/-- Items that come with their bytes. -/
theorem exists_of_reads_vector_spanned {p : Read α} (hp : Local p) {bytes : List UInt8}
    {as : List (α × List UInt8)} (h : Reads (vector (spanned p)) bytes as) :
    ∃ count : List UInt8, Reads u32 count as.length ∧ bytes = count ++ as.flatMap Prod.snd ∧
      ∀ a ∈ as, Reads p a.2 a.1 := by
  obtain ⟨count, xs, hcount, rfl, rfl, hall⟩ := exists_of_reads_vector hp.spanned h
  refine ⟨count, ?_, ?_, List.forall_mem_map.mpr fun x hx => (Reads.of_spanned hp (hall x hx)).2⟩
  · rw [List.length_map]
    exact hcount
  · rw [List.flatMap_map]
    congr 1
    exact List.flatMap_congr fun x hx => (Reads.of_spanned hp (hall x hx)).1.symm

theorem length_le_encodeVector {items : List (List UInt8)} (h : ∀ x ∈ items, x ≠ []) :
    items.length ≤ (encodeVector items).length := by
  unfold encodeVector
  rw [List.length_append]
  refine Nat.le_trans ?_ (Nat.le_add_left _ _)
  induction items with
  | nil => exact Nat.le_refl 0
  | cons x items ih =>
    obtain ⟨hx, hitems⟩ := List.forall_mem_cons.mp h
    have hpos := List.length_pos_iff.mpr hx
    have hrest := ih hitems
    rw [List.flatten_cons, List.length_append, List.length_cons]
    omega

theorem length_item_le {items : List (List UInt8)} {x : List UInt8} (h : x ∈ items) :
    x.length ≤ (encodeVector items).length := by
  unfold encodeVector
  rw [List.length_append]
  exact Nat.le_trans (List.sublist_flatten_of_mem h).length_le (Nat.le_add_left _ _)

/-- Items that are written one by one are read back, if the vector is not too large. -/
theorem reads_encodeVector {p : Read α} (hpos : Productive p) {as : List α}
    {encode : α → List UInt8} (h : ∀ a ∈ as, Reads p (encode a) a)
    (hsize : (encodeVector (as.map encode)).length < 2 ^ 32) :
    Reads (vector p) (encodeVector (as.map encode)) as := by
  have hne : ∀ x ∈ as.map encode, x ≠ [] :=
    List.forall_mem_map.mpr fun a ha => (h a ha).ne_nil hpos
  have hcount : (as.map fun a => (a, encode a)).length < 2 ^ 32 := by
    have hle := length_le_encodeVector hne
    rw [List.length_map] at hle ⊢
    exact Nat.lt_of_le_of_lt hle hsize
  have hreads := reads_vector (List.forall_mem_map.mpr h) hcount
  rw [List.map_map, List.map_map] at hreads
  have hfst : (Prod.fst ∘ fun a => (a, encode a)) = id := rfl
  have hsnd : (Prod.snd ∘ fun a => (a, encode a)) = encode := rfl
  rw [hfst, hsnd, List.map_id] at hreads
  exact hreads

theorem within_eq_ok {p : Read α} {t r r' : Reader} {a : α} :
    within t p r = .ok (a, r') ↔ (∃ t', p t = .ok (a, t')) ∧ r' = r := by
  unfold within
  cases p t with
  | error e => simp
  | ok x =>
    obtain ⟨b, t'⟩ := x
    simp [eq_comm]

theorem within_map {β : Type} (p : Read α) (f : α → β) (t : Reader) :
    within t (f <$> p) = f <$> within t p := by
  funext r
  rw [map_run]
  unfold within
  rw [map_run]
  cases p t with
  | error e => rfl
  | ok x => rfl

/-- A size, and that many bytes of content. -/
theorem reads_sized {p : Read α} {bytes : List UInt8} {a : α} (hp : ReadsAll p bytes a)
    (hsize : bytes.length < 2 ^ 32) :
    Reads (do
      let size ← u32
      let body ← take size
      within body p) (encodeU32 bytes.length ++ bytes) a := by
  refine (reads_u32 hsize).bind fun offset tail => ?_
  refine bind_eq_ok.mpr ⟨_, _, take_append, ?_⟩
  exact within_eq_ok.mpr ⟨⟨_, hp offset⟩, rfl⟩

theorem sized_local {p : Read α} (hp : Whole p) :
    Local (do
      let size ← u32
      let body ← take size
      within body p) := by
  refine u32_local.bind fun size => ?_
  intro r a r' h
  obtain ⟨t, r₁, htake, hwithin⟩ := bind_eq_ok.mp h
  obtain ⟨hle, rfl, rfl⟩ := take_eq_ok.mp htake
  obtain ⟨⟨t', hpt⟩, rfl⟩ := within_eq_ok.mp hwithin
  have hlength : (r.rest.take size).length = size := List.length_take_of_le hle
  refine ⟨r.rest.take size, ?_, ?_, fun offset tail => ?_⟩
  · show r = ⟨r.offset, r.rest.take size ++ r.rest.drop size⟩
    rw [List.take_append_drop]
  · show r.offset + size = _
    rw [hlength]
  · have htake' := @take_append offset (r.rest.take size) tail
    rw [hlength] at htake' ⊢
    refine bind_eq_ok.mpr ⟨_, _, htake', ?_⟩
    exact within_eq_ok.mpr ⟨⟨_, (hp _ _ _ hpt).2 offset⟩, rfl⟩

theorem expectEnd_eq_ok {what : String} {r r' : Reader} {u : Unit} :
    expectEnd what r = .ok (u, r') ↔ r.rest = [] ∧ r' = r := by
  obtain ⟨offset, rest⟩ := r
  cases rest with
  | nil =>
    show Except.ok ((), _) = _ ↔ _
    simp [eq_comm]
  | cons b rest =>
    constructor
    · intro h
      cases h
    · rintro ⟨h, _⟩
      cases h

theorem evaluate_eq_ok {p : Read α} {r : Reader} {a : α} :
    evaluate p r = .ok a ↔ ∃ r', p r = .ok (a, r') := by
  unfold evaluate
  cases p r with
  | error e => simp
  | ok x =>
    obtain ⟨b, r'⟩ := x
    simp

theorem evaluate_map {β : Type} (p : Read α) (f : α → β) (r : Reader) :
    evaluate (f <$> p) r = (evaluate p r).map f := by
  unfold evaluate
  rw [map_run]
  cases p r with
  | error e => rfl
  | ok x => rfl

/-- The items that fill a payload. -/
theorem evaluate_filled {p : Read α} {what : String} {r : Reader} {a : α} (hp : Local p) :
    evaluate (do
      let items ← p
      expectEnd what
      return items) r = .ok a ↔ Reads p r.rest a := by
  rw [evaluate_eq_ok]
  constructor
  · rintro ⟨r', h⟩
    obtain ⟨a', r₁, hpr, hrest⟩ := bind_eq_ok.mp h
    obtain ⟨u, r₂, hend, hpure⟩ := bind_eq_ok.mp hrest
    cases pure_eq_ok.mp hpure
    obtain ⟨bytes, hr, _, hreads⟩ := hp r a r₁ hpr
    rw [congrArg Reader.rest hr, (expectEnd_eq_ok.mp hend).1, List.append_nil]
    exact hreads
  · intro h
    have hall := h.all r.offset
    exact ⟨_, bind_eq_ok.mpr ⟨a, _, hall, bind_eq_ok.mpr ⟨(), _,
      expectEnd_eq_ok.mpr ⟨rfl, rfl⟩, rfl⟩⟩⟩

theorem items_eq_ok {p : Read α} (hp : Local p) {s : Section} {as : List α} :
    s.items p = .ok as ↔ Reads (vector p) s.payload as :=
  evaluate_filled (vector_local hp)

theorem items_map {β : Type} (p : Read α) (f : α → β) (s : Section) :
    s.items (f <$> p) = (s.items p).map (List.map f) := by
  unfold Section.items
  rw [vector_map, ← evaluate_map]
  simp only [map_eq_pure_bind, bind_assoc, pure_bind]

/-! ## Names, codes and items -/

theorem index_local (count : Nat) (what : String) : Local (index count what) := u32_local.checked

theorem index_eq_ok {count : Nat} {what : String} {r r' : Reader} {i : Nat} :
    index count what r = .ok (i, r') ↔ u32 r = .ok (i, r') ∧ i < count := by
  unfold index
  rw [checked_eq_ok]
  constructor
  · rintro ⟨a, hread, hcheck⟩
    split_ifs at hcheck with hlarge
    cases hcheck
    exact ⟨hread, Nat.lt_of_not_ge hlarge⟩
  · rintro ⟨hread, hlt⟩
    exact ⟨i, hread, if_neg (Nat.not_le_of_gt hlt)⟩

theorem reads_index {count i : Nat} {what : String} (hi : i < count) (hbound : i < 2 ^ 32) :
    Reads (index count what) (encodeU32 i) i :=
  (reads_u32 hbound).checked (if_neg (Nat.not_le_of_gt hi))

theorem name_local : Local name := u32_local.bind fun length => (raw_local length).checked

theorem reads_name {text : String} (hsize : (utf8 text).length < 2 ^ 32) :
    Reads name (encodeName text) text := by
  refine (reads_u32 hsize).bind ((reads_raw (utf8 text)).checked ?_)
  rw [ofUtf8_eq_some.mpr rfl]

/-- A name that was read can be written. -/
theorem name_size {r r' : Reader} {text : String} (h : name r = .ok (text, r')) :
    (utf8 text).length < 2 ^ 32 := by
  obtain ⟨length, r₁, hlength, hchecked⟩ := bind_eq_ok.mp h
  obtain ⟨encoded, hraw, hdecode⟩ := checked_eq_ok.mp hchecked
  split at hdecode
  · next t htext =>
    cases hdecode
    rw [ofUtf8_eq_some.mp htext]
    obtain ⟨t', r₂, htake, hpure⟩ := bind_eq_ok.mp hraw
    obtain ⟨hle, rfl, _⟩ := take_eq_ok.mp htake
    cases pure_eq_ok.mp hpure
    rw [List.length_take_of_le hle]
    exact u32_lt hlength
  · cases hdecode

theorem enum_local (kind : UInt8 → Option α) (what : String) : Local (enum kind what) :=
  byte_local.checked

theorem reads_enum {kind : UInt8 → Option α} {what : String} {code : UInt8} {member : α}
    (h : kind code = some member) : Reads (enum kind what) [code] member := by
  refine (reads_byte code).checked ?_
  rw [h]

theorem readValtype_local : Local readValtype := enum_local _ _

theorem readSignature_local : Local readSignature :=
  byte_local.checked.bind fun _ => (vector_local readValtype_local).bind fun _ =>
    (vector_local readValtype_local).map

theorem readLimits_local : Local readLimits := by
  refine byte_local.checked.bind fun flags => u32_local.bind fun _ => ?_
  split
  · exact u32_local.bind fun _ => Local.pure ()
  · exact Local.pure ()

theorem readImport_local (typeCount : Nat) : Local (readImport typeCount) := by
  refine name_local.bind fun module => name_local.bind fun field =>
    (enum_local _ _).bind fun kind => ?_
  cases kind with
  | func => exact (index_local _ _).map
  | table => exact readValtype_local.bind fun _ => readLimits_local.bind fun _ => Local.pure _
  | memory => exact readLimits_local.bind fun _ => Local.pure _
  | global => exact readValtype_local.bind fun _ => (enum_local _ _).bind fun _ => Local.pure _
  | tag => exact (enum_local _ _).bind fun _ => (index_local _ _).bind fun _ => Local.pure _

theorem name_productive : Productive name := u32_productive.bind _

/-- The type of an imported function is one that there is. -/
theorem typeIndex_lt {typeCount : Nat} {bytes : List UInt8} {item : FunctionImport}
    (h : Reads (readImport typeCount) bytes (.function item)) :
    item.typeIndex < typeCount ∧ item.typeIndex < 2 ^ 32 := by
  obtain ⟨module, r₁, _, hrest⟩ := bind_eq_ok.mp (h 0 [])
  obtain ⟨field, r₂, _, hrest⟩ := bind_eq_ok.mp hrest
  obtain ⟨kind, r₃, _, hrest⟩ := bind_eq_ok.mp hrest
  cases kind with
  | func =>
    obtain ⟨typeIndex, r₄, hindex, hpure⟩ := bind_eq_ok.mp hrest
    cases pure_eq_ok.mp hpure
    obtain ⟨hu32, hlt⟩ := index_eq_ok.mp hindex
    exact ⟨hlt, u32_lt hu32⟩
  | table =>
    obtain ⟨_, r₄, _, hrest⟩ := bind_eq_ok.mp hrest
    obtain ⟨_, r₅, _, hpure⟩ := bind_eq_ok.mp hrest
    cases pure_eq_ok.mp hpure
  | memory =>
    obtain ⟨_, r₄, _, hpure⟩ := bind_eq_ok.mp hrest
    cases pure_eq_ok.mp hpure
  | global =>
    obtain ⟨_, r₄, _, hrest⟩ := bind_eq_ok.mp hrest
    obtain ⟨_, r₅, _, hpure⟩ := bind_eq_ok.mp hrest
    cases pure_eq_ok.mp hpure
  | tag =>
    obtain ⟨_, r₄, _, hrest⟩ := bind_eq_ok.mp hrest
    obtain ⟨_, r₅, _, hpure⟩ := bind_eq_ok.mp hrest
    cases pure_eq_ok.mp hpure

/-- An import takes a byte for the name of its module, and one for its own. -/
theorem two_le_length_import {typeCount : Nat} {bytes : List UInt8} {i : Import}
    (h : Reads (readImport typeCount) bytes i) : 2 ≤ bytes.length := by
  obtain ⟨module, r₁, hmodule, hrest⟩ := bind_eq_ok.mp (h 0 [])
  obtain ⟨field, r₂, hfield, _⟩ := bind_eq_ok.mp hrest
  have hfirst := name_local.rest_lt name_productive hmodule
  have hsecond := name_local.rest_lt name_productive hfield
  rw [List.append_nil] at hfirst
  simp only at hfirst
  omega

theorem readExport_local (functionCount : Nat) : Local (readExport functionCount) := by
  refine name_local.bind fun field => (enum_local _ _).bind fun kind => ?_
  split
  · exact (index_local _ _).map
  · exact u32_local.map

/-! ## Sections -/

theorem sectionId_ofValue (id : SectionId) : SectionId.ofValue id.value = some id := by
  cases id <;> rfl

/-- The ids are in the order of `SECTION_ORDER` after a position, custom sections apart. -/
def InOrder : Int → List SectionId → Prop
  | _, [] => True
  | last, id :: ids =>
    if id = .custom then InOrder last ids
    else last < SECTION_ORDER.idxOf id ∧ InOrder (SECTION_ORDER.idxOf id) ids

theorem Local.rest_le {p : Read α} (hp : Local p) {r r' : Reader} {a : α}
    (h : p r = .ok (a, r')) : r'.rest.length ≤ r.rest.length := by
  obtain ⟨bytes, hr, _, _⟩ := hp r a r' h
  rw [congrArg Reader.rest hr, List.length_append]
  exact Nat.le_add_left _ _

theorem readSection_rest_lt {r r' : Reader} {s : Section} (h : readSection r = .ok (s, r')) :
    r'.rest.length < r.rest.length := by
  obtain ⟨id, r₁, hid, h⟩ := bind_eq_ok.mp h
  obtain ⟨size, r₂, hsize, h⟩ := bind_eq_ok.mp h
  obtain ⟨t, r₃, htake, hpure⟩ := bind_eq_ok.mp h
  cases pure_eq_ok.mp hpure
  have hlt := (enum_local _ _).rest_lt (byte_productive.checked _) hid
  have hle := Local.rest_le u32_local hsize
  obtain ⟨_, _, rfl⟩ := take_eq_ok.mp htake
  show (r₂.rest.drop size).length < _
  rw [List.length_drop]
  omega

theorem sectionStep_rest_lt (last : Int) (r : Reader) (x : Section × Int) (r' : Reader)
    (h : sectionStep last r = .ok (x, r')) : r'.rest.length < r.rest.length := by
  obtain ⟨s, hread, _⟩ := checked_eq_ok.mp h
  exact readSection_rest_lt hread

theorem encodeSection_append (id : SectionId) (payload tail : List UInt8) :
    encodeSection id payload ++ tail =
      [id.value] ++ (encodeU32 payload.length ++ (payload ++ tail)) := by
  unfold encodeSection
  rw [List.cons_append, List.append_assoc]
  rfl

/-- The header of a section, then its payload. -/
theorem readSection_encode {id : SectionId} {payload tail : List UInt8} {offset : Nat}
    (hsize : payload.length < 2 ^ 32) :
    ∃ start, readSection ⟨offset, encodeSection id payload ++ tail⟩ =
      .ok (⟨id, start, payload⟩, ⟨offset + (encodeSection id payload).length, tail⟩) := by
  have hid : Reads (enum SectionId.ofValue "section id") [id.value] id :=
    reads_enum (sectionId_ofValue id)
  have hid' := hid offset (encodeU32 payload.length ++ (payload ++ tail))
  have hsize' := reads_u32 hsize (offset + 1) (payload ++ tail)
  refine ⟨offset + 1 + (encodeU32 payload.length).length, bind_eq_ok.mpr ⟨id, _, ?_,
    bind_eq_ok.mpr ⟨_, _, hsize', bind_eq_ok.mpr ⟨_, _, take_append, ?_⟩⟩⟩⟩
  · rw [encodeSection_append]
    exact hid'
  · have hlength : offset + (encodeSection id payload).length =
        offset + 1 + (encodeU32 payload.length).length + payload.length := by
      unfold encodeSection
      rw [List.length_cons, List.length_append]
      omega
    rw [hlength]
    rfl

/-- A payload that is too large has no size. -/
theorem readSection_large {id : SectionId} {payload tail : List UInt8} {offset : Nat}
    (hsize : 2 ^ 32 ≤ payload.length) {out : Section × Reader} :
    readSection ⟨offset, encodeSection id payload ++ tail⟩ ≠ .ok out := by
  intro h
  obtain ⟨id', r₁, hid, h⟩ := bind_eq_ok.mp h
  have hread : Reads (enum SectionId.ofValue "section id") [id.value] id :=
    reads_enum (sectionId_ofValue id)
  have hid' := hread offset (encodeU32 payload.length ++ (payload ++ tail))
  rw [encodeSection_append, hid'] at hid
  cases hid
  obtain ⟨size, r₂, hu32, _⟩ := bind_eq_ok.mp h
  exact u32_refuses hsize hu32

/-- The bytes of the sections, one after the other. -/
def encodeSections (sections : List (SectionId × List UInt8)) : List UInt8 :=
  sections.flatMap fun s => encodeSection s.1 s.2

theorem encodeSections_cons (id : SectionId) (payload : List UInt8)
    (sections : List (SectionId × List UInt8)) :
    encodeSections ((id, payload) :: sections) =
      encodeSection id payload ++ encodeSections sections := rfl

/-- Sections in order are read back, if their sizes fit. -/
theorem whileRest_encode {sections : List (SectionId × List UInt8)} {last : Int} {offset : Nat}
    (horder : InOrder last (sections.map Prod.fst)) (hsize : ∀ s ∈ sections, s.2.length < 2 ^ 32) :
    ∃ ss r', whileRest sectionStep last ⟨offset, encodeSections sections⟩ = .ok (ss, r') ∧
      ss.map (fun s => (s.id, s.payload)) = sections := by
  induction sections generalizing last offset with
  | nil => exact ⟨[], _, rfl, rfl⟩
  | cons s sections ih =>
    obtain ⟨id, payload⟩ := s
    obtain ⟨hpayload, hrest⟩ := List.forall_mem_cons.mp hsize
    obtain ⟨start, hread⟩ :=
      @readSection_encode id payload (encodeSections sections) offset hpayload
    have hstep : ∃ last', sectionStep last ⟨offset, encodeSections ((id, payload) :: sections)⟩ =
        .ok ((⟨id, start, payload⟩, last'),
          ⟨offset + (encodeSection id payload).length, encodeSections sections⟩) ∧
        InOrder last' (sections.map Prod.fst) := by
      rw [List.map_cons, InOrder] at horder
      rw [encodeSections_cons]
      by_cases hcustom : id = .custom
      · rw [if_pos hcustom] at horder
        exact ⟨last, checked_eq_ok.mpr ⟨_, hread, if_pos hcustom⟩, horder⟩
      · rw [if_neg hcustom] at horder
        refine ⟨_, checked_eq_ok.mpr ⟨_, hread, ?_⟩, horder.2⟩
        rw [if_neg hcustom]
        exact if_neg (Int.not_le.mpr horder.1)
    obtain ⟨last', hstep, hlast⟩ := hstep
    obtain ⟨ss, r', hloop, hmap⟩ :=
      @ih last' (offset + (encodeSection id payload).length) hlast hrest
    refine ⟨⟨id, start, payload⟩ :: ss, r', ?_, ?_⟩
    · have hcons : encodeSections ((id, payload) :: sections) = id.value ::
          (encodeU32 payload.length ++ payload ++ encodeSections sections) := rfl
      rw [hcons] at hstep ⊢
      rw [whileRest_cons sectionStep_rest_lt]
      exact bind_eq_ok.mpr ⟨_, _, hstep, bind_eq_ok.mpr ⟨ss, r', hloop, rfl⟩⟩
    · rw [List.map_cons, hmap]

/-- Sections that are read back have sizes that fit. -/
theorem sizes_of_whileRest {sections : List (SectionId × List UInt8)} {last : Int} {offset : Nat}
    {out : List Section × Reader}
    (h : whileRest sectionStep last ⟨offset, encodeSections sections⟩ = .ok out) :
    ∀ s ∈ sections, s.2.length < 2 ^ 32 := by
  induction sections generalizing last offset out with
  | nil => exact fun s hs => absurd hs List.not_mem_nil
  | cons s sections ih =>
    obtain ⟨id, payload⟩ := s
    have hcons : encodeSections ((id, payload) :: sections) = id.value ::
        (encodeU32 payload.length ++ payload ++ encodeSections sections) := rfl
    rw [hcons, whileRest_cons sectionStep_rest_lt] at h
    obtain ⟨x, r₁, hstep, hrest⟩ := bind_eq_ok.mp h
    obtain ⟨ss, r₂, hloop, _⟩ := bind_eq_ok.mp hrest
    obtain ⟨s', hread, _⟩ := checked_eq_ok.mp hstep
    have hread' : readSection ⟨offset, encodeSection id payload ++ encodeSections sections⟩ =
        .ok (s', r₁) := hread
    have hpayload : payload.length < 2 ^ 32 := by
      by_contra hlarge
      exact readSection_large (Nat.le_of_not_lt hlarge) hread'
    obtain ⟨start, hread''⟩ :=
      @readSection_encode id payload (encodeSections sections) offset hpayload
    cases hread'.symm.trans hread''
    exact List.forall_mem_cons.mpr ⟨hpayload, ih hloop⟩

/-- Sections that are read stand in order. -/
theorem inOrder_of_whileRest {last : Int} {r : Reader} {ss : List Section} {r' : Reader}
    (h : whileRest sectionStep last r = .ok (ss, r')) : InOrder last (ss.map Section.id) := by
  obtain ⟨n, hn⟩ : ∃ n, r.rest.length ≤ n := ⟨_, Nat.le_refl _⟩
  induction n generalizing last r ss with
  | zero =>
    obtain ⟨offset, rest⟩ := r
    obtain rfl : rest = [] := List.length_eq_zero_iff.mp (Nat.le_zero.mp hn)
    cases h
    exact trivial
  | succ n ih =>
    obtain ⟨offset, rest⟩ := r
    cases rest with
    | nil =>
      cases h
      exact trivial
    | cons b bs =>
      rw [whileRest_cons sectionStep_rest_lt] at h
      obtain ⟨x, r₁, hstep, hrest⟩ := bind_eq_ok.mp h
      obtain ⟨ss', r₂, hloop, hpure⟩ := bind_eq_ok.mp hrest
      cases pure_eq_ok.mp hpure
      have hlt : r₁.rest.length < bs.length + 1 := sectionStep_rest_lt _ _ _ _ hstep
      have htail := ih hloop (Nat.le_trans (Nat.le_of_lt_succ hlt) (Nat.le_of_succ_le_succ hn))
      obtain ⟨s, _, hcheck⟩ := checked_eq_ok.mp hstep
      show InOrder last (x.1.id :: ss'.map Section.id)
      rw [InOrder]
      by_cases hcustom : s.id = .custom
      · rw [if_pos hcustom] at hcheck
        cases hcheck
        rw [if_pos hcustom]
        exact htail
      · rw [if_neg hcustom] at hcheck
        simp only at hcheck
        split_ifs at hcheck with hle
        cases hcheck
        rw [if_neg hcustom]
        exact ⟨Int.not_le.mp hle, htail⟩

theorem lt_of_inOrder {last : Int} {ids : List SectionId} (h : InOrder last ids) {id : SectionId}
    (hid : id ∈ ids) (hcustom : id ≠ .custom) : last < SECTION_ORDER.idxOf id := by
  induction ids generalizing last with
  | nil => cases hid
  | cons first ids ih =>
    rw [InOrder] at h
    by_cases hfirst : first = .custom
    · rw [if_pos hfirst] at h
      rcases List.mem_cons.mp hid with rfl | hid
      · exact absurd hfirst hcustom
      · exact ih h hid
    · rw [if_neg hfirst] at h
      rcases List.mem_cons.mp hid with rfl | hid
      · exact h.1
      · exact Int.lt_trans h.1 (ih h.2 hid)

/-- In order, a section is the only one with its id, custom sections apart. -/
theorem find?_of_inOrder {last : Int} {ss : List Section} (h : InOrder last (ss.map Section.id))
    {s : Section} (hs : s ∈ ss) (hcustom : s.id ≠ .custom) :
    ss.find? (fun t => t.id = s.id) = some s := by
  induction ss generalizing last with
  | nil => cases hs
  | cons t ss ih =>
    rcases List.mem_cons.mp hs with rfl | hs
    · exact List.find?_cons_of_pos (decide_eq_true rfl)
    have hid : s.id ∈ ss.map Section.id := List.mem_map_of_mem hs
    rw [List.map_cons, InOrder] at h
    by_cases ht : t.id = .custom
    · rw [if_pos ht] at h
      rw [List.find?_cons_of_neg (by simpa [ht] using Ne.symm hcustom)]
      exact ih h hs
    · rw [if_neg ht] at h
      have hne : t.id ≠ s.id := by
        intro heq
        have hlt := lt_of_inOrder h.2 hid hcustom
        rw [heq] at hlt
        exact Int.lt_irrefl _ hlt
      rw [List.find?_cons_of_neg (by simpa using hne)]
      exact ih h.2 hs

/-- A payload that is read has a size. -/
theorem readSection_size {r r' : Reader} {s : Section} (h : readSection r = .ok (s, r')) :
    s.payload.length < 2 ^ 32 := by
  obtain ⟨id, r₁, _, h⟩ := bind_eq_ok.mp h
  obtain ⟨size, r₂, hsize, h⟩ := bind_eq_ok.mp h
  obtain ⟨t, r₃, htake, hpure⟩ := bind_eq_ok.mp h
  cases pure_eq_ok.mp hpure
  obtain ⟨_, rfl, _⟩ := take_eq_ok.mp htake
  refine Nat.lt_of_le_of_lt ?_ (u32_lt hsize)
  exact List.length_take_le _ _

/-- A module with these sections. -/
def encodeModule (sections : List (SectionId × List UInt8)) : List UInt8 :=
  MAGIC_AND_VERSION ++ encodeSections sections

theorem readSections_encodeModule (sections : List (SectionId × List UInt8)) :
    readSections (encodeModule sections) =
      evaluate (whileRest sectionStep (-1)) ⟨8, encodeSections sections⟩ := by
  unfold readSections encodeModule
  have hmagic :
      MAGIC_AND_VERSION.isPrefixOf (MAGIC_AND_VERSION ++ encodeSections sections) = true :=
    List.isPrefixOf_iff_prefix.mpr (List.prefix_append _ _)
  rw [hmagic, List.drop_left]
  rfl

theorem readSections_inOrder {module : List UInt8} {ss : List Section}
    (h : readSections module = .ok ss) : InOrder (-1) (ss.map Section.id) := by
  unfold readSections at h
  split at h
  · cases h
  · obtain ⟨r', hloop⟩ := evaluate_eq_ok.mp h
    exact inOrder_of_whileRest hloop

theorem sizes_of_sections {module : List UInt8} {ss : List Section}
    (h : readSections module = .ok ss) : ∀ s ∈ ss, s.payload.length < 2 ^ 32 := by
  unfold readSections at h
  split at h
  · cases h
  · obtain ⟨r', hloop⟩ := evaluate_eq_ok.mp h
    refine whileRest_forall (fun last r x r' hstep => ?_) hloop
    obtain ⟨s, hread, hcheck⟩ := checked_eq_ok.mp hstep
    have hsame : x.1 = s := by
      simp only at hcheck
      split_ifs at hcheck <;> cases hcheck <;> rfl
    rw [hsame]
    exact readSection_size hread

theorem readSections_encode {sections : List (SectionId × List UInt8)}
    (horder : InOrder (-1) (sections.map Prod.fst)) (hsize : ∀ s ∈ sections, s.2.length < 2 ^ 32) :
    ∃ ss, readSections (encodeModule sections) = .ok ss ∧
      ss.map (fun s => (s.id, s.payload)) = sections := by
  obtain ⟨ss, r', hloop, hmap⟩ := @whileRest_encode sections (-1) 8 horder hsize
  rw [readSections_encodeModule]
  exact ⟨ss, evaluate_eq_ok.mpr ⟨r', hloop⟩, hmap⟩

theorem sizes_of_readSections {sections : List (SectionId × List UInt8)} {ss : List Section}
    (h : readSections (encodeModule sections) = .ok ss) : ∀ s ∈ sections, s.2.length < 2 ^ 32 := by
  rw [readSections_encodeModule] at h
  obtain ⟨r', hloop⟩ := evaluate_eq_ok.mp h
  exact sizes_of_whileRest hloop

end DcMatcher.Wasm
