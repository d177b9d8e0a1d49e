import DcMatcher.Lib.Readers
import DcMatcher.Text
import Mathlib.Algebra.Group.Nat.Defs
import Mathlib.Data.List.Basic

/-!
# The WebAssembly binary format

`scripts/wasm_binary.py`, as far as the scripts read and write modules: LEB128 integers, names,
sections, value types, function types, imports and exports. A `Reader` of the source is its
position and the bytes it still has. Where the source remembers `start = reader.offset` to name
it in an error, the check is `checked`; where it does so for `reader.since(start)`, the bytes are
those of `spanned`.
-/

namespace DcMatcher.Wasm

open Readers

/-- `WasmFormatError`. -/
abbrev WasmFormatError := ReadError

/-- `f"{n:#x}"`, with at least so many digits. -/
def hex (digits n : Nat) : String := "0x" ++ String.ofList ((Nat.toDigits 16 n).leftpad digits '0')

def MAGIC_AND_VERSION : List UInt8 := [0x00, 0x61, 0x73, 0x6D, 0x01, 0x00, 0x00, 0x00]

def FUNCTION_TYPE_FORM : Nat := 0x60

/-! ## `Reader` -/

section Reader

variable {α : Type}

/-- `Reader.byte`. -/
def byte : Read UInt8 := fun r =>
  match r.rest with
  | [] => .error ⟨r.offset, "unexpected end"⟩
  | b :: rest => .ok (b, ⟨r.offset + 1, rest⟩)

/-- `Reader.expect_end`. -/
def expectEnd (what : String) : Read Unit := fun r =>
  match r.rest with
  | [] => .ok ((), r)
  | rest => .error ⟨r.offset, toString rest.length ++ " bytes follow the " ++ what⟩

/-- `Reader.take`. -/
def take (count : Nat) : Read Reader := fun r =>
  let remaining := r.rest.length
  if count > remaining then
    .error ⟨r.offset, toString count ++ " bytes needed, " ++ toString remaining ++ " remain"⟩
  else .ok (⟨r.offset, r.rest.take count⟩, ⟨r.offset + count, r.rest.drop count⟩)

/-- `Reader.raw`. -/
def raw (count : Nat) : Read (List UInt8) := do
  let taken ← take count
  return taken.rest

/-- Reads from a reader that `take` gave. -/
def within (taken : Reader) (p : Read α) : Read α := fun r =>
  match p taken with
  | .ok (a, _) => .ok (a, r)
  | .error e => .error e

/-- The loop of `Reader._leb128`, over the bytes that may still come: the value without its sign,
the bits it took and the last byte, or nothing if no byte ends it. -/
def leb128Loop : Nat → Nat → Nat → Read (Option (Nat × Nat × UInt8))
  | 0, _, _ => return none
  | bytes + 1, shift, result => do
    let b ← byte
    let result := result ||| ((b.toNat &&& 0x7F) <<< shift)
    if b.toNat &&& 0x80 = 0 then return some (result, shift + 7, b)
    else leb128Loop bytes (shift + 7) result

/-- The sign and the range, after the loop of `Reader._leb128`. -/
def leb128Value (bits : Nat) (signed : Bool) :
    Option (Nat × Nat × UInt8) → Except String Int
  | none => .error ("LEB128 longer than " ++ toString ((bits + 6) / 7) ++ " bytes")
  | some (result, shift, last) =>
    let result : Int :=
      if signed && last.toNat &&& 0x40 ≠ 0 then (result : Int) - 2 ^ shift else result
    let low : Int := if signed then -(2 ^ (bits - 1)) else 0
    let high : Int := if signed then 2 ^ (bits - 1) else 2 ^ bits
    if low ≤ result ∧ result < high then .ok result
    else .error (toString result ++ " does not fit " ++ toString bits ++ " bits")

/-- `Reader._leb128`. -/
def leb128 (bits : Nat) (signed : Bool) : Read Int :=
  checked (leb128Loop ((bits + 6) / 7) 0 0) (leb128Value bits signed)

/-- `Reader.u32`. -/
def u32 : Read Nat := do
  let value ← leb128 32 false
  return value.toNat

/-- `Reader.s32`. -/
def s32 : Read Int := leb128 32 true

/-- `Reader.s33`: a block type. -/
def s33 : Read Int := leb128 33 true

/-- `Reader.s64`. -/
def s64 : Read Int := leb128 64 true

/-- `Reader.index`. -/
def index (count : Nat) (what : String) : Read Nat :=
  checked u32 fun value =>
    if value ≥ count then
      .error (what ++ " index " ++ toString value ++ ", the module has " ++ toString count)
    else .ok value

/-- `Reader.name`. -/
def name : Read String := do
  let length ← u32
  checked (raw length) fun encoded =>
    match ofUtf8 encoded with
    | some text => .ok text
    | none => .error "a name that is not UTF-8"

/-- `Reader.vector`. -/
def vector (readItem : Read α) : Read (List α) := do
  let count ← u32
  many readItem count

/-- `Reader.enum`, with the members by their values. -/
def enum (kind : UInt8 → Option α) (what : String) : Read α :=
  checked byte fun code =>
    match kind code with
    | some member => .ok member
    | none => .error ("unknown " ++ what ++ " " ++ hex 2 code.toNat)

end Reader

/-! ## Writing -/

/-- `encode_u32`: unsigned LEB128 in the fewest bytes. -/
def encodeU32 (value : Nat) : List UInt8 :=
  let low := value &&& 0x7F
  if value >>> 7 = 0 then [UInt8.ofNat low]
  else UInt8.ofNat (low ||| 0x80) :: encodeU32 (value >>> 7)
termination_by value
decreasing_by
  rename_i h
  rw [Nat.shiftRight_eq_div_pow] at h ⊢
  exact Nat.div_lt_self (Nat.pos_of_ne_zero fun hzero => h (by rw [hzero])) (by decide)

/-- `encode_name`. -/
def encodeName (text : String) : List UInt8 := encodeU32 (utf8 text).length ++ utf8 text

/-- `encode_vector`. -/
def encodeVector (items : List (List UInt8)) : List UInt8 :=
  encodeU32 items.length ++ items.flatten

/-! ## Sections -/

/-- `SectionId`. -/
inductive SectionId
  | custom | type | imports | function | table | memory | global | exports | start | element
  | code | data | dataCount | tag
deriving DecidableEq, Repr

namespace SectionId

def value : SectionId → UInt8
  | custom => 0
  | type => 1
  | imports => 2
  | function => 3
  | table => 4
  | memory => 5
  | global => 6
  | exports => 7
  | start => 8
  | element => 9
  | code => 10
  | data => 11
  | dataCount => 12
  | tag => 13

/-- `id.name.lower()`. -/
def name : SectionId → String
  | custom => "custom"
  | type => "type"
  | imports => "import"
  | function => "function"
  | table => "table"
  | memory => "memory"
  | global => "global"
  | exports => "export"
  | start => "start"
  | element => "element"
  | code => "code"
  | data => "data"
  | dataCount => "data_count"
  | tag => "tag"

def all : List SectionId :=
  [custom, type, imports, function, table, memory, global, exports, start, element, code, data,
    dataCount, tag]

/-- `SectionId(value)`. -/
def ofValue (value : UInt8) : Option SectionId := all.find? fun id => id.value == value

end SectionId

/-- The order the sections must appear in, each at most once. Custom sections may appear
anywhere. -/
def SECTION_ORDER : List SectionId :=
  [.type, .imports, .function, .table, .memory, .tag, .global, .exports, .start, .element,
    .dataCount, .code, .data]

/-- One section: its id, where its payload starts in the module, and the payload. -/
structure Section where
  id : SectionId
  start : Nat
  payload : List UInt8
deriving DecidableEq, Repr

/-- `Section.reader`. -/
def Section.reader (s : Section) : Reader := ⟨s.start, s.payload⟩

/-- Runs a reader, for what it reads. -/
def evaluate {α : Type} (p : Read α) (r : Reader) : Except WasmFormatError α :=
  match p r with
  | .ok (a, _) => .ok a
  | .error e => .error e

/-- `Section.items`: the items must fill the payload. -/
def Section.items {α : Type} (s : Section) (readItem : Read α) : Except WasmFormatError (List α) :=
  evaluate (do
    let items ← vector readItem
    expectEnd (s.id.name ++ " section")
    return items) s.reader

/-- `encode_section`. -/
def encodeSection (id : SectionId) (payload : List UInt8) : List UInt8 :=
  id.value :: (encodeU32 payload.length ++ payload)

/-- One section, whatever its place. -/
def readSection : Read Section := do
  let id ← enum SectionId.ofValue "section id"
  let size ← u32
  let taken ← take size
  return ⟨id, taken.offset, taken.rest⟩

/-- The body of the loop of `read_sections`, from the last position in `SECTION_ORDER`. -/
def sectionStep (lastPosition : Int) : Read (Section × Int) :=
  checked readSection fun s =>
    if s.id = .custom then .ok (s, lastPosition)
    else
      let position : Int := SECTION_ORDER.idxOf s.id
      if position ≤ lastPosition then .error (s.id.name ++ " section out of order")
      else .ok (s, position)

/-- `read_sections`. -/
def readSections (module : List UInt8) : Except WasmFormatError (List Section) :=
  if !MAGIC_AND_VERSION.isPrefixOf module then .error ⟨0, "not a WebAssembly 1.0 module"⟩
  else
    evaluate (whileRest sectionStep (-1))
      ⟨MAGIC_AND_VERSION.length, module.drop MAGIC_AND_VERSION.length⟩

/-- `section_items`. -/
def sectionItems {α : Type} (sections : List Section) (id : SectionId) (readItem : Read α) :
    Except WasmFormatError (List α) :=
  match sections.find? fun s => s.id = id with
  | none => .ok []
  | some s => s.items readItem

/-! ## Types, imports and exports -/

/-- `ValType`. -/
inductive ValType
  | i32 | i64 | f32 | f64 | v128 | funcref | externref
deriving DecidableEq, Repr

/-- `ValType(code)`. -/
def ValType.ofValue : UInt8 → Option ValType
  | 0x7F => some .i32
  | 0x7E => some .i64
  | 0x7D => some .f32
  | 0x7C => some .f64
  | 0x7B => some .v128
  | 0x70 => some .funcref
  | 0x6F => some .externref
  | _ => none

/-- `read_valtype`. -/
def readValtype : Read ValType := enum ValType.ofValue "value type"

/-- `Signature`: a function type. -/
structure Signature where
  params : List ValType
  results : List ValType
deriving DecidableEq, Repr

/-- `read_signature`. -/
def readSignature : Read Signature := do
  checked byte fun form =>
    if form.toNat ≠ FUNCTION_TYPE_FORM then
      .error ("type form " ++ hex 2 form.toNat ++ ", a function type is " ++
        hex 2 FUNCTION_TYPE_FORM)
    else .ok ()
  let params ← vector readValtype
  let results ← vector readValtype
  return ⟨params, results⟩

/-- `ExternKind`. -/
inductive ExternKind
  | func | table | memory | global | tag
deriving DecidableEq, Repr

namespace ExternKind

def value : ExternKind → UInt8
  | func => 0
  | table => 1
  | memory => 2
  | global => 3
  | tag => 4

/-- `ExternKind(code)`. -/
def ofValue : UInt8 → Option ExternKind
  | 0 => some func
  | 1 => some table
  | 2 => some memory
  | 3 => some global
  | 4 => some tag
  | _ => none

end ExternKind

/-- `FunctionImport`. -/
structure FunctionImport where
  module : String
  name : String
  typeIndex : Nat
deriving DecidableEq, Repr

/-- `OtherImport`: an imported table, memory, global or tag. -/
structure OtherImport where
  module : String
  name : String
  kind : ExternKind
deriving DecidableEq, Repr

/-- `Import`. -/
inductive Import
  | function (item : FunctionImport)
  | other (item : OtherImport)
deriving DecidableEq, Repr

/-- `read_limits`. -/
def readLimits : Read Unit := do
  let flags ← checked byte fun flags =>
    if flags.toNat > 3 then .error ("limits flags " ++ hex 2 flags.toNat) else .ok flags
  let _ ← u32
  if flags.toNat &&& 1 ≠ 0 then
    let _ ← u32
    return ()
  else return ()

/-- `Mutability`. -/
inductive Mutability
  | const | var
deriving DecidableEq, Repr

/-- `Mutability(code)`. -/
def Mutability.ofValue : UInt8 → Option Mutability
  | 0 => some .const
  | 1 => some .var
  | _ => none

/-- `TagAttribute`. -/
inductive TagAttribute
  | exception
deriving DecidableEq, Repr

/-- `TagAttribute(code)`. -/
def TagAttribute.ofValue : UInt8 → Option TagAttribute
  | 0 => some .exception
  | _ => none

/-- The rest of `read_import`, after the kind. -/
def readImportOf (typeCount : Nat) (module name : String) : ExternKind → Read Import
  | .func => do
    let typeIndex ← index typeCount "type"
    return .function ⟨module, name, typeIndex⟩
  | .table => do
    let _ ← readValtype
    readLimits
    return .other ⟨module, name, .table⟩
  | .memory => do
    readLimits
    return .other ⟨module, name, .memory⟩
  | .global => do
    let _ ← readValtype
    let _ ← enum Mutability.ofValue "global mutability"
    return .other ⟨module, name, .global⟩
  | .tag => do
    let _ ← enum TagAttribute.ofValue "tag attribute"
    let _ ← index typeCount "type"
    return .other ⟨module, name, .tag⟩

/-- `read_import`. -/
def readImport (typeCount : Nat) : Read Import := do
  let module ← name
  let field ← name
  let kind ← enum ExternKind.ofValue "import kind"
  readImportOf typeCount module field kind

/-- `Export`. -/
structure Export where
  name : String
  kind : ExternKind
  index : Nat
deriving DecidableEq, Repr

/-- `read_export`. -/
def readExport (functionCount : Nat) : Read Export := do
  let field ← name
  let kind ← enum ExternKind.ofValue "export kind"
  if kind = .func then
    let i ← index functionCount "function"
    return ⟨field, kind, i⟩
  else
    let i ← u32
    return ⟨field, kind, i⟩

end DcMatcher.Wasm
