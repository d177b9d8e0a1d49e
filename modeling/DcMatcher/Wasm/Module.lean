import DcMatcher.Wasm.StripEnviron
import Mathlib.Data.Set.Function
import Mathlib.Order.Interval.Set.Defs

/-!
# What a module says

The content of a binary module, whatever integers it is encoded with: its imports, the functions
it defines, and the places that hold a function index. `readModule` reads it with the readers of
`wasm_binary.py`; the global section, which the script copies, has a reader here.

`Preserves` is the purpose of `strip`: the functions of the module keep their identity under the
new indices, the two imports apart, and each function index in the module is the new index of the
function that it named.
-/

namespace DcMatcher.Wasm

open Readers

/-! ## Content -/

/-- An operand of an instruction: a function index, or the bytes of anything else. -/
inductive Operand
  | function (index : Nat)
  | other (bytes : List UInt8)
deriving DecidableEq, Repr

/-- An instruction: its opcode, the bytes that say so, and its operands. -/
structure Instr where
  opcode : Nat
  head : List UInt8
  operands : List Operand
deriving DecidableEq, Repr

/-- An element segment of table 0. -/
structure ElementSegment where
  offset : List Instr
  functions : List Nat
deriving DecidableEq, Repr

/-- A function body: the bytes of its locals, and its instructions. -/
structure Body where
  locals : List UInt8
  instrs : List Instr
deriving DecidableEq, Repr

structure Global where
  type : ValType
  mutability : Mutability
  init : List Instr
deriving DecidableEq, Repr

/-- A module. Imports and type indices come with the bytes they were read from. -/
structure Module where
  types : List Signature
  imports : List (Import × List UInt8)
  /-- the type indices of the defined functions -/
  functions : List (Nat × List UInt8)
  exports : List Export
  start : Option Nat
  elements : List ElementSegment
  globals : List Global
  /-- the bodies of the defined functions, if there is a code section -/
  code : Option (List Body)
  /-- the other sections -/
  copied : List (SectionId × List UInt8)
deriving DecidableEq, Repr

/-- A function of a module: an import, or a type index and a body. -/
inductive Func
  | imported (item : FunctionImport)
  | defined (typeIndex : Nat) (body : Body)
deriving DecidableEq, Repr

def Import.function? : Import → Option FunctionImport
  | .function item => some item
  | .other _ => none

namespace Module

variable (m : Module)

def functionImports : List FunctionImport := m.imports.filterMap fun i => i.1.function?

def functionCount : Nat := m.functionImports.length + m.functions.length

/-- What a function index designates: the imports first, then the defined functions. -/
def function (i : Nat) : Option Func :=
  match m.functionImports[i]? with
  | some item => some (.imported item)
  | none =>
    match m.functions[i - m.functionImports.length]?,
      (m.code.getD [])[i - m.functionImports.length]? with
    | some typeIndex, some body => some (.defined typeIndex.1 body)
    | _, _ => none

end Module

/-! ## New indices -/

def Operand.renumber (g : Nat → Nat) : Operand → Operand
  | function i => function (g i)
  | other bytes => other bytes

def Instr.renumber (g : Nat → Nat) (i : Instr) : Instr :=
  { i with operands := i.operands.map (Operand.renumber g) }

def ElementSegment.renumber (g : Nat → Nat) (s : ElementSegment) : ElementSegment :=
  ⟨s.offset.map (Instr.renumber g), s.functions.map g⟩

def Body.renumber (g : Nat → Nat) (b : Body) : Body :=
  { b with instrs := b.instrs.map (Instr.renumber g) }

def Global.renumber (g : Nat → Nat) (x : Global) : Global :=
  { x with init := x.init.map (Instr.renumber g) }

def Export.renumber (g : Nat → Nat) (e : Export) : Export :=
  { e with index := if e.kind = .func then g e.index else e.index }

/-- The function indices of an expression. -/
def functionsOf (instrs : List Instr) : List Nat :=
  instrs.flatMap fun i => i.operands.filterMap fun
    | .function f => some f
    | .other _ => none

/-! ## The stubs -/

/-- The stub of an import: no locals, and the instructions of a call that stores no environment
and returns 0. -/
def stub (name : String) : Body :=
  let localGet (i : UInt8) : Instr := ⟨0x20, [0x20], [.other [i]]⟩
  let zero : Instr := ⟨0x41, [0x41], [.other [0x00]]⟩
  let store : Instr := ⟨0x36, [0x36], [.other [0x02], .other [0x00]]⟩
  let last : Instr := ⟨0x0B, [0x0B], []⟩
  if name = "environ_sizes_get" then
    ⟨[0x00], [localGet 0, zero, store, localGet 1, zero, store, zero, last]⟩
  else ⟨[0x00], [zero, last]⟩

/-- Whether an import is one of the two. -/
def Import.isTarget : Import → Bool
  | .function item => Wasm.isTarget item
  | .other _ => false

@[simp] theorem Import.isTarget_function (item : FunctionImport) :
    (Import.function item).isTarget = Wasm.isTarget item := rfl

/-- What becomes of a function: the two imports are defined by their stubs. -/
def Func.stubbed (g : Nat → Nat) : Func → Func
  | .imported item =>
    if isTarget item then .defined item.typeIndex (stub item.name) else .imported item
  | .defined typeIndex body => .defined typeIndex (body.renumber g)

/-- A module that says what `m` says, under new function indices and with the stubs for the two
imports. -/
structure Preserves (r : Renumbering) (m m' : Module) : Prop where
  /-- The indices below the function count are permuted, and those that are not removed keep
  their order. -/
  bijective : Set.BijOn r.apply (Set.Iio m.functionCount) (Set.Iio m.functionCount)
  ordered : ∀ i j, i < j → i ∉ r.gone → j ∉ r.gone → r.apply i < r.apply j
  count : m'.functionCount = m.functionCount
  /-- A function is what it was. -/
  function : ∀ i, m'.function (r.apply i) = (m.function i).map (Func.stubbed r.apply)
  imports : m'.imports = m.imports.filter fun i => !i.1.isTarget
  exports : m'.exports = m.exports.map (Export.renumber r.apply)
  start : m'.start = m.start.map r.apply
  elements : m'.elements = m.elements.map (ElementSegment.renumber r.apply)
  globals : m'.globals = m.globals.map (Global.renumber r.apply)
  types : m'.types = m.types
  copied : m'.copied = m.copied

/-! ## Writing -/

def Operand.encode : Operand → List UInt8
  | function i => encodeU32 i
  | other bytes => bytes

def Instr.encode (i : Instr) : List UInt8 := i.head ++ i.operands.flatMap Operand.encode

def ElementSegment.encode (s : ElementSegment) : List UInt8 :=
  encodeU32 0 ++ s.offset.flatMap Instr.encode ++ encodeVector (s.functions.map encodeU32)

/-- What the size of a body counts. -/
def Body.content (b : Body) : List UInt8 := b.locals ++ b.instrs.flatMap Instr.encode

def Body.encode (b : Body) : List UInt8 := encodeU32 b.content.length ++ b.content

def Export.encode (e : Export) : List UInt8 :=
  encodeName e.name ++ [e.kind.value] ++ encodeU32 e.index

/-! ## Reading -/

/-- An operand, as `copyImmediate` splits it. -/
def readOperand : Immediate → Read Operand
  | .function => do
    let i ← u32
    return .function i
  | immediate => do
    let operand ← spanned (STEP_OVER immediate)
    return .other operand.2

def readOperands : List Immediate → Read (List Operand)
  | [] => return []
  | immediate :: immediates => do
    let operand ← readOperand immediate
    let operands ← readOperands immediates
    return operand :: operands

def readInstr : Read Instr := do
  let head ← spanned immediatesOf
  let operands ← readOperands head.1.2
  return ⟨head.1.1, head.2, operands⟩

/-- An instruction of the offset of a segment. -/
def readConstantInstr : Read Instr :=
  checked readInstr fun i =>
    if i.opcode = END ∨ i.opcode ∈ CONSTANT_OPCODES then .ok i
    else .error ("opcode " ++ hex 2 i.opcode ++ " in a constant expression")

def readElementSegment : Read ElementSegment := do
  let _ ← checked u32 fun flags =>
    if flags ≠ 0 then
      .error ("element segment flags " ++ toString flags ++ "; only 0 is handled")
    else .ok flags
  let offset ← through readConstantInstr fun i => i.opcode = END
  let functions ← vector u32
  return ⟨offset, functions⟩

def readBody : Read Body := do
  let size ← u32
  let body ← take size
  within body (do
    let locals ← spanned (vector readLocalGroup)
    let instrs ← toEnd readInstr
    return ⟨locals.2, instrs⟩)

/-- `v128.const`, which can initialise a global. -/
def readVectorConstant : Read Instr := do
  let head ← spanned (do
    let _ ← byte
    checked u32 fun sub =>
      if sub = 0x0C then .ok () else .error ("unhandled 0xfd sub-opcode " ++ hex 1 sub))
  let operand ← raw 16
  return ⟨0xFD, head.2, [.other operand]⟩

/-- An instruction of an initialiser. -/
def readInitialiserInstr : Read Instr := fun r =>
  if r.rest.head? = some 0xFD then readVectorConstant r else readInstr r

def readGlobal : Read Global := do
  let type ← readValtype
  let mutability ← enum Mutability.ofValue "global mutability"
  let init ← through readInitialiserInstr fun i => i.opcode = END
  return ⟨type, mutability, init⟩

/-- The sections whose content a module has as such. -/
def CONTENT_SECTIONS : List SectionId :=
  [.type, .imports, .function, .global, .exports, .start, .element, .code]

/-- The other sections. -/
def copiedSections (sections : List Section) : List (SectionId × List UInt8) :=
  (sections.filter fun s => s.id ∉ CONTENT_SECTIONS).map fun s => (s.id, s.payload)

/-- The start function, if there is a start section. -/
def readStart (sections : List Section) (functionCount : Nat) :
    Except WasmFormatError (Option Nat) :=
  match sections.find? fun s => s.id = .start with
  | none => .ok none
  | some s =>
    (evaluate (do
      let start ← index functionCount "function"
      expectEnd "start section"
      return start) s.reader).map some

/-- The function bodies, if there is a code section. -/
def readCode (sections : List Section) : Except WasmFormatError (Option (List Body)) :=
  match sections.find? fun s => s.id = .code with
  | none => .ok none
  | some s => (s.items readBody).map some

/-- The content of a binary module. -/
def readModule (module : List UInt8) : Except WasmFormatError Module := do
  let sections ← readSections module
  let types ← sectionItems sections .type readSignature
  let imports ← sectionItems sections .imports (spanned (readImport types.length))
  let functions ← sectionItems sections .function (spanned (index types.length "type"))
  let imported := imports.filterMap fun i => i.1.function?
  let functionCount := imported.length + functions.length
  let exports ← sectionItems sections .exports (readExport functionCount)
  let start ← readStart sections functionCount
  let elements ← sectionItems sections .element readElementSegment
  let globals ← sectionItems sections .global readGlobal
  let code ← readCode sections
  return { types, imports, functions, exports, start, elements, globals, code,
           copied := copiedSections sections }

end DcMatcher.Wasm
