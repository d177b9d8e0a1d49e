import DcMatcher.Wasm.Binary

/-!
# Removing the environment imports

`scripts/strip_wasi_environ.py`: `strip` replaces the two `wasi_snapshot_preview1` imports that
the start-up code of a module calls by local functions, and renumbers the function indices that
its sections hold.
-/

namespace DcMatcher.Wasm

open Readers

def TARGET_MODULE : String := "wasi_snapshot_preview1"

def TARGET_FIELDS : List String := ["environ_get", "environ_sizes_get"]

/-- Why a module was refused: `WasmFormatError` or `StripError`. -/
inductive Refusal
  | format (error : WasmFormatError)
  | shape (message : String)
deriving DecidableEq, Repr

/-- A failure to read is one to strip. -/
def orFormat {α : Type} : Except WasmFormatError α → Except Refusal α
  | .ok a => .ok a
  | .error e => .error (.format e)

/-! ## Instructions -/

/-- `Immediate`: how an instruction encodes one immediate operand. -/
inductive Immediate
  | u32 | function | s32 | s33 | s64 | byte | f32 | f64 | labels | valtypes
deriving DecidableEq, Repr

/-- `STEP_OVER`: the bytes of an immediate. The table of the source has no function index, and
none is looked up in it. -/
def STEP_OVER : Immediate → Read Unit
  | .u32 | .function => do
    let _ ← u32
    return ()
  | .s32 => do
    let _ ← s32
    return ()
  | .s33 => do
    let _ ← s33
    return ()
  | .s64 => do
    let _ ← s64
    return ()
  | .byte => do
    let _ ← readValtype
    return ()
  | .f32 => do
    let _ ← raw 4
    return ()
  | .f64 => do
    let _ ← raw 8
    return ()
  | .labels => do
    let _ ← vector u32
    return ()
  | .valtypes => do
    let _ ← vector readValtype
    return ()

/-- `OPCODES`. -/
def OPCODES (opcode : Nat) : Option (List Immediate) :=
  -- unreachable, nop, else, end, return, drop, select, ref.is_null, then the comparisons,
  -- arithmetic, conversions and sign extensions
  if opcode ∈ [0x00, 0x01, 0x05, 0x0B, 0x0F, 0x1A, 0x1B, 0xD1] then some []
  else if 0x45 ≤ opcode ∧ opcode < 0xC5 then some []
  -- block, loop, if
  else if opcode ∈ [0x02, 0x03, 0x04] then some [.s33]
  -- br, br_if
  else if opcode ∈ [0x0C, 0x0D] then some [.u32]
  -- br_table
  else if opcode = 0x0E then some [.labels, .u32]
  -- call
  else if opcode = 0x10 then some [.function]
  -- call_indirect
  else if opcode = 0x11 then some [.u32, .u32]
  -- select t*
  else if opcode = 0x1C then some [.valtypes]
  -- local.get/set/tee, global.get/set, table.get/set
  else if 0x20 ≤ opcode ∧ opcode < 0x27 then some [.u32]
  -- loads and stores
  else if 0x28 ≤ opcode ∧ opcode < 0x3F then some [.u32, .u32]
  -- memory.size, memory.grow
  else if opcode ∈ [0x3F, 0x40] then some [.u32]
  -- the constants
  else if opcode = 0x41 then some [.s32]
  else if opcode = 0x42 then some [.s64]
  else if opcode = 0x43 then some [.f32]
  else if opcode = 0x44 then some [.f64]
  -- ref.null
  else if opcode = 0xD0 then some [.byte]
  -- ref.func
  else if opcode = 0xD2 then some [.function]
  else none

def PREFIX_FC : Nat := 0xFC

/-- `FC_OPCODES`. -/
def FC_OPCODES (sub : Nat) : Option (List Immediate) :=
  -- trunc_sat
  if sub < 0x08 then some []
  -- memory.init/copy, table.init/copy
  else if sub ∈ [0x08, 0x0A, 0x0C, 0x0E] then some [.u32, .u32]
  -- data.drop, memory.fill, elem.drop, table.grow/size/fill
  else if sub ∈ [0x09, 0x0B, 0x0D, 0x0F, 0x10, 0x11] then some [.u32]
  else none

def END : Nat := 0x0B

/-- The opcodes a constant expression may hold, its final `end` aside. -/
def CONSTANT_OPCODES : List Nat := [0x41, 0x42, 0x43, 0x44, 0x23, 0xD0, 0xD2]

/-- `Renumbering`: the function indices after the rewrite. The two removed imports become the
first two defined functions; the imports after them move down. -/
structure Renumbering where
  /-- function imports before the rewrite -/
  imported : Nat
  removed : Nat × Nat
deriving DecidableEq, Repr

namespace Renumbering

/-- The removed indices, in ascending order. -/
def gone (r : Renumbering) : List Nat := [r.removed.1, r.removed.2]

/-- `Renumbering.__call__`. -/
def apply (r : Renumbering) (index : Nat) : Nat :=
  if index ∈ r.gone then r.imported - 2 + r.gone.idxOf index
  else if index < r.imported then index - (r.gone.filter fun g => g < index).length
  else index

end Renumbering

/-- `immediates_of`, after the opcode: the opcode and the immediates that follow. -/
def immediatesOf : Read (Nat × List Immediate) := do
  let opcode ← checked byte fun b =>
    if b.toNat = PREFIX_FC then .ok (b.toNat, none)
    else
      match OPCODES b.toNat with
      | some immediates => .ok (b.toNat, some immediates)
      | none => .error ("unhandled opcode " ++ hex 2 b.toNat)
  match opcode.2 with
  | some immediates => return (opcode.1, immediates)
  | none =>
    let immediates ← checked u32 fun sub =>
      match FC_OPCODES sub with
      | some immediates => .ok immediates
      | none => .error ("unhandled 0xfc sub-opcode " ++ hex 1 sub)
    return (opcode.1, immediates)

/-- The body of the loop of `copy_instruction`. -/
def copyImmediate (renumber : Renumbering) : Immediate → Read (List UInt8)
  | .function => do
    let i ← u32
    return encodeU32 (renumber.apply i)
  | immediate => do
    let operand ← spanned (STEP_OVER immediate)
    return operand.2

/-- The loop of `copy_instruction`. -/
def copyImmediates (renumber : Renumbering) : List Immediate → Read (List UInt8)
  | [] => return []
  | immediate :: immediates => do
    let operand ← copyImmediate renumber immediate
    let operands ← copyImmediates renumber immediates
    return operand ++ operands

/-- `copy_instruction`: the opcode, and what is written. -/
def copyInstruction (renumber : Renumbering) : Read (Nat × List UInt8) := do
  let head ← spanned immediatesOf
  let operands ← copyImmediates renumber head.1.2
  return (head.1.1, head.2 ++ operands)

/-- `rewrite_expression`: every instruction up to the end of the reader. -/
def rewriteExpression (renumber : Renumbering) : Read (List UInt8) := do
  let instructions ← toEnd (copyInstruction renumber)
  return instructions.flatMap Prod.snd

/-- `rewrite_constant_expression`: up to and including its `end`. -/
def rewriteConstantExpression (renumber : Renumbering) : Read (List UInt8) := do
  let instructions ← through
    (checked (copyInstruction renumber) fun instruction =>
      if instruction.1 = END ∨ instruction.1 ∈ CONSTANT_OPCODES then .ok instruction
      else .error ("opcode " ++ hex 2 instruction.1 ++ " in a constant expression"))
    fun instruction => instruction.1 = END
  return instructions.flatMap Prod.snd

/-! ## Imports -/

/-- `RemovedImport`. -/
structure RemovedImport where
  index : Nat
  name : String
deriving DecidableEq, Repr

/-- `ImportRewrite`: the import section without the two imports, and what they were. -/
structure ImportRewrite where
  payload : List UInt8
  /-- function imports before the rewrite -/
  imported : Nat
  removed : RemovedImport × RemovedImport
  /-- the type index both share -/
  stubType : Nat
deriving DecidableEq, Repr

/-- `is_target`. -/
def isTarget (item : FunctionImport) : Bool :=
  item.module == TARGET_MODULE && TARGET_FIELDS.contains item.name

/-- The variables of the loop of `rewrite_imports`. -/
structure ImportLoop where
  kept : List (List UInt8)
  removed : List (RemovedImport × Nat)
  imported : Nat

/-- The body of the loop of `rewrite_imports`, on an import and its bytes. -/
def ImportLoop.next (loop : ImportLoop) : Import × List UInt8 → ImportLoop
  | (.function item, bytes) =>
    if isTarget item then
      { loop with
        removed := loop.removed ++ [(⟨loop.imported, item.name⟩, item.typeIndex)]
        imported := loop.imported + 1 }
    else { loop with kept := loop.kept ++ [bytes], imported := loop.imported + 1 }
  | (.other _, bytes) => { loop with kept := loop.kept ++ [bytes] }

/-- `rewrite_imports`. -/
def rewriteImports (s : Section) (typeCount : Nat) : Except Refusal ImportRewrite := do
  let items ← orFormat (evaluate (do
    let items ← vector (spanned (readImport typeCount))
    expectEnd "import section"
    return items) s.reader)
  let loop := items.foldl ImportLoop.next ⟨[], [], 0⟩
  match loop.removed with
  | [(first, firstType), (second, secondType)] =>
    if firstType ≠ secondType then .error (.shape "expected both imports to share one type index")
    else .ok ⟨encodeVector loop.kept, loop.imported, (first, second), firstType⟩
  | removed =>
    let wanted := " and ".intercalate (TARGET_FIELDS.map fun field => TARGET_MODULE ++ "." ++ field)
    .error (.shape ("expected the imports " ++ wanted ++ ", found " ++ toString removed.length ++
      " of them"))

/-! ## Bodies and segments -/

/-- The expressions of the stubs, by the name of the import. -/
def stubExpression (name : String) : List UInt8 :=
  if name = "environ_sizes_get" then
    [0x20, 0x00,  -- local.get 0
      0x41, 0x00,  -- i32.const 0
      0x36, 0x02, 0x00,  -- i32.store align=2 offset=0
      0x20, 0x01,  -- local.get 1
      0x41, 0x00,  -- i32.const 0
      0x36, 0x02, 0x00,  -- i32.store align=2 offset=0
      0x41, 0x00,  -- i32.const 0
      0x0B]  -- end
  else
    [0x41, 0x00,  -- i32.const 0
      0x0B]  -- end

/-- `stub_body`. -/
def stubBody (name : String) : List UInt8 :=
  let body := encodeU32 0 ++ stubExpression name
  encodeU32 body.length ++ body

/-- `read_local_group`. -/
def readLocalGroup : Read Unit := do
  let _ ← u32
  let _ ← readValtype
  return ()

/-- `renumber_body`. -/
def renumberBody (renumber : Renumbering) : Read (List UInt8) := do
  let size ← u32
  let body ← take size
  let rewritten ← within body (do
    let locals ← spanned (vector readLocalGroup)
    let expression ← rewriteExpression renumber
    return locals.2 ++ expression)
  return encodeU32 rewritten.length ++ rewritten

/-- `renumber_element_segment`. -/
def renumberElementSegment (renumber : Renumbering) : Read (List UInt8) := do
  let flags ← checked u32 fun flags =>
    if flags ≠ 0 then
      .error ("element segment flags " ++ toString flags ++ "; only 0 is handled")
    else .ok flags
  let offset ← rewriteConstantExpression renumber
  let functions ← vector u32
  return encodeU32 flags ++ offset ++
    encodeVector (functions.map fun f => encodeU32 (renumber.apply f))

/-! ## Sections -/

/-- `Rewrite`: what every section rewrite shares. -/
structure Rewrite where
  imports : ImportRewrite
  renumber : Renumbering
  typeCount : Nat
  functionCount : Nat
deriving DecidableEq, Repr

namespace Rewrite

variable (rewrite : Rewrite)

/-- `Rewrite.function_section`: the stubs' type twice, ahead of the defined functions' types. -/
def functionSection (s : Section) : Except WasmFormatError (List UInt8) :=
  evaluate (do
    let count ← u32
    let types ← spanned (many (index rewrite.typeCount "type") count)
    expectEnd "function section"
    let stub := encodeU32 rewrite.imports.stubType
    return encodeU32 (count + 2) ++ (stub ++ stub) ++ types.2) s.reader

/-- An export, written back. -/
def writeExport (e : Export) : List UInt8 :=
  encodeName e.name ++ [e.kind.value] ++
    encodeU32 (if e.kind = .func then rewrite.renumber.apply e.index else e.index)

/-- `Rewrite.export_section`. -/
def exportSection (s : Section) : Except WasmFormatError (List UInt8) := do
  let exports ← s.items (readExport rewrite.functionCount)
  return encodeVector (exports.map rewrite.writeExport)

/-- `Rewrite.start_section`. -/
def startSection (s : Section) : Except WasmFormatError (List UInt8) :=
  evaluate (do
    let start ← index rewrite.functionCount "function"
    expectEnd "start section"
    return encodeU32 (rewrite.renumber.apply start)) s.reader

/-- `Rewrite.element_section`. -/
def elementSection (s : Section) : Except WasmFormatError (List UInt8) := do
  let segments ← s.items (renumberElementSegment rewrite.renumber)
  return encodeVector segments

/-- `Rewrite.code_section`. -/
def codeSection (s : Section) : Except WasmFormatError (List UInt8) := do
  let removed := rewrite.imports.removed
  let stubs := [stubBody removed.1.name, stubBody removed.2.name]
  let bodies ← s.items (renumberBody rewrite.renumber)
  return encodeVector (stubs ++ bodies)

/-- `Rewrite.payload`. -/
def payload (s : Section) : Except WasmFormatError (List UInt8) :=
  match s.id with
  | .imports => .ok rewrite.imports.payload
  | .function => rewrite.functionSection s
  | .exports => rewrite.exportSection s
  | .start => rewrite.startSection s
  | .element => rewrite.elementSection s
  | .code => rewrite.codeSection s
  | _ => .ok s.payload

end Rewrite

/-- `section_with`. -/
def sectionWith (sections : List Section) (id : SectionId) : Except Refusal Section :=
  match sections.find? fun s => s.id = id with
  | some s => .ok s
  | none => .error (.shape ("the module has no " ++ id.name ++ " section"))

/-- `plan_rewrite`. -/
def planRewrite (sections : List Section) : Except Refusal Rewrite := do
  let types ← orFormat (sectionItems sections .type readSignature)
  let importSection ← sectionWith sections .imports
  let imports ← rewriteImports importSection types.length
  let functionSection ← sectionWith sections .function
  let defined ← orFormat (evaluate u32 functionSection.reader)
  return { imports := imports
           renumber := ⟨imports.imported, (imports.removed.1.index, imports.removed.2.index)⟩
           typeCount := types.length
           functionCount := imports.imported + defined }

/-- The sections of the result, one after the other. -/
def writeSections (rewrite : Rewrite) : List Section → Except WasmFormatError (List UInt8)
  | [] => .ok []
  | s :: sections => do
    let payload ← rewrite.payload s
    let rest ← writeSections rewrite sections
    return encodeSection s.id payload ++ rest

/-- `strip`: the module with both imports replaced by stubs, and the rewrite that made it. -/
def strip (module : List UInt8) : Except Refusal (List UInt8 × Rewrite) := do
  let sections ← orFormat (readSections module)
  let rewrite ← planRewrite sections
  let rewritten ← orFormat (writeSections rewrite sections)
  return (MAGIC_AND_VERSION ++ rewritten, rewrite)

end DcMatcher.Wasm
