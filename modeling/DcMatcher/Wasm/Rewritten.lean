import DcMatcher.Wasm.Codec
import DcMatcher.Wasm.Module

/-!
# What the rewrite writes

The script copies instructions, segments and bodies while it reads them. Here each copy is split
in two: reading the content, and writing it with new function indices; and what is written is
shown to be read as the content with new indices.

Results:
1. `copyInstruction_eq`, `renumberBody_eq`, `renumberElementSegment_eq`: a copy is what was read,
   renumbered and written.
2. `reads_renumber_instr`, `reads_renumber_body`, `reads_renumber_segment`,
   `reads_renumber_export`: it is read back renumbered.
3. `reads_stub`: a stub is the body it says.
-/

namespace DcMatcher.Wasm

open Readers

/-! ## Copies -/

section Copies

variable (r : Renumbering)

theorem copyImmediate_eq (immediate : Immediate) : copyImmediate r immediate =
    (fun o => (Operand.renumber r.apply o).encode) <$> readOperand immediate := by
  cases immediate <;>
  · unfold copyImmediate readOperand
    simp only [map_eq_pure_bind, bind_assoc, pure_bind]
    rfl

theorem copyImmediates_eq (immediates : List Immediate) : copyImmediates r immediates =
    (fun os => (os.map (Operand.renumber r.apply)).flatMap Operand.encode) <$>
      readOperands immediates := by
  induction immediates with
  | nil => rfl
  | cons immediate immediates ih =>
    rw [copyImmediates, readOperands, copyImmediate_eq, ih]
    simp only [map_eq_pure_bind, bind_assoc, pure_bind, List.map_cons, List.flatMap_cons]

/-- An instruction is copied as it is read, under new indices. -/
theorem copyInstruction_eq : copyInstruction r =
    (fun i : Instr => (i.opcode, (i.renumber r.apply).encode)) <$> readInstr := by
  unfold copyInstruction readInstr
  simp only [copyImmediates_eq]
  simp only [map_eq_pure_bind, bind_assoc, pure_bind]
  rfl

theorem rewriteExpression_eq : rewriteExpression r =
    (fun is => (is.map (Instr.renumber r.apply)).flatMap Instr.encode) <$> toEnd readInstr := by
  unfold rewriteExpression
  rw [copyInstruction_eq, toEnd_map]
  simp only [map_eq_pure_bind, bind_assoc, pure_bind, List.flatMap_map]

theorem rewriteConstantExpression_eq : rewriteConstantExpression r =
    (fun is => (is.map (Instr.renumber r.apply)).flatMap Instr.encode) <$>
      through readConstantInstr fun i => i.opcode = END := by
  have hinstr : (checked (copyInstruction r) fun instruction =>
      if instruction.1 = END ∨ instruction.1 ∈ CONSTANT_OPCODES then .ok instruction
      else .error ("opcode " ++ hex 2 instruction.1 ++ " in a constant expression")) =
      (fun i : Instr => (i.opcode, (i.renumber r.apply).encode)) <$> readConstantInstr := by
    unfold readConstantInstr
    rw [copyInstruction_eq, checked_map, map_checked]
    refine congrArg (checked readInstr) (funext fun i => ?_)
    by_cases hi : i.opcode = END ∨ i.opcode ∈ CONSTANT_OPCODES
    · rw [if_pos hi, if_pos hi]
      rfl
    · rw [if_neg hi, if_neg hi]
      rfl
  unfold rewriteConstantExpression
  rw [hinstr, through_map]
  simp only [map_eq_pure_bind, bind_assoc, pure_bind, List.flatMap_map]

theorem renumberBody_eq : renumberBody r =
    (fun b => (Body.renumber r.apply b).encode) <$> readBody := by
  have hcontent : (do
      let locals ← spanned (vector readLocalGroup)
      let expression ← rewriteExpression r
      return locals.2 ++ expression : Read (List UInt8)) =
      (fun b => (Body.renumber r.apply b).content) <$> (do
        let locals ← spanned (vector readLocalGroup)
        let instrs ← toEnd readInstr
        return ⟨locals.2, instrs⟩ : Read Body) := by
    rw [rewriteExpression_eq]
    simp only [map_eq_pure_bind, bind_assoc, pure_bind]
    rfl
  unfold renumberBody readBody
  rw [hcontent]
  simp only [within_map]
  simp only [map_eq_pure_bind, bind_assoc, pure_bind]
  rfl

theorem renumberElementSegment_eq : renumberElementSegment r =
    (fun s => (ElementSegment.renumber r.apply s).encode) <$> readElementSegment := by
  unfold renumberElementSegment readElementSegment
  rw [rewriteConstantExpression_eq]
  simp only [map_eq_pure_bind, bind_assoc, pure_bind]
  funext reader
  -- the flags that were not refused are 0
  refine bind_congr fun flags reader' h => ?_
  obtain ⟨value, _, hcheck⟩ := checked_eq_ok.mp h
  split_ifs at hcheck with hzero
  cases hcheck
  rw [not_not.mp hzero]
  unfold ElementSegment.renumber ElementSegment.encode
  simp only [List.map_map]
  rfl

end Copies

/-! ## Local readers -/

theorem stepOver_local (immediate : Immediate) : Local (STEP_OVER immediate) := by
  cases immediate with
  | u32 => exact u32_local.map
  | function => exact u32_local.map
  | s32 => exact (leb128_local 32 true).map
  | s33 => exact (leb128_local 33 true).map
  | s64 => exact (leb128_local 64 true).map
  | byte => exact readValtype_local.map
  | f32 => exact (raw_local 4).map
  | f64 => exact (raw_local 8).map
  | labels => exact (vector_local u32_local).map
  | valtypes => exact (vector_local readValtype_local).map

theorem immediatesOf_local : Local immediatesOf := by
  refine byte_local.checked.bind fun opcode => ?_
  split
  · exact Local.pure _
  · exact u32_local.checked.map

theorem readOperand_local (immediate : Immediate) : Local (readOperand immediate) := by
  cases immediate with
  | function => exact u32_local.map
  | _ => exact (stepOver_local _).spanned.map

theorem readOperands_local (immediates : List Immediate) : Local (readOperands immediates) := by
  induction immediates with
  | nil => exact Local.pure []
  | cons immediate immediates ih => exact (readOperand_local immediate).bind fun _ => ih.map

theorem readInstr_local : Local readInstr :=
  immediatesOf_local.spanned.bind fun _ => (readOperands_local _).map

theorem readInstr_productive : Productive readInstr :=
  ((byte_productive.checked _).bind _).spanned.bind _

theorem readConstantInstr_local : Local readConstantInstr := readInstr_local.checked

theorem readConstantInstr_productive : Productive readConstantInstr :=
  readInstr_productive.checked _

theorem readElementSegment_local : Local readElementSegment :=
  u32_local.checked.bind fun _ =>
    (Local.through readConstantInstr_local readConstantInstr_productive).bind fun _ =>
      (vector_local u32_local).map

theorem readLocalGroup_local : Local readLocalGroup :=
  u32_local.bind fun _ => readValtype_local.map

theorem readBody_local : Local readBody := by
  refine sized_local ?_
  exact (vector_local readLocalGroup_local).spanned.bindWhole fun locals =>
    (Whole.toEnd readInstr_local readInstr_productive).map

theorem readVectorConstant_local : Local readVectorConstant :=
  (byte_local.bind fun _ => u32_local.checked).spanned.bind fun _ => (raw_local 16).map

theorem readInitialiserInstr_productive : Productive readInitialiserInstr :=
  readInstr_productive

theorem readInitialiserInstr_local : Local readInitialiserInstr :=
  Local.ofHead (fun head => head = some 0xFD) readVectorConstant_local readInstr_local
    ((byte_productive.bind _).spanned.bind _) readInstr_productive

theorem readGlobal_local : Local readGlobal :=
  readValtype_local.bind fun _ => (enum_local _ _).bind fun _ =>
    (Local.through readInitialiserInstr_local readInitialiserInstr_productive).map

/-! ## Reading back -/

section Renumbered

variable {g : Nat → Nat} (hg : ∀ f < 2 ^ 32, g f < 2 ^ 32)

include hg

theorem reads_renumber_operand {immediate : Immediate} {bytes : List UInt8} {o : Operand}
    (h : Reads (readOperand immediate) bytes o) :
    Reads (readOperand immediate) (o.renumber g).encode (o.renumber g) := by
  -- anything but a function index is written as it was read
  have hother : ∀ {p : Read Unit}, Local p →
      Reads (spanned p >>= fun operand => pure (.other operand.2)) bytes o →
      Reads (spanned p >>= fun operand => pure (.other operand.2)) (o.renumber g).encode
        (o.renumber g) := by
    intro p hp h
    obtain ⟨operand, r', hspanned, hpure⟩ := bind_eq_ok.mp (h 0 [])
    cases pure_eq_ok.mp hpure
    exact ((spanned_eq_ok hp).mp hspanned).2.1.spanned.map
  cases immediate with
  | function =>
    obtain ⟨i, r', hi, hpure⟩ := bind_eq_ok.mp (h 0 [])
    cases pure_eq_ok.mp hpure
    exact (reads_u32 (hg i (u32_lt hi))).map
  | _ => exact hother (stepOver_local _) h

theorem reads_renumber_operands {immediates : List Immediate} {bytes : List UInt8}
    {os : List Operand} (h : Reads (readOperands immediates) bytes os) :
    Reads (readOperands immediates) ((os.map (Operand.renumber g)).flatMap Operand.encode)
      (os.map (Operand.renumber g)) := by
  induction immediates generalizing bytes os with
  | nil =>
    obtain rfl : os = [] := congrArg Prod.fst (pure_eq_ok.mp (h 0 []))
    exact Reads.pure []
  | cons immediate immediates ih =>
    obtain ⟨o, r₁, hfirst, hrest⟩ := bind_eq_ok.mp (h 0 [])
    obtain ⟨os', r₂, hlater, hpure⟩ := bind_eq_ok.mp hrest
    cases pure_eq_ok.mp hpure
    obtain ⟨_, _, _, hfirst⟩ := readOperand_local _ _ _ _ hfirst
    obtain ⟨_, _, _, hlater⟩ := readOperands_local _ _ _ _ hlater
    exact (reads_renumber_operand hg hfirst).bind (ih hlater).map

theorem reads_renumber_instr {bytes : List UInt8} {i : Instr} (h : Reads readInstr bytes i) :
    Reads readInstr (i.renumber g).encode (i.renumber g) := by
  obtain ⟨head, r₁, hhead, hrest⟩ := bind_eq_ok.mp (h 0 [])
  obtain ⟨os, r₂, hoperands, hpure⟩ := bind_eq_ok.mp hrest
  cases pure_eq_ok.mp hpure
  obtain ⟨_, hhead, _⟩ := (spanned_eq_ok immediatesOf_local).mp hhead
  obtain ⟨_, _, _, hoperands⟩ := readOperands_local _ _ _ _ hoperands
  exact hhead.spanned.bind (reads_renumber_operands hg hoperands).map

theorem reads_renumber_constantInstr {bytes : List UInt8} {i : Instr}
    (h : Reads readConstantInstr bytes i) :
    Reads readConstantInstr (i.renumber g).encode (i.renumber g) := by
  obtain ⟨i', hread, hcheck⟩ := checked_eq_ok.mp (h 0 [])
  split_ifs at hcheck with hconstant
  cases hcheck
  obtain ⟨_, _, _, hread⟩ := readInstr_local _ _ _ hread
  exact (reads_renumber_instr hg hread).checked (if_pos hconstant)

/-- A constant expression, whatever its reader's bytes were. -/
theorem reads_renumber_constant {r r' : Reader} {is : List Instr}
    (h : through readConstantInstr (fun i => i.opcode = END) r = .ok (is, r')) :
    Reads (through readConstantInstr fun i => i.opcode = END)
      ((is.map (Instr.renumber g)).flatMap Instr.encode) (is.map (Instr.renumber g)) := by
  obtain ⟨xs, rfl, ⟨init, last, heq, hinit, hlast⟩, hall, _⟩ :=
    through_eq_ok readConstantInstr_local h
  have hstops : Stops (fun i : Instr => i.opcode = END)
      ((xs.map fun x => (x.1.renumber g, (x.1.renumber g).encode)).map Prod.fst) := by
    refine ⟨init.map (Instr.renumber g), last.renumber g, ?_, ?_, hlast⟩
    · rw [List.map_map]
      have hmap := congrArg (List.map (Instr.renumber g)) heq
      rw [List.map_map, List.map_append] at hmap
      exact hmap
    · exact List.forall_mem_map.mpr hinit
  have hreads := reads_through readConstantInstr_productive hstops
    (List.forall_mem_map.mpr fun x hx => reads_renumber_constantInstr hg (hall x hx))
  rw [List.flatMap_map, List.map_map] at hreads
  rw [List.flatMap_map, List.flatMap_map, List.map_map]
  exact hreads

theorem reads_renumber_segment {bytes : List UInt8} {s : ElementSegment}
    (h : Reads readElementSegment bytes s) :
    Reads readElementSegment (s.renumber g).encode (s.renumber g) := by
  obtain ⟨flags, r₁, _, hrest⟩ := bind_eq_ok.mp (h 0 [])
  obtain ⟨offset, r₂, hoffset, hrest⟩ := bind_eq_ok.mp hrest
  obtain ⟨functions, r₃, hfunctions, hpure⟩ := bind_eq_ok.mp hrest
  cases pure_eq_ok.mp hpure
  obtain ⟨hcount, xs, rfl, hall⟩ := vector_eq_ok u32_local hfunctions
  have hflags : Reads (checked u32 fun flags =>
      if flags ≠ 0 then
        .error ("element segment flags " ++ toString flags ++ "; only 0 is handled")
      else .ok flags) (encodeU32 0) 0 := (reads_u32 (by decide)).checked rfl
  have hvector : Reads (vector u32) (encodeVector (((xs.map Prod.fst).map g).map encodeU32))
      ((xs.map Prod.fst).map g) := by
    have hreads := @reads_vector _ u32 (xs.map fun x => (g x.1, encodeU32 (g x.1)))
      (List.forall_mem_map.mpr fun x hx => reads_u32 (hg _ (lt_of_reads_u32 (hall x hx))))
      (by rw [List.length_map] at hcount ⊢; exact hcount)
    simp only [List.map_map] at hreads ⊢
    exact hreads
  unfold ElementSegment.encode
  rw [List.append_assoc]
  exact hflags.bind ((reads_renumber_constant hg hoffset).bind hvector.map)

theorem reads_renumber_body {bytes : List UInt8} {b : Body} (h : Reads readBody bytes b)
    (hsize : (b.renumber g).content.length < 2 ^ 32) :
    Reads readBody (b.renumber g).encode (b.renumber g) := by
  obtain ⟨size, r₁, _, hrest⟩ := bind_eq_ok.mp (h 0 [])
  obtain ⟨t, r₂, _, hwithin⟩ := bind_eq_ok.mp hrest
  obtain ⟨⟨t', hcontent⟩, _⟩ := within_eq_ok.mp hwithin
  obtain ⟨locals, r₃, hlocals, hrest⟩ := bind_eq_ok.mp hcontent
  obtain ⟨instrs, r₄, hinstrs, hpure⟩ := bind_eq_ok.mp hrest
  cases pure_eq_ok.mp hpure
  obtain ⟨_, hlocals, _⟩ := (spanned_eq_ok (vector_local readLocalGroup_local)).mp hlocals
  obtain ⟨_, xs, rfl, hall, _⟩ := toEnd_eq_ok readInstr_local readInstr_productive hinstrs
  have hinstrs : ∀ x ∈ xs.map fun x => (x.1.renumber g, (x.1.renumber g).encode),
      Reads readInstr x.2 x.1 :=
    List.forall_mem_map.mpr fun x hx => reads_renumber_instr hg (hall x hx)
  have hend := readsAll_toEnd readInstr_local readInstr_productive hinstrs
  rw [List.flatMap_map, List.map_map] at hend
  refine reads_sized ?_ hsize
  unfold Body.content Body.renumber
  rw [List.flatMap_map, List.flatMap_map, List.map_map]
  exact hlocals.spanned.bindAll hend.map

/-- An export, when the functions that there are keep being functions. -/
theorem reads_renumber_export {count : Nat} (hcount : ∀ f < count, g f < count)
    {bytes : List UInt8} {e : Export} (h : Reads (readExport count) bytes e) :
    Reads (readExport count) (e.renumber g).encode (e.renumber g) := by
  obtain ⟨field, r₁, hfield, hrest⟩ := bind_eq_ok.mp (h 0 [])
  obtain ⟨kind, r₂, hkind, hrest⟩ := bind_eq_ok.mp hrest
  have hname := reads_name (name_size hfield)
  have hcode : Reads (enum ExternKind.ofValue "export kind") [kind.value] kind :=
    reads_enum (by cases kind <;> rfl)
  by_cases hfunc : kind = .func
  · rw [if_pos hfunc] at hrest
    obtain ⟨i, r₃, hindex, hpure⟩ := bind_eq_ok.mp hrest
    cases pure_eq_ok.mp hpure
    obtain ⟨hu32, hi⟩ := index_eq_ok.mp hindex
    unfold Export.renumber Export.encode
    simp only [if_pos hfunc]
    rw [List.append_assoc]
    refine hname.bind (hcode.bind ?_)
    rw [if_pos hfunc]
    exact (reads_index (hcount i hi) (hg i (u32_lt hu32))).map
  · rw [if_neg hfunc] at hrest
    obtain ⟨i, r₃, hu32, hpure⟩ := bind_eq_ok.mp hrest
    cases pure_eq_ok.mp hpure
    unfold Export.renumber Export.encode
    simp only [if_neg hfunc]
    rw [List.append_assoc]
    refine hname.bind (hcode.bind ?_)
    rw [if_neg hfunc]
    exact (reads_u32 (u32_lt hu32)).map

end Renumbered

/-- There are two stubs. -/
theorem stub_cases {P : Body → List UInt8 → Prop}
    (hsizes : P (stub "environ_sizes_get") (stubBody "environ_sizes_get"))
    (hget : P (stub "environ_get") (stubBody "environ_get")) (name : String) :
    P (stub name) (stubBody name) := by
  by_cases hname : name = "environ_sizes_get"
  · rw [hname]
    exact hsizes
  · have hstub : stub name = stub "environ_get" := by
      unfold stub
      rw [if_neg hname, if_neg (by decide)]
    have hbody : stubBody name = stubBody "environ_get" := by
      unfold stubBody stubExpression
      rw [if_neg hname, if_neg (by decide)]
    rw [hstub, hbody]
    exact hget

theorem stub_encode (name : String) : (stub name).encode = stubBody name :=
  @stub_cases (fun body bytes => body.encode = bytes) (by decide +kernel) (by decide +kernel) name

/-- A stub is the body it says. -/
theorem reads_stub (name : String) : Reads readBody (stub name).encode (stub name) := by
  have hread : ∃ n, readBody ⟨0, stubBody name⟩ = .ok (stub name, ⟨n, []⟩) :=
    @stub_cases (fun body bytes => ∃ n, readBody ⟨0, bytes⟩ = .ok (body, ⟨n, []⟩))
      ⟨19, by decide +kernel⟩ ⟨5, by decide +kernel⟩ name
  obtain ⟨n, hread⟩ := hread
  obtain ⟨bytes, hr, _, hreads⟩ := readBody_local _ _ _ hread
  have hbytes : stubBody name = bytes ++ [] := congrArg Reader.rest hr
  rw [stub_encode, hbytes, List.append_nil]
  exact hreads

end DcMatcher.Wasm
