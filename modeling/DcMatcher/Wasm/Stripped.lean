import DcMatcher.Lib.Lists
import DcMatcher.Wasm.Module

/-!
# The module without its environment imports

What `strip` is for, said of the content of a module: the two imports leave the imports, their
stubs come first among the defined functions, and every function index becomes the new index of
its function. Only the global section stays as it is.

Results:
1. `Renumbering.apply_cases`, `Renumbering.bijOn`: what becomes of an index; the indices are
   permuted.
2. `Module.exists_split`: two targets split the imports in three.
3. `Module.function_stripped`: the functions are what they were.
4. `preserves_stripped_iff`: the module is preserved if and only if there is a code section for
   the stubs and the globals name no function that moves.
-/

namespace DcMatcher.Wasm

/-! ## New indices -/

namespace Renumbering

/-- Two imports are removed, in ascending order. -/
def Ordered (r : Renumbering) : Prop := r.removed.1 < r.removed.2 ∧ r.removed.2 < r.imported

variable {r : Renumbering} (hr : r.Ordered)

include hr

/-- What becomes of an index, by where it stands. -/
theorem apply_cases (i : Nat) :
    (i < r.removed.1 ∧ r.apply i = i) ∨
    (i = r.removed.1 ∧ r.apply i = r.imported - 2) ∨
    (r.removed.1 < i ∧ i < r.removed.2 ∧ r.apply i = i - 1) ∨
    (i = r.removed.2 ∧ r.apply i = r.imported - 1) ∨
    (r.removed.2 < i ∧ i < r.imported ∧ r.apply i = i - 2) ∨
    (r.imported ≤ i ∧ r.apply i = i) := by
  obtain ⟨imported, low, high⟩ := r
  obtain ⟨hlow, hhigh⟩ := hr
  simp only at hlow hhigh
  unfold apply gone
  simp only
  by_cases hi : i = low
  · subst hi
    refine Or.inr (Or.inl ⟨rfl, ?_⟩)
    simp
  by_cases hi' : i = high
  · subst hi'
    refine Or.inr (Or.inr (Or.inr (Or.inl ⟨rfl, ?_⟩)))
    have hne : (low == i) = false := by simp [Nat.ne_of_lt hlow]
    simp [List.idxOf_cons, hne]
    omega
  rw [if_neg (by simp [hi, hi'])]
  by_cases himported : i < imported
  · have hbelow : ([low, high].filter fun g => g < i).length =
        (if low < i then 1 else 0) + if high < i then 1 else 0 := by
      simp only [List.filter_cons, List.filter_nil, decide_eq_true_eq]
      split_ifs <;> rfl
    rw [if_pos himported, hbelow]
    split_ifs <;> omega
  · rw [if_neg himported]
    omega

theorem apply_lt {n i : Nat} (hn : r.imported ≤ n) (hi : i < n) : r.apply i < n := by
  obtain ⟨hlow, hhigh⟩ := hr
  rcases apply_cases ⟨hlow, hhigh⟩ i with h | h | h | h | h | h <;> omega

/-- The indices of the functions are permuted. -/
theorem bijOn {n : Nat} (hn : r.imported ≤ n) : Set.BijOn r.apply (Set.Iio n) (Set.Iio n) := by
  have hcases := apply_cases hr
  obtain ⟨hlow, hhigh⟩ := id hr
  refine ⟨fun i hi => apply_lt hr hn hi, fun i _ j _ heq => ?_, fun j hj => ?_⟩
  · rcases hcases i with h | h | h | h | h | h <;>
      rcases hcases j with h' | h' | h' | h' | h' | h' <;> omega
  · -- where `j` comes from
    have hj' : j < n := hj
    have hfrom : ∀ {i : Nat}, i < n → r.apply i = j → j ∈ Set.image r.apply (Set.Iio n) :=
      fun hi heq => ⟨_, hi, heq⟩
    by_cases h₁ : j < r.removed.1
    · exact @hfrom j hj' (by rcases hcases j with h | h | h | h | h | h <;> omega)
    by_cases h₂ : j < r.removed.2 - 1
    · exact @hfrom (j + 1) (by omega) (by
        rcases hcases (j + 1) with h | h | h | h | h | h <;> omega)
    by_cases h₃ : j < r.imported - 2
    · exact @hfrom (j + 2) (by omega) (by
        rcases hcases (j + 2) with h | h | h | h | h | h <;> omega)
    by_cases h₄ : j = r.imported - 2
    · exact @hfrom r.removed.1 (by omega) (by
        rcases hcases r.removed.1 with h | h | h | h | h | h <;> omega)
    by_cases h₅ : j = r.imported - 1
    · exact @hfrom r.removed.2 (by omega) (by
        rcases hcases r.removed.2 with h | h | h | h | h | h <;> omega)
    · exact @hfrom j hj' (by rcases hcases j with h | h | h | h | h | h <;> omega)

theorem apply_ordered {i j : Nat} (hij : i < j) (hi : i ∉ r.gone) (hj : j ∉ r.gone) :
    r.apply i < r.apply j := by
  obtain ⟨hlow, hhigh⟩ := id hr
  have hi' : i ≠ r.removed.1 ∧ i ≠ r.removed.2 := by simpa [gone] using hi
  have hj' : j ≠ r.removed.1 ∧ j ≠ r.removed.2 := by simpa [gone] using hj
  rcases apply_cases hr i with h | h | h | h | h | h <;>
    rcases apply_cases hr j with h' | h' | h' | h' | h' | h' <;> omega

end Renumbering

/-! ## The module -/

theorem Func.stubbed_kept {g : Nat → Nat} {item : FunctionImport} (h : isTarget item = false) :
    (Func.imported item).stubbed g = .imported item :=
  if_neg (Bool.eq_false_iff.mp h)

theorem Func.stubbed_target {g : Nat → Nat} {item : FunctionImport} (h : isTarget item = true) :
    (Func.imported item).stubbed g = .defined item.typeIndex (stub item.name) :=
  if_pos h

namespace Module

variable (m : Module)

/-- The imports that go, with their function indices. -/
def targets : List (FunctionImport × Nat) := m.functionImports.zipIdx.filter fun x => isTarget x.1

/-- The new indices, when two imports go. -/
def renumbering : Renumbering :=
  ⟨m.functionImports.length, ((m.targets.map Prod.snd).getD 0 0, (m.targets.map Prod.snd).getD 1 0)⟩

/-- The module as `strip` leaves it. -/
def stripped : Module :=
  { m with
    imports := m.imports.filter fun i => !i.1.isTarget
    functions := m.targets.map (fun x => (x.1.typeIndex, encodeU32 x.1.typeIndex)) ++ m.functions
    exports := m.exports.map (Export.renumber m.renumbering.apply)
    start := m.start.map m.renumbering.apply
    elements := m.elements.map (ElementSegment.renumber m.renumbering.apply)
    code := m.code.map fun bodies =>
      m.targets.map (fun x => stub x.1.name) ++ bodies.map (Body.renumber m.renumbering.apply) }

theorem stripped_imports : m.stripped.imports = m.imports.filter fun i => !i.1.isTarget := rfl

theorem stripped_functions : m.stripped.functions =
    m.targets.map (fun x => (x.1.typeIndex, encodeU32 x.1.typeIndex)) ++ m.functions := rfl

theorem stripped_exports :
    m.stripped.exports = m.exports.map (Export.renumber m.renumbering.apply) := rfl

theorem stripped_start : m.stripped.start = m.start.map m.renumbering.apply := rfl

theorem stripped_elements :
    m.stripped.elements = m.elements.map (ElementSegment.renumber m.renumbering.apply) := rfl

theorem stripped_code : m.stripped.code = m.code.map fun bodies =>
    m.targets.map (fun x => stub x.1.name) ++ bodies.map (Body.renumber m.renumbering.apply) := rfl

theorem function_imported {i : Nat} {item : FunctionImport}
    (h : m.functionImports[i]? = some item) : m.function i = some (.imported item) := by
  unfold function
  rw [h]

theorem function_defined {i : Nat} (h : m.functionImports.length ≤ i) :
    m.function i =
      match m.functions[i - m.functionImports.length]?,
        (m.code.getD [])[i - m.functionImports.length]? with
      | some typeIndex, some body => some (.defined typeIndex.1 body)
      | _, _ => none := by
  have hnone := List.getElem?_eq_none h
  unfold function
  split
  · next item hitem =>
    rw [hnone] at hitem
    cases hitem
  · rfl

theorem functionImports_stripped :
    m.stripped.functionImports = m.functionImports.filter fun i => !isTarget i := by
  unfold functionImports
  rw [stripped_imports]
  induction m.imports with
  | nil => rfl
  | cons i imports ih =>
    obtain ⟨item, bytes⟩ := i
    cases item with
    | function item =>
      show List.filterMap (fun i => i.1.function?) (((.function item, bytes) :: imports).filter
          fun i : Import × List UInt8 => !i.1.isTarget) =
        (item :: imports.filterMap fun i => i.1.function?).filter fun i => !isTarget i
      rw [List.filter_cons, List.filter_cons]
      show List.filterMap _ (if (!isTarget item) = true then _ else _) = _
      cases isTarget item with
      | false => exact congrArg (item :: ·) ih
      | true => exact ih
    | other item => exact ih

variable {m} {a b : FunctionImport} {low high : Nat} (ht : m.targets = [(a, low), (b, high)])

include ht

/-- Two targets split the imports in three, and the three parts stay. -/
theorem exists_split : ∃ before between after : List FunctionImport,
    m.functionImports = before ++ a :: (between ++ b :: after) ∧
      m.stripped.functionImports = before ++ (between ++ after) ∧ low = before.length ∧
      high = before.length + 1 + between.length ∧ isTarget a = true ∧ isTarget b = true := by
  obtain ⟨before, rest, hsplit, hbefore, ha, rfl, hrest⟩ := Lists.zipIdx_filter_eq_cons ht
  obtain ⟨between, after, rfl, hbetween, hb, rfl, hafter⟩ := Lists.zipIdx_filter_eq_cons hrest
  refine ⟨before, between, after, hsplit, ?_, Nat.zero_add _, by rw [Nat.zero_add], ha, hb⟩
  have hkept : ∀ {xs : List FunctionImport}, (∀ x ∈ xs, isTarget x = false) →
      xs.filter (fun i => !isTarget i) = xs := fun h =>
    List.filter_eq_self.mpr fun x hx => by rw [h x hx]; rfl
  have hafter' : ∀ x ∈ after, isTarget x = false := by
    intro x hx
    obtain ⟨i, hi⟩ := List.mem_iff_getElem?.mp hx
    have hnone := List.filter_eq_nil_iff.mp hafter
    exact Bool.eq_false_iff.mpr (hnone (x, _) (List.mk_add_mem_zipIdx_iff_getElem?.mpr hi))
  rw [functionImports_stripped, hsplit, List.filter_append, List.filter_cons, List.filter_append,
    List.filter_cons, ha, hb, hkept hbefore, hkept hbetween, hkept hafter']
  rfl

theorem renumbering_eq : m.renumbering = ⟨m.functionImports.length, (low, high)⟩ := by
  unfold renumbering
  rw [ht]
  rfl

theorem renumbering_ordered : m.renumbering.Ordered := by
  obtain ⟨before, between, after, hsplit, _, rfl, rfl, _⟩ := exists_split ht
  rw [renumbering_eq ht]
  refine ⟨?_, ?_⟩
  · show before.length < before.length + 1 + between.length
    omega
  · show before.length + 1 + between.length < m.functionImports.length
    rw [hsplit, List.length_append, List.length_cons, List.length_append, List.length_cons]
    omega

theorem length_functionImports_stripped :
    m.stripped.functionImports.length + 2 = m.functionImports.length := by
  obtain ⟨before, between, after, hsplit, hstripped, _⟩ := exists_split ht
  rw [hsplit, hstripped]
  simp only [List.length_append, List.length_cons]
  omega

theorem functionCount_stripped : m.stripped.functionCount = m.functionCount := by
  have hfunctions : m.stripped.functions.length = 2 + m.functions.length := by
    rw [stripped_functions, ht, List.length_append]
    rfl
  have himports := length_functionImports_stripped ht
  unfold functionCount
  rw [hfunctions]
  omega

/-- An import that stays is where its new index says. -/
theorem import_stripped {i : Nat} {item : FunctionImport} (hi : m.functionImports[i]? = some item)
    (hkept : isTarget item = false) :
    m.stripped.functionImports[m.renumbering.apply i]? = some item := by
  obtain ⟨before, between, after, hsplit, hstripped, hlow, hhigh, ha, hb⟩ := exists_split ht
  have hcases := Renumbering.apply_cases (renumbering_ordered ht) i
  rw [renumbering_eq ht] at hcases ⊢
  simp only at hcases
  have hlt : i < m.functionImports.length := (List.getElem?_eq_some_iff.mp hi).1
  rw [hstripped]
  rw [hsplit] at hi
  simp only [List.getElem?_append, List.getElem?_cons] at hi ⊢
  rcases hcases with
    ⟨hi', heq⟩ | ⟨hi', _⟩ | ⟨hi', hi'', heq⟩ | ⟨hi', _⟩ | ⟨hi', hi'', heq⟩ | ⟨hi', _⟩
  · rw [heq]
    rw [if_pos (by omega)] at hi ⊢
    exact hi
  · -- the first target
    rw [if_neg (by omega), if_pos (by omega)] at hi
    cases hi
    rw [ha] at hkept
    cases hkept
  · rw [heq]
    rw [if_neg (by omega), if_neg (by omega), if_pos (by omega)] at hi
    rw [if_neg (by omega), if_pos (by omega)]
    have hsame : i - 1 - before.length = i - before.length - 1 := by omega
    rw [hsame]
    exact hi
  · -- the second
    rw [if_neg (by omega), if_neg (by omega), if_neg (by omega), if_pos (by omega)] at hi
    cases hi
    rw [hb] at hkept
    cases hkept
  · rw [heq]
    rw [if_neg (by omega), if_neg (by omega), if_neg (by omega), if_neg (by omega)] at hi
    rw [if_neg (by omega), if_neg (by omega)]
    have hsame : i - 2 - before.length - between.length =
        i - before.length - 1 - between.length - 1 := by omega
    rw [hsame]
    exact hi
  · omega

/-- A target is one of the two, and its new index is the place of its stub. -/
theorem target_stripped {i : Nat} {item : FunctionImport} (hi : m.functionImports[i]? = some item)
    (htarget : isTarget item = true) :
    ∃ k, m.renumbering.apply i = m.stripped.functionImports.length + k ∧
      (m.targets.map Prod.fst)[k]? = some item := by
  have hmem : (item, i) ∈ m.targets :=
    List.mem_filter.mpr ⟨List.mk_mem_zipIdx_iff_getElem?.mpr hi, htarget⟩
  have hordered := renumbering_ordered ht
  have hcases := Renumbering.apply_cases hordered i
  have hlength := length_functionImports_stripped ht
  obtain ⟨hlow, hhigh⟩ := hordered
  rw [renumbering_eq ht] at hcases hlow hhigh ⊢
  simp only at hcases hlow hhigh
  rw [ht] at hmem ⊢
  rcases List.mem_cons.mp hmem with h | h
  · cases h
    exact ⟨0, by omega, rfl⟩
  · cases List.mem_singleton.mp h
    exact ⟨1, by omega, rfl⟩

/-- The functions are what they were, when there is a code section. -/
theorem function_stripped {bodies : List Body} (hcode : m.code = some bodies) (i : Nat) :
    m.stripped.function (m.renumbering.apply i) =
      (m.function i).map (Func.stubbed m.renumbering.apply) := by
  have hbodies : m.stripped.code.getD [] = m.targets.map (fun x => stub x.1.name) ++
      bodies.map (Body.renumber m.renumbering.apply) := by
    rw [stripped_code, hcode]
    rfl
  cases hi : m.functionImports[i]? with
  | some item =>
    rw [function_imported m hi, Option.map_some]
    cases htarget : isTarget item with
    | false =>
      rw [Func.stubbed_kept htarget]
      exact function_imported _ (import_stripped ht hi htarget)
    | true =>
      rw [Func.stubbed_target htarget]
      obtain ⟨k, hk, hitem⟩ := target_stripped ht hi htarget
      rw [List.getElem?_map] at hitem
      obtain ⟨x, hx, rfl⟩ := Option.map_eq_some_iff.mp hitem
      have hlt : k < m.targets.length := (List.getElem?_eq_some_iff.mp hx).1
      have htype : m.stripped.functions[k]? = some (x.1.typeIndex, encodeU32 x.1.typeIndex) := by
        rw [stripped_functions, List.getElem?_append_left (by rw [List.length_map]; exact hlt),
          List.getElem?_map, hx]
        rfl
      rw [hk, function_defined _ (Nat.le_add_right _ _), Nat.add_sub_cancel_left, htype, hbodies,
        List.getElem?_append_left (by rw [List.length_map]; exact hlt), List.getElem?_map, hx]
      rfl
  | none =>
    have hle := List.getElem?_eq_none_iff.mp hi
    have hsame : m.renumbering.apply i = i := by
      have hcases := Renumbering.apply_cases (renumbering_ordered ht) i
      have himported : m.renumbering.imported = m.functionImports.length := rfl
      obtain ⟨hlow, hhigh⟩ := renumbering_ordered ht
      rcases hcases with h | h | h | h | h | h <;> omega
    have hlength := length_functionImports_stripped ht
    have htargets : m.targets.length = 2 := by rw [ht]; rfl
    have hindex : i - m.stripped.functionImports.length =
        2 + (i - m.functionImports.length) := by omega
    have htype : m.stripped.functions[2 + (i - m.functionImports.length)]? =
        m.functions[i - m.functionImports.length]? := by
      rw [stripped_functions, List.getElem?_append_right (by rw [List.length_map]; omega),
        List.length_map, htargets, Nat.add_sub_cancel_left]
    rw [hsame, function_defined m hle, function_defined _ (by omega), hindex, htype, hbodies,
      List.getElem?_append_right (by rw [List.length_map]; omega), List.length_map, htargets,
      Nat.add_sub_cancel_left, List.getElem?_map, hcode, Option.getD_some]
    cases m.functions[i - m.functionImports.length]? with
    | none => rfl
    | some typeIndex =>
      cases bodies[i - m.functionImports.length]? with
      | none => rfl
      | some body => rfl

end Module

/-! ## What is preserved -/

/-- A global keeps what it says if its functions keep their indices. -/
theorem Global.renumber_eq_self_iff (g : Nat → Nat) (x : Global) :
    x.renumber g = x ↔ ∀ f ∈ functionsOf x.init, g f = f := by
  have hinit : x.renumber g = x ↔ x.init = x.init.map (Instr.renumber g) := by
    obtain ⟨type, mutability, init⟩ := x
    unfold Global.renumber
    simp only [Global.mk.injEq, true_and]
    exact eq_comm
  have hinstr : ∀ i : Instr, i.renumber g = i ↔
      ∀ o ∈ i.operands, Operand.renumber g o = o := by
    intro i
    obtain ⟨opcode, head, operands⟩ := i
    unfold Instr.renumber
    simp only [Instr.mk.injEq, true_and]
    rw [eq_comm]
    exact Lists.eq_map_self_iff
  rw [hinit, Lists.eq_map_self_iff]
  unfold functionsOf
  constructor
  · intro h f hf
    obtain ⟨i, hi, hf⟩ := List.mem_flatMap.mp hf
    obtain ⟨o, ho, hof⟩ := List.mem_filterMap.mp hf
    have hsame := (hinstr i).mp (h i hi) o ho
    cases o with
    | function k =>
      cases hof
      exact Operand.function.inj hsame
    | other bytes => cases hof
  · intro h i hi
    refine (hinstr i).mpr fun o ho => ?_
    cases o with
    | function k =>
      exact congrArg Operand.function
        (h k (List.mem_flatMap.mpr ⟨i, hi, List.mem_filterMap.mpr ⟨_, ho, rfl⟩⟩))
    | other bytes => rfl

/-- The functions that the globals name keep their indices. -/
def Module.GlobalsStay (m : Module) : Prop :=
  ∀ x ∈ m.globals, ∀ f ∈ functionsOf x.init, m.renumbering.apply f = f

/-- The module is preserved if and only if there is a code section for the stubs, and the functions
that the globals name keep their indices. -/
theorem preserves_stripped_iff {m : Module} {a b : FunctionImport} {low high : Nat}
    (ht : m.targets = [(a, low), (b, high)]) :
    Preserves m.renumbering m m.stripped ↔ m.code.isSome ∧ m.GlobalsStay := by
  have hglobals : m.stripped.globals = m.globals.map (Global.renumber m.renumbering.apply) ↔
      m.GlobalsStay := by
    show m.globals = _ ↔ _
    rw [Lists.eq_map_self_iff]
    exact forall₂_congr fun x _ => Global.renumber_eq_self_iff _ x
  constructor
  · intro h
    refine ⟨?_, hglobals.mp h.globals⟩
    -- without a code section the first stub has no body
    cases hcode : m.code with
    | some bodies => rfl
    | none =>
      have hfirst : m.functionImports[low]? = some a :=
        List.mk_mem_zipIdx_iff_getElem?.mp (List.mem_filter.mp (ht ▸ List.mem_cons_self)).1
      obtain ⟨_, _, _, _, _, _, _, ha, _⟩ := Module.exists_split ht
      obtain ⟨k, hk, _⟩ := Module.target_stripped ht hfirst ha
      have hsame := h.function low
      have hbodies : m.stripped.code.getD [] = [] := by
        rw [Module.stripped_code, hcode]
        rfl
      rw [Module.function_imported m hfirst, hk,
        Module.function_defined _ (Nat.le_add_right _ _), hbodies, List.getElem?_nil] at hsame
      rw [Option.map_some, Func.stubbed_target ha] at hsame
      simp at hsame
  · rintro ⟨hcode, hstay⟩
    obtain ⟨bodies, hcode⟩ := Option.isSome_iff_exists.mp hcode
    have hordered := Module.renumbering_ordered ht
    exact
      { bijective := Renumbering.bijOn hordered (Nat.le_add_right _ _)
        ordered := fun i j => Renumbering.apply_ordered hordered
        count := Module.functionCount_stripped ht
        function := Module.function_stripped ht hcode
        imports := rfl
        exports := rfl
        start := rfl
        elements := rfl
        globals := hglobals.mpr hstay
        types := rfl
        copied := rfl }

end DcMatcher.Wasm
