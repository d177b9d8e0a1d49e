import Mathlib.Data.List.Basic

/-!
# Bump allocation

Nothing here names a program. An allocator that only ever moves a cursor upwards, in an address
space of `space` bytes of which whole pages are mapped. Numbers are unbounded here: what a
machine word computes is compared with them.

Results:
1. `le_alignUp`, `alignUp_mod`: rounding up to an alignment.
2. `Laid.alloc_some`: a new block is aligned, mapped, above the base and apart from all blocks
   before it, and so they stay.
3. `alloc_none_iff`: when there is none, and `alloc_none` that nothing moved.
-/

namespace Bump

/-- The next multiple of `align`. -/
def alignUp (align n : Nat) : Nat := (n + (align - 1)) / align * align

theorem le_alignUp {align : Nat} (h : 0 < align) (n : Nat) : n ≤ alignUp align n := by
  have hlt : n + (align - 1) < (n + (align - 1)) / align * align + align :=
    Nat.lt_div_mul_add h
  unfold alignUp
  omega

theorem alignUp_mod (align n : Nat) : alignUp align n % align = 0 := Nat.mul_mod_left _ _

/-- Rounding up goes beyond a multiple as soon as the sum does. -/
theorem le_alignUp_of_dvd {align limit n : Nat} (hdvd : align ∣ limit)
    (h : limit ≤ n + (align - 1)) : limit ≤ alignUp align n := by
  have hdiv : limit / align ≤ (n + (align - 1)) / align := Nat.div_le_div_right h
  have hmul := Nat.mul_le_mul_right align hdiv
  rw [Nat.div_mul_cancel hdvd] at hmul
  exact hmul

/-! ## Blocks -/

structure Block where
  start : Nat
  size : Nat
deriving DecidableEq, Repr

def Block.stop (b : Block) : Nat := b.start + b.size

/-- The addresses of a block. -/
def Block.Contains (b : Block) (address : Nat) : Prop := b.start ≤ address ∧ address < b.stop

/-- No address is in both. -/
def Apart (b c : Block) : Prop := ∀ address, b.Contains address → ¬ c.Contains address

theorem apart_of_le {b c : Block} (h : c.stop ≤ b.start) : Apart b c := fun _ hb hc =>
  Nat.lt_irrefl _ (Nat.lt_of_lt_of_le hc.2 (Nat.le_trans h hb.1))

/-! ## Allocation -/

/-- The cursor, and the pages mapped. -/
structure Heap where
  next : Nat
  pages : Nat
deriving DecidableEq, Repr

/-- The pages that `bytes` take. -/
def pagesFor (page bytes : Nat) : Nat := (bytes + (page - 1)) / page

section Alloc

variable (space page : Nat)

/-- One allocation: the block starts at the next aligned address, and pages are mapped as
needed, if that is granted. -/
def alloc (align size : Nat) (granted : Bool) (h : Heap) : Option Block × Heap :=
  let b : Block := ⟨alignUp align h.next, size⟩
  if space ≤ b.stop then (none, h)
  else if b.stop ≤ h.pages * page then (some b, { h with next := b.stop })
  else if granted then
    (some b, ⟨b.stop, h.pages + pagesFor page (b.stop - h.pages * page)⟩)
  else (none, h)

end Alloc

/-- The blocks handed out from `base` on are mapped and below the cursor. -/
structure Laid (base page : Nat) (blocks : List Block) (h : Heap) : Prop where
  base_le : base ≤ h.next
  below : ∀ b ∈ blocks, base ≤ b.start ∧ b.stop ≤ h.next ∧ b.stop ≤ h.pages * page
  apart : blocks.Pairwise Apart

section Steps

variable {space page base align size : Nat} {granted : Bool} {blocks : List Block} {b : Block}
  {h h' : Heap}

theorem laid_nil (hbase : base ≤ h.next) : Laid base page [] h :=
  ⟨hbase, fun _ hb => absurd hb List.not_mem_nil, .nil⟩

/-- Enough pages are mapped for what did not fit. -/
theorem le_pagesFor (hpage : 0 < page) {stop pages : Nat} :
    stop ≤ (pages + pagesFor page (stop - pages * page)) * page := by
  have hle : stop - pages * page ≤ pagesFor page (stop - pages * page) * page :=
    le_alignUp hpage (stop - pages * page)
  rw [Nat.add_mul]
  omega

/-- Where a block is, when there is one, and what is mapped. -/
theorem alloc_some (hpage : 0 < page)
    (halloc : alloc space page align size granted h = (some b, h')) :
    b = ⟨alignUp align h.next, size⟩ ∧ h'.next = b.stop ∧ b.stop ≤ h'.pages * page ∧
      h.pages ≤ h'.pages := by
  unfold alloc at halloc
  simp only at halloc
  split_ifs at halloc with hspace hfits hgrant
  · cases halloc
  · cases halloc
    exact ⟨rfl, rfl, hfits, Nat.le_refl _⟩
  · cases halloc
    exact ⟨rfl, rfl, le_pagesFor hpage, Nat.le_add_right _ _⟩
  · cases halloc

theorem alloc_none (halloc : alloc space page align size granted h = (none, h')) : h' = h := by
  unfold alloc at halloc
  simp only at halloc
  split_ifs at halloc with hspace hfits hgrant
  · cases halloc
    rfl
  · cases halloc
  · cases halloc
  · cases halloc
    rfl

/-- There is no block if it goes beyond the address space, or beyond what is mapped and no more
is granted. -/
theorem alloc_none_iff : (alloc space page align size granted h).1 = none ↔
    space ≤ alignUp align h.next + size ∨
      h.pages * page < alignUp align h.next + size ∧ granted = false := by
  unfold alloc Block.stop
  simp only
  split_ifs with hspace hfits hgrant
  · simp [hspace]
  · simp [hspace, Nat.not_lt_of_le hfits]
  · simp [hspace, hgrant]
  · simp [Nat.lt_of_not_le hfits, hgrant]

/-- A new block, and all blocks before it. -/
theorem Laid.alloc_some (hlaid : Laid base page blocks h) (hpage : 0 < page) (halign : 0 < align)
    (halloc : alloc space page align size granted h = (some b, h')) :
    b.start % align = 0 ∧ base ≤ b.start ∧ b.stop ≤ h'.pages * page ∧ (∀ c ∈ blocks, Apart b c) ∧
      Laid base page (b :: blocks) h' := by
  obtain ⟨hb, hnext, hmapped, hpages⟩ := Bump.alloc_some hpage halloc
  have hstart : h.next ≤ b.start := by
    rw [hb]
    exact le_alignUp halign h.next
  have hbase : base ≤ b.start := Nat.le_trans hlaid.base_le hstart
  have hstop : b.start ≤ b.stop := Nat.le_add_right _ _
  have happart : ∀ c ∈ blocks, Apart b c := fun c hc =>
    apart_of_le (Nat.le_trans (hlaid.below c hc).2.1 hstart)
  refine ⟨?_, hbase, hmapped, happart, ?_, ?_, .cons happart hlaid.apart⟩
  · rw [hb]
    exact alignUp_mod align h.next
  · rw [hnext]
    exact Nat.le_trans hbase hstop
  · intro c hc
    cases List.mem_cons.mp hc with
    | inl heq =>
      subst heq
      exact ⟨hbase, Nat.le_of_eq hnext.symm, hmapped⟩
    | inr hc =>
      obtain ⟨hle, hbelow, hold⟩ := hlaid.below c hc
      rw [hnext]
      exact ⟨hle, Nat.le_trans hbelow (Nat.le_trans hstart hstop),
        Nat.le_trans hold (Nat.mul_le_mul_right page hpages)⟩

end Steps

end Bump
