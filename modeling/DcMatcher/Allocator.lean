import DcMatcher.Lib.Bump
import Mathlib.Algebra.Group.Nat.Defs
import Mathlib.Data.List.Basic

/-!
# The allocator of the matcher

`simple_allocator.rs`: a bump allocator over the linear memory of a WebAssembly instance. A
`usize` is 32 bits. The address of `__heap_base` is given by the linker and, as that of any
static, is not 0. Whether the host grants more memory is decided call by call; when it does,
`memory.grow` adds the pages asked for.

Results:
1. `alloc_refines`: what the words compute is bump allocation with unbounded numbers.
2. `alloc_checked`: no operation wraps.
3. `alloc_blocks`: over any sequence of calls, the blocks are aligned, mapped and disjoint.
-/

namespace DcMatcher

open Bump (Block Heap Laid Apart alignUp)

namespace SimpleAllocator

def PAGE_SIZE : UInt32 := 65536

/-- `usize::MAX`. -/
def USIZE_MAX : UInt32 := 0xFFFFFFFF

/-- `usize::checked_add`. -/
def checkedAdd (a b : UInt32) : Option UInt32 :=
  if a.toNat + b.toNat < 2 ^ 32 then some (a + b) else none

/-- `usize::saturating_mul`. -/
def saturatingMul (a b : UInt32) : UInt32 :=
  if a.toNat * b.toNat < 2 ^ 32 then a * b else USIZE_MAX

/-- `usize::div_ceil`. -/
def divCeil (a b : UInt32) : UInt32 := if a % b > 0 then a / b + 1 else a / b

/-- `Layout`: the alignment is a power of two. -/
structure Layout where
  size : UInt32
  align : UInt32
  isPow : ∃ k < 32, align.toNat = 2 ^ k

/-- `NEXT_ADDR` and `CURRENT_PAGES`, and the pages that the memory has. -/
structure State where
  nextAddr : UInt32
  currentPages : UInt32
  memory : UInt32
deriving DecidableEq, Repr

/-- `memory_grow`: the pages there were, or `usize::MAX`. -/
def memoryGrow (granted : Bool) (delta memory : UInt32) : UInt32 × UInt32 :=
  if granted then (memory, memory + delta) else (USIZE_MAX, memory)

/-- The start of `alloc`: `next_addr`, and what the first call sets. -/
def start (heapBase : UInt32) (s : State) : UInt32 × State :=
  if s.nextAddr = 0 then (heapBase, { s with currentPages := s.memory }) else (s.nextAddr, s)

/-- `alloc`. The null pointer is 0. -/
def alloc (heapBase : UInt32) (layout : Layout) (granted : Bool) (s : State) : UInt32 × State :=
  let (nextAddr, s) := start heapBase s
  match (checkedAdd nextAddr (layout.align - 1)).map (· &&& ~~~(layout.align - 1)) with
  | none => (0, s)
  | some allocPtr =>
    match checkedAdd allocPtr layout.size with
    | none => (0, s)
    | some endPtr =>
      let currentLimit := saturatingMul s.currentPages PAGE_SIZE
      if endPtr > currentLimit then
        let neededBytes := endPtr - currentLimit
        let neededPages := divCeil neededBytes PAGE_SIZE
        let (before, memory) := memoryGrow granted neededPages s.memory
        if before = USIZE_MAX then (0, { s with memory })
        else
          (allocPtr,
            { nextAddr := endPtr, currentPages := s.currentPages + neededPages, memory })
      else (allocPtr, { s with nextAddr := endPtr })

/-- `-` of a build with overflow checks. -/
def checkedSub (a b : UInt32) : Option UInt32 := if b ≤ a then some (a - b) else none

/-- `div_ceil` of such a build. -/
def divCeilChecked (a b : UInt32) : Option UInt32 :=
  if a % b > 0 then checkedAdd (a / b) 1 else some (a / b)

/-- `alloc` as a build with overflow checks runs it: nothing where one of the operations that
`alloc` does not check itself would overflow. -/
def allocChecked (heapBase : UInt32) (layout : Layout) (granted : Bool) (s : State) :
    Option (UInt32 × State) := do
  let (nextAddr, s) := start heapBase s
  let mask ← checkedSub layout.align 1
  match (checkedAdd nextAddr mask).map (· &&& ~~~mask) with
  | none => some (0, s)
  | some allocPtr =>
    match checkedAdd allocPtr layout.size with
    | none => some (0, s)
    | some endPtr =>
      let currentLimit := saturatingMul s.currentPages PAGE_SIZE
      if endPtr > currentLimit then
        let neededBytes ← checkedSub endPtr currentLimit
        let neededPages ← divCeilChecked neededBytes PAGE_SIZE
        let (before, memory) := memoryGrow granted neededPages s.memory
        if before = USIZE_MAX then some (0, { s with memory })
        else
          let currentPages ← checkedAdd s.currentPages neededPages
          some (allocPtr, { nextAddr := endPtr, currentPages, memory })
      else some (allocPtr, { s with nextAddr := endPtr })

/-- One call, and whether the host grants it more memory. -/
structure Call where
  layout : Layout
  granted : Bool

/-- One call, with the blocks handed out before it, the last one first. -/
def step (heapBase : UInt32) (before : List Block × State) (call : Call) : List Block × State :=
  let (ptr, s) := alloc heapBase call.layout call.granted before.2
  (if ptr = 0 then before.1 else ⟨ptr.toNat, call.layout.size.toNat⟩ :: before.1, s)

/-- The calls one after the other, in an instance with so many pages of memory. -/
def run (heapBase memory : UInt32) (calls : List Call) : List Block × State :=
  calls.foldl (step heapBase) ([], ⟨0, 0, memory⟩)

/-! ## Words -/

theorem checkedAdd_eq (a b : UInt32) : checkedAdd a b =
    if a.toNat + b.toNat < 2 ^ 32 then some (UInt32.ofNat (a.toNat + b.toNat)) else none := by
  unfold checkedAdd
  rw [UInt32.ofNat_add, UInt32.ofNat_toNat, UInt32.ofNat_toNat]

/-- Clearing the low bits. -/
theorem and_not_toNat (a : UInt32) {mask : UInt32} {k : Nat} (hmask : mask.toNat = 2 ^ k - 1) :
    (a &&& ~~~mask).toNat = a.toNat / 2 ^ k * 2 ^ k := by
  apply Nat.eq_of_testBit_eq
  intro i
  have hnot : (~~~mask).toNat = 2 ^ 32 - (mask.toNat + 1) := by
    rw [UInt32.toNat_not, Nat.add_comm, ← Nat.sub_sub]
    rfl
  have hlow : mask.toNat.testBit i = decide (i < k) := by
    rw [hmask, Nat.testBit_two_pow_sub_one]
  rw [UInt32.toNat_and, Nat.testBit_and, hnot, Nat.testBit_two_pow_sub_succ mask.toNat_lt, hlow,
    Nat.testBit_mul_two_pow, Nat.testBit_div_two_pow]
  by_cases hi : k ≤ i
  · rw [Nat.sub_add_cancel hi]
    by_cases hword : i < 32
    · simp [hi, hword]
    · have hpow : 2 ^ 32 ≤ 2 ^ i := Nat.pow_le_pow_right (by decide) (Nat.le_of_not_lt hword)
      have hout : a.toNat.testBit i = false :=
        Nat.testBit_lt_two_pow (Nat.lt_of_lt_of_le a.toNat_lt hpow)
      simp [hout]
  · simp [hi, Nat.lt_of_not_le hi]

theorem saturatingMul_toNat (pages : UInt32) :
    (saturatingMul pages PAGE_SIZE).toNat = min (pages.toNat * 65536) (2 ^ 32 - 1) := by
  have hsize : PAGE_SIZE.toNat = 65536 := rfl
  unfold saturatingMul
  rw [hsize]
  split
  · next h =>
    rw [UInt32.toNat_mul, hsize, Nat.mod_eq_of_lt h]
    omega
  · next h =>
    show 2 ^ 32 - 1 = _
    omega

theorem divCeil_toNat (bytes : UInt32) :
    (divCeil bytes PAGE_SIZE).toNat = Bump.pagesFor 65536 bytes.toNat := by
  have hlt := bytes.toNat_lt
  have hdiv : (bytes / PAGE_SIZE).toNat = bytes.toNat / 65536 := UInt32.toNat_div bytes PAGE_SIZE
  have hmod : (bytes % PAGE_SIZE).toNat = bytes.toNat % 65536 := UInt32.toNat_mod bytes PAGE_SIZE
  have hpos : bytes % PAGE_SIZE > 0 ↔ 0 < bytes.toNat % 65536 := by
    rw [← hmod]
    exact UInt32.lt_iff_toNat_lt
  unfold divCeil Bump.pagesFor
  split
  · next h =>
    have hsome := hpos.mp h
    rw [UInt32.toNat_add, hdiv]
    show (bytes.toNat / 65536 + 1) % 2 ^ 32 = _
    omega
  · next h =>
    have hnone : ¬ 0 < bytes.toNat % 65536 := fun hsome => h (hpos.mpr hsome)
    rw [hdiv]
    omega

section Layouts

variable (layout : Layout)

theorem Layout.align_pos : 0 < layout.align.toNat := by
  obtain ⟨k, _, hpow⟩ := layout.isPow
  rw [hpow]
  exact Nat.two_pow_pos k

theorem Layout.align_dvd : layout.align.toNat ∣ 2 ^ 32 := by
  obtain ⟨k, hk, hpow⟩ := layout.isPow
  rw [hpow]
  exact Nat.pow_dvd_pow 2 (Nat.le_of_lt hk)

theorem Layout.one_le_align : 1 ≤ layout.align := UInt32.le_iff_toNat_le.mpr layout.align_pos

theorem Layout.mask_toNat : (layout.align - 1).toNat = layout.align.toNat - 1 :=
  UInt32.toNat_sub_of_le _ _ layout.one_le_align

/-- The start of the next block, in words. -/
theorem aligned_eq (next : UInt32) :
    (checkedAdd next (layout.align - 1)).map (· &&& ~~~(layout.align - 1)) =
      if alignUp layout.align.toNat next.toNat < 2 ^ 32 then
        some (UInt32.ofNat (alignUp layout.align.toNat next.toNat))
      else none := by
  rw [checkedAdd_eq, layout.mask_toNat]
  have hpos := layout.align_pos
  by_cases hsum : next.toNat + (layout.align.toNat - 1) < 2 ^ 32
  · have hle : alignUp layout.align.toNat next.toNat ≤ next.toNat + (layout.align.toNat - 1) :=
      Nat.div_mul_le_self _ _
    rw [if_pos hsum, if_pos (Nat.lt_of_le_of_lt hle hsum), Option.map_some]
    congr 1
    apply UInt32.toNat_inj.mp
    obtain ⟨k, _, hpow⟩ := layout.isPow
    have hmask := layout.mask_toNat
    rw [hpow] at hmask
    rw [and_not_toNat _ hmask, UInt32.toNat_ofNat_of_lt' hsum,
      UInt32.toNat_ofNat_of_lt' (Nat.lt_of_le_of_lt hle hsum), hpow]
    rfl
  · have hbeyond := Bump.le_alignUp_of_dvd layout.align_dvd (Nat.le_of_not_lt hsum)
    rw [if_neg hsum, if_neg (Nat.not_lt_of_le hbeyond)]
    rfl

end Layouts

/-! ## The refinement -/

section Refinement

variable (heapBase : UInt32)

/-- The cursor, and the pages that the memory has. -/
def State.heap (s : State) : Heap := ⟨(start heapBase s).1.toNat, s.memory.toNat⟩

/-- Once the allocator has started, it knows the pages of the memory. -/
def State.Synced (s : State) : Prop := s.nextAddr ≠ 0 → s.currentPages = s.memory

variable {heapBase} {layout : Layout} {granted : Bool} {s : State}

theorem start_pos (hbase : 0 < heapBase) : 0 < (start heapBase s).1 := by
  unfold start
  split
  · exact hbase
  · next h => exact UInt32.pos_iff_ne_zero.mpr h

/-- The first call sets what the others keep. -/
theorem start_state (hsync : s.Synced) :
    (start heapBase s).2 = ⟨s.nextAddr, s.memory, s.memory⟩ := by
  obtain ⟨nextAddr, currentPages, memory⟩ := s
  unfold start
  split
  · rfl
  · next h =>
    obtain rfl : currentPages = memory := hsync h
    rfl

theorem heap_eq (nextAddr currentPages memory : UInt32) :
    (⟨nextAddr, currentPages, memory⟩ : State).heap heapBase =
      ⟨(if nextAddr = 0 then heapBase else nextAddr).toNat, memory.toNat⟩ := by
  unfold State.heap start
  split <;> rfl

section Limit

variable {pages : UInt32} {stop : Nat}

/-- The comparison with the limit, which saturates. -/
theorem limit_lt (hstop : stop < 2 ^ 32) :
    UInt32.ofNat stop > saturatingMul pages PAGE_SIZE ↔ ¬ stop ≤ pages.toNat * 65536 := by
  show saturatingMul pages PAGE_SIZE < UInt32.ofNat stop ↔ _
  rw [UInt32.lt_iff_toNat_lt, saturatingMul_toNat, UInt32.toNat_ofNat_of_lt' hstop]
  omega

/-- What is needed beyond the limit, which then does not saturate. -/
theorem needed_toNat (hstop : stop < 2 ^ 32) (hlimit : ¬ stop ≤ pages.toNat * 65536) :
    (UInt32.ofNat stop - saturatingMul pages PAGE_SIZE).toNat = stop - pages.toNat * 65536 := by
  have hle : saturatingMul pages PAGE_SIZE ≤ UInt32.ofNat stop :=
    UInt32.le_of_lt ((limit_lt hstop).mpr hlimit)
  rw [UInt32.toNat_sub_of_le _ _ hle, saturatingMul_toNat, UInt32.toNat_ofNat_of_lt' hstop]
  omega

/-- More than the memory can ever have is never asked for. -/
theorem grown_lt (hstop : stop < 2 ^ 32) (hlimit : ¬ stop ≤ pages.toNat * 65536) :
    pages.toNat + Bump.pagesFor 65536 (stop - pages.toNat * 65536) < 2 ^ 32 := by
  unfold Bump.pagesFor
  omega

/-- The pages to ask for, in words. -/
theorem divCeil_needed (hstop : stop < 2 ^ 32) (hlimit : ¬ stop ≤ pages.toNat * 65536) :
    divCeil (UInt32.ofNat stop - saturatingMul pages PAGE_SIZE) PAGE_SIZE =
      UInt32.ofNat (Bump.pagesFor 65536 (stop - pages.toNat * 65536)) := by
  rw [← needed_toNat hstop hlimit, ← divCeil_toNat, UInt32.ofNat_toNat]

theorem ne_max (hstop : stop < 2 ^ 32) (hlimit : ¬ stop ≤ pages.toNat * 65536) :
    pages ≠ USIZE_MAX := by
  rintro rfl
  have hmax : USIZE_MAX.toNat = 2 ^ 32 - 1 := rfl
  omega

end Limit

/-- Where the next block starts. -/
def State.place (heapBase : UInt32) (layout : Layout) (s : State) : Nat :=
  alignUp layout.align.toNat (start heapBase s).1.toNat

/-- The pages of the memory once the block fits. -/
def State.grown (heapBase : UInt32) (layout : Layout) (s : State) : Nat :=
  s.memory.toNat +
    Bump.pagesFor 65536 (s.place heapBase layout + layout.size.toNat - s.memory.toNat * 65536)

/-- `alloc`, by the numbers that its words stand for. -/
theorem alloc_eq (hsync : s.Synced) :
    alloc heapBase layout granted s =
      if 2 ^ 32 ≤ s.place heapBase layout + layout.size.toNat then
        (0, ⟨s.nextAddr, s.memory, s.memory⟩)
      else if s.place heapBase layout + layout.size.toNat ≤ s.memory.toNat * 65536 then
        (UInt32.ofNat (s.place heapBase layout),
          ⟨UInt32.ofNat (s.place heapBase layout + layout.size.toNat), s.memory, s.memory⟩)
      else if granted then
        (UInt32.ofNat (s.place heapBase layout),
          ⟨UInt32.ofNat (s.place heapBase layout + layout.size.toNat),
            UInt32.ofNat (s.grown heapBase layout), UInt32.ofNat (s.grown heapBase layout)⟩)
      else (0, ⟨s.nextAddr, s.memory, s.memory⟩) := by
  have hplace : alignUp layout.align.toNat (start heapBase s).1.toNat = s.place heapBase layout :=
    rfl
  unfold alloc
  simp only [aligned_eq, start_state hsync, hplace]
  by_cases hp : s.place heapBase layout < 2 ^ 32
  · rw [if_pos hp]
    simp only [checkedAdd_eq, UInt32.toNat_ofNat_of_lt' hp]
    by_cases hstop : s.place heapBase layout + layout.size.toNat < 2 ^ 32
    · rw [if_pos hstop, if_neg (Nat.not_le_of_lt hstop)]
      simp only [limit_lt hstop]
      by_cases hlimit : s.place heapBase layout + layout.size.toNat ≤ s.memory.toNat * 65536
      · rw [if_neg (not_not_intro hlimit), if_pos hlimit]
      · rw [if_pos hlimit, if_neg hlimit, divCeil_needed hstop hlimit]
        cases granted with
        | false => rfl
        | true =>
          have hgrown : s.memory + UInt32.ofNat (Bump.pagesFor 65536
              (s.place heapBase layout + layout.size.toNat - s.memory.toNat * 65536)) =
              UInt32.ofNat (s.grown heapBase layout) := by
            unfold State.grown
            rw [UInt32.ofNat_add, UInt32.ofNat_toNat]
          simp only [memoryGrow, if_true, if_neg (ne_max hstop hlimit), hgrown]
    · rw [if_neg hstop, if_pos (Nat.le_of_not_lt hstop)]
  · rw [if_neg hp, if_pos (Nat.le_trans (Nat.le_of_not_lt hp) (Nat.le_add_right _ _))]

/-- A result in words and one in unbounded numbers. -/
structure Matches (heapBase : UInt32) (layout : Layout) (s : State) (result : UInt32 × State)
    (exact : Option Block × Heap) : Prop where
  synced : result.2.Synced
  block : exact.1 = if result.1 = 0 then none else some ⟨result.1.toNat, layout.size.toNat⟩
  heap : exact.2 = result.2.heap heapBase
  failed : result.1 = 0 → result.2.nextAddr = s.nextAddr

theorem matches_failure :
    Matches heapBase layout s (0, ⟨s.nextAddr, s.memory, s.memory⟩) (none, s.heap heapBase) := by
  refine ⟨fun _ => rfl, rfl, ?_, fun _ => rfl⟩
  exact (heap_eq s.nextAddr s.currentPages s.memory).trans
    (heap_eq s.nextAddr s.memory s.memory).symm

theorem ofNat_ne_zero {n : Nat} (hpos : 0 < n) (hlt : n < 2 ^ 32) : UInt32.ofNat n ≠ 0 := by
  intro hzero
  have hnat := congrArg UInt32.toNat hzero
  rw [UInt32.toNat_ofNat_of_lt' hlt] at hnat
  exact Nat.ne_of_gt hpos hnat

theorem place_pos (hbase : 0 < heapBase) : 0 < s.place heapBase layout := by
  have hstart : 0 < (start heapBase s).1.toNat := UInt32.lt_iff_toNat_lt.mp (start_pos hbase)
  exact Nat.lt_of_lt_of_le hstart (Bump.le_alignUp layout.align_pos _)

/-- Neither the block nor the cursor is at 0, which would be the null pointer and the state
before the first call. -/
theorem matches_success (hbase : 0 < heapBase) {pages : UInt32}
    (hstop : s.place heapBase layout + layout.size.toNat < 2 ^ 32) :
    Matches heapBase layout s
      (UInt32.ofNat (s.place heapBase layout),
        ⟨UInt32.ofNat (s.place heapBase layout + layout.size.toNat), pages, pages⟩)
      (some ⟨s.place heapBase layout, layout.size.toNat⟩,
        ⟨s.place heapBase layout + layout.size.toNat, pages.toNat⟩) := by
  have hpos : 0 < s.place heapBase layout := place_pos hbase
  have hptr : s.place heapBase layout < 2 ^ 32 := Nat.lt_of_le_of_lt (Nat.le_add_right _ _) hstop
  refine ⟨fun _ => rfl, ?_, ?_, fun h => absurd h (ofNat_ne_zero hpos hptr)⟩
  · rw [if_neg (ofNat_ne_zero hpos hptr), UInt32.toNat_ofNat_of_lt' hptr]
  · rw [heap_eq, if_neg (ofNat_ne_zero (Nat.add_pos_left hpos _) hstop),
      UInt32.toNat_ofNat_of_lt' hstop]

/-- What the words compute is bump allocation with unbounded numbers. -/
theorem alloc_refines (hbase : 0 < heapBase) (hsync : s.Synced) :
    Matches heapBase layout s (alloc heapBase layout granted s)
      (Bump.alloc (2 ^ 32) 65536 layout.align.toNat layout.size.toNat granted
        (s.heap heapBase)) := by
  have hexact : Bump.alloc (2 ^ 32) 65536 layout.align.toNat layout.size.toNat granted
      (s.heap heapBase) =
      if 2 ^ 32 ≤ s.place heapBase layout + layout.size.toNat then (none, s.heap heapBase)
      else if s.place heapBase layout + layout.size.toNat ≤ s.memory.toNat * 65536 then
        (some ⟨s.place heapBase layout, layout.size.toNat⟩,
          ⟨s.place heapBase layout + layout.size.toNat, s.memory.toNat⟩)
      else if granted then
        (some ⟨s.place heapBase layout, layout.size.toNat⟩,
          ⟨s.place heapBase layout + layout.size.toNat, s.grown heapBase layout⟩)
      else (none, s.heap heapBase) := rfl
  rw [alloc_eq hsync, hexact]
  by_cases hstop : 2 ^ 32 ≤ s.place heapBase layout + layout.size.toNat
  · rw [if_pos hstop, if_pos hstop]
    exact matches_failure
  · rw [if_neg hstop, if_neg hstop]
    by_cases hlimit : s.place heapBase layout + layout.size.toNat ≤ s.memory.toNat * 65536
    · rw [if_pos hlimit, if_pos hlimit]
      exact matches_success hbase (Nat.lt_of_not_le hstop)
    · rw [if_neg hlimit, if_neg hlimit]
      cases granted with
      | false => exact matches_failure
      | true =>
        have hgrown : (UInt32.ofNat (s.grown heapBase layout)).toNat = s.grown heapBase layout :=
          UInt32.toNat_ofNat_of_lt' (grown_lt (Nat.lt_of_not_le hstop) hlimit)
        have hmatches := @matches_success heapBase layout s hbase
          (UInt32.ofNat (s.grown heapBase layout)) (Nat.lt_of_not_le hstop)
        rw [hgrown] at hmatches
        exact hmatches

theorem divCeilChecked_eq (bytes : UInt32) :
    divCeilChecked bytes PAGE_SIZE = some (divCeil bytes PAGE_SIZE) := by
  unfold divCeilChecked divCeil
  split
  · refine if_pos ?_
    have hlt := bytes.toNat_lt
    have hdiv : (bytes / PAGE_SIZE).toNat = bytes.toNat / 65536 := UInt32.toNat_div bytes PAGE_SIZE
    show (bytes / PAGE_SIZE).toNat + 1 < 2 ^ 32
    omega
  · rfl

/-- Nothing that `alloc` does not check overflows. -/
theorem alloc_checked (hsync : s.Synced) :
    allocChecked heapBase layout granted s = some (alloc heapBase layout granted s) := by
  have hplace : alignUp layout.align.toNat (start heapBase s).1.toNat = s.place heapBase layout :=
    rfl
  have hmask : checkedSub layout.align 1 = some (layout.align - 1) := if_pos layout.one_le_align
  unfold allocChecked alloc
  simp only [start_state hsync, hmask, aligned_eq, hplace, Option.bind_eq_bind, Option.bind_some]
  by_cases hp : s.place heapBase layout < 2 ^ 32
  · rw [if_pos hp]
    simp only [checkedAdd_eq (UInt32.ofNat _) layout.size, UInt32.toNat_ofNat_of_lt' hp]
    by_cases hstop : s.place heapBase layout + layout.size.toNat < 2 ^ 32
    · rw [if_pos hstop]
      simp only [limit_lt hstop]
      by_cases hlimit : s.place heapBase layout + layout.size.toNat ≤ s.memory.toNat * 65536
      · rw [if_neg (not_not_intro hlimit), if_neg (not_not_intro hlimit)]
      · have hneeded : checkedSub
            (UInt32.ofNat (s.place heapBase layout + layout.size.toNat))
            (saturatingMul s.memory PAGE_SIZE) =
            some (UInt32.ofNat (s.place heapBase layout + layout.size.toNat) -
              saturatingMul s.memory PAGE_SIZE) :=
          if_pos (UInt32.le_of_lt ((limit_lt hstop).mpr hlimit))
        have hpages : checkedAdd s.memory
            (divCeil (UInt32.ofNat (s.place heapBase layout + layout.size.toNat) -
              saturatingMul s.memory PAGE_SIZE) PAGE_SIZE) =
            some (s.memory + divCeil (UInt32.ofNat (s.place heapBase layout + layout.size.toNat) -
              saturatingMul s.memory PAGE_SIZE) PAGE_SIZE) := by
          refine if_pos ?_
          rw [divCeil_toNat, needed_toNat hstop hlimit]
          exact grown_lt hstop hlimit
        rw [if_pos hlimit, if_pos hlimit, hneeded]
        simp only [Option.bind_some, divCeilChecked_eq, hpages]
        split <;> rfl
    · rw [if_neg hstop]
  · rw [if_neg hp]

end Refinement

/-! ## Runs -/

section Runs

variable {heapBase : UInt32} {layout : Layout} {granted : Bool} {s s' : State} {ptr : UInt32}
  {blocks : List Block}

/-- What holds between two calls. -/
structure Inv (heapBase : UInt32) (blocks : List Block) (s : State) : Prop where
  synced : s.Synced
  laid : Laid heapBase.toNat 65536 blocks (s.heap heapBase)

theorem inv_start (memory : UInt32) : Inv heapBase [] ⟨0, 0, memory⟩ :=
  ⟨fun h => absurd rfl h, Bump.laid_nil (Nat.le_refl _)⟩

/-- A failed call leaves everything where it was. -/
theorem Inv.failure (hbase : 0 < heapBase) (hinv : Inv heapBase blocks s)
    (halloc : alloc heapBase layout granted s = (0, s')) :
    s'.nextAddr = s.nextAddr ∧ Inv heapBase blocks s' := by
  have hmatches := @alloc_refines heapBase layout granted s hbase hinv.synced
  rw [halloc] at hmatches
  have hnone : Bump.alloc (2 ^ 32) 65536 layout.align.toNat layout.size.toNat granted
      (s.heap heapBase) = (none, s'.heap heapBase) := Prod.ext hmatches.block hmatches.heap
  refine ⟨hmatches.failed rfl, hmatches.synced, ?_⟩
  rw [Bump.alloc_none hnone]
  exact hinv.laid

/-- A block is aligned, mapped and apart from those before it. -/
theorem Inv.success (hbase : 0 < heapBase) (hinv : Inv heapBase blocks s) (hptr : ptr ≠ 0)
    (halloc : alloc heapBase layout granted s = (ptr, s')) :
    ptr.toNat % layout.align.toNat = 0 ∧ heapBase.toNat ≤ ptr.toNat ∧
      ptr.toNat + layout.size.toNat ≤ s'.memory.toNat * 65536 ∧
      (∀ b ∈ blocks, Apart ⟨ptr.toNat, layout.size.toNat⟩ b) ∧
      Inv heapBase (⟨ptr.toNat, layout.size.toNat⟩ :: blocks) s' := by
  have hmatches := @alloc_refines heapBase layout granted s hbase hinv.synced
  rw [halloc] at hmatches
  have hblock := hmatches.block
  rw [if_neg hptr] at hblock
  obtain ⟨haligned, hle, hmapped, happart, hlaid⟩ :=
    hinv.laid.alloc_some (by decide) layout.align_pos (Prod.ext hblock hmatches.heap)
  exact ⟨haligned, hle, hmapped, happart, hmatches.synced, hlaid⟩

theorem Inv.step (hbase : 0 < heapBase) {before : List Block × State}
    (hinv : Inv heapBase before.1 before.2) (call : Call) :
    Inv heapBase (step heapBase before call).1 (step heapBase before call).2 := by
  unfold SimpleAllocator.step
  cases halloc : alloc heapBase call.layout call.granted before.2 with
  | mk ptr s' =>
    by_cases hptr : ptr = 0
    · subst hptr
      exact (hinv.failure hbase halloc).2
    · simp only [if_neg hptr]
      exact (hinv.success hbase hptr halloc).2.2.2.2

theorem Inv.foldl (hbase : 0 < heapBase) {before : List Block × State}
    (hinv : Inv heapBase before.1 before.2) (calls : List Call) :
    Inv heapBase (calls.foldl (SimpleAllocator.step heapBase) before).1
      (calls.foldl (SimpleAllocator.step heapBase) before).2 := by
  induction calls generalizing before with
  | nil => exact hinv
  | cons call calls ih => exact ih (hinv.step hbase call)

/-- A call returns null if its block would end beyond the address space, or beyond the memory
and no more is granted. -/
theorem alloc_eq_null (hbase : 0 < heapBase) (hsync : s.Synced)
    (halloc : alloc heapBase layout granted s = (ptr, s')) :
    ptr = 0 ↔ 2 ^ 32 ≤ s.place heapBase layout + layout.size.toNat ∨
      s.memory.toNat * 65536 < s.place heapBase layout + layout.size.toNat ∧ granted = false := by
  have hmatches := @alloc_refines heapBase layout granted s hbase hsync
  rw [halloc] at hmatches
  have hnone : (Bump.alloc (2 ^ 32) 65536 layout.align.toNat layout.size.toNat granted
      (s.heap heapBase)).1 = none ↔ ptr = 0 := by
    rw [hmatches.block]
    by_cases hptr : ptr = 0 <;> simp [hptr]
  rw [← hnone, Bump.alloc_none_iff]
  rfl

/-- After any sequence of calls, with any sizes and alignments and whatever was granted, a block
is aligned, starts at or after the heap base, ends within the memory there is, and shares no
address with a block before it; a call that fails returns null and leaves the next address as
it was; and no operation wraps. -/
theorem alloc_blocks {memory : UInt32} (hbase : 0 < heapBase) (calls : List Call)
    (hrun : run heapBase memory calls = (blocks, s))
    (halloc : alloc heapBase layout granted s = (ptr, s')) :
    (ptr ≠ 0 → ptr.toNat % layout.align.toNat = 0 ∧ heapBase ≤ ptr ∧
      ptr.toNat + layout.size.toNat ≤ s'.memory.toNat * 65536 ∧
      ∀ b ∈ blocks, Apart ⟨ptr.toNat, layout.size.toNat⟩ b) ∧
    (ptr = 0 ↔ 2 ^ 32 ≤ s.place heapBase layout + layout.size.toNat ∨
      s.memory.toNat * 65536 < s.place heapBase layout + layout.size.toNat ∧ granted = false) ∧
    (ptr = 0 → s'.nextAddr = s.nextAddr) ∧
    allocChecked heapBase layout granted s = some (ptr, s') := by
  have hinv : Inv heapBase blocks s := by
    have hall := @Inv.foldl heapBase hbase ([], ⟨0, 0, memory⟩) (inv_start memory) calls
    have hboth : calls.foldl (step heapBase) ([], ⟨0, 0, memory⟩) = (blocks, s) := hrun
    rw [hboth] at hall
    exact hall
  refine ⟨fun hptr => ?_, alloc_eq_null hbase hinv.synced halloc, ?_, ?_⟩
  · obtain ⟨haligned, hle, hmapped, happart, _⟩ := hinv.success hbase hptr halloc
    exact ⟨haligned, UInt32.le_iff_toNat_le.mpr hle, hmapped, happart⟩
  · rintro rfl
    exact (hinv.failure hbase halloc).1
  · rw [alloc_checked hinv.synced, halloc]

/-- Ten bytes, then a block that does not fit into the first page: at first it is not granted. -/
theorem alloc_blocks_granted :
    run 1040 1 [⟨⟨10, 1, 0, by decide, rfl⟩, false⟩, ⟨⟨70000, 8, 3, by decide, rfl⟩, false⟩] =
        ([⟨1040, 10⟩], ⟨1050, 1, 1⟩) ∧
      alloc 1040 ⟨70000, 8, 3, by decide, rfl⟩ true ⟨1050, 1, 1⟩ = (1056, ⟨71056, 2, 2⟩) ∧
      ∀ b ∈ [(⟨1040, 10⟩ : Block)], Apart ⟨1056, 70000⟩ b := by
  have hrun : run 1040 1
      [⟨⟨10, 1, 0, by decide, rfl⟩, false⟩, ⟨⟨70000, 8, 3, by decide, rfl⟩, false⟩] =
      ([⟨1040, 10⟩], ⟨1050, 1, 1⟩) := by decide
  have halloc : alloc 1040 ⟨70000, 8, 3, by decide, rfl⟩ true ⟨1050, 1, 1⟩ =
      (1056, ⟨71056, 2, 2⟩) := by decide
  exact ⟨hrun, halloc, ((alloc_blocks (by decide) _ hrun halloc).1 (by decide)).2.2.2⟩

end Runs

end SimpleAllocator

end DcMatcher
