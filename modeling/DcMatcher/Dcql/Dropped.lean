import DcMatcher.Dcql.Reference
import Mathlib.Algebra.BigOperators.Group.List.Lemmas

/-!
# The number of combinations not built

`QueryResult.combinations` reports how many combinations the limit dropped. It adds up
what each set skipped for each combination so far. A combination so far that is
skipped at an earlier set counts as one, whatever the later sets would have made of it.

Results:
1. `extendGroups_counts`: the report counts the ways cut at each set, exactly unless
   a number on the way does not fit a `usize`.
2. `builtAfter_add_cutWays`: these and the combinations built are at most the whole
   enumeration, and all of it exactly when no set is cut that a set with several ways
   comes after.
3. `combinations_honest_iff`: when the report is right.
-/

namespace DcMatcher

open Enumeration

/-! ## 1. What a report counts -/

/-- The report counts `n` ways. It is exact unless `n` does not fit a `usize`, or an
option was too `huge` to count; then it is a lower bound. -/
structure Dropped.Counts (w : PointerWidth) (d : Dropped) (n : Nat) (huge : Prop) : Prop where
  exact_iff : d.isExact = true ↔ ¬ huge ∧ n ≤ w.usizeMax
  count_eq : d.isExact = true → d.count = n
  count_le : d.count ≤ n

namespace Dropped.Counts

variable {w : PointerWidth} {d e : Dropped} {n m : Nat} {huge huge' : Prop}

theorem zero : Dropped.Counts w (.exact 0) 0 False :=
  ⟨by simp [isExact], fun _ => rfl, Nat.le_refl 0⟩

/-- Reports add up to the report of the sum. -/
theorem add (hd : d.Counts w n huge) (he : e.Counts w m huge') :
    (d.add w e).Counts w (n + m) (huge ∨ huge') := by
  have hle := Nat.add_le_add hd.count_le he.count_le
  by_cases hfits : d.count + e.count ≤ w.usizeMax
  · by_cases hexact : d.isExact = true ∧ e.isExact = true
    · -- two numbers
      have hsum : d.add w e = .exact (n + m) := by
        rw [Dropped.add, checkedAdd, if_pos hfits]
        simp only [hexact, Bool.and_self, if_true, hd.count_eq hexact.1, he.count_eq hexact.2]
      rw [hd.count_eq hexact.1, he.count_eq hexact.2] at hfits
      have hsmall := (hd.exact_iff.mp hexact.1).1
      have hsmall' := (he.exact_iff.mp hexact.2).1
      rw [hsum]
      exact ⟨by simp [isExact, hsmall, hsmall', hfits], fun _ => rfl, Nat.le_refl _⟩
    · -- a number and a bound, or two bounds
      have hsum : d.add w e = .atLeast (d.count + e.count) := by
        rw [Dropped.add, checkedAdd, if_pos hfits]
        simp only [Bool.and_eq_true, hexact, if_false]
      have hbig : ¬ (¬ (huge ∨ huge') ∧ n + m ≤ w.usizeMax) := fun h =>
        hexact ⟨hd.exact_iff.mpr ⟨fun hh => h.1 (.inl hh), by omega⟩,
          he.exact_iff.mpr ⟨fun hh => h.1 (.inr hh), by omega⟩⟩
      rw [hsum]
      exact ⟨by simpa [isExact] using hbig, fun h => by simp [isExact] at h, hle⟩
  · -- the sum does not fit
    have hsum : d.add w e = .atLeast w.usizeMax := by
      rw [Dropped.add, checkedAdd, if_neg hfits]
    rw [hsum]
    exact ⟨by simp only [isExact, Bool.false_eq_true, false_iff, not_and]; omega,
      fun h => by simp [isExact] at h, by simp only [count]; omega⟩

end Dropped.Counts

/-- An option reports the ways it has beyond the budget. -/
theorem candidateProducts_counts {w : PointerWidth} (r : QueryResult) (option : List String)
    {budget : Nat} (hbudget : budget ≤ w.usizeMax) :
    (candidateProducts w r option budget).2.Counts w (r.optionWidth option - budget)
      (w.usizeMax < r.optionWidth option) := by
  rw [candidateProducts_snd r option hbudget]
  split
  · next hfits =>
    exact ⟨by simp only [Dropped.isExact, true_iff]; omega, fun _ => rfl, Nat.le_refl _⟩
  · next hover =>
    exact ⟨by simp only [Dropped.isExact, Bool.false_eq_true, false_iff]; omega,
      fun h => by simp [Dropped.isExact] at h, by simp only [Dropped.count]; omega⟩

/-! ## 2. One set -/

/-- The state of the loops within one set, once they have seen `ways` ways: as many are
built as the limit allows, and the rest is counted, on top of the `before` ways earlier
sets cut. -/
structure Tally (w : PointerWidth) (limit before ways : Nat) (huge : Prop)
    (state : List Combination × Dropped) : Prop where
  built : state.1.length = min limit ways
  counts : state.2.Counts w (before + (ways - limit)) huge

theorem Tally.foldl {α : Type} {w : PointerWidth} {limit before : Nat}
    {step : List Combination × Dropped → α → List Combination × Dropped}
    {width : α → Nat} {huge : α → Prop}
    (hstep : ∀ {ways wide state}, Tally w limit before ways wide state → ∀ x,
      Tally w limit before (ways + width x) (wide ∨ huge x) (step state x))
    {ways : Nat} {wide : Prop} {state : List Combination × Dropped}
    (h : Tally w limit before ways wide state) (xs : List α) :
    Tally w limit before (ways + (xs.map width).sum) (wide ∨ ∃ x ∈ xs, huge x)
      (xs.foldl step state) := by
  induction xs generalizing ways wide state with
  | nil => simpa using h
  | cons x xs ih =>
    have hnext := ih (hstep h x)
    rw [List.map_cons, List.sum_cons, ← Nat.add_assoc, List.foldl_cons]
    simpa only [List.exists_mem_cons_iff, or_assoc] using hnext

section Groups

variable {w : PointerWidth} (r : QueryResult) {limit : Nat}

theorem extendOption_tally (hlimit : limit ≤ w.usizeMax) (purpose : Option Value)
    (sofar : Combination) {before ways : Nat} {wide : Prop} {state : List Combination × Dropped}
    (h : Tally w limit before ways wide state) (option : List String) :
    Tally w limit before (ways + r.optionWidth option)
      (wide ∨ w.usizeMax < r.optionWidth option)
      (extendOption w r limit purpose sofar state option) := by
  have hlength := h.built
  have hroom : state.1.length ≤ limit := by omega
  constructor
  · rw [extendOption_fst r hlimit purpose sofar state option hroom, List.length_take,
      List.length_append, List.length_map, r.length_optionWays]
    omega
  · have hbudget : limit - state.1.length ≤ w.usizeMax := by omega
    have hcounts := h.counts.add (candidateProducts_counts r option hbudget)
    have hsum : before + (ways - limit) + (r.optionWidth option - (limit - state.1.length)) =
        before + (ways + r.optionWidth option - limit) := by omega
    rwa [hsum] at hcounts

/-- Whether some option of a set has more ways than a `usize` holds. -/
def QueryResult.Huge (w : PointerWidth) (r : QueryResult) (group : Group) : Prop :=
  ∃ option ∈ group.2, w.usizeMax < r.optionWidth option

/-- A set sees its ways once for each combination so far. -/
theorem extendGroup_tally (hlimit : limit ≤ w.usizeMax) {n : Nat} {wide : Prop}
    {state : List Combination × Dropped} (hsome : state.1 ≠ []) (h : state.2.Counts w n wide)
    (group : Group) :
    Tally w limit n (state.1.length * r.groupWidth group) (wide ∨ r.Huge w group)
      (extendGroup w r limit state group) := by
  have hstart : Tally w limit n 0 wide ([], state.2) := ⟨by simp, by simpa using h⟩
  have hall : Tally w limit n (0 + (state.1.map fun _ => r.groupWidth group).sum)
      (wide ∨ ∃ _sofar ∈ state.1, r.Huge w group) (extendGroup w r limit state group) :=
    hstart.foldl (fun h sofar => h.foldl (extendOption_tally r hlimit group.1 sofar) group.2)
      state.1
  simpa [List.exists_mem_of_ne_nil state.1 hsome] using hall

/-! ## 3. All sets -/

/-- How many combinations there are after sets of the given widths, cut at the limit
after each. -/
def builtAfter (limit : Nat) : Nat → List Nat → Nat
  | built, [] => built
  | built, width :: widths => builtAfter limit (min limit (built * width)) widths

/-- How many ways are cut on the way. -/
def cutWays (limit : Nat) : Nat → List Nat → Nat
  | _, [] => 0
  | built, width :: widths =>
    (built * width - limit) + cutWays limit (min limit (built * width)) widths

/-- With room for at least one combination, the loops go through all sets. -/
theorem extendGroups_counts (hlimit : limit ≤ w.usizeMax) (hone : 0 < limit) (groups : List Group)
    (hwidth : ∀ group ∈ groups, 0 < r.groupWidth group) {n : Nat} {wide : Prop}
    {state : List Combination × Dropped} (hsome : state.1 ≠ []) (h : state.2.Counts w n wide) :
    (extendGroups w r limit groups state).1.length =
        builtAfter limit state.1.length (groups.map r.groupWidth) ∧
      (extendGroups w r limit groups state).2.Counts w
        (n + cutWays limit state.1.length (groups.map r.groupWidth))
        (wide ∨ ∃ group ∈ groups, r.Huge w group) := by
  induction groups generalizing n wide state with
  | nil => exact ⟨rfl, by simpa [extendGroups, cutWays] using h⟩
  | cons group groups ih =>
    have htally := extendGroup_tally r hlimit hsome h group
    -- each set has a way, so something is left for the next one
    have hbuilt : (extendGroup w r limit state group).1 ≠ [] := by
      have hpos := Nat.mul_pos (List.length_pos_iff.mpr hsome) (hwidth group List.mem_cons_self)
      rw [← List.length_pos_iff, htally.built]
      omega
    have hnext := ih (fun g hg => hwidth g (List.mem_cons_of_mem _ hg)) hbuilt htally.counts
    rw [htally.built] at hnext
    rw [extendGroups, if_neg (by simpa using hbuilt)]
    refine ⟨hnext.1, ?_⟩
    simpa only [List.map_cons, cutWays, List.exists_mem_cons_iff, or_assoc, Nat.add_assoc]
      using hnext.2

theorem builtAfter_zero (widths : List Nat) : builtAfter 0 0 widths = 0 := by
  induction widths with
  | nil => rfl
  | cons width widths ih => simpa [builtAfter] using ih

theorem cutWays_zero (widths : List Nat) : cutWays 0 0 widths = 0 := by
  induction widths with
  | nil => rfl
  | cons width widths ih => simpa [cutWays] using ih

/-- With no room at all, they stop after the first set, and nothing is left to cut. -/
theorem extendGroups_counts_zero (group : Group) (groups : List Group) {n : Nat} {wide : Prop}
    {state : List Combination × Dropped} (hsome : state.1 ≠ []) (h : state.2.Counts w n wide) :
    (extendGroups w r 0 (group :: groups) state).1.length =
        builtAfter 0 state.1.length ((group :: groups).map r.groupWidth) ∧
      (extendGroups w r 0 (group :: groups) state).2.Counts w
        (n + cutWays 0 state.1.length ((group :: groups).map r.groupWidth))
        (wide ∨ r.Huge w group) := by
  have htally := extendGroup_tally r (Nat.zero_le _) hsome h group
  have hnil : (extendGroup w r 0 state group).1 = [] := by
    rw [← List.length_eq_zero_iff, htally.built, Nat.zero_min]
  rw [extendGroups, if_pos (by simp [hnil]), List.map_cons, builtAfter, cutWays, Nat.zero_min,
    builtAfter_zero, cutWays_zero, hnil]
  exact ⟨rfl, htally.counts⟩

end Groups

/-! ## 4. What the counts add up to -/

/-- No set is cut that a set with several ways comes after, when there is one
combination to begin with. -/
def LimitSpares (limit : Nat) (widths : List Nat) : Prop :=
  ∀ before width after, widths = before ++ width :: after → before ≠ [] →
    width = 1 ∨ before.prod ≤ limit

theorem prod_pos_of_forall {widths : List Nat} (h : ∀ width ∈ widths, 0 < width) :
    0 < widths.prod :=
  Nat.pos_of_ne_zero (List.prod_ne_zero fun hzero => Nat.lt_irrefl 0 (h 0 hzero))

/-- A split of a longer list, not at its head, is a split of its tail. -/
theorem forall_split_cons {width : Nat} {widths : List Nat} {P : List Nat → Nat → Prop} :
    (∀ before n after, width :: widths = before ++ n :: after → before ≠ [] → P before n) ↔
      ∀ before n after, widths = before ++ n :: after → P (width :: before) n := by
  constructor
  · intro h before n after hsplit
    exact h (width :: before) n after (by rw [hsplit, List.cons_append]) (List.cons_ne_nil _ _)
  · rintro h (_ | ⟨head, before⟩) n after hsplit hne
    · exact absurd rfl hne
    · rw [List.cons_append, List.cons.injEq] at hsplit
      rw [← hsplit.1]
      exact h before n after hsplit.2

/-- A cut way that later sets would have multiplied is counted once. So what is built and
what is cut may fall short of all there is, and it does unless no such way is cut. -/
theorem builtAfter_add_cutWays {limit built : Nat} {widths : List Nat}
    (hwidth : ∀ width ∈ widths, 0 < width) (hroom : widths = [] → built ≤ limit) :
    builtAfter limit built widths + cutWays limit built widths ≤ built * widths.prod ∧
      (builtAfter limit built widths + cutWays limit built widths = built * widths.prod ↔
        ∀ before width after, widths = before ++ width :: after → before ≠ [] →
          width = 1 ∨ built * before.prod ≤ limit) := by
  induction widths generalizing built with
  | nil => simp [builtAfter, cutWays]
  | cons width widths ih =>
    have hrest : ∀ n ∈ widths, 0 < n := fun n hn => hwidth n (List.mem_cons_of_mem _ hn)
    have hprod := prod_pos_of_forall hrest
    obtain ⟨hle, heq⟩ := @ih (min limit (built * width)) hrest
      fun _ => Nat.min_le_left _ _
    rw [builtAfter, cutWays, List.prod_cons, ← Nat.mul_assoc, forall_split_cons]
    simp only [List.prod_cons, ← Nat.mul_assoc]
    by_cases hcut : built * width ≤ limit
    · -- nothing is cut at this set
      rw [Nat.min_eq_right hcut] at hle heq ⊢
      rw [Nat.sub_eq_zero_of_le hcut, Nat.zero_add]
      refine ⟨hle, heq.trans ⟨fun h before n after hsplit => ?_, fun h before n after hsplit _ =>
        h before n after hsplit⟩⟩
      cases before with
      | nil => exact .inr (by simpa using hcut)
      | cons head before => exact h _ n after hsplit (List.cons_ne_nil _ _)
    · -- something is cut, so only sets answered in one way may follow
      rw [Nat.min_eq_left (Nat.le_of_not_le hcut)] at hle heq ⊢
      obtain ⟨extra, hextra⟩ := Nat.exists_eq_add_of_le (Nat.le_of_not_le hcut)
      rw [hextra, Nat.add_sub_cancel_left, Nat.add_mul]
      have hgrow : extra ≤ extra * widths.prod := Nat.le_mul_of_pos_right _ hprod
      refine ⟨by omega, ⟨fun h before n after hsplit => .inl ?_, fun h => ?_⟩⟩
      · have hone : widths.prod = 1 := by
          have hextra' : extra * widths.prod = extra * 1 := by omega
          exact Nat.eq_of_mul_eq_mul_left (by omega) hextra'
        exact Nat.dvd_one.mp (hone ▸ List.dvd_prod (by rw [hsplit]; simp))
      · have hones : ∀ n ∈ widths, n = 1 := by
          intro n hn
          obtain ⟨before, after, hsplit⟩ := List.append_of_mem hn
          refine (h before n after hsplit).resolve_right fun hbound => hcut ?_
          have hbefore : 0 < before.prod :=
            prod_pos_of_forall fun m hm => hrest m (by rw [hsplit]; simp [hm])
          rw [hextra]
          exact Nat.le_trans (Nat.le_mul_of_pos_right _ hbefore) hbound
        have hone : widths.prod = 1 := List.prod_eq_one hones
        have hall := heq.mpr fun before n after hsplit _ =>
          .inl (hones n (by rw [hsplit]; simp))
        rw [hone] at hall ⊢
        omega

/-! ## 5. When the report is right -/

/-- An exact report and what was built make up all there is; a lower bound and what was
built are within it. -/
def Dropped.Honest (built total : Nat) : Dropped → Prop
  | .exact n => built + n = total
  | .atLeast n => built + n ≤ total

instance (built total : Nat) : (d : Dropped) → Decidable (d.Honest built total)
  | .exact n => inferInstanceAs (Decidable (built + n = total))
  | .atLeast n => inferInstanceAs (Decidable (built + n ≤ total))

theorem Dropped.Counts.honest_iff {w : PointerWidth} {d : Dropped} {built n total : Nat}
    {huge : Prop} (hcounts : d.Counts w n huge) (hle : built + n ≤ total) :
    d.Honest built total ↔ (huge ∨ w.usizeMax < n) ∨ built + n = total := by
  obtain ⟨hexact, heq, hbound⟩ := hcounts
  cases d with
  | exact m =>
    have hfits := hexact.mp rfl
    have hm : m = n := heq rfl
    simp only [Dropped.Honest, hm, hfits.1, false_or]
    omega
  | atLeast m =>
    have hm : m ≤ n := hbound
    have hover : huge ∨ w.usizeMax < n := by
      by_contra hnone
      rw [not_or, not_lt] at hnone
      cases hexact.mpr hnone
    simp only [Dropped.Honest, hover, true_or, iff_true]
    omega

namespace QueryResult

variable (r : QueryResult)

/-- The size of the enumeration. Nothing is enumerated when nothing is required. -/
def total : Nat :=
  if r.requiredSets.isEmpty then 0 else (r.requiredGroups.map r.groupWidth).prod

/-- The sets the loops get to: with a limit of 0 they stop after the first. -/
def reachedGroups (limit : Nat) : List Group :=
  if limit = 0 then r.requiredGroups.take 1 else r.requiredGroups

/-- A number on the way does not fit a `usize`: the ways of an option, or those cut at
all sets together. -/
def Uncountable (w : PointerWidth) (limit : Nat) : Prop :=
  (∃ group ∈ r.reachedGroups limit, r.Huge w group) ∨
    w.usizeMax < cutWays limit 1 (r.requiredGroups.map r.groupWidth)

end QueryResult

section Satisfiable

variable {C : Type} [Credential C] {query : DcqlQuery} {wallet : List C} {policy : Policy C}

theorem widths_pos (valid : query.validate = .ok ())
    (satisfiable : (execute query wallet policy).satisfiable = true) {width : Nat}
    (hwidth : width ∈ (execute query wallet policy).requiredGroups.map
      (execute query wallet policy).groupWidth) : 0 < width := by
  obtain ⟨group, hgroup, rfl⟩ := List.mem_map.mp hwidth
  exact groupWidth_pos valid satisfiable hgroup

/-- What is built, and what the report next to it counts. -/
theorem combinations_counts (w : PointerWidth) (valid : query.validate = .ok ())
    (satisfiable : (execute query wallet policy).satisfiable = true)
    (required : (execute query wallet policy).requiredGroups ≠ []) (limit : Usize w) :
    let r := execute query wallet policy
    (r.combinations w limit).combinations.length =
        builtAfter limit.val 1 (r.requiredGroups.map r.groupWidth) ∧
      (r.combinations w limit).dropped.Counts w
        (cutWays limit.val 1 (r.requiredGroups.map r.groupWidth))
        (∃ group ∈ r.reachedGroups limit.val, r.Huge w group) := by
  intro r
  have hgroups : r.groups = r.requiredGroups := groups_eq_requiredGroups satisfiable
  have hlimit : limit.val ≤ w.usizeMax := Nat.le_of_lt_succ limit.isLt
  have hunfold : r.combinations w limit =
      { combinations := (extendGroups w r limit.val r.requiredGroups startState).1
        dropped := (extendGroups w r limit.val r.requiredGroups startState).2 } := by
    rw [QueryResult.combinations, if_neg (by simp [r, satisfiable]), hgroups,
      if_neg (by simpa using required)]
  have hstart : startState.1 ≠ [] := List.cons_ne_nil _ _
  have hnone : startState.2.Counts w 0 False := Dropped.Counts.zero
  rw [hunfold, QueryResult.reachedGroups]
  split
  · next hzero =>
    obtain ⟨group, groups, hcons⟩ := List.exists_cons_of_ne_nil required
    have hall := extendGroups_counts_zero r group groups hstart hnone
    rw [hzero]
    simpa [r, hcons, startState] using hall
  · next hpos =>
    have hall := extendGroups_counts r hlimit (Nat.pos_of_ne_zero hpos) r.requiredGroups
      (fun group hgroup => groupWidth_pos valid satisfiable hgroup) hstart hnone
    simpa [startState] using hall

/-- The report is right if and only if it is a lower bound, because a number on the way
does not fit a `usize`, or no set is cut that a set with several ways comes after. -/
theorem combinations_honest_iff (w : PointerWidth) (valid : query.validate = .ok ())
    (satisfiable : (execute query wallet policy).satisfiable = true) (limit : Usize w) :
    let r := execute query wallet policy
    (r.combinations w limit).dropped.Honest (r.combinations w limit).combinations.length r.total ↔
      r.Uncountable w limit.val ∨ LimitSpares limit.val (r.requiredGroups.map r.groupWidth) := by
  intro r
  by_cases hnone : r.requiredGroups = []
  · -- nothing is required, built or counted
    have hsets : r.requiredSets = [] := by simpa [QueryResult.requiredGroups] using hnone
    have hgroups : r.groups = [] := (groups_eq_requiredGroups satisfiable).trans hnone
    have hempty : r.combinations w limit = { combinations := [], dropped := .exact 0 } := by
      rw [QueryResult.combinations, if_neg (by simp [r, satisfiable]), hgroups]
      rfl
    simp [hempty, Dropped.Honest, QueryResult.total, hsets, LimitSpares, hnone]
  · have hsets : ¬ r.requiredSets.isEmpty := by
      simpa [QueryResult.requiredGroups, List.isEmpty_iff] using hnone
    have hroom : r.requiredGroups.map r.groupWidth = [] → 1 ≤ limit.val := fun hnil =>
      absurd (List.map_eq_nil_iff.mp hnil) hnone
    have hsum := builtAfter_add_cutWays (fun _ hn => widths_pos valid satisfiable hn) hroom
    obtain ⟨hbuilt, hcounts⟩ := combinations_counts w valid satisfiable hnone limit
    rw [← hbuilt, Nat.one_mul] at hsum
    simp only [Nat.one_mul] at hsum
    rw [QueryResult.total, if_neg hsets, hcounts.honest_iff hsum.1, hsum.2]
    rfl

end Satisfiable

/-- Two credentials of each of two formats, each format asked for by a required set. -/
def twoFormatsWallet : List PlainCredential :=
  [⟨"a", "mso_mdoc"⟩, ⟨"b", "mso_mdoc"⟩, ⟨"c", "dc+sd-jwt"⟩, ⟨"d", "dc+sd-jwt"⟩]

def twoSetsQuery : DcqlQuery where
  credentials := [.plain "x" "mso_mdoc", .plain "y" "dc+sd-jwt"]
  credentialSets := some [.plain [["x"]], .plain [["y"]]]

theorem combinations_honest_iff_two_sets :
    let r := execute twoSetsQuery twoFormatsWallet (formatPolicy PlainCredential)
    (r.combinations .w32 2).dropped.Honest (r.combinations .w32 2).combinations.length r.total ↔
      r.Uncountable .w32 2 ∨ LimitSpares 2 (r.requiredGroups.map r.groupWidth) :=
  combinations_honest_iff .w32 (by decide) (by decide) 2

/-- With a limit of 1, each of the two sets skips one way. Two are reported as dropped,
exactly, but there are four combinations and one of them is built. -/
theorem combinations_two_sets_not_honest :
    let r := execute twoSetsQuery twoFormatsWallet (formatPolicy PlainCredential)
    twoSetsQuery.validate = .ok () ∧ r.satisfiable = true ∧ r.total = 4 ∧
      (r.combinations .w32 1).combinations.length = 1 ∧
      (r.combinations .w32 1).dropped = .exact 2 ∧
      ¬ (r.combinations .w32 1).dropped.Honest (r.combinations .w32 1).combinations.length
        r.total := by
  refine ⟨?_, ?_, ?_, ?_, ?_, ?_⟩ <;> decide

end DcMatcher
