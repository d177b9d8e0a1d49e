import Mathlib.Data.List.Basic
import Mathlib.Algebra.BigOperators.Ring.List
import Mathlib.Algebra.Order.Ring.Nat

/-!
# Bounded enumerations

Nothing here names a program. Two ways of listing a large product without
building more of it than is wanted:

* a loop that appends to a list it keeps within a limit, and
* an odometer, whose wheels are read once for each element and then turned, the
  first one fastest.

Results:
1. `foldl_fst_eq_take`: the loop builds the first `limit` elements of what the
   unbounded loop builds, whatever else it accumulates on the way.
2. `take_flatMap_take`: cutting the input of such a loop at the limit changes
   nothing, when every input element yields the same kind of list: none empty,
   or all empty.
3. `Wheel.spin_eq_take`: `n` turns of the odometer read the first `n` elements of
   the product of the wheels' faces.
-/

namespace Enumeration

variable {α β δ : Type}

/-! ## Loops cut at a limit -/

theorem take_take_append (limit : Nat) (xs ys : List α) :
    (xs.take limit ++ ys).take limit = (xs ++ ys).take limit := by
  by_cases h : xs.length ≤ limit
  · rw [List.take_of_length_le h]
  · have hfull : (xs.take limit).length = limit := by
      rw [List.length_take]
      omega
    rw [List.take_append_of_le_length (by omega), List.take_of_length_le (by omega),
      List.take_append_of_le_length (by omega)]

/-- What a step has room for is what is left of it within the limit. -/
theorem append_take_room {limit : Nat} {xs : List α} (ys : List α) (h : xs.length ≤ limit) :
    xs ++ ys.take (limit - xs.length) = (xs ++ ys).take limit := by
  rw [List.take_append, List.take_of_length_le h]

/-- A loop each of whose steps appends `f x` and cuts at the limit builds the first
`limit` elements of the unbounded loop, whatever its second component counts. The
conclusion has the form of the hypothesis, so that loops nest. -/
theorem foldl_fst_eq_take {step : List β × δ → α → List β × δ} {f : α → List β} {limit : Nat}
    (hstep : ∀ s x, s.1.length ≤ limit → (step s x).1 = (s.1 ++ f x).take limit) (xs : List α)
    (s : List β × δ) (hs : s.1.length ≤ limit) :
    (xs.foldl step s).1 = (s.1 ++ xs.flatMap f).take limit := by
  induction xs generalizing s with
  | nil => simp [List.take_of_length_le hs]
  | cons x xs ih =>
    have hroom : (step s x).1.length ≤ limit := by
      rw [hstep s x hs]
      exact List.length_take_le _ _
    rw [List.foldl_cons, ih (step s x) hroom, hstep s x hs, take_take_append,
      List.flatMap_cons, List.append_assoc]

theorem length_le_flatMap {f : α → List β} (hf : ∀ x, f x ≠ []) (xs : List α) :
    xs.length ≤ (xs.flatMap f).length := by
  induction xs with
  | nil => simp
  | cons x xs ih =>
    have hx : 0 < (f x).length := List.length_pos_iff.mpr (hf x)
    simp only [List.length_cons, List.flatMap_cons, List.length_append]
    omega

/-- The first `limit` elements of a nested loop need only the first `limit` elements
of the outer one, provided no outer element is skipped unless all are. -/
theorem take_flatMap_take {f : α → List β} (hf : (∀ x, f x ≠ []) ∨ ∀ x, f x = [])
    (limit : Nat) (xs : List α) :
    ((xs.take limit).flatMap f).take limit = (xs.flatMap f).take limit := by
  rcases hf with hf | hf
  · by_cases hlen : xs.length ≤ limit
    · rw [List.take_of_length_le hlen]
    · have hfull : limit ≤ ((xs.take limit).flatMap f).length := by
        have hgrow := length_le_flatMap hf (xs.take limit)
        rw [List.length_take] at hgrow
        omega
      conv_rhs => rw [← List.take_append_drop limit xs, List.flatMap_append]
      rw [List.take_append_of_le_length hfull]
  · have hnil : ∀ ys : List α, ys.flatMap f = [] := fun ys => by
      rw [List.flatMap_eq_nil_iff]
      exact fun x _ => hf x
    rw [hnil, hnil]

/-! ## Odometers -/

/-- The elements of a product of faces, the first face varying fastest. -/
def product : List (List (List β)) → List (List β)
  | [] => [[]]
  | face :: faces => (product faces).flatMap fun slow => face.map fun fast => fast ++ slow

@[simp] theorem length_product (faces : List (List (List β))) :
    (product faces).length = (faces.map List.length).prod := by
  induction faces with
  | nil => rfl
  | cons face faces ih =>
    rw [product, List.length_flatMap, List.map_cons, List.prod_cons, ← ih]
    simp [Nat.mul_comm]

/-- A product with an empty face has no element. -/
theorem product_eq_nil {faces : List (List (List β))} (h : [] ∈ faces) : product faces = [] := by
  rw [← List.length_eq_zero_iff, length_product, List.prod_eq_zero_iff]
  exact List.mem_map.mpr ⟨[], h, rfl⟩

/-- A wheel: its current reading, how it turns, all its readings in order, and those
from the current one on. Turning moves on by one reading; past the last one it starts
over and says so. -/
structure Wheel (D β : Type) where
  read : D → List β
  turn : D → D × Bool
  face : D → List (List β)
  ahead : D → List (List β)
  ahead_eq : ∀ d, ahead d = read d :: (ahead d).tail
  turn_face : ∀ d, face (turn d).1 = face d
  turn_on : ∀ d, (ahead d).tail ≠ [] → (turn d).2 = false ∧ ahead (turn d).1 = (ahead d).tail
  turn_over : ∀ d, (ahead d).tail = [] → (turn d).2 = true ∧ ahead (turn d).1 = face d

namespace Wheel

variable {D : Type} (W : Wheel D β)

/-- The reading of all wheels together. -/
def readAll (ds : List D) : List β := ds.flatMap W.read

/-- Turn the first wheel, and the next one for as long as the turn carries. -/
def turnAll : List D → List D
  | [] => []
  | d :: ds => if (W.turn d).2 then (W.turn d).1 :: turnAll ds else (W.turn d).1 :: ds

/-- Read and turn, `n` times. -/
def spin : Nat → List D → List (List β)
  | 0, _ => []
  | n + 1, ds => W.readAll ds :: spin n (W.turnAll ds)

/-- The readings from the current one to the last one of a whole cycle. -/
def remaining : List D → List (List β)
  | [] => [[]]
  | d :: ds => ((W.ahead d).map fun fast => fast ++ W.readAll ds) ++
      (remaining ds).tail.flatMap fun slow => (W.face d).map fun fast => fast ++ slow

theorem remaining_eq (ds : List D) : W.remaining ds = W.readAll ds :: (W.remaining ds).tail := by
  cases ds with
  | nil => rfl
  | cons d ds =>
    rw [remaining, W.ahead_eq d]
    simp [readAll]

/-- A wheel at its first reading has the whole face ahead of it. -/
theorem remaining_start (ds : List D) (h : ∀ d ∈ ds, W.ahead d = W.face d) :
    W.remaining ds = product (ds.map W.face) := by
  induction ds with
  | nil => rfl
  | cons d ds ih =>
    have hd := h d List.mem_cons_self
    have hds := ih fun e he => h e (List.mem_cons_of_mem d he)
    rw [remaining, List.map_cons, product, ← hds, hd]
    conv_rhs => rw [W.remaining_eq ds]
    simp

/-- One turn drops the reading just made; after the last one the cycle starts over. -/
theorem remaining_turnAll (ds : List D) :
    W.remaining (W.turnAll ds) =
      if (W.remaining ds).tail = [] then product (ds.map W.face) else (W.remaining ds).tail := by
  induction ds with
  | nil => rfl
  | cons d ds ih =>
    by_cases hover : (W.ahead d).tail = []
    · obtain ⟨hcarry, hahead⟩ := W.turn_over d hover
      -- the first wheel starts over, so the others have moved on by one
      have hturned : W.remaining (W.turnAll (d :: ds)) =
          (W.remaining (W.turnAll ds)).flatMap fun slow =>
            (W.face d).map fun fast => fast ++ slow := by
        rw [turnAll, if_pos hcarry, remaining, hahead, W.turn_face]
        conv_rhs => rw [W.remaining_eq (W.turnAll ds)]
        rw [List.flatMap_cons]
      have htail : (W.remaining (d :: ds)).tail =
          (W.remaining ds).tail.flatMap fun slow => (W.face d).map fun fast => fast ++ slow := by
        rw [remaining, W.ahead_eq d, hover]
        rfl
      rw [hturned, htail, ih, List.map_cons, product]
      by_cases hlast : (W.remaining ds).tail = []
      · simp [hlast]
      · have hface : W.face d ≠ [] := by
          rw [← hahead, W.ahead_eq]
          exact List.cons_ne_nil _ _
        rw [if_neg hlast, if_neg]
        rw [List.flatMap_eq_nil_iff]
        intro hall
        obtain ⟨slow, rest, hslow⟩ := List.exists_cons_of_ne_nil hlast
        exact hface (List.map_eq_nil_iff.mp (hall slow (by rw [hslow]; exact List.mem_cons_self)))
    · obtain ⟨hcarry, hahead⟩ := W.turn_on d hover
      have htail : (W.remaining (d :: ds)).tail = W.remaining (W.turnAll (d :: ds)) := by
        rw [turnAll, if_neg (by simp [hcarry]), remaining, remaining, hahead, W.turn_face,
          W.ahead_eq d]
        rfl
      have hne : (W.remaining (d :: ds)).tail ≠ [] := by
        rw [htail, W.remaining_eq]
        exact List.cons_ne_nil _ _
      rw [if_neg hne, htail]

/-- The loop that reads and turns lists the readings still to come, in order. -/
theorem spin_eq_take (n : Nat) (ds : List D) (hn : n ≤ (W.remaining ds).length) :
    W.spin n ds = (W.remaining ds).take n := by
  induction n generalizing ds with
  | zero => rfl
  | succ n ih =>
    have hread := W.remaining_eq ds
    rw [spin, hread, List.take_succ_cons]
    congr 1
    cases n with
    | zero => rfl
    | succ n =>
      have hmore : (W.remaining ds).tail ≠ [] := by
        intro hnil
        rw [hread, hnil] at hn
        simp at hn
      have hturn := W.remaining_turnAll ds
      rw [if_neg hmore] at hturn
      rw [ih, hturn]
      rw [hturn, List.length_tail]
      omega

end Wheel

end Enumeration
