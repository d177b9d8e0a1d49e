import Mathlib.Data.List.Basic
import Mathlib.Data.List.Infix

/-!
# Cursors

Nothing here names a program. A cursor over a content is a position, at or past the end included.
A read may be short: it takes as many elements as it likes, but at least one where there is one to
take. A seek goes to a target from 0 up to a limit, and is refused elsewhere.

Results:
1. `Step.eq_of_taken`: a step is determined by how many elements it takes.
2. `Run.eq_of_taken`: so is a run.
-/

namespace Cursors

variable {α : Type}

/-- Where a seek counts from. -/
inductive SeekFrom
  | start (n : Nat)
  | fromEnd (n : Int)
  | current (n : Int)

/-- Where a seek leads to. -/
def SeekFrom.target (length position : Nat) : SeekFrom → Int
  | .start n => n
  | .fromEnd n => length + n
  | .current n => position + n

inductive Operation
  /-- Into a buffer for so many elements. -/
  | read (room : Nat)
  | seek (place : SeekFrom)

inductive Answer (α : Type)
  | read (count : Nat) (taken : List α)
  | position (n : Nat)
  | refused

/-- How many elements an operation took. -/
def Answer.count : Answer α → Nat
  | .read count _ => count
  | .position _ | .refused => 0

/-- One operation at a position, with its answer and the position after it. -/
inductive Step (content : List α) (limit : Nat) : Nat → Operation → Answer α → Nat → Prop
  /-- What is taken is what comes next, and nothing only if there is no room or nothing left. -/
  | read {p room : Nat} {taken : List α} : taken <+: (content.drop p).take room →
      (taken = [] → room = 0 ∨ content.length ≤ p) →
      Step content limit p (.read room) (.read taken.length taken) (p + taken.length)
  | seek {p n : Nat} {place : SeekFrom} : place.target content.length p = n → n < limit →
      Step content limit p (.seek place) (.position n) n
  | refused {p : Nat} {place : SeekFrom} :
      place.target content.length p < 0 ∨ limit ≤ place.target content.length p →
      Step content limit p (.seek place) .refused p

/-- Operations one after another. -/
inductive Run (content : List α) (limit : Nat) :
    Nat → List Operation → List (Answer α) → Nat → Prop
  | nil {p : Nat} : Run content limit p [] [] p
  | cons {p q r : Nat} {o : Operation} {os : List Operation} {a : Answer α}
      {as : List (Answer α)} : Step content limit p o a q → Run content limit q os as r →
      Run content limit p (o :: os) (a :: as) r

variable {content : List α} {limit : Nat}

/-- How many elements a step takes determines its answer and where it ends. -/
theorem Step.eq_of_taken {p q q' : Nat} {o : Operation} {a a' : Answer α}
    (h : Step content limit p o a q) (h' : Step content limit p o a' q')
    (hcount : a.count = a'.count) : a = a' ∧ q = q' := by
  cases h with
  | read htaken _ =>
    cases h' with
    | read htaken' _ =>
      have hprefix := List.prefix_of_prefix_length_le htaken htaken' (Nat.le_of_eq hcount)
      have heq := hprefix.eq_of_length hcount
      rw [heq]
      exact ⟨rfl, rfl⟩
  | seek htarget hlt =>
    cases h' with
    | seek htarget' _ =>
      have heq := Int.ofNat.inj (htarget.symm.trans htarget')
      rw [heq]
      exact ⟨rfl, rfl⟩
    | refused hout => omega
  | refused hout =>
    cases h' with
    | seek htarget hlt => omega
    | refused _ => exact ⟨rfl, rfl⟩

theorem Run.eq_of_taken {p q q' : Nat} {os : List Operation} {as as' : List (Answer α)}
    (h : Run content limit p os as q) (h' : Run content limit p os as' q')
    (hcounts : as.map Answer.count = as'.map Answer.count) : as = as' ∧ q = q' := by
  induction h generalizing as' q' with
  | nil =>
    cases h'
    exact ⟨rfl, rfl⟩
  | cons hstep _ ih =>
    cases h' with
    | cons hstep' hrun' =>
      rw [List.map_cons, List.map_cons, List.cons.injEq] at hcounts
      obtain ⟨rfl, rfl⟩ := hstep.eq_of_taken hstep' hcounts.1
      obtain ⟨rfl, rfl⟩ := ih hrun' hcounts.2
      exact ⟨rfl, rfl⟩

end Cursors
