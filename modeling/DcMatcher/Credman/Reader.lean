import DcMatcher.Credman.Host
import DcMatcher.Dcql.Eval
import DcMatcher.Lib.Cursors

/-!
# The credential blob as a stream

`android-credman/src/reader.rs`: `Read` and `Seek` over the blob, each read with one call to the
host. The position has 64 bits whatever the width of `usize`.

Results:
1. `CredentialReader.step_refines`: with a host that keeps its contract, an operation is one of a
   cursor over the blob.
2. `credentialReader_isCursor`: so is every run of operations, and the host's counts determine it.
-/

namespace DcMatcher

namespace Credman

/-! ## The reader -/

/-- Where a seek counts from. -/
inductive SeekFrom
  | start (n : UInt64)
  | fromEnd (n : Int64)
  | current (n : Int64)
deriving DecidableEq

/-- The error of a seek, with its text. -/
inductive IoError
  | invalidInput (text : String)
deriving DecidableEq, Repr

/-- `u64::checked_add_signed`. -/
def checkedAddSigned (a : UInt64) (n : Int64) : Option UInt64 :=
  let sum : Int := a.toNat + n.toInt
  if 0 ≤ sum ∧ sum < UInt64.size then some (UInt64.ofNat sum.toNat) else none

/-- `usize::try_from` of a `u64`. -/
def usizeTryFrom (w : PointerWidth) (n : UInt64) : Option Nat :=
  if n.toNat ≤ w.usizeMax then some n.toNat else none

/-- The reader, beside the host. -/
structure CredentialReader (w : PointerWidth) where
  size : Usize w
  position : UInt64

namespace CredentialReader

variable {w : PointerWidth} (host : BlobHost)

/-- The size is a `u32` that the host wrote. -/
theorem credentialsSize_lt (w : PointerWidth) (size : UInt32) : size.toNat < w.usizeMax + 1 := by
  have hsize := size.toNat_lt
  cases w <;> exact Nat.lt_of_lt_of_le hsize (by decide)

/-- `CredentialReader::new`. -/
def new (w : PointerWidth) : CredentialReader w where
  size := ⟨host.credentialsSize.toNat, credentialsSize_lt w _⟩
  position := 0

/-- `CredentialReader::read`, after the given calls: the calls, and the reader with the buffer and
the count, unless an assertion fails. -/
def read (calls : List ReadCall) (self : CredentialReader w) (out : List UInt8) :
    List ReadCall × Except Panic (CredentialReader w × List UInt8 × Nat) :=
  match usizeTryFrom w self.position with
  -- a position beyond `usize` lies past the end
  | none => (calls, .ok (self, out, 0))
  | some offset =>
    if self.size ≤ offset ∨ out = [] then (calls, .ok (self, out, 0))
    else
      match host.readCredentialsBeforeEnd calls out offset self.size with
      | (calls, .error panic) => (calls, .error panic)
      | (calls, .ok (out, copied)) =>
        (calls, .ok ({ self with position := self.position + UInt64.ofNat copied }, out, copied))

/-- The target of a seek, if it is a `u64`. -/
def target (self : CredentialReader w) : SeekFrom → Option UInt64
  | .start n => some n
  | .fromEnd n => checkedAddSigned (UInt64.ofNat self.size) n
  | .current n => checkedAddSigned self.position n

/-- `CredentialReader::seek`. -/
def seek (self : CredentialReader w) (place : SeekFrom) :
    CredentialReader w × Except IoError UInt64 :=
  match self.target place with
  | none => (self, .error (.invalidInput "seek before the start"))
  | some target => ({ self with position := target }, .ok target)

/-! ### Runs -/

inductive Operation
  | read (out : List UInt8)
  | seek (place : SeekFrom)

/-- What an operation returns; a read also leaves the buffer. -/
inductive Answer
  | read (out : List UInt8) (copied : Nat)
  | seek (result : Except IoError UInt64)

/-- One operation. -/
def step (calls : List ReadCall) (self : CredentialReader w) :
    Operation → List ReadCall × Except Panic (CredentialReader w × Answer)
  | .read out =>
    let (calls, result) := self.read host calls out
    (calls, result.map fun (self, out, copied) => (self, .read out copied))
  | .seek place =>
    let (self, result) := self.seek place
    (calls, .ok (self, .seek result))

/-- Operations one after another, up to a panic. -/
def run (calls : List ReadCall) (self : CredentialReader w) :
    List Operation → List ReadCall × Except Panic (CredentialReader w × List Answer)
  | [] => (calls, .ok (self, []))
  | operation :: operations =>
    match self.step host calls operation with
    | (calls, .error panic) => (calls, .error panic)
    | (calls, .ok (self, answer)) =>
      let (calls, result) := run calls self operations
      (calls, result.map fun (self, answers) => (self, answer :: answers))

end CredentialReader

/-! ## The cursor -/

/-- A place, as the cursor has it. -/
def SeekFrom.seen : SeekFrom → Cursors.SeekFrom
  | .start n => .start n.toNat
  | .fromEnd n => .fromEnd n.toInt
  | .current n => .current n.toInt

namespace CredentialReader

/-- An operation, as the cursor has it. -/
def Operation.seen : Operation → Cursors.Operation
  | .read out => .read out.length
  | .seek place => .seek place.seen

/-- What a caller sees of an answer: of the buffer, the bytes that are counted. -/
def Answer.seen : Answer → Cursors.Answer UInt8
  | .read out copied => .read copied (out.take copied)
  | .seek (.ok n) => .position n.toNat
  | .seek (.error _) => .refused

end CredentialReader

/-! ### Words -/

theorem checkedAddSigned_eq_some {a b : UInt64} {n : Int64} :
    checkedAddSigned a n = some b ↔ (a.toNat : Int) + n.toInt = b.toNat := by
  have hlt := b.toNat_lt
  unfold checkedAddSigned
  simp only [UInt64.size]
  constructor
  · intro h
    split at h
    · next hsum =>
      cases h
      rw [UInt64.toNat_ofNat_of_lt' (show _ < 2 ^ 64 by omega)]
      omega
    · cases h
  · intro h
    rw [if_pos (by omega), h, Int.toNat_natCast, UInt64.ofNat_toNat]

theorem checkedAddSigned_eq_none {a : UInt64} {n : Int64} :
    checkedAddSigned a n = none ↔
      (a.toNat : Int) + n.toInt < 0 ∨ (UInt64.size : Int) ≤ a.toNat + n.toInt := by
  unfold checkedAddSigned
  simp only [UInt64.size]
  split_ifs <;> simp <;> omega

theorem usizeMax_lt (w : PointerWidth) : w.usizeMax < 2 ^ 64 := by
  cases w <;> decide

namespace CredentialReader

variable {w : PointerWidth} {host : BlobHost} {blob : List UInt8}

theorem toNat_size (self : CredentialReader w) : (UInt64.ofNat self.size).toNat = self.size := by
  have hsize := self.size.isLt
  have hword := usizeMax_lt w
  exact UInt64.toNat_ofNat_of_lt' (show _ < 2 ^ 64 by omega)

/-! ### One operation -/

/-- The reader stands where the cursor does, over the blob. -/
structure Tracks (blob : List UInt8) (reader : CredentialReader w) (p : Nat) : Prop where
  size : reader.size = blob.length
  position : reader.position.toNat = p

theorem tracks_new (hkeeps : host.KeepsContract blob) (w : PointerWidth) :
    Tracks blob (new host w) 0 := ⟨hkeeps.size, rfl⟩

/-- A read that returns 0. -/
theorem step_nothing {p : Nat} {out : List UInt8} (h : out = [] ∨ blob.length ≤ p) :
    Cursors.Step blob UInt64.size p (Operation.read out).seen (Answer.read out 0).seen p := by
  refine @Cursors.Step.read _ _ _ p out.length [] List.nil_prefix fun _ => ?_
  rcases h with rfl | h
  · exact .inl rfl
  · exact .inr h

/-- A read that returns the next bytes. -/
theorem step_taken {p copied : Nat} {out filled : List UInt8} (hpos : 0 < copied)
    (hasked : copied ≤ out.length) (hfilled : filled.length = out.length)
    (hcopies : filled.take copied = (blob.drop p).take copied) :
    Cursors.Step blob UInt64.size p (Operation.read out).seen (Answer.read filled copied).seen
      (p + copied) := by
  have hlength : (filled.take copied).length = copied := List.length_take_of_le (hfilled ▸ hasked)
  have hnext : filled.take copied <+: (blob.drop p).take out.length :=
    hcopies ▸ List.take_prefix_take_left hasked
  have hstep : Cursors.Step blob UInt64.size p (.read out.length)
      (.read (filled.take copied).length (filled.take copied))
      (p + (filled.take copied).length) := by
    refine .read hnext fun hnil => ?_
    rw [hnil] at hlength
    exact absurd hlength (Nat.ne_of_lt hpos)
  rw [hlength] at hstep
  exact hstep

/-- A read takes the blob's bytes at the position, and moves on by their number. -/
theorem read_refines (hkeeps : host.KeepsContract blob) {self : CredentialReader w} {p : Nat}
    (htracks : Tracks blob self p) (calls : List ReadCall) (out : List UInt8) :
    ∃ calls' self' out' copied p', self.read host calls out = (calls', .ok (self', out', copied)) ∧
      Cursors.Step blob UInt64.size p (Operation.read out).seen (Answer.read out' copied).seen p' ∧
      Tracks blob self' p' := by
  obtain ⟨hsize, rfl⟩ := htracks
  have hword := usizeMax_lt w
  have hfits := self.size.isLt
  unfold read usizeTryFrom
  by_cases hposition : self.position.toNat ≤ w.usizeMax
  · simp only [if_pos hposition]
    by_cases hend : self.size ≤ self.position.toNat ∨ out = []
    · rw [if_pos hend]
      exact ⟨calls, self, out, 0, _, rfl, step_nothing (hsize ▸ hend.symm), hsize, rfl⟩
    · rw [if_neg hend]
      obtain ⟨hbefore, hout⟩ := not_or.mp hend
      have hoffset : self.position.toNat < blob.length := by omega
      have heq := host.readCredentialsBeforeEnd_eq calls out self.position.toNat self.size
      obtain ⟨filled, copied, hread, hpos, hasked, hrest, hfilled, hcopies, hnone⟩ :=
        BlobHost.read_of_keepsContract hkeeps calls hout hoffset
      rw [hkeeps.size, ← hsize] at hnone
      simp only [hread, hnone] at heq
      rw [heq]
      have hmoved : (self.position + UInt64.ofNat copied).toNat = self.position.toNat + copied := by
        rw [UInt64.toNat_add, UInt64.toNat_ofNat_of_lt' (show _ < 2 ^ 64 by omega)]
        omega
      exact ⟨_, _, filled, copied, _, rfl, step_taken hpos hasked hfilled hcopies, hsize, hmoved⟩
  · simp only [if_neg hposition]
    exact ⟨calls, self, out, 0, _, rfl, step_nothing (.inr (by omega)), hsize, rfl⟩

theorem target_eq_some {self : CredentialReader w} {p : Nat} (htracks : Tracks blob self p)
    {place : SeekFrom} {n : UInt64} :
    self.target place = some n ↔ place.seen.target blob.length p = n.toNat := by
  obtain ⟨hsize, rfl⟩ := htracks
  cases place with
  | start m =>
    unfold target SeekFrom.seen Cursors.SeekFrom.target
    rw [Option.some_inj, Int.ofNat_inj, UInt64.toNat_inj]
  | fromEnd m =>
    unfold target SeekFrom.seen Cursors.SeekFrom.target
    rw [checkedAddSigned_eq_some, toNat_size, hsize]
  | current m => exact checkedAddSigned_eq_some

theorem target_eq_none {self : CredentialReader w} {p : Nat} (htracks : Tracks blob self p)
    {place : SeekFrom} (h : self.target place = none) :
    place.seen.target blob.length p < 0 ∨
      (UInt64.size : Int) ≤ place.seen.target blob.length p := by
  obtain ⟨hsize, rfl⟩ := htracks
  cases place with
  | start m => cases h
  | fromEnd m =>
    have hout := checkedAddSigned_eq_none.mp h
    rw [toNat_size, hsize] at hout
    exact hout
  | current m => exact checkedAddSigned_eq_none.mp h

/-- A seek lands at its target, or is refused where it stands. -/
theorem seek_refines {self : CredentialReader w} {p : Nat} (htracks : Tracks blob self p)
    (place : SeekFrom) :
    ∃ p', Cursors.Step blob UInt64.size p (Operation.seek place).seen
      (Answer.seek (self.seek place).2).seen p' ∧ Tracks blob (self.seek place).1 p' := by
  unfold seek
  cases htarget : self.target place with
  | none => exact ⟨p, .refused (target_eq_none htracks htarget), htracks⟩
  | some n =>
    exact ⟨n.toNat, .seek ((target_eq_some htracks).mp htarget) n.toNat_lt, htracks.size, rfl⟩

/-- One operation of the reader is one of the cursor. -/
theorem step_refines (hkeeps : host.KeepsContract blob) {self : CredentialReader w} {p : Nat}
    (htracks : Tracks blob self p) (calls : List ReadCall) (operation : Operation) :
    ∃ calls' self' answer p', self.step host calls operation = (calls', .ok (self', answer)) ∧
      Cursors.Step blob UInt64.size p operation.seen answer.seen p' ∧ Tracks blob self' p' := by
  cases operation with
  | read out =>
    obtain ⟨calls', self', out', copied, p', hread, hstep, htracks'⟩ :=
      read_refines hkeeps htracks calls out
    refine ⟨calls', self', .read out' copied, p', ?_, hstep, htracks'⟩
    rw [step, hread]
    rfl
  | seek place =>
    obtain ⟨p', hstep, htracks'⟩ := seek_refines htracks place
    exact ⟨calls, _, _, p', rfl, hstep, htracks'⟩

/-! ### Runs -/

/-- Every run of the reader is one of the cursor. -/
theorem run_refines (hkeeps : host.KeepsContract blob) {self : CredentialReader w} {p : Nat}
    (htracks : Tracks blob self p) (calls : List ReadCall) (operations : List Operation) :
    ∃ calls' self' answers p', self.run host calls operations = (calls', .ok (self', answers)) ∧
      Cursors.Run blob UInt64.size p (operations.map Operation.seen) (answers.map Answer.seen) p' ∧
      Tracks blob self' p' := by
  induction operations generalizing calls self p with
  | nil => exact ⟨calls, self, [], p, rfl, .nil, htracks⟩
  | cons operation operations ih =>
    obtain ⟨calls₁, self₁, answer, p₁, hone, hstep, htracks₁⟩ :=
      step_refines hkeeps htracks calls operation
    obtain ⟨calls₂, self₂, answers, p₂, hrest, hrun, htracks₂⟩ := ih htracks₁ calls₁
    refine ⟨calls₂, self₂, answer :: answers, p₂, ?_, .cons hstep hrun, htracks₂⟩
    rw [run, hone]
    simp only [hrest]
    rfl

end CredentialReader

/-- Over a host that keeps its contract, the reader is a cursor over the blob: whatever is asked
of it never panics, and the answers and the position are those of every cursor that takes as many
bytes. -/
theorem credentialReader_isCursor (w : PointerWidth) {host : BlobHost} {blob : List UInt8}
    (hkeeps : host.KeepsContract blob) (calls : List ReadCall)
    (operations : List CredentialReader.Operation) :
    ∃ calls' self answers,
      (CredentialReader.new host w).run host calls operations = (calls', .ok (self, answers)) ∧
      Cursors.Run blob UInt64.size 0 (operations.map (·.seen)) (answers.map (·.seen))
        self.position.toNat ∧
      ∀ (answers' : List (Cursors.Answer UInt8)) (p : Nat),
        Cursors.Run blob UInt64.size 0 (operations.map (·.seen)) answers' p →
        answers'.map (·.count) = answers.map (·.seen.count) →
        answers' = answers.map (·.seen) ∧ p = self.position.toNat := by
  obtain ⟨calls', self, answers, p, hrun, hcursor, hsize, rfl⟩ :=
    CredentialReader.run_refines hkeeps (CredentialReader.tracks_new hkeeps w) calls operations
  refine ⟨calls', self, answers, hrun, hcursor, fun answers' p hother hcounts => ?_⟩
  refine hother.eq_of_taken hcursor ?_
  rw [List.map_map]
  exact hcounts

/-- A read past the bytes the host gives at once, a seek, and one before the start. -/
theorem credentialReader_isCursor_holding :
    let host := BlobHost.holding [1, 2, 3, 4, 5] fun calls => calls.length + 1
    ∃ calls self answers,
      (CredentialReader.new host .w32).run host []
        [.read [0, 0, 0], .seek (.fromEnd (-2)), .seek (.current (-4))] =
          (calls, .ok (self, answers)) ∧
      Cursors.Run [1, 2, 3, 4, 5] UInt64.size 0
        [.read 3, .seek (.fromEnd (-2)), .seek (.current (-4))] (answers.map (·.seen))
        self.position.toNat := by
  obtain ⟨calls, self, answers, hrun, hcursor, -⟩ :=
    credentialReader_isCursor .w32
      (@holding_keepsContract [1, 2, 3, 4, 5] (by decide) (fun calls => calls.length + 1)
        fun _ => Nat.succ_pos _)
      [] [.read [0, 0, 0], .seek (.fromEnd (-2)), .seek (.current (-4))]
  exact ⟨calls, self, answers, hrun, hcursor⟩

end Credman

end DcMatcher
