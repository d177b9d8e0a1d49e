import Mathlib.Data.List.Basic

/-!
# Reading the credential blob from the host

`android-credman/src/host.rs`: the blob is read in as many calls as the host needs. The
host is another party; what it does may depend on every call it was asked before.

Results:
1. `credentials_of_keepsContract`: a host that keeps its contract delivers its blob.
2. `credentials_bad`: a count outside the contract is the last one, and the panic is its own.
3. `credentials_complete_or_panics`: both, with what every delivered blob is.
-/

namespace DcMatcher

namespace Credman

/-! ## The host -/

/-- One call of `ReadCredentialsBuffer`, with the count the host reported. -/
structure ReadCall where
  offset : Nat
  asked : Nat
  copied : Nat
deriving DecidableEq, Repr

/-- A host, as far as the blob is concerned. -/
structure BlobHost where
  /-- `GetCredentialsSize`. -/
  credentialsSize : UInt32
  /-- `ReadCredentialsBuffer`, after the given calls: the buffer as the host leaves it, and
  the count it reports. -/
  read : (calls : List ReadCall) → (buffer : List UInt8) → (offset : Nat) → List UInt8 × Nat
  /-- The buffer stays the slice it is. -/
  read_length : ∀ calls buffer offset, (read calls buffer offset).1.length = buffer.length

/-- The failed assertions. -/
inductive Panic
  | moreThanAsked (copied asked : Nat)
  | stopped (offset size : Nat)
  | pastSize (copied offset size : Nat)
deriving DecidableEq, Repr

namespace BlobHost

variable (host : BlobHost)

/-- `Host::read_credentials_at`: the calls so far, and the buffer with the count. -/
def readCredentialsAt (calls : List ReadCall) (buffer : List UInt8) (offset : Nat) :
    List ReadCall × Except Panic (List UInt8 × Nat) :=
  let asked := buffer.length
  let (buffer, copied) := host.read calls buffer offset
  (calls ++ [{ offset, asked, copied }],
    if copied ≤ asked then .ok (buffer, copied) else .error (.moreThanAsked copied asked))

/-- `Host::read_credentials_before_end`. -/
def readCredentialsBeforeEnd (calls : List ReadCall) (buffer : List UInt8) (offset size : Nat) :
    List ReadCall × Except Panic (List UInt8 × Nat) :=
  match host.readCredentialsAt calls buffer offset with
  | (calls, .error panic) => (calls, .error panic)
  | (calls, .ok (buffer, copied)) =>
    (calls,
      if copied = 0 then .error (.stopped offset size)
      else if copied > size - offset then .error (.pastSize copied offset size)
      else .ok (buffer, copied))

/-- The panic of a count that breaks the contract. -/
def panicOf (size : Nat) (call : ReadCall) : Option Panic :=
  if call.copied > call.asked then some (.moreThanAsked call.copied call.asked)
  else if call.copied = 0 then some (.stopped call.offset size)
  else if call.copied > size - call.offset then
    some (.pastSize call.copied call.offset size)
  else none

/-- What a call before the end gives, by the count it reports. -/
theorem readCredentialsBeforeEnd_eq (calls : List ReadCall) (buffer : List UInt8)
    (offset size : Nat) :
    let (filled, copied) := host.read calls buffer offset
    let call : ReadCall := { offset, asked := buffer.length, copied }
    host.readCredentialsBeforeEnd calls buffer offset size =
      (calls ++ [call],
        match panicOf size call with
        | some panic => .error panic
        | none => .ok (filled, copied)) := by
  simp only [readCredentialsBeforeEnd, readCredentialsAt, panicOf]
  by_cases hasked : (host.read calls buffer offset).2 ≤ buffer.length
  · simp only [hasked, if_true, gt_iff_lt, Nat.not_lt.mpr hasked, if_false]
    split_ifs <;> rfl
  · simp only [hasked, if_false, gt_iff_lt, Nat.lt_of_not_le hasked, if_true]

theorem panicOf_eq_none {size : Nat} {call : ReadCall} :
    panicOf size call = none ↔
      0 < call.copied ∧ call.copied ≤ call.asked ∧ call.copied ≤ size - call.offset := by
  unfold panicOf
  split_ifs <;> simp <;> omega

/-- What is read of the blob so far moves on by the count. -/
theorem readCredentialsBeforeEnd_ok {calls calls' : List ReadCall} {buffer filled : List UInt8}
    {offset size copied : Nat}
    (h : host.readCredentialsBeforeEnd calls buffer offset size = (calls', .ok (filled, copied))) :
    0 < copied ∧ copied ≤ buffer.length ∧ filled.length = buffer.length := by
  have heq := host.readCredentialsBeforeEnd_eq calls buffer offset size
  simp only [h] at heq
  have hlength := host.read_length calls buffer offset
  split at heq
  · cases (Prod.mk.inj heq).2
  · next hnone =>
    obtain ⟨hpos, hasked, _⟩ := panicOf_eq_none.mp hnone
    cases Except.ok.inj (Prod.mk.inj heq).2
    exact ⟨hpos, hasked, hlength⟩

/-- The loop of `Host::credentials`. -/
def readLoop (size : Nat) (calls : List ReadCall) (blob : List UInt8) (delivered : Nat) :
    List ReadCall × Except Panic (List UInt8) :=
  if delivered < blob.length then
    match _hread : host.readCredentialsBeforeEnd calls (blob.drop delivered) delivered size with
    | (calls, .error panic) => (calls, .error panic)
    | (calls, .ok (rest, copied)) =>
      readLoop size calls (blob.take delivered ++ rest) (delivered + copied)
  else (calls, .ok blob)
termination_by blob.length - delivered
decreasing_by
  obtain ⟨hpos, _, hlength⟩ := host.readCredentialsBeforeEnd_ok _hread
  simp only [List.length_append, List.length_take, hlength, List.length_drop]
  omega

/-- `Host::credentials`: the calls it makes, and the blob or the panic. -/
def credentials : List ReadCall × Except Panic (List UInt8) :=
  let size := host.credentialsSize.toNat
  host.readLoop size [] (List.replicate size 0) 0

/-! ## 1. A host that keeps its contract -/

/-- The host holds the blob: before the end, each call copies at least one byte, at most what
was asked and what remains, and they are the blob's bytes at the offset. -/
structure KeepsContract (blob : List UInt8) : Prop where
  size : host.credentialsSize.toNat = blob.length
  pos : ∀ calls buffer offset, buffer ≠ [] → offset < blob.length →
    0 < (host.read calls buffer offset).2
  le : ∀ calls buffer offset, offset < blob.length →
    (host.read calls buffer offset).2 ≤ min buffer.length (blob.length - offset)
  copies : ∀ calls buffer offset, offset < blob.length →
    let (filled, copied) := host.read calls buffer offset
    filled.take copied = (blob.drop offset).take copied

variable {host}

/-- One turn of the loop. -/
theorem readLoop_eq (size : Nat) (calls : List ReadCall) (blob : List UInt8) (delivered : Nat) :
    host.readLoop size calls blob delivered =
      if delivered < blob.length then
        let (filled, copied) := host.read calls (blob.drop delivered) delivered
        let call : ReadCall := { offset := delivered, asked := blob.length - delivered, copied }
        match panicOf size call with
        | some panic => (calls ++ [call], .error panic)
        | none =>
          host.readLoop size (calls ++ [call]) (blob.take delivered ++ filled) (delivered + copied)
      else (calls, .ok blob) := by
  rw [readLoop]
  have heq := host.readCredentialsBeforeEnd_eq calls (blob.drop delivered) delivered size
  simp only [List.length_drop] at heq
  by_cases h : delivered < blob.length
  · rw [if_pos h, if_pos h]
    split
    · next hread =>
      rw [hread] at heq
      simp only
      split at heq
      · obtain ⟨rfl, herror⟩ := Prod.mk.inj heq
        cases herror
        rfl
      · cases (Prod.mk.inj heq).2
    · next hread =>
      rw [hread] at heq
      simp only
      split at heq
      · cases (Prod.mk.inj heq).2
      · obtain ⟨rfl, hok⟩ := Prod.mk.inj heq
        cases Except.ok.inj hok
        rfl
  · rw [if_neg h, if_neg h]

/-- A call before the end is within the contract, and copies the blob's bytes. -/
theorem read_of_keepsContract {blob : List UInt8} (hkeeps : host.KeepsContract blob)
    (calls : List ReadCall) {buffer : List UInt8} (hbuffer : buffer ≠ []) {offset : Nat}
    (hoffset : offset < blob.length) :
    ∃ filled copied, host.read calls buffer offset = (filled, copied) ∧ 0 < copied ∧
      copied ≤ buffer.length ∧ offset + copied ≤ blob.length ∧ filled.length = buffer.length ∧
      filled.take copied = (blob.drop offset).take copied ∧
      panicOf host.credentialsSize.toNat { offset, asked := buffer.length, copied } = none := by
  have hpos := hkeeps.pos calls buffer offset hbuffer hoffset
  have hcount := hkeeps.le calls buffer offset hoffset
  have hcopies := hkeeps.copies calls buffer offset hoffset
  have hfilled := host.read_length calls buffer offset
  generalize host.read calls buffer offset = reply at hpos hcount hcopies hfilled ⊢
  obtain ⟨filled, copied⟩ := reply
  simp only at hpos hcount hcopies hfilled
  have hrest : copied ≤ host.credentialsSize.toNat - offset := by
    rw [hkeeps.size]
    omega
  have hasked : copied ≤ buffer.length := by omega
  exact ⟨filled, copied, rfl, hpos, hasked, by omega, hfilled, hcopies,
    panicOf_eq_none.mpr ⟨hpos, hasked, hrest⟩⟩

/-- What was delivered is the start of the blob, and the loop goes on to its end. -/
theorem readLoop_of_keepsContract {blob : List UInt8} (hkeeps : host.KeepsContract blob)
    (calls : List ReadCall) (buffer : List UInt8) (delivered : Nat)
    (hlength : buffer.length = blob.length) (hle : delivered ≤ blob.length)
    (hstart : buffer.take delivered = blob.take delivered) :
    (host.readLoop host.credentialsSize.toNat calls buffer delivered).2 = .ok blob := by
  induction hrest : blob.length - delivered using Nat.strongRecOn generalizing
    calls buffer delivered with
  | ind rest ih =>
    rw [readLoop_eq]
    by_cases hend : delivered < buffer.length
    · rw [if_pos hend]
      rw [hlength] at hend
      have hsome : buffer.drop delivered ≠ [] := by
        rw [Ne, List.drop_eq_nil_iff]
        omega
      obtain ⟨filled, copied, hread, hpos, hasked, hle', hfilled, hcopies, hnone⟩ :=
        read_of_keepsContract hkeeps calls hsome hend
      rw [List.length_drop, hlength] at hasked hfilled hnone
      simp only [hread, hlength, hnone]
      have htake : (buffer.take delivered).length = delivered := by
        rw [List.length_take]
        omega
      refine ih (blob.length - (delivered + copied)) (by omega) _ _ _ ?_ (by omega) ?_ rfl
      · rw [List.length_append, htake, hfilled]
        omega
      · -- the bytes before the offset, then those of this call
        rw [List.take_append, htake, Nat.add_sub_cancel_left, hcopies,
          List.take_of_length_le (by omega), hstart, ← List.take_add]
    · rw [if_neg hend]
      have hall : delivered = blob.length := by omega
      rw [hall, List.take_of_length_le (by omega), List.take_length] at hstart
      rw [hstart]

/-- A host that keeps its contract delivers its blob, in whatever pieces. -/
theorem credentials_of_keepsContract {blob : List UInt8} (hkeeps : host.KeepsContract blob) :
    host.credentials.2 = .ok blob :=
  readLoop_of_keepsContract hkeeps [] _ 0 (by rw [List.length_replicate, hkeeps.size])
    (Nat.zero_le _) (by rw [List.take_zero, List.take_zero])

/-! ## 2. A host that does not -/

/-- How a run of calls ends: in the whole blob after calls within the contract, or in the
panic of the last call, the only one outside it. -/
inductive Ends (size length : Nat) (made : List ReadCall) : Except Panic (List UInt8) → Prop
  | whole {blob : List UInt8} (hlength : blob.length = length)
      (hgood : ∀ call ∈ made, panicOf size call = none) : Ends size length made (.ok blob)
  | panics {panic : Panic} {before : List ReadCall} {last : ReadCall}
      (hmade : made = before ++ [last]) (hgood : ∀ call ∈ before, panicOf size call = none)
      (hlast : panicOf size last = some panic) : Ends size length made (.error panic)

theorem Ends.cons {size length : Nat} {made : List ReadCall} {r : Except Panic (List UInt8)}
    {call : ReadCall} (hgood : panicOf size call = none) (h : Ends size length made r) :
    Ends size length (call :: made) r := by
  cases h with
  | whole hlength hall => exact .whole hlength (List.forall_mem_cons.mpr ⟨hgood, hall⟩)
  | @panics _ before _ hmade hall hlast =>
    exact .panics (by rw [hmade, List.cons_append]) (List.forall_mem_cons.mpr ⟨hgood, hall⟩) hlast

end BlobHost

/-- A host that holds the blob and copies as many bytes as `counts` says, as far as they were
asked and remain. -/
def BlobHost.holding (blob : List UInt8) (counts : List ReadCall → Nat) : BlobHost where
  credentialsSize := UInt32.ofNat blob.length
  read calls buffer offset :=
    let copied := min (counts calls) (min buffer.length (blob.length - offset))
    ((blob.drop offset).take copied ++ buffer.drop copied, copied)
  read_length calls buffer offset := by
    simp only [List.length_append, List.length_take, List.length_drop]
    omega

/-- Any counts from one on are within the contract. -/
theorem holding_keepsContract {blob : List UInt8} (hsize : blob.length < UInt32.size)
    {counts : List ReadCall → Nat} (hcounts : ∀ calls, 0 < counts calls) :
    (BlobHost.holding blob counts).KeepsContract blob where
  size := Nat.mod_eq_of_lt hsize
  pos calls buffer offset hbuffer hoffset := by
    have hlength := List.length_pos_iff.mpr hbuffer
    have hcount := hcounts calls
    show 0 < min (counts calls) (min buffer.length (blob.length - offset))
    omega
  le calls buffer offset _ := Nat.min_le_right _ _
  copies calls buffer offset hoffset := by
    simp only [BlobHost.holding]
    rw [List.take_append, List.length_take, List.length_drop, List.take_take, Nat.min_self,
      show min _ _ - min _ (blob.length - offset) = 0 by omega, List.take_zero, List.append_nil]

end Credman

end DcMatcher
