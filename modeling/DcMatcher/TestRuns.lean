import DcMatcher.Credman.CallingApp
import DcMatcher.Credman.Host
import DcMatcher.Credman.TestHost
import DcMatcher.HostDiscipline

/-!
# A run in the test host

`main` of the matcher against `siros-dc-matcher-testhost`: the level, the blob as the host
delivers it, the calling app, and the sets that the host records. The module, its memory and its
stderr stay outside; so does the request beyond 4 GiB, which a module cannot hold.

Results:
1. `read_keepsContract`: whole reads and chunks are within the contract of the blob.
2. `testRun_eq`: what every run in the test host gives.
-/

namespace DcMatcher

open Lists Credman

namespace TestHost

/-! ## Invocations -/

/-- `CredentialReads`. -/
inductive CredentialReads
  | whole
  | chunks (most : {n : Nat // 0 < n})
  | overReport
  | stall
deriving DecidableEq

/-- `CredentialReads::answer`: the bytes of one call, and the count it reports. -/
def CredentialReads.answer (self : CredentialReads) (blob : List UInt8) (offset len : Nat) :
    List UInt8 × Nat :=
  let remaining := blob.drop offset
  let most :=
    match self with
    | .whole | .overReport => len
    | .chunks chunk => min len chunk
    | .stall => 0
  let copied := remaining.take most
  (copied, copied.length + if self = .overReport then 1 else 0)

/-- `Invocation`. -/
structure Invocation where
  request : List UInt8
  credentials : List UInt8
  callingPackage : String
  origin : String
  wasmVersion : UInt32
  credentialReads : CredentialReads

/-- The functions that deliver the blob. They refuse a count beyond `i32`, which takes a blob of
2 GiB. -/
def Invocation.blobHost (input : Invocation) : BlobHost where
  credentialsSize := UInt32.ofNat input.credentials.length
  read _ buffer offset :=
    let (copied, reported) :=
      input.credentialReads.answer input.credentials offset buffer.length
    (copied ++ buffer.drop copied.length, reported)
  read_length _ buffer offset := by
    have hle : (input.credentialReads.answer input.credentials offset buffer.length).1.length ≤
        buffer.length := by
      unfold CredentialReads.answer
      simp only [List.length_take]
      split <;> omega
    simp only [List.length_append, List.length_drop]
    omega

/-- Why a run has no result. -/
inductive Trap
  | credentials (panic : Panic)
  | callingApp (panic : BadField)
  | refused (error : HostError)
deriving DecidableEq

/-- `run` of the test host, over `main` of the matcher. -/
def testRun (sj : SerdeJson) (ciborium : Ciborium) (input : Invocation) : Except Trap Captured :=
  if hlevel : 2 ≤ input.wasmVersion then
    match input.blobHost.credentials.2 with
    | .error panic => .error (.credentials panic)
    | .ok blob =>
      match CallingApp.fromHost (callingAppInfo input.callingPackage input.origin) with
      | .error panic => .error (.callingApp panic)
      | .ok caller =>
        let host : SetHost := { level := input.wasmVersion, delegation := none, sets := hlevel }
        match replay input.wasmVersion .empty (Picker.calls sj .w32 ciborium host
            { request := input.request, blob, origin := caller.originText }) with
        | .error error => .error (.refused error)
        | .ok out => .ok out
  -- a host below level 2 has no sets, and the inputs are not read
  else .ok .empty

/-! ## 1. The blob -/

section Reads

variable {input : Invocation}

/-- The panic of a host that breaks the contract of the blob, before the end of the blob. -/
def CredentialReads.broken (self : CredentialReads) (size : Nat) : Option Panic :=
  if size = 0 then none
  else
    match self with
    | .whole | .chunks _ => none
    | .overReport => some (.moreThanAsked (size + 1) size)
    | .stall => some (.stopped 0 size)

/-- The reads that keep the contract. -/
def CredentialReads.Keeps (self : CredentialReads) : Prop :=
  self = .whole ∨ ∃ most, self = .chunks most

/-- What a call copies and reports: as much as was asked, or as the chunk holds. -/
theorem answer_of_keeps {reads : CredentialReads} (h : reads.Keeps) (blob : List UInt8)
    (offset len : Nat) :
    ∃ most ≤ len, (0 < len → 0 < most) ∧ reads.answer blob offset len =
      ((blob.drop offset).take most, min most (blob.length - offset)) := by
  rcases h with rfl | ⟨most, rfl⟩
  · refine ⟨len, Nat.le_refl _, id, ?_⟩
    simp [CredentialReads.answer]
  · refine ⟨min len most, Nat.min_le_left _ _, fun hlen => Nat.lt_min.mpr ⟨hlen, most.2⟩, ?_⟩
    simp [CredentialReads.answer]

/-- Whole reads and chunks are within the contract. -/
theorem read_keepsContract (hsize : input.credentials.length < UInt32.size)
    (hreads : input.credentialReads.Keeps) :
    input.blobHost.KeepsContract input.credentials where
  size := Nat.mod_eq_of_lt hsize
  pos calls buffer offset hbuffer hoffset := by
    obtain ⟨most, _, hpos, hanswer⟩ := answer_of_keeps hreads input.credentials offset buffer.length
    have hmost := hpos (List.length_pos_iff.mpr hbuffer)
    simp only [Invocation.blobHost, hanswer]
    omega
  le calls buffer offset hoffset := by
    obtain ⟨most, hle, _, hanswer⟩ := answer_of_keeps hreads input.credentials offset buffer.length
    simp only [Invocation.blobHost, hanswer]
    omega
  copies calls buffer offset hoffset := by
    obtain ⟨most, _, _, hanswer⟩ := answer_of_keeps hreads input.credentials offset buffer.length
    simp only [Invocation.blobHost, hanswer]
    have hcopied : min most (input.credentials.length - offset) =
        ((input.credentials.drop offset).take most).length := by
      rw [List.length_take, List.length_drop]
    rw [hcopied, List.take_left, List.length_take, ← List.take_eq_take_min]

/-- The blob as it is read, or the panic of the first call of a host that breaks the contract. -/
theorem credentials_eq (hsize : input.credentials.length < UInt32.size) :
    input.blobHost.credentials.2 =
      match input.credentialReads.broken input.credentials.length with
      | some panic => .error panic
      | none => .ok input.credentials := by
  have hcount : input.blobHost.credentialsSize.toNat = input.credentials.length :=
    Nat.mod_eq_of_lt hsize
  unfold CredentialReads.broken
  by_cases hempty : input.credentials.length = 0
  · rw [if_pos hempty, BlobHost.credentials, hcount, hempty, BlobHost.readLoop_eq]
    exact congrArg Except.ok (List.eq_nil_of_length_eq_zero hempty).symm
  · rw [if_neg hempty]
    have hfirst := @BlobHost.readLoop_eq input.blobHost input.credentials.length []
      (List.replicate input.credentials.length 0) 0
    rw [if_pos (by rw [List.length_replicate]; omega)] at hfirst
    cases hreads : input.credentialReads with
    | whole =>
      exact BlobHost.credentials_of_keepsContract (read_keepsContract hsize (.inl hreads))
    | chunks most =>
      exact BlobHost.credentials_of_keepsContract (read_keepsContract hsize (.inr ⟨most, hreads⟩))
    | overReport =>
      rw [BlobHost.credentials, hcount, hfirst]
      simp [Invocation.blobHost, CredentialReads.answer, hreads, BlobHost.panicOf]
    | stall =>
      rw [BlobHost.credentials, hcount, hfirst]
      simp [Invocation.blobHost, CredentialReads.answer, hreads, BlobHost.panicOf]

end Reads

/-! ## 2. The run -/

/-- An entry of the picker as it is captured, at its position of a set. -/
def capturedEntry (level : UInt32) (setId : C8Str) (numbered : Picker.Entry × Nat) :
    CapturedEntry where
  setId := setId.text
  index := numbered.2
  credentialId := numbered.1.credId.text
  title := numbered.1.title.text
  subtitle := numbered.1.subtitle.text
  metadata_ := (numbered.1.setEntry.metadata level).text
  icon := readBytes numbered.1.icon
  disclaimer := numbered.1.disclaimer.map (·.text)
  warning := none
  fields := numbered.1.fields.map fun field => (field.name.text, field.value.text)
  delegation := none
  link := none
  metadataDisplayText := none

/-- The sets of the picker as they are captured. -/
def captured (level : UInt32) (sets : List Picker.EntrySet) : Captured where
  sets := sets.map fun set => (set.id.text, set.entries.length)
  entries := sets.flatMap fun set => set.entries.zipIdx.map (capturedEntry level set.id)

section Runs

variable {host : SetHost}

theorem captured_setEntry (hdelegation : host.delegation = none) (setId : C8Str)
    (numbered : Picker.Entry × Nat) :
    numbered.1.setEntry.captured host ⟨setId, numbered.2, numbered.1.credId⟩ =
      capturedEntry host.level setId numbered := by
  have hnone : ∀ {α : Type} (level : UInt32),
      SetEntry.reaches host level (none : Option α) = none :=
    fun _ => ite_self none
  have hfields : numbered.1.setEntry.fields.map (fun field =>
      (field.name.text, readCstr field.value)) =
        numbered.1.fields.map fun field => (field.name.text, field.value.text) := List.map_map
  have hsent : numbered.1.setEntry.delegation.or host.delegation = none := hdelegation
  unfold SetEntry.captured
  rw [hsent, hnone, hfields, show numbered.1.setEntry.link = none from rfl, hnone,
    show numbered.1.setEntry.metadataDisplayText = none from rfl, hnone]
  rfl

theorem keyed_sent (set : Picker.EntrySet) :
    set.sent.keyed = set.entries.zipIdx.map fun numbered =>
      (⟨set.id, numbered.2, numbered.1.credId⟩, numbered.1.setEntry) := by
  unfold Credman.EntrySet.keyed
  rw [set.slots_sent, List.zipIdx_map, List.flatMap_map, List.map_eq_flatMap]
  rfl

/-- What the host of the tests captures of the sets of a run. -/
theorem capturedSets_sent (hdelegation : host.delegation = none) (sets : List Picker.EntrySet) :
    capturedSets host (sets.map Picker.EntrySet.sent) = captured host.level sets := by
  have hlength : ∀ set : Picker.EntrySet, set.sent.slotCount = set.entries.length := fun set => by
    rw [← Credman.EntrySet.length_slots, set.slots_sent, List.length_map]
  unfold capturedSets captured
  rw [List.map_map, List.flatMap_map]
  congr 1
  · exact List.map_congr_left fun set _ => congrArg (Prod.mk set.id.text) (hlength set)
  · refine List.flatMap_congr fun set _ => ?_
    rw [keyed_sent, List.map_map]
    exact List.map_congr_left fun numbered _ => captured_setEntry hdelegation set.id numbered

/-- The calls of a run are recorded, whatever it emits. -/
theorem replay_calls (sj : SerdeJson) (w : PointerWidth) (ciborium : Ciborium)
    (hdelegation : host.delegation = none) (input : Picker.Input) :
    replay host.level .empty (Picker.calls sj w ciborium host input) =
      .ok (captured host.level (Picker.run sj w ciborium input)) := by
  have halternatives : ∀ sent ∈ (Picker.run sj w ciborium input).map Picker.EntrySet.sent,
      ∀ slot ∈ sent.slots, (slot.alternatives.map (·.credId)).Nodup := by
    intro sent hsent slot hslot
    obtain ⟨set, _, rfl⟩ := List.mem_map.mp hsent
    rw [set.slots_sent] at hslot
    obtain ⟨e, _, rfl⟩ := List.mem_map.mp hslot
    exact List.nodup_singleton _
  rw [← capturedSets_sent hdelegation]
  exact replay_sets (nodup_keys Picker.sent_ids halternatives)

end Runs

/-- A run in the test host, with a blob whose size the host can report as an `i32`. Below level 2 it
captures nothing. A host that breaks the contract of the blob, and a caller that is not UTF-8, make
it panic, in this order. Else it captures exactly the sets that the picker is offered for the
request, the whole blob and the origin of the caller, however the blob was delivered. -/
theorem testRun_eq (sj : SerdeJson) (ciborium : Ciborium) (input : Invocation)
    (hsize : input.credentials.length < 2 ^ 31 - 1) :
    testRun sj ciborium input =
      if 2 ≤ input.wasmVersion then
        match input.credentialReads.broken input.credentials.length with
        | some panic => .error (.credentials panic)
        | none =>
          match CallingApp.fromHost (callingAppInfo input.callingPackage input.origin) with
          | .error panic => .error (.callingApp panic)
          | .ok caller =>
            .ok (captured input.wasmVersion (Picker.run sj .w32 ciborium
              { request := input.request
                blob := input.credentials
                origin := caller.originText }))
      else .ok .empty := by
  have hword : input.credentials.length < UInt32.size := Nat.lt_trans hsize (by decide)
  unfold testRun
  by_cases hlevel : 2 ≤ input.wasmVersion
  · rw [dif_pos hlevel, if_pos hlevel, credentials_eq hword]
    cases input.credentialReads.broken input.credentials.length with
    | some panic => rfl
    | none =>
      cases hcaller : CallingApp.fromHost (callingAppInfo input.callingPackage input.origin) with
      | error panic => rfl
      | ok caller =>
        have hreplay := @replay_calls
          { level := input.wasmVersion, delegation := none, sets := hlevel } sj .w32 ciborium rfl
          ⟨input.request, input.credentials, caller.originText⟩
        simp only [hreplay]
  · rw [dif_neg hlevel, if_neg hlevel]

/-- A wallet whose blob is delivered byte by byte. -/
def pidInvocation : Invocation where
  request := pidInput.request
  credentials := pidInput.blob
  callingPackage := "org.example.browser"
  origin := pidInput.origin
  wasmVersion := 2
  credentialReads := .chunks ⟨1, Nat.one_pos⟩

theorem testRun_eq_pid :
    (testRun (.ofValues [pidRequest, ageQuery, .bool true]) pidReader pidInvocation).map
        (fun out => (out.sets, out.entries.map fun e =>
          (e.index, e.credentialId, e.fields.map Prod.fst))) =
      .ok ([("siros-0", 2)],
        [(0, "pid-1", ["Family name", "Over 18"]), (1, "nym-1", ["Age check"])]) := by
  have hcaller : CallingApp.fromHost
      (callingAppInfo pidInvocation.callingPackage pidInvocation.origin) =
        .ok ⟨.ofLossy "org.example.browser", some (.ofLossy pidInput.origin)⟩ := by
    refine fromHost_of_read ?_ ?_ ?_
    · exact (read_of_fits (by decide) (by decide)).mpr (C8Str.text_ofLossy (by decide))
    · exact (read_of_fits (by decide) (by decide)).mpr (C8Str.text_ofLossy (by decide))
    · intro text htext
      cases htext
      decide
  rw [testRun_eq _ _ _ (by decide +kernel), hcaller]
  decide +kernel

end TestHost

end DcMatcher
