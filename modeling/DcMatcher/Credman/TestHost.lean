import DcMatcher.Credman.Sets
import DcMatcher.Lib.Ledgers

/-!
# The host of the tests

`siros-dc-matcher-testhost`: the calls that fill the picker, as a host outside the device
records them. An argument arrives as the text or the bytes its pointer is to, and a null pointer
as no text.

Results:
1. `replay_isOk_iff`: a sequence of calls is recorded exactly if each call that names an entry
   comes after it and no call is above the level reported.
2. `replay_sendAll`: sets with distinct keys are captured as they are.
-/

namespace DcMatcher

namespace Credman

open Lists Traces

/-! ## What is captured -/

/-- `delegation as i32`. -/
def DelegationType.toI32 : DelegationType → Int
  | .noDelegation => 0
  | .full => 1

/-- `CapturedEntry`. -/
structure CapturedEntry where
  setId : String
  index : Nat
  credentialId : String
  title : String
  subtitle : String
  metadata_ : String
  icon : List UInt8
  disclaimer : Option String
  warning : Option String
  fields : List (String × String)
  delegation : Option Int
  link : Option (String × String × String)
  metadataDisplayText : Option String
deriving DecidableEq

/-- `Captured`, without what goes to stderr. -/
structure Captured where
  sets : List (String × Nat)
  entries : List CapturedEntry
deriving DecidableEq

/-- `Captured::default`. -/
def Captured.empty : Captured where
  sets := []
  entries := []

/-- Why a call is refused. The last two differ in their texts only: the ids that were added at
the position, if there are any, are part of it. -/
inductive HostError
  | belowLevel (function : String) (level reported : UInt32)
  | unknownEntry (setId : String) (index : Nat)
  | otherCredential (setId : String) (index : Nat) (credId : String) (added : List String)
deriving DecidableEq

/-- `read_cstr`: no text for a null pointer. -/
def readCstr (text : Option C8Str) : String := (text.map (·.text)).getD ""

/-- `read_cstr_opt`. -/
def readCstrOpt (text : Option C8Str) : Option String := text.map (·.text)

/-- `read_bytes`. The length is an `i32`, and one that is not positive is no value. -/
def readBytes (bytes : List UInt8) : List UInt8 :=
  if bytes.length < 2 ^ 31 then bytes else []

/-- How the texts name an entry. -/
def EntryKey.texts (key : EntryKey) : String × Nat × String :=
  (key.setId.text, key.setIndex, key.credId.text)

/-- What an entry is found by. -/
def CapturedEntry.key (e : CapturedEntry) : String × Nat × String :=
  (e.setId, e.index, e.credentialId)

/-- The keys of the entries. -/
def Captured.keys (out : Captured) : List (String × Nat × String) :=
  out.entries.map CapturedEntry.key

/-! ## Calls -/

/-- The entry that `AddEntryToSet` adds. -/
def CapturedEntry.added (key : EntryKey) (display : VerificationDisplay) (metadata_ : C8Str) :
    CapturedEntry where
  setId := key.setId.text
  index := key.setIndex
  credentialId := key.credId.text
  title := display.title.text
  subtitle := readCstr display.subtitle
  metadata_ := metadata_.text
  icon := readBytes display.icon
  disclaimer := readCstrOpt display.disclaimer
  warning := readCstrOpt display.warning
  fields := []
  delegation := none
  link := none
  metadataDisplayText := none

/-- `reached`. -/
def reached (reported level : UInt32) (function : String) : Except HostError Unit :=
  if reported < level then .error (.belowLevel function level reported) else .ok ()

/-- `entry_at`, and the change its caller makes: the first entry with the set, position and
credential id. -/
def entryAt (out : Captured) (key : EntryKey) (change : CapturedEntry → CapturedEntry) :
    Except HostError Captured :=
  match Ledgers.changeFirst CapturedEntry.key key.texts change out.entries with
  | some entries => .ok { out with entries }
  | none =>
    let added := (out.entries.filter fun e =>
      e.setId == key.setId.text && e.index == key.setIndex).map (·.credentialId)
    .error <|
      if added.isEmpty then .unknownEntry key.setId.text key.setIndex
      else .otherCredential key.setId.text key.setIndex key.credId.text added

/-- The functions that `add_credman` registers, for a host that reports the level. -/
def record (reported : UInt32) (out : Captured) : HostCall → Except HostError Captured
  | .addEntrySet setId setLength =>
    .ok { out with sets := out.sets ++ [(setId.text, setLength)] }
  | .addEntryToSet key display metadata_ =>
    .ok { out with entries := out.entries ++ [.added key display metadata_] }
  | .addFieldToEntrySet key field =>
    entryAt out key fun e =>
      { e with fields := e.fields ++ [(field.name.text, readCstr field.value)] }
  | .addMetadataDisplayText key text => do
    reached reported 5 "AddMetadataDisplayTextToEntrySet"
    entryAt out key fun e => { e with metadataDisplayText := some text.text }
  | .setLink key link => do
    reached reported 6 "SetAdditionalDisclaimerAndUrlForVerificationEntryInCredentialSet"
    entryAt out key fun e =>
      { e with
        link := some (link.secondaryDisclaimer.text, link.urlDisplayText.text, link.urlValue.text) }
  | .setDelegationType key delegation => do
    reached reported 7 "SetDelegationTypeForEntryInSet"
    entryAt out key fun e => { e with delegation := some delegation.toI32 }

/-- The calls of a run, up to the first that is refused. -/
def replay (reported : UInt32) : Captured → List HostCall → Except HostError Captured
  | out, [] => .ok out
  | out, call :: calls => do
    let out ← record reported out call
    replay reported out calls

/-! ## What is recorded -/

/-- The entry that a call names, if it has to be there. -/
def HostCall.attachesTo : HostCall → Option EntryKey
  | .addEntrySet _ _ | .addEntryToSet _ _ _ => none
  | .setDelegationType key _ | .setLink key _ | .addFieldToEntrySet key _
  | .addMetadataDisplayText key _ => some key

/-- The level from which a call is recorded. -/
def HostCall.level : HostCall → UInt32
  | .addEntrySet _ _ | .addEntryToSet _ _ _ | .addFieldToEntrySet _ _ => 0
  | .addMetadataDisplayText _ _ => 5
  | .setLink _ _ => 6
  | .setDelegationType _ _ => 7

/-- What a call changes of the entry it names. -/
def HostCall.change : HostCall → CapturedEntry → CapturedEntry
  | .addEntrySet _ _, e | .addEntryToSet _ _ _, e => e
  | .addFieldToEntrySet _ field, e =>
    { e with fields := e.fields ++ [(field.name.text, readCstr field.value)] }
  | .addMetadataDisplayText _ text, e => { e with metadataDisplayText := some text.text }
  | .setLink _ link, e =>
    { e with
      link := some (link.secondaryDisclaimer.text, link.urlDisplayText.text, link.urlValue.text) }
  | .setDelegationType _ delegation, e => { e with delegation := some delegation.toI32 }

section Record

variable {reported : UInt32} {out out' : Captured} {call : HostCall} {key : EntryKey}

theorem HostCall.key_change (call : HostCall) (e : CapturedEntry) :
    (call.change e).key = e.key := by
  cases call <;> rfl

theorem reached_of_le {level : UInt32} (h : level ≤ reported) (function : String) :
    reached reported level function = .ok () :=
  if_neg (UInt32.not_lt.mpr h)

/-- A call that names an entry, at a level that has it. -/
theorem record_attaches (hkey : call.attachesTo = some key) (hlevel : call.level ≤ reported) :
    record reported out call = entryAt out key call.change := by
  cases call with
  | addEntrySet _ _ => cases hkey
  | addEntryToSet _ _ _ => cases hkey
  | addFieldToEntrySet _ _ =>
    cases hkey
    rfl
  | addMetadataDisplayText _ _ =>
    cases hkey
    rw [record, @reached_of_le _ 5 hlevel]
    rfl
  | setLink _ _ =>
    cases hkey
    rw [record, @reached_of_le _ 6 hlevel]
    rfl
  | setDelegationType _ _ =>
    cases hkey
    rw [record, @reached_of_le _ 7 hlevel]
    rfl

/-- A call above the level is refused, whatever entry it names. -/
theorem record_above (h : reported < call.level) : ∃ e, record reported out call = .error e := by
  have hnot : ∀ {level : UInt32} (function : String), reported < level →
      reached reported level function = .error (.belowLevel function level reported) :=
    fun _ h => if_pos h
  cases call with
  | addMetadataDisplayText _ _ =>
    rw [record, @hnot 5 _ h]
    exact ⟨_, rfl⟩
  | setLink _ _ =>
    rw [record, @hnot 6 _ h]
    exact ⟨_, rfl⟩
  | setDelegationType _ _ =>
    rw [record, @hnot 7 _ h]
    exact ⟨_, rfl⟩
  | addEntrySet _ _ => exact absurd h (UInt32.not_lt.mpr (UInt32.zero_le))
  | addEntryToSet _ _ _ => exact absurd h (UInt32.not_lt.mpr (UInt32.zero_le))
  | addFieldToEntrySet _ _ => exact absurd h (UInt32.not_lt.mpr (UInt32.zero_le))

theorem entryAt_ok (change : CapturedEntry → CapturedEntry) :
    (∃ out', entryAt out key change = .ok out') ↔ key.texts ∈ out.keys := by
  unfold entryAt Captured.keys
  rw [← @Ledgers.changeFirst_isSome _ _ _ _ _ change]
  cases Ledgers.changeFirst CapturedEntry.key key.texts change out.entries with
  | none => simp
  | some entries => simp

/-- The text of a host string tells which it is. -/
theorem C8Str.text_inj {a b : C8Str} : a.text = b.text ↔ a = b := by
  refine ⟨fun h => ?_, fun h => h ▸ rfl⟩
  cases a
  cases b
  cases h
  rfl

theorem EntryKey.texts_inj {a b : EntryKey} : a.texts = b.texts ↔ a = b := by
  refine ⟨fun h => ?_, fun h => h ▸ rfl⟩
  obtain ⟨hset, hrest⟩ := Prod.mk.inj h
  obtain ⟨hindex, hcred⟩ := Prod.mk.inj hrest
  cases a
  cases b
  cases C8Str.text_inj.mp hset
  cases C8Str.text_inj.mp hcred
  cases hindex
  rfl

/-- A call is recorded if the entry it names was added, and its level is reached. -/
theorem record_ok_iff :
    (∃ out', record reported out call = .ok out') ↔
      (∀ key, call.attachesTo = some key → key.texts ∈ out.keys) ∧ call.level ≤ reported := by
  by_cases hlevel : call.level ≤ reported
  · cases hkey : call.attachesTo with
    | some key =>
      rw [record_attaches hkey hlevel, entryAt_ok]
      refine ⟨fun h => ⟨fun k hk => Option.some.inj hk ▸ h, hlevel⟩, fun h => h.1 key rfl⟩
    | none =>
      refine ⟨fun _ => ⟨fun _ hkey => (nomatch hkey), hlevel⟩, fun _ => ?_⟩
      cases call with
      | addEntrySet _ _ => exact ⟨_, rfl⟩
      | addEntryToSet _ _ _ => exact ⟨_, rfl⟩
      | _ => cases hkey
  · obtain ⟨e, he⟩ := @record_above reported out call (UInt32.not_le.mp hlevel)
    rw [he]
    exact ⟨fun ⟨_, h⟩ => (nomatch h), fun h => absurd h.2 hlevel⟩

/-- The keys that a call adds. -/
theorem record_keys (h : record reported out call = .ok out') :
    out'.keys = out.keys ++ (entries [call]).map fun e => e.1.texts := by
  have hlevel := (record_ok_iff.mp ⟨out', h⟩).2
  cases hkey : call.attachesTo with
  | some key =>
    have hnone : entries [call] = [] := by
      cases call with
      | addEntryToSet _ _ _ => cases hkey
      | _ => rfl
    rw [record_attaches hkey hlevel] at h
    unfold entryAt at h
    split at h
    · next changed hchanged =>
      cases h
      rw [hnone, List.map_nil, List.append_nil]
      exact Ledgers.changeFirst_keys call.key_change hchanged
    · cases h
  | none =>
    cases call with
    | addEntrySet _ _ =>
      cases h
      exact (List.append_nil _).symm
    | addEntryToSet _ _ _ =>
      cases h
      exact List.map_append
    | _ => cases hkey

end Record

/-! ## 1. What is refused -/

/-- A call is allowed after what came before: its entry was added, and its level is reached. -/
def Recordable (reported : UInt32) (past : List HostCall) (call : HostCall) : Prop :=
  (∀ key, call.attachesTo = some key → ∃ e ∈ entries past, e.1 = key) ∧ call.level ≤ reported

/-- Recording goes on as long as each call is allowed after those before. -/
theorem replay_ok_iff {reported : UInt32} {out : Captured} {past : List HostCall}
    (hkeys : out.keys = (entries past).map fun e => e.1.texts) (calls : List HostCall) :
    (∃ out', replay reported out calls = .ok out') ↔
      Holds (Recordable reported) past calls := by
  induction calls generalizing out past with
  | nil => exact ⟨fun _ => trivial, fun _ => ⟨out, rfl⟩⟩
  | cons call calls ih =>
    have hone : (∃ out', record reported out call = .ok out') ↔
        Recordable reported past call := by
      rw [record_ok_iff, hkeys]
      refine and_congr_left' (forall₂_congr fun key _ => ?_)
      rw [List.mem_map]
      simp only [EntryKey.texts_inj]
    rw [Holds, ← hone, replay]
    cases hrecord : record reported out call with
    | error e =>
      constructor
      · rintro ⟨_, h⟩
        cases h
      · rintro ⟨⟨_, h⟩, _⟩
        cases h
    | ok next =>
      have hnext : next.keys = (entries (past ++ [call])).map fun e => e.1.texts := by
        rw [record_keys hrecord, hkeys, entries, entries, entries, List.filterMap_append,
          List.map_append]
      exact (ih hnext).trans ⟨fun h => ⟨⟨next, rfl⟩, h⟩, fun h => h.2⟩

/-- The calls of a run are recorded exactly if each call that names an entry comes after one that
added it, under the same set, position and credential id, and no call is above the level. -/
theorem replay_isOk_iff (reported : UInt32) (calls : List HostCall) :
    (∃ out, replay reported .empty calls = .ok out) ↔ Holds (Recordable reported) [] calls :=
  replay_ok_iff rfl calls

/-! ## 2. What sets are captured as -/

/-- An option, on a host of a level that shows it. -/
def SetEntry.reaches {α : Type} (host : SetHost) (level : UInt32) (value : Option α) : Option α :=
  if level ≤ host.level then value else none

/-- An entry as it is captured: all it was given, as far as the host shows it. -/
def SetEntry.captured (e : SetEntry) (host : SetHost) (key : EntryKey) : CapturedEntry :=
  { CapturedEntry.added key e.kind (e.metadata host.level) with
    fields := e.fields.map fun field => (field.name.text, readCstr field.value)
    delegation := (reaches host 7 (e.delegation.or host.delegation)).map DelegationType.toI32
    link := (reaches host 6 e.link).map fun link =>
      (link.secondaryDisclaimer.text, link.urlDisplayText.text, link.urlValue.text)
    metadataDisplayText := (reaches host 5 e.metadataDisplayText).map (·.text) }

/-- The entries of a set with their keys, in the order they are sent. -/
def EntrySet.keyed (set : EntrySet) : List (EntryKey × SetEntry) :=
  set.slots.zipIdx.flatMap fun numbered =>
    numbered.1.alternatives.map fun e => (set.key numbered.2 e, e)

/-- What some sets are captured as. -/
def capturedSets (host : SetHost) (sets : List EntrySet) : Captured where
  sets := sets.map fun set => (set.id.text, set.slotCount)
  entries := sets.flatMap fun set => set.keyed.map fun entry => entry.2.captured host entry.1

section Sets

variable {host : SetHost} {out : Captured}

theorem replay_append {reported : UInt32} (calls calls' : List HostCall) :
    replay reported out (calls ++ calls') =
      (replay reported out calls >>= fun out' => replay reported out' calls') := by
  induction calls generalizing out with
  | nil => rfl
  | cons call calls ih =>
    rw [List.cons_append, replay, replay]
    cases record reported out call with
    | error e => rfl
    | ok next => exact ih

/-- The calls that attach to the entry that was added last change it one after another. -/
theorem replay_attaching {e : CapturedEntry} {key : EntryKey} (hkey : e.key = key.texts)
    (hnew : key.texts ∉ out.keys) {calls : List HostCall}
    (hcalls : ∀ call ∈ calls, call.attachesTo = some key ∧ call.level ≤ host.level) :
    replay host.level { out with entries := out.entries ++ [e] } calls =
      .ok { out with entries := out.entries ++ [calls.foldl (fun e call => call.change e) e] } := by
  induction calls generalizing e with
  | nil => rfl
  | cons call calls ih =>
    obtain ⟨hfirst, hothers⟩ := List.forall_mem_cons.mp hcalls
    have hentry : entryAt { out with entries := out.entries ++ [e] } key call.change =
        .ok { out with entries := out.entries ++ [call.change e] } := by
      have hlast : e.key ∉ out.entries.map CapturedEntry.key := hkey ▸ hnew
      unfold entryAt
      rw [← hkey, Ledgers.changeFirst_last hlast]
    rw [replay, record_attaches hfirst.1 hfirst.2, hentry, List.foldl_cons]
    exact ih ((call.key_change e).trans hkey) hothers

theorem option_attaches {α : Type} {level : UInt32} {call : α → HostCall} {key : EntryKey}
    {value : Option α} {c : HostCall} (h : c ∈ SetEntry.option host level call value)
    (hcall : ∀ v, (call v).attachesTo = some key ∧ (call v).level = level) :
    c.attachesTo = some key ∧ c.level ≤ host.level := by
  unfold SetEntry.option at h
  split at h
  · cases h
  · next v =>
    split at h
    · next hlevel =>
      rw [List.mem_singleton.mp h]
      exact ⟨(hcall v).1, (hcall v).2 ▸ hlevel⟩
    · cases h

theorem attachments_recorded (e : SetEntry) (key : EntryKey) :
    ∀ call ∈ e.attachments host key, call.attachesTo = some key ∧ call.level ≤ host.level := by
  intro call h
  unfold SetEntry.attachments at h
  rw [List.mem_append, List.mem_append, List.mem_append] at h
  rcases h with ((h | h) | h) | h
  · exact option_attaches h fun _ => ⟨rfl, rfl⟩
  · exact option_attaches h fun _ => ⟨rfl, rfl⟩
  · obtain ⟨field, _, rfl⟩ := List.mem_map.mp h
    exact ⟨rfl, UInt32.zero_le⟩
  · exact option_attaches h fun _ => ⟨rfl, rfl⟩

theorem change_fields (key : EntryKey) (fields : List Field) (e : CapturedEntry) :
    (fields.map (HostCall.addFieldToEntrySet key)).foldl (fun e call => call.change e) e =
      { e with
        fields :=
          e.fields ++ fields.map fun field => (field.name.text, readCstr field.value) } := by
  induction fields generalizing e with
  | nil =>
    rw [List.map_nil, List.map_nil, List.append_nil]
    rfl
  | cons field fields ih =>
    rw [List.map_cons, List.foldl_cons, ih, List.map_cons]
    show CapturedEntry.mk _ _ _ _ _ _ _ _ _ ((e.fields ++ [_]) ++ _) _ _ _ = _
    rw [List.append_assoc]
    rfl

theorem change_option {α : Type} (level : UInt32) (call : α → HostCall) (value : Option α)
    (e : CapturedEntry) :
    (SetEntry.option host level call value).foldl (fun e call => call.change e) e =
      (SetEntry.reaches host level value).elim e fun v => (call v).change e := by
  unfold SetEntry.option SetEntry.reaches
  by_cases hlevel : level ≤ host.level
  · simp only [if_pos hlevel]
    cases value <;> rfl
  · simp only [if_neg hlevel]
    cases value <;> rfl

/-- The changes of all that attaches to an entry give it as it is captured. -/
theorem change_attachments (e : SetEntry) (key : EntryKey) :
    (e.attachments host key).foldl (fun e call => call.change e)
      (.added key e.kind (e.metadata host.level)) = e.captured host key := by
  unfold SetEntry.attachments SetEntry.captured
  rw [List.foldl_append, List.foldl_append, List.foldl_append, change_option, change_option,
    change_fields, change_option]
  cases SetEntry.reaches host 7 (e.delegation.or host.delegation) <;>
    cases SetEntry.reaches host 6 e.link <;>
    cases SetEntry.reaches host 5 e.metadataDisplayText <;> rfl

/-- One entry. -/
theorem replay_send {key : EntryKey} (hnew : key.texts ∉ out.keys) (e : SetEntry) :
    replay host.level out (e.send host key) =
      .ok { out with entries := out.entries ++ [e.captured host key] } := by
  rw [SetEntry.send, replay]
  show replay host.level { out with entries := out.entries ++ [_] } _ = _
  rw [replay_attaching rfl hnew (attachments_recorded e key), change_attachments]

/-- Entries one after another, under keys of their own. -/
theorem replay_entries {entries : List (EntryKey × SetEntry)}
    (hkeys : (out.keys ++ entries.map fun entry => entry.1.texts).Nodup) :
    replay host.level out (entries.flatMap fun entry => entry.2.send host entry.1) =
      .ok { out with
        entries := out.entries ++ entries.map fun entry => entry.2.captured host entry.1 } := by
  induction entries generalizing out with
  | nil =>
    rw [List.map_nil, List.append_nil]
    rfl
  | cons entry entries ih =>
    have hnew : entry.1.texts ∉ out.keys := fun hmem =>
      (List.nodup_append.mp hkeys).2.2 _ hmem _ List.mem_cons_self rfl
    have hnext : (({ out with
        entries := out.entries ++ [entry.2.captured host entry.1] } : Captured).keys ++
          entries.map fun entry => entry.1.texts).Nodup := by
      have hlast : ({ out with
          entries := out.entries ++ [entry.2.captured host entry.1] } : Captured).keys =
            out.keys ++ [entry.1.texts] := List.map_append
      rw [hlast, List.append_assoc]
      exact hkeys
    rw [List.flatMap_cons, replay_append, replay_send hnew]
    show replay _ _ _ = _
    rw [ih hnext, List.map_cons, List.append_assoc]
    rfl

theorem flatMap_sendSlot (set : EntrySet) :
    set.slots.zipIdx.flatMap (set.sendSlot host) =
      set.keyed.flatMap fun entry => entry.2.send host entry.1 := by
  unfold EntrySet.keyed
  rw [List.flatMap_assoc]
  refine List.flatMap_congr fun numbered _ => ?_
  rw [EntrySet.sendSlot, List.flatMap_map]

/-- Sets one after another, with keys of their own. -/
theorem replay_sets {sets : List EntrySet}
    (hkeys : (out.keys ++
      sets.flatMap fun set => set.keyed.map fun entry => entry.1.texts).Nodup) :
    replay host.level out (sendAll host sets) =
      .ok { sets := out.sets ++ (capturedSets host sets).sets
            entries := out.entries ++ (capturedSets host sets).entries } := by
  induction sets generalizing out with
  | nil =>
    show Except.ok out = .ok ⟨out.sets ++ [], out.entries ++ []⟩
    rw [List.append_nil, List.append_nil]
  | cons set sets ih =>
    rw [List.flatMap_cons, ← List.append_assoc] at hkeys
    have hfirst : (({ out with
        sets := out.sets ++ [(set.id.text, set.slotCount)] } : Captured).keys ++
          set.keyed.map fun entry => entry.1.texts).Nodup :=
      (List.nodup_append.mp hkeys).1
    have hset : replay host.level out (set.send host) =
        .ok { sets := out.sets ++ [(set.id.text, set.slotCount)]
              entries := out.entries ++
                set.keyed.map fun entry => entry.2.captured host entry.1 } := by
      rw [EntrySet.send, replay, flatMap_sendSlot]
      exact replay_entries hfirst
    have hnext : (({ sets := out.sets ++ [(set.id.text, set.slotCount)]
                     entries := out.entries ++
                       set.keyed.map fun entry => entry.2.captured host entry.1 } :
        Captured).keys ++
          sets.flatMap fun set => set.keyed.map fun entry => entry.1.texts).Nodup := by
      have hadded : ({ sets := out.sets ++ [(set.id.text, set.slotCount)]
                       entries := out.entries ++
                         set.keyed.map fun entry => entry.2.captured host entry.1 } :
          Captured).keys = out.keys ++ set.keyed.map fun entry => entry.1.texts := by
        unfold Captured.keys
        rw [List.map_append, List.map_map]
        rfl
      rw [hadded]
      exact hkeys
    rw [sendAll, List.flatMap_cons, replay_append, hset]
    show replay _ _ (sendAll host sets) = _
    rw [ih hnext]
    unfold capturedSets
    rw [List.map_cons, List.flatMap_cons, List.append_assoc, List.append_assoc]
    rfl

/-- Keys are distinct if the sets are, and the alternatives of each slot. -/
theorem nodup_keys {sets : List EntrySet} (hids : (sets.map (·.id)).Nodup)
    (halternatives : ∀ set ∈ sets, ∀ slot ∈ set.slots,
      (slot.alternatives.map (·.credId)).Nodup) :
    (sets.flatMap fun set => set.keyed.map fun entry => entry.1.texts).Nodup := by
  refine @nodup_flatMap_of_tag _ _ _ _ (fun set : EntrySet => set.id.text) Prod.fst _ ?_ ?_ ?_
  · rw [List.nodup_iff_pairwise_ne, List.pairwise_map] at hids ⊢
    exact hids.imp fun hne htext => hne (C8Str.text_inj.mp htext)
  · intro set _ texts htexts
    obtain ⟨entry, hentry, rfl⟩ := List.mem_map.mp htexts
    obtain ⟨numbered, _, hentry⟩ := List.mem_flatMap.mp hentry
    obtain ⟨e, _, rfl⟩ := List.mem_map.mp hentry
    rfl
  · intro set hset
    rw [EntrySet.keyed, List.map_flatMap]
    refine @nodup_flatMap_of_tag _ _ _ _ Prod.snd (fun texts => texts.2.1) _ ?_ ?_ ?_
    · rw [List.zipIdx_map_snd]
      exact List.nodup_range'
    · intro numbered _ texts htexts
      rw [List.map_map] at htexts
      obtain ⟨e, _, rfl⟩ := List.mem_map.mp htexts
      rfl
    · intro numbered hnumbered
      have hslot := halternatives set hset _ (List.fst_mem_of_mem_zipIdx hnumbered)
      rw [List.map_map, List.nodup_iff_pairwise_ne, List.pairwise_map]
      rw [List.nodup_iff_pairwise_ne, List.pairwise_map] at hslot
      refine hslot.imp fun hne htexts => hne (C8Str.text_inj.mp ?_)
      exact congrArg (fun texts : String × Nat × String => texts.2.2) htexts

/-- Sets with distinct ids, of slots whose alternatives have distinct ids, are captured as they
are. -/
theorem replay_sendAll (host : SetHost) {sets : List EntrySet} (hids : (sets.map (·.id)).Nodup)
    (halternatives : ∀ set ∈ sets, ∀ slot ∈ set.slots,
      (slot.alternatives.map (·.credId)).Nodup) :
    replay host.level .empty (sendAll host sets) = .ok (capturedSets host sets) :=
  replay_sets (nodup_keys hids halternatives)

end Sets

/-- A set with two alternatives at one position, of which the second has all there is. -/
def alternativesSet : EntrySet where
  id := .ofLossy "set"
  first :=
    { first := .new (.ofLossy "cred-a") ⟨[1], .ofLossy "title", none, none, none⟩
      others :=
        [{ SetEntry.new (.ofLossy "cred-b") ⟨[1], .ofLossy "title", none, none, none⟩ with
            fields := [⟨.ofLossy "Field", some (.ofLossy "Value")⟩]
            link := some
              ⟨.ofLossy "Disclaimer", .ofLossy "Link text", .ofLossy "https://b.example"⟩
            metadataDisplayText := some (.ofLossy "Shown text")
            delegation := some .full }] }
  others := []

theorem replay_sendAll_alternatives :
    (replay 7 .empty (sendAll ⟨7, none, by decide⟩ [alternativesSet])).map
        (fun out => out.entries.map fun e =>
          (e.credentialId, e.fields, e.metadataDisplayText, e.link, e.delegation)) =
      .ok [("cred-a", [], none, none, none),
        ("cred-b", [("Field", "Value")], some "Shown text",
          some ("Disclaimer", "Link text", "https://b.example"), some 1)] := by
  rw [@replay_sendAll ⟨7, none, by decide⟩ [alternativesSet] (by decide) (by decide)]
  rfl

end Credman

end DcMatcher
