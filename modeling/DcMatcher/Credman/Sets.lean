import DcMatcher.Display
import DcMatcher.Lib.Lists
import DcMatcher.Lib.Traces

/-!
# Entry sets on the host

`android-credman`: `set.rs`, `sets_on_host.rs` and the calls of `levels.rs` they make. A set
has at least one slot and a slot at least one entry. A position and the declared length are
`i32` in the source; no set that fits in memory has more slots than an `i32` counts, so both
are natural numbers here.

Results:
1. `declarations_sendAll`: what is declared is the sets, each with its length.
2. `entriesAt_sendAll`: the entries at a position are the alternatives of its slot.
3. `follows_sendAll`: every entry follows its declaration, and what attaches to it follows it.
-/

namespace DcMatcher

/-- `C8String::push_c8_str` of the crate `c8str`: what has no NUL is put behind what has none, and
there is no error to handle. -/
def C8Str.append (a b : C8Str) : C8Str where
  text := a.text ++ b.text
  noNul := by
    rw [String.toList_append, List.mem_append]
    exact fun h => h.elim a.noNul b.noNul

namespace Credman

open Lists Traces

/-! ## Entries and sets -/

/-- `Field`. -/
structure Field where
  name : C8Str
  value : Option C8Str
deriving DecidableEq

/-- `VerificationDisplay`. -/
structure VerificationDisplay where
  icon : List UInt8
  title : C8Str
  subtitle : Option C8Str
  disclaimer : Option C8Str
  warning : Option C8Str
deriving DecidableEq

/-- `VerificationLink`. -/
structure VerificationLink where
  secondaryDisclaimer : C8Str
  urlDisplayText : C8Str
  urlValue : C8Str
deriving DecidableEq

/-- `DelegationType`. -/
inductive DelegationType
  | noDelegation
  | full
deriving DecidableEq

/-- `SetEntry` of a verification entry. -/
structure SetEntry where
  credId : C8Str
  kind : VerificationDisplay
  data : Option C8Str
  fields : List Field
  link : Option VerificationLink
  metadataDisplayText : Option C8Str
  delegation : Option DelegationType
deriving DecidableEq

/-- `SetEntry::new`. -/
def SetEntry.new (credId : C8Str) (kind : VerificationDisplay) : SetEntry where
  credId
  kind
  data := none
  fields := []
  link := none
  metadataDisplayText := none
  delegation := none

/-- `Slot`. -/
structure Slot where
  first : SetEntry
  others : List SetEntry
deriving DecidableEq

/-- `Slot::one`. -/
def Slot.one (entry : SetEntry) : Slot := ⟨entry, []⟩

/-- `Slot::alternatives`. -/
def Slot.alternatives (slot : Slot) : List SetEntry := slot.first :: slot.others

/-- `EntrySet`. -/
structure EntrySet where
  id : C8Str
  first : Slot
  others : List Slot
deriving DecidableEq

namespace EntrySet

/-- `EntrySet::slot_count`. -/
def slotCount (set : EntrySet) : Nat := 1 + set.others.length

/-- `EntrySet::slots`. -/
def slots (set : EntrySet) : List Slot := set.first :: set.others

theorem length_slots (set : EntrySet) : set.slots.length = set.slotCount := by
  rw [slots, slotCount, List.length_cons, Nat.add_comm]

end EntrySet

/-! ## Calls of the host -/

/-- How the host names an entry in a set. -/
structure EntryKey where
  setId : C8Str
  setIndex : Nat
  credId : C8Str
deriving DecidableEq

/-- A call on the host that fills the picker with sets. -/
inductive HostCall
  | addEntrySet (setId : C8Str) (setLength : Nat)
  | addEntryToSet (key : EntryKey) (display : VerificationDisplay) (metadata_ : C8Str)
  | setDelegationType (key : EntryKey) (delegation : DelegationType)
  | setLink (key : EntryKey) (link : VerificationLink)
  | addFieldToEntrySet (key : EntryKey) (field : Field)
  | addMetadataDisplayText (key : EntryKey) (text : C8Str)
deriving DecidableEq

/-- The host of the sets: the level it reported, at least 2, and its default delegation. -/
structure SetHost where
  level : UInt32
  delegation : Option DelegationType
  sets : 2 ≤ level

namespace SetEntry

/-- `SetEntry::display_skipped`. -/
def displaySkipped (e : SetEntry) (level : UInt32) : Bool :=
  (e.metadataDisplayText.isSome && level < 5) || (e.link.isSome && level < 6)

/-- `SetEntry::metadata`. -/
def metadata (e : SetEntry) (level : UInt32) : C8Str :=
  let head : C8Str := .ofLossy ("\x7b\"display_skipped\":" ++
    (if e.displaySkipped level then "true" else "false") ++
    ",\"host_level\":" ++ toString level.toNat)
  let object := match e.data with
    | none => head
    | some data => (head.append (.ofLossy ",\"data\":")).append data
  object.append (.ofLossy "\x7d")

/-- The calls for an option, from the level that shows it. -/
def option {α : Type} (host : SetHost) (level : UInt32) (call : α → HostCall) :
    Option α → List HostCall
  | none => []
  | some value => if level ≤ host.level then [call value] else []

/-- What `SetEntry::send` sends after the entry itself. -/
def attachments (e : SetEntry) (host : SetHost) (key : EntryKey) : List HostCall :=
  option host 7 (.setDelegationType key) (e.delegation.or host.delegation) ++
    option host 6 (.setLink key) e.link ++
    e.fields.map (.addFieldToEntrySet key) ++
    option host 5 (.addMetadataDisplayText key) e.metadataDisplayText

/-- `SetEntry::send`. -/
def send (e : SetEntry) (host : SetHost) (key : EntryKey) : List HostCall :=
  .addEntryToSet key e.kind (e.metadata host.level) :: e.attachments host key

end SetEntry

namespace EntrySet

/-- The key of an entry at a position. -/
def key (set : EntrySet) (setIndex : Nat) (e : SetEntry) : EntryKey :=
  ⟨set.id, setIndex, e.credId⟩

/-- The calls for the slot at a position. -/
def sendSlot (set : EntrySet) (host : SetHost) (numbered : Slot × Nat) : List HostCall :=
  numbered.1.alternatives.flatMap fun e => e.send host (set.key numbered.2 e)

/-- `EntrySets::add_entry_set`. -/
def send (set : EntrySet) (host : SetHost) : List HostCall :=
  .addEntrySet set.id set.slotCount :: set.slots.zipIdx.flatMap (set.sendSlot host)

end EntrySet

/-- The calls for some sets, one after the other. -/
def sendAll (host : SetHost) (sets : List EntrySet) : List HostCall :=
  sets.flatMap fun set => set.send host

/-! ## What the calls say -/

/-- The set a call declares, with its length. -/
def HostCall.declaration : HostCall → Option (C8Str × Nat)
  | .addEntrySet setId setLength => some (setId, setLength)
  | _ => none

/-- The entry a call adds. -/
def HostCall.entry : HostCall → Option (EntryKey × VerificationDisplay)
  | .addEntryToSet key display _ => some (key, display)
  | _ => none

/-- The declared sets, with their lengths. -/
def declarations (calls : List HostCall) : List (C8Str × Nat) :=
  calls.filterMap HostCall.declaration

/-- The entries that were added. -/
def entries (calls : List HostCall) : List (EntryKey × VerificationDisplay) :=
  calls.filterMap HostCall.entry

/-- The entries that were added at a position of a set. -/
def entriesAt (calls : List HostCall) (setId : C8Str) (setIndex : Nat) :
    List (EntryKey × VerificationDisplay) :=
  (entries calls).filter fun e => e.1.setId = setId ∧ e.1.setIndex = setIndex

/-- An entry belongs at a position of a set that was declared; everything else on an entry
belongs to one that was added. -/
def Follows (past : List HostCall) : HostCall → Prop
  | .addEntrySet _ _ => True
  | .addEntryToSet key _ _ => ∃ d ∈ declarations past, d.1 = key.setId ∧ key.setIndex < d.2
  | .setDelegationType key _ | .setLink key _ | .addFieldToEntrySet key _
  | .addMetadataDisplayText key _ => ∃ e ∈ entries past, e.1 = key

theorem follows_monotone : Traces.Monotone Follows := by
  intro past past' call hsub h
  have hdeclared : declarations past ⊆ declarations past' := List.filterMap_subset _ hsub
  have hentries : entries past ⊆ entries past' := List.filterMap_subset _ hsub
  cases call with
  | addEntrySet _ _ => trivial
  | addEntryToSet _ _ _ =>
    obtain ⟨d, hd, h⟩ := h
    exact ⟨d, hdeclared hd, h⟩
  | _ =>
    obtain ⟨e, he, h⟩ := h
    exact ⟨e, hentries he, h⟩

/-! ## What an entry sends -/

section Entry

variable (e : SetEntry) (host : SetHost) (key : EntryKey)

/-- A call that attaches to the entry. -/
def Attaches (key : EntryKey) (call : HostCall) : Prop :=
  call.declaration = none ∧ call.entry = none ∧ ∀ past, (∃ e ∈ entries past, e.1 = key) →
    Follows past call

theorem mem_option {α : Type} {level : UInt32} {call : α → HostCall} {value : Option α}
    {c : HostCall} (h : c ∈ SetEntry.option host level call value) : ∃ v, c = call v := by
  unfold SetEntry.option at h
  split at h
  · cases h
  · split at h
    · exact ⟨_, List.mem_singleton.mp h⟩
    · cases h

theorem attachments_attach : ∀ call ∈ e.attachments host key, Attaches key call := by
  intro call h
  unfold SetEntry.attachments at h
  rw [List.mem_append, List.mem_append, List.mem_append] at h
  rcases h with ((h | h) | h) | h
  · obtain ⟨_, rfl⟩ := mem_option host h
    exact ⟨rfl, rfl, fun _ h => h⟩
  · obtain ⟨_, rfl⟩ := mem_option host h
    exact ⟨rfl, rfl, fun _ h => h⟩
  · obtain ⟨_, _, rfl⟩ := List.mem_map.mp h
    exact ⟨rfl, rfl, fun _ h => h⟩
  · obtain ⟨_, rfl⟩ := mem_option host h
    exact ⟨rfl, rfl, fun _ h => h⟩

theorem declarations_send : declarations (e.send host key) = [] := by
  refine List.filterMap_eq_nil_iff.mpr fun call hcall => ?_
  rcases List.mem_cons.mp hcall with rfl | hcall
  · rfl
  · exact (attachments_attach e host key call hcall).1

theorem entries_send : entries (e.send host key) = [(key, e.kind)] := by
  have hnone : (e.attachments host key).filterMap HostCall.entry = [] :=
    List.filterMap_eq_nil_iff.mpr fun call hcall => (attachments_attach e host key call hcall).2.1
  have hhead : HostCall.entry (.addEntryToSet key e.kind (e.metadata host.level)) =
      some (key, e.kind) := rfl
  rw [entries, SetEntry.send, List.filterMap_cons_some hhead, hnone]

theorem follows_send {past : List HostCall}
    (h : ∃ d ∈ declarations past, d.1 = key.setId ∧ key.setIndex < d.2) :
    Holds Follows past (e.send host key) := by
  refine ⟨h, holds_of_forall follows_monotone fun call hcall => ?_⟩
  refine (attachments_attach e host key call hcall).2.2 _ ⟨(key, e.kind), ?_, rfl⟩
  exact List.mem_filterMap.mpr ⟨_, List.mem_append_right _ (List.mem_singleton_self _), rfl⟩

end Entry

/-! ## What sets send -/

section Sets

variable (host : SetHost)

/-- A set declares itself, and nothing else. -/
theorem declarations_sendSet (set : EntrySet) :
    declarations (set.send host) = [(set.id, set.slotCount)] := by
  have hhead : HostCall.declaration (.addEntrySet set.id set.slotCount) =
      some (set.id, set.slotCount) := rfl
  have hnone : declarations (set.slots.zipIdx.flatMap (set.sendSlot host)) = [] := by
    refine List.filterMap_eq_nil_iff.mpr fun call hcall => ?_
    obtain ⟨numbered, _, hcall⟩ := List.mem_flatMap.mp hcall
    obtain ⟨e, _, hcall⟩ := List.mem_flatMap.mp hcall
    exact List.filterMap_eq_nil_iff.mp (declarations_send e host _) call hcall
  rw [declarations, EntrySet.send, List.filterMap_cons_some hhead]
  exact congrArg _ hnone

/-- What is declared is the sets, each with its length. -/
theorem declarations_sendAll (sets : List EntrySet) :
    declarations (sendAll host sets) = sets.map fun set => (set.id, set.slotCount) := by
  induction sets with
  | nil => rfl
  | cons set sets ih =>
    show declarations (set.send host ++ sendAll host sets) = _
    rw [declarations, List.filterMap_append]
    exact congrArg₂ _ (declarations_sendSet host set) ih

theorem entries_flatMap {α : Type} (f : α → List HostCall) (xs : List α) :
    entries (xs.flatMap f) = xs.flatMap fun x => entries (f x) := List.filterMap_flatMap

/-- The entries of a set, slot by slot. -/
theorem entries_sendSet (set : EntrySet) :
    entries (set.send host) = set.slots.zipIdx.flatMap fun numbered =>
      numbered.1.alternatives.map fun e => (set.key numbered.2 e, e.kind) := by
  rw [entries, EntrySet.send, List.filterMap_cons_none rfl]
  refine (entries_flatMap _ _).trans (List.flatMap_congr fun numbered _ => ?_)
  rw [EntrySet.sendSlot, entries_flatMap, List.map_eq_flatMap]
  exact List.flatMap_congr fun e _ => entries_send e host _

/-- Every entry of a set has the set's id. -/
theorem setId_of_entry {set : EntrySet} {e : EntryKey × VerificationDisplay}
    (h : e ∈ entries (set.send host)) : e.1.setId = set.id := by
  rw [entries_sendSet] at h
  obtain ⟨numbered, _, h⟩ := List.mem_flatMap.mp h
  obtain ⟨entry, _, rfl⟩ := List.mem_map.mp h
  rfl

/-- The entries of a set at a position are the alternatives of its slot. -/
theorem entriesAt_sendSet {set : EntrySet} {slot : Slot} {i : Nat}
    (hslot : set.slots[i]? = some slot) :
    entriesAt (set.send host) set.id i =
      slot.alternatives.map fun e => (set.key i e, e.kind) := by
  rw [entriesAt, entries_sendSet, List.filter_flatMap]
  have hmem : (slot, i) ∈ set.slots.zipIdx := List.mem_zipIdx_iff_getElem?.mpr hslot
  have hkeys : (set.slots.zipIdx.map Prod.snd).Nodup := by
    rw [List.zipIdx_map_snd]
    exact List.nodup_range'
  refine (flatMap_eq_of_unique hkeys hmem fun numbered _ hne => ?_).trans ?_
  · rw [List.filter_eq_nil_iff]
    intro e he
    obtain ⟨entry, _, rfl⟩ := List.mem_map.mp he
    simpa [EntrySet.key] using hne
  · rw [List.filter_eq_self]
    intro e he
    obtain ⟨entry, _, rfl⟩ := List.mem_map.mp he
    simp [EntrySet.key]

/-- The entries at a position of a set are the alternatives of its slot, when the sets have
distinct ids. -/
theorem entriesAt_sendAll {sets : List EntrySet} (hids : (sets.map (·.id)).Nodup)
    {set : EntrySet} (hset : set ∈ sets) {slot : Slot} {i : Nat}
    (hslot : set.slots[i]? = some slot) :
    entriesAt (sendAll host sets) set.id i =
      slot.alternatives.map fun e => (set.key i e, e.kind) := by
  rw [← entriesAt_sendSet host hslot]
  unfold entriesAt sendAll
  rw [entries_flatMap, List.filter_flatMap]
  refine flatMap_eq_of_unique hids hset fun other _ hne => List.filter_eq_nil_iff.mpr ?_
  intro e he
  have hid := setId_of_entry host he
  simp only [decide_eq_true_eq, not_and]
  exact fun h => absurd (hid.symm.trans h) hne

/-- An entry is one of a slot of one of the sets. -/
theorem mem_entries_sendAll {sets : List EntrySet} {e : EntryKey × VerificationDisplay}
    (h : e ∈ entries (sendAll host sets)) :
    ∃ set ∈ sets, ∃ slot ∈ set.slots, ∃ entry ∈ slot.alternatives, e.2 = entry.kind := by
  unfold sendAll at h
  rw [entries_flatMap] at h
  obtain ⟨set, hset, h⟩ := List.mem_flatMap.mp h
  rw [entries_sendSet] at h
  obtain ⟨numbered, hnumbered, h⟩ := List.mem_flatMap.mp h
  obtain ⟨entry, hentry, rfl⟩ := List.mem_map.mp h
  exact ⟨set, hset, numbered.1, List.fst_mem_of_mem_zipIdx hnumbered, entry, hentry, rfl⟩

theorem follows_sendSet (set : EntrySet) (past : List HostCall) :
    Holds Follows past (set.send host) := by
  refine ⟨trivial, holds_flatMap follows_monotone fun numbered hnumbered => ?_⟩
  refine holds_flatMap follows_monotone fun e _ => follows_send e host _ ?_
  refine ⟨(set.id, set.slotCount), ?_, rfl, ?_⟩
  · exact List.mem_filterMap.mpr ⟨_, List.mem_append_right _ (List.mem_singleton_self _), rfl⟩
  · obtain ⟨slot, i⟩ := numbered
    have hlt := (List.mem_zipIdx' hnumbered).1
    rwa [set.length_slots] at hlt

/-- Every entry follows its declaration, and what attaches to it follows it. -/
theorem follows_sendAll (sets : List EntrySet) : Holds Follows [] (sendAll host sets) :=
  holds_flatMap follows_monotone fun set _ => follows_sendSet host set []

end Sets

end Credman

end DcMatcher
