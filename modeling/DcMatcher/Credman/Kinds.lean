import DcMatcher.Credman.TestHost

/-!
# Entries of every kind

`set.rs` over its kinds of entries: verification entries, payment entries, and both in one set.
What a host shows of an entry depends on its level. The metadata object of the entry tells the
wallet whether text was left out.

Results:
1. `shows_send`, `displaySkipped_iff`: a host is shown what an entry carries, as far as its level
   shows it, and `display_skipped` says whether that is all.
2. `callsFor_sendAll`: in a whole run, what is sent for an entry is its own.
3. `metadata_sendAll`: every metadata object of a run says the truth.
4. `sendAll_verification`: sets of verification entries are sent as `Credman.sendAll` does.
-/

namespace DcMatcher.Credman.Kinds

open Lists

/-! ## Kinds of entries -/

/-- `PaymentDisplay`. -/
structure PaymentDisplay where
  merchantName : C8Str
  paymentMethodName : C8Str
  paymentMethodSubtitle : Option C8Str
  paymentMethodIcon : List UInt8
  transactionAmount : C8Str
  bankIcon : Option (List UInt8)
  paymentProviderIcon : Option (List UInt8)
deriving DecidableEq

/-- `Payment`. -/
structure Payment where
  display : PaymentDisplay
  additionalInfo : Option C8Str
deriving DecidableEq

/-- `AnyEntry`. -/
inductive AnyEntry
  | verification (display : VerificationDisplay)
  | payment (payment : Payment)
deriving DecidableEq

/-- A call on the host that fills the picker with sets of entries of any kind. -/
inductive KindCall
  | call (call : HostCall)
  | addPaymentEntryToSet (key : EntryKey) (display : PaymentDisplay) (metadata_ : C8Str)
  | addPaymentEntryToSetV2 (key : EntryKey) (display : PaymentDisplay)
      (additionalInfo : Option C8Str) (metadata_ : C8Str)
deriving DecidableEq

/-- `EntryKind`, with the functions of its `Sealed`. The level stands for the host. -/
class EntryKind (K : Type) where
  skipsDisplay : K → UInt32 → Bool
  add : K → UInt32 → EntryKey → C8Str → KindCall

instance : EntryKind VerificationDisplay where
  skipsDisplay _ _ := false
  add display _ key metadata_ := .call (.addEntryToSet key display metadata_)

instance : EntryKind Payment where
  skipsDisplay payment level := payment.additionalInfo.isSome && level < 3
  add payment level key metadata_ :=
    if 3 ≤ level then
      .addPaymentEntryToSetV2 key payment.display payment.additionalInfo metadata_
    else .addPaymentEntryToSet key payment.display metadata_

instance : EntryKind AnyEntry where
  skipsDisplay
    | .verification display, level => EntryKind.skipsDisplay display level
    | .payment payment, level => EntryKind.skipsDisplay payment level
  add
    | .verification display, level => EntryKind.add display level
    | .payment payment, level => EntryKind.add payment level

/-! ## Entries and sets -/

/-- `SetEntry`. -/
structure SetEntry (K : Type) where
  credId : C8Str
  kind : K
  data : Option C8Str
  fields : List Field
  link : Option VerificationLink
  metadataDisplayText : Option C8Str
  delegation : Option DelegationType
deriving DecidableEq

/-- `Slot`. -/
structure Slot (K : Type) where
  first : SetEntry K
  others : List (SetEntry K)
deriving DecidableEq

/-- `Slot::alternatives`. -/
def Slot.alternatives {K : Type} (slot : Slot K) : List (SetEntry K) := slot.first :: slot.others

/-- `EntrySet`. -/
structure EntrySet (K : Type) where
  id : C8Str
  first : Slot K
  others : List (Slot K)
deriving DecidableEq

/-- The metadata object. -/
def metadataObject (skipped : Bool) (level : UInt32) (data : Option C8Str) : C8Str :=
  let head : C8Str := .ofLossy ("\x7b\"display_skipped\":" ++
    (if skipped then "true" else "false") ++ ",\"host_level\":" ++ toString level.toNat)
  let object := match data with
    | none => head
    | some data => (head.append (.ofLossy ",\"data\":")).append data
  object.append (.ofLossy "\x7d")

section Sending

variable {K : Type} [EntryKind K]

namespace SetEntry

/-- `SetEntry::display_skipped`. -/
def displaySkipped (e : SetEntry K) (level : UInt32) : Bool :=
  EntryKind.skipsDisplay e.kind level || (e.metadataDisplayText.isSome && level < 5) ||
    (e.link.isSome && level < 6)

/-- `SetEntry::metadata`. -/
def metadata (e : SetEntry K) (level : UInt32) : C8Str :=
  metadataObject (e.displaySkipped level) level e.data

/-- What `SetEntry::send` sends after the entry itself. -/
def attachments (e : SetEntry K) (host : SetHost) (key : EntryKey) : List HostCall :=
  Credman.SetEntry.option host 7 (.setDelegationType key) (e.delegation.or host.delegation) ++
    Credman.SetEntry.option host 6 (.setLink key) e.link ++
    e.fields.map (.addFieldToEntrySet key) ++
    Credman.SetEntry.option host 5 (.addMetadataDisplayText key) e.metadataDisplayText

/-- `SetEntry::send`. -/
def send (e : SetEntry K) (host : SetHost) (key : EntryKey) : List KindCall :=
  EntryKind.add e.kind host.level key (e.metadata host.level) ::
    (e.attachments host key).map .call

end SetEntry

namespace EntrySet

/-- `EntrySet::slots`. -/
def slots (set : EntrySet K) : List (Slot K) := set.first :: set.others

/-- `EntrySet::slot_count`. -/
def slotCount (set : EntrySet K) : Nat := 1 + set.others.length

/-- The entries of a set with their keys, slot by slot. -/
def keyed (set : EntrySet K) : List (EntryKey × SetEntry K) :=
  set.slots.zipIdx.flatMap fun numbered =>
    numbered.1.alternatives.map fun e => (⟨set.id, numbered.2, e.credId⟩, e)

/-- `EntrySets::add_entry_set`. -/
def send (set : EntrySet K) (host : SetHost) : List KindCall :=
  .call (.addEntrySet set.id set.slotCount) ::
    set.keyed.flatMap fun entry => entry.2.send host entry.1

end EntrySet

/-- The calls for some sets, one after the other. -/
def sendAll (host : SetHost) (sets : List (EntrySet K)) : List KindCall :=
  sets.flatMap fun set => set.send host

end Sending

/-! ## What a host shows -/

/-- Something of an entry that a user sees. -/
inductive Shown
  | verification (display : VerificationDisplay)
  | payment (display : PaymentDisplay)
  | additionalInfo (text : C8Str)
  | link (link : VerificationLink)
  | field (field : Field)
  | displayText (text : C8Str)
deriving DecidableEq

/-- The level from which it is shown in a set. -/
def Shown.level : Shown → UInt32
  | .additionalInfo _ => 3
  | .displayText _ => 5
  | .link _ => 6
  | _ => 2

namespace KindCall

/-- What a call shows. -/
def shows : KindCall → List Shown
  | .call (.addEntryToSet _ display _) => [.verification display]
  | .call (.setLink _ link) => [.link link]
  | .call (.addFieldToEntrySet _ field) => [.field field]
  | .call (.addMetadataDisplayText _ text) => [.displayText text]
  | .call _ => []
  | .addPaymentEntryToSet _ display _ => [.payment display]
  | .addPaymentEntryToSetV2 _ display info _ =>
    .payment display :: (info.map Shown.additionalInfo).toList

/-- The entry that a call is about. -/
def key : KindCall → Option EntryKey
  | .call (.addEntryToSet key _ _) | .call (.setDelegationType key _) | .call (.setLink key _)
  | .call (.addFieldToEntrySet key _) | .call (.addMetadataDisplayText key _)
  | .addPaymentEntryToSet key _ _ | .addPaymentEntryToSetV2 key _ _ _ => some key
  | .call (.addEntrySet _ _) => none

/-- The level from which the host has the call. -/
def level : KindCall → UInt32
  | .call (.addEntrySet _ _) | .call (.addEntryToSet _ _ _) | .call (.addFieldToEntrySet _ _)
  | .addPaymentEntryToSet _ _ _ => 2
  | .addPaymentEntryToSetV2 _ _ _ _ => 3
  | .call (.addMetadataDisplayText _ _) => 5
  | .call (.setLink _ _) => 6
  | .call (.setDelegationType _ _) => 7

/-- The metadata that a call hands to the host. -/
def metadata_ : KindCall → Option C8Str
  | .call (.addEntryToSet _ _ metadata_) | .addPaymentEntryToSet _ _ metadata_
  | .addPaymentEntryToSetV2 _ _ _ metadata_ => some metadata_
  | .call _ => none

end KindCall

/-- The calls about an entry. -/
def callsFor (key : EntryKey) (calls : List KindCall) : List KindCall :=
  calls.filter fun call => call.key = some key

/-- A kind with what an entry of it carries. -/
class Displays (K : Type) extends EntryKind K where
  carried : K → List Shown
  /-- The call that adds an entry shows what the level shows. -/
  shows_add : ∀ (kind : K) {level : UInt32} (key : EntryKey) (metadata_ : C8Str), 2 ≤ level →
    (add kind level key metadata_).shows =
      (carried kind).filter fun shown => shown.level ≤ level
  skips_iff : ∀ (kind : K) {level : UInt32}, 2 ≤ level →
    (skipsDisplay kind level = true ↔ ∃ shown ∈ carried kind, ¬ shown.level ≤ level)
  key_add : ∀ (kind : K) (level : UInt32) (key : EntryKey) (metadata_ : C8Str),
    (add kind level key metadata_).key = some key
  level_add : ∀ (kind : K) {level : UInt32} (key : EntryKey) (metadata_ : C8Str), 2 ≤ level →
    (add kind level key metadata_).level ≤ level
  metadata_add : ∀ (kind : K) (level : UInt32) (key : EntryKey) (metadata_ : C8Str),
    (add kind level key metadata_).metadata_ = some metadata_

instance : Displays VerificationDisplay where
  carried display := [.verification display]
  shows_add display level key metadata_ hlevel := by
    have hshown : (Shown.verification display).level ≤ level := hlevel
    simp only [List.filter_cons, List.filter_nil, hshown, decide_true, if_true]
    rfl
  skips_iff display level hlevel := by
    refine iff_of_false Bool.false_ne_true ?_
    rintro ⟨shown, hshown, hnot⟩
    rw [List.mem_singleton.mp hshown] at hnot
    exact hnot hlevel
  key_add _ _ _ _ := rfl
  level_add _ _ _ _ hlevel := hlevel
  metadata_add _ _ _ _ := rfl

instance : Displays Payment where
  carried payment :=
    .payment payment.display :: (payment.additionalInfo.map Shown.additionalInfo).toList
  shows_add payment level key metadata_ hlevel := by
    have hshown : (Shown.payment payment.display).level ≤ level := hlevel
    simp only [List.filter_cons, hshown, decide_true, if_true]
    show KindCall.shows (if 3 ≤ level then _ else _) = _
    by_cases hinfo : 3 ≤ level
    · rw [if_pos hinfo]
      cases payment.additionalInfo <;> simp [KindCall.shows, Shown.level, hinfo]
    · rw [if_neg hinfo]
      cases payment.additionalInfo <;> simp [KindCall.shows, Shown.level, hinfo]
  skips_iff payment level hlevel := by
    show (payment.additionalInfo.isSome && decide (level < 3)) = true ↔ _
    cases payment.additionalInfo <;> simp [Shown.level, hlevel, UInt32.not_le]
  key_add payment level key metadata_ := by
    show KindCall.key (if 3 ≤ level then _ else _) = _
    split <;> rfl
  level_add payment level key metadata_ hlevel := by
    show KindCall.level (if 3 ≤ level then _ else _) ≤ _
    split
    · next hinfo => exact hinfo
    · exact hlevel
  metadata_add payment level key metadata_ := by
    show KindCall.metadata_ (if 3 ≤ level then _ else _) = _
    split <;> rfl

instance : Displays AnyEntry where
  carried
    | .verification display => Displays.carried display
    | .payment payment => Displays.carried payment
  shows_add
    | .verification display => Displays.shows_add display
    | .payment payment => Displays.shows_add payment
  skips_iff
    | .verification display => Displays.skips_iff display
    | .payment payment => Displays.skips_iff payment
  key_add
    | .verification display => Displays.key_add display
    | .payment payment => Displays.key_add payment
  level_add
    | .verification display => Displays.level_add display
    | .payment payment => Displays.level_add payment
  metadata_add
    | .verification display => Displays.metadata_add display
    | .payment payment => Displays.metadata_add payment

/-! ## 1. One entry -/

section Attachments

variable (host : SetHost) (key : EntryKey)

/-- What an option shows. -/
theorem shows_option {α : Type} (level : UInt32) (call : α → HostCall) (shown : α → Shown)
    (value : Option α) (hshows : ∀ v, (KindCall.call (call v)).shows = [shown v])
    (hlevel : ∀ v, (shown v).level = level) :
    ((Credman.SetEntry.option host level call value).map KindCall.call).flatMap KindCall.shows =
      ((value.map shown).toList).filter fun shown => shown.level ≤ host.level := by
  unfold Credman.SetEntry.option
  cases value with
  | none => rfl
  | some v => by_cases h : level ≤ host.level <;> simp [h, hshows, hlevel]

theorem shows_delegation (delegation : Option DelegationType) :
    ((Credman.SetEntry.option host 7 (.setDelegationType key) delegation).map
      KindCall.call).flatMap KindCall.shows = [] := by
  unfold Credman.SetEntry.option
  cases delegation with
  | none => rfl
  | some _ => by_cases h : 7 ≤ host.level <;> simp [h, KindCall.shows]

theorem shows_fields (fields : List Field) :
    ((fields.map (HostCall.addFieldToEntrySet key)).map KindCall.call).flatMap KindCall.shows =
      (fields.map Shown.field).filter fun shown => shown.level ≤ host.level := by
  have hall : ∀ shown ∈ fields.map Shown.field, decide (shown.level ≤ host.level) = true := by
    intro shown hshown
    obtain ⟨field, _, rfl⟩ := List.mem_map.mp hshown
    exact decide_eq_true host.sets
  rw [List.filter_eq_self.mpr hall, List.map_map, List.flatMap_map, List.map_eq_flatMap]
  rfl

/-- Where the options of a value are skipped. -/
theorem skips_option {α : Type} {level reached : UInt32} {shown : α → Shown} {value : Option α}
    (hlevel : ∀ v, (shown v).level = level) :
    (value.isSome && reached < level) = true ↔
      ∃ s ∈ (value.map shown).toList, ¬ s.level ≤ reached := by
  cases value <;> simp [hlevel, UInt32.not_le]

theorem attached_of_attachesTo {call : HostCall} (h : call.attachesTo = some key) :
    (KindCall.call call).key = some key ∧ (KindCall.call call).metadata_ = none := by
  cases call with
  | addEntrySet _ _ => cases h
  | addEntryToSet _ _ _ => cases h
  | _ => exact ⟨h, rfl⟩

theorem attachments_attach {K : Type} (e : SetEntry K) : ∀ call ∈ e.attachments host key,
    call.attachesTo = some key ∧ call.level ≤ host.level := by
  intro call h
  unfold SetEntry.attachments at h
  rw [List.mem_append, List.mem_append, List.mem_append] at h
  rcases h with ((h | h) | h) | h
  · exact option_attaches h fun _ => ⟨rfl, rfl⟩
  · exact option_attaches h fun _ => ⟨rfl, rfl⟩
  · obtain ⟨field, _, rfl⟩ := List.mem_map.mp h
    exact ⟨rfl, UInt32.zero_le⟩
  · exact option_attaches h fun _ => ⟨rfl, rfl⟩

end Attachments

section Entry

variable {K : Type} [Displays K] (e : SetEntry K) (host : SetHost) (key : EntryKey)

/-- What an entry carries, in the order it is sent. -/
def SetEntry.carried : List Shown :=
  Displays.carried e.kind ++ (e.link.map Shown.link).toList ++ e.fields.map .field ++
    (e.metadataDisplayText.map Shown.displayText).toList

/-- A host is shown what an entry carries, as far as its level shows it. -/
theorem shows_send : (e.send host key).flatMap KindCall.shows =
    e.carried.filter fun shown => shown.level ≤ host.level := by
  unfold SetEntry.send SetEntry.attachments SetEntry.carried
  rw [List.flatMap_cons, Displays.shows_add e.kind key _ host.sets]
  simp only [List.map_append, List.flatMap_append, List.filter_append]
  rw [shows_delegation, shows_fields host,
    shows_option host 6 (.setLink key) Shown.link e.link (fun _ => rfl) fun _ => rfl,
    shows_option host 5 (.addMetadataDisplayText key) Shown.displayText e.metadataDisplayText
      (fun _ => rfl) fun _ => rfl]
  simp only [List.nil_append, List.append_assoc]

/-- `display_skipped` says whether there is something that the level does not show. -/
theorem displaySkipped_iff {level : UInt32} (hlevel : 2 ≤ level) :
    e.displaySkipped level = true ↔ ∃ shown ∈ e.carried, ¬ shown.level ≤ level := by
  have hfield : ¬ ∃ shown ∈ e.fields.map Shown.field, ¬ shown.level ≤ level := by
    rintro ⟨shown, hshown, hnot⟩
    obtain ⟨field, _, rfl⟩ := List.mem_map.mp hshown
    exact hnot hlevel
  have hlink := @skips_option _ 6 level Shown.link e.link fun _ => rfl
  have htext := @skips_option _ 5 level Shown.displayText e.metadataDisplayText fun _ => rfl
  unfold SetEntry.displaySkipped SetEntry.carried
  rw [Bool.or_eq_true, Bool.or_eq_true, Displays.skips_iff e.kind hlevel, htext, hlink]
  simp only [List.mem_append, or_and_right, exists_or]
  rw [or_iff_left hfield, or_right_comm]

theorem level_of_send {call : KindCall} (h : call ∈ e.send host key) :
    call.level ≤ host.level := by
  rcases List.mem_cons.mp h with rfl | h
  · exact Displays.level_add e.kind key _ host.sets
  · obtain ⟨attached, hattached, rfl⟩ := List.mem_map.mp h
    have hlevel := (attachments_attach host key e attached hattached).2
    cases attached with
    | addEntrySet _ _ => exact host.sets
    | addEntryToSet _ _ _ => exact host.sets
    | addFieldToEntrySet _ _ => exact host.sets
    | _ => exact hlevel

theorem key_of_send {call : KindCall} (h : call ∈ e.send host key) : call.key = some key := by
  rcases List.mem_cons.mp h with rfl | h
  · exact Displays.key_add e.kind host.level key _
  · obtain ⟨attached, hattached, rfl⟩ := List.mem_map.mp h
    exact (attached_of_attachesTo key (attachments_attach host key e attached hattached).1).1

theorem metadata_send :
    (e.send host key).filterMap KindCall.metadata_ = [e.metadata host.level] := by
  have hnone : ((e.attachments host key).map KindCall.call).filterMap KindCall.metadata_ = [] := by
    refine List.filterMap_eq_nil_iff.mpr fun call hcall => ?_
    obtain ⟨attached, hattached, rfl⟩ := List.mem_map.mp hcall
    exact (attached_of_attachesTo key (attachments_attach host key e attached hattached).1).2
  rw [SetEntry.send, List.filterMap_cons_some (Displays.metadata_add e.kind host.level key _),
    hnone]

end Entry

/-! ## 2. Whole runs -/

/-- Keys are distinct if the sets are, and the alternatives of each slot. -/
theorem nodup_keys {K : Type} {sets : List (EntrySet K)} (hids : (sets.map (·.id)).Nodup)
    (halternatives : ∀ set ∈ sets, ∀ slot ∈ set.slots,
      (slot.alternatives.map (·.credId)).Nodup) :
    ((sets.flatMap EntrySet.keyed).map Prod.fst).Nodup := by
  rw [List.map_flatMap]
  refine @nodup_flatMap_of_tag _ _ _ _ (fun set : EntrySet K => set.id) EntryKey.setId _ hids ?_ ?_
  · intro set _ key hkey
    obtain ⟨entry, hentry, rfl⟩ := List.mem_map.mp hkey
    obtain ⟨numbered, _, hentry⟩ := List.mem_flatMap.mp hentry
    obtain ⟨e, _, rfl⟩ := List.mem_map.mp hentry
    rfl
  · intro set hset
    rw [EntrySet.keyed, List.map_flatMap]
    refine @nodup_flatMap_of_tag _ _ _ _ Prod.snd EntryKey.setIndex _ ?_ ?_ ?_
    · rw [List.zipIdx_map_snd]
      exact List.nodup_range'
    · intro numbered _ key hkey
      rw [List.map_map] at hkey
      obtain ⟨e, _, rfl⟩ := List.mem_map.mp hkey
      rfl
    · intro numbered hnumbered
      have hslot := halternatives set hset _ (List.fst_mem_of_mem_zipIdx hnumbered)
      rw [List.map_map, List.nodup_iff_pairwise_ne, List.pairwise_map]
      rw [List.nodup_iff_pairwise_ne, List.pairwise_map] at hslot
      exact hslot.imp fun hne hkeys => hne (congrArg EntryKey.credId hkeys)

section Runs

variable {K : Type} [Displays K] (host : SetHost)

/-- The calls about an entry, of a run, are among those for the entries. -/
theorem callsFor_sendAll_eq (key : EntryKey) (sets : List (EntrySet K)) :
    callsFor key (sendAll host sets) =
      (sets.flatMap EntrySet.keyed).flatMap fun entry =>
        callsFor key (entry.2.send host entry.1) := by
  unfold sendAll callsFor
  rw [List.filter_flatMap, List.flatMap_assoc]
  refine List.flatMap_congr fun set _ => ?_
  have hdeclares : decide ((KindCall.call (.addEntrySet set.id set.slotCount)).key = some key) =
      false := rfl
  rw [EntrySet.send, List.filter_cons_of_neg (by rw [hdeclares]; exact Bool.false_ne_true),
    List.filter_flatMap]

/-- What is sent for an entry is its own. -/
theorem callsFor_sendAll {sets : List (EntrySet K)} (hids : (sets.map (·.id)).Nodup)
    (halternatives : ∀ set ∈ sets, ∀ slot ∈ set.slots,
      (slot.alternatives.map (·.credId)).Nodup)
    {set : EntrySet K} (hset : set ∈ sets) {entry : EntryKey × SetEntry K}
    (hentry : entry ∈ set.keyed) :
    callsFor entry.1 (sendAll host sets) = entry.2.send host entry.1 := by
  have hmem : entry ∈ sets.flatMap EntrySet.keyed := List.mem_flatMap.mpr ⟨set, hset, hentry⟩
  rw [callsFor_sendAll_eq, flatMap_eq_of_unique (nodup_keys hids halternatives) hmem]
  · refine List.filter_eq_self.mpr fun call hcall => decide_eq_true ?_
    exact key_of_send entry.2 host entry.1 hcall
  · intro other _ hne
    refine List.filter_eq_nil_iff.mpr fun call hcall => ?_
    rw [decide_eq_true_eq, key_of_send other.2 host other.1 hcall]
    exact fun heq => hne (Option.some.inj heq)

/-- No call is above the level that the host reported. -/
theorem level_of_sendAll {sets : List (EntrySet K)} {call : KindCall}
    (h : call ∈ sendAll host sets) : call.level ≤ host.level := by
  obtain ⟨set, _, h⟩ := List.mem_flatMap.mp h
  rcases List.mem_cons.mp h with rfl | h
  · exact host.sets
  · obtain ⟨entry, _, h⟩ := List.mem_flatMap.mp h
    exact level_of_send entry.2 host entry.1 h

/-- In a run of sets with distinct ids, of slots whose alternatives have distinct ids, no call is
above the level. Of each entry, the host is shown what the entry carries, as far as its level shows
it, and the metadata that the wallet gets back says whether anything is missing. -/
theorem metadata_sendAll {sets : List (EntrySet K)} (hids : (sets.map (·.id)).Nodup)
    (halternatives : ∀ set ∈ sets, ∀ slot ∈ set.slots,
      (slot.alternatives.map (·.credId)).Nodup)
    {set : EntrySet K} (hset : set ∈ sets) {entry : EntryKey × SetEntry K}
    (hentry : entry ∈ set.keyed) :
    (∀ call ∈ sendAll host sets, call.level ≤ host.level) ∧
      (callsFor entry.1 (sendAll host sets)).flatMap KindCall.shows =
        entry.2.carried.filter (fun shown => shown.level ≤ host.level) ∧
      ∃ skipped, (callsFor entry.1 (sendAll host sets)).filterMap KindCall.metadata_ =
          [metadataObject skipped host.level entry.2.data] ∧
        (skipped = true ↔ ∃ shown ∈ entry.2.carried,
          shown ∉ (callsFor entry.1 (sendAll host sets)).flatMap KindCall.shows) := by
  rw [callsFor_sendAll host hids halternatives hset hentry, shows_send]
  refine ⟨fun _ => level_of_sendAll host, rfl, entry.2.displaySkipped host.level,
    metadata_send entry.2 host entry.1, ?_⟩
  rw [displaySkipped_iff entry.2 host.sets]
  refine exists_congr fun shown => and_congr_right fun hshown => ?_
  rw [List.mem_filter, decide_eq_true_eq, and_iff_right hshown]

end Runs

/-- A payment and a verification entry, alternatives of one slot. -/
def mixedSet : EntrySet AnyEntry where
  id := .ofLossy "set"
  first :=
    { first :=
        { credId := .ofLossy "card"
          kind := .payment
            { display := ⟨.ofLossy "Shop", .ofLossy "Card", none, [1], .ofLossy "EUR 12.00", none,
                none⟩
              additionalInfo := some (.ofLossy "Two tickets") }
          data := none
          fields := []
          link := none
          metadataDisplayText := none
          delegation := none }
      others :=
        [{ credId := .ofLossy "pid"
           kind := .verification ⟨[1], .ofLossy "Identity", none, none, none⟩
           data := none
           fields := [⟨.ofLossy "Age over 18", some (.ofLossy "Yes")⟩]
           link := none
           metadataDisplayText := none
           delegation := some .full }] }
  others := []

/-- Below level 3, the text about the transaction is missing, and the metadata says so. -/
theorem metadata_sendAll_mixed :
    (callsFor ⟨.ofLossy "set", 0, .ofLossy "card"⟩
      (sendAll ⟨2, none, by decide⟩ [mixedSet])).filterMap KindCall.metadata_ =
        [metadataObject true 2 none] := by
  obtain ⟨_, _, skipped, hmetadata, hskipped⟩ :=
    @metadata_sendAll _ _ ⟨2, none, by decide⟩ [mixedSet] (by decide) (by decide) mixedSet
      List.mem_cons_self (⟨.ofLossy "set", 0, .ofLossy "card"⟩, mixedSet.first.first)
      List.mem_cons_self
  have hmissing : skipped = true :=
    hskipped.mpr ⟨.additionalInfo (.ofLossy "Two tickets"), by decide, by decide⟩
  rw [hmissing] at hmetadata
  exact hmetadata

/-! ## 3. Verification entries -/

/-- An entry of the kind that is a parameter, from a verification entry. -/
def ofVerification (e : Credman.SetEntry) : SetEntry VerificationDisplay where
  credId := e.credId
  kind := e.kind
  data := e.data
  fields := e.fields
  link := e.link
  metadataDisplayText := e.metadataDisplayText
  delegation := e.delegation

def slotOfVerification (slot : Credman.Slot) : Slot VerificationDisplay where
  first := ofVerification slot.first
  others := slot.others.map ofVerification

def setOfVerification (set : Credman.EntrySet) : EntrySet VerificationDisplay where
  id := set.id
  first := slotOfVerification set.first
  others := set.others.map slotOfVerification

theorem send_verification (e : Credman.SetEntry) (host : SetHost) (key : EntryKey) :
    (ofVerification e).send host key = (e.send host key).map .call := by
  have hmetadata : (ofVerification e).metadata host.level = e.metadata host.level := by
    unfold SetEntry.metadata SetEntry.displaySkipped Credman.SetEntry.metadata
      Credman.SetEntry.displaySkipped
    rfl
  rw [SetEntry.send, hmetadata]
  rfl

theorem keyed_verification (set : Credman.EntrySet) :
    (setOfVerification set).keyed =
      set.keyed.map fun entry => (entry.1, ofVerification entry.2) := by
  have hslots : (setOfVerification set).slots = set.slots.map slotOfVerification := rfl
  unfold EntrySet.keyed Credman.EntrySet.keyed
  rw [hslots, List.zipIdx_map, List.flatMap_map, List.map_flatMap]
  refine List.flatMap_congr fun numbered _ => ?_
  have halternatives : (slotOfVerification numbered.1).alternatives =
      numbered.1.alternatives.map ofVerification := rfl
  show (slotOfVerification numbered.1).alternatives.map _ = _
  rw [halternatives, List.map_map, List.map_map]
  rfl

/-- Sets of verification entries are sent as they are without the other kinds. -/
theorem sendAll_verification (host : SetHost) (sets : List Credman.EntrySet) :
    sendAll host (sets.map setOfVerification) = (Credman.sendAll host sets).map .call := by
  unfold sendAll Credman.sendAll
  rw [List.flatMap_map, List.map_flatMap]
  refine List.flatMap_congr fun set _ => ?_
  have hcount : (setOfVerification set).slotCount = set.slotCount :=
    congrArg (1 + ·) (List.length_map _)
  rw [EntrySet.send, Credman.EntrySet.send, flatMap_sendSlot, keyed_verification, hcount,
    List.flatMap_map, List.map_cons, List.map_flatMap]
  refine congrArg _ (List.flatMap_congr fun entry _ => ?_)
  exact send_verification entry.2 host entry.1

end DcMatcher.Credman.Kinds
