import DcMatcher.Consent
import DcMatcher.Credman.Sets

/-!
# What the host is called with

The calls of a whole invocation: `run` emits its sets to the host, which silently drops the
output, or an entry of it, when a rule of its protocol is broken.

Results:
1. `run_cases`: an invocation emits nothing, one diagnostic set, or the sets of its
   combinations.
2. `run_ids`, `run_length`, `run_icons`, `run_diagnostics`: what all its sets are.
3. `calls_disciplined`: every invocation keeps the rules of the host.
-/

namespace DcMatcher

open Lists Traces Credman

namespace Picker

/-! ## Sets as they are sent -/

/-- The entry for the host: the subtitle always present and no warning. -/
def Entry.setEntry (e : Entry) : SetEntry :=
  { SetEntry.new e.credId
      { icon := e.icon
        title := e.title
        subtitle := some e.subtitle
        disclaimer := e.disclaimer
        warning := none } with
    data := some e.data
    fields := e.fields.map fun field => ⟨field.name, some field.value⟩ }

/-- The set for the host: each entry in its own slot, in order. -/
def EntrySet.sent (set : EntrySet) : Credman.EntrySet where
  id := set.id
  first := .one (set.entries.head set.nonempty).setEntry
  others := set.entries.tail.map fun e => .one e.setEntry

theorem EntrySet.slots_sent (set : EntrySet) :
    set.sent.slots = set.entries.map fun e => .one e.setEntry := by
  have hsplit := List.cons_head_tail set.nonempty
  exact congrArg (List.map fun e : Entry => Slot.one e.setEntry) hsplit

/-- The host calls of an invocation. -/
def calls (sj : SerdeJson) (w : PointerWidth) (ciborium : Ciborium) (host : SetHost)
    (input : Input) : List HostCall :=
  sendAll host ((run sj w ciborium input).map EntrySet.sent)

/-- The id of a diagnostics set. -/
def IsDiagnostics (setId : C8Str) : Prop :=
  DEBUG_PREFIX.toList.isPrefixOf setId.text.toList = true

/-- The rules of the host, over the calls of an invocation. -/
structure Disciplined (ciborium : Ciborium) (input : Input) (calls : List HostCall) : Prop where
  /-- No id is declared twice. -/
  ids : ((declarations calls).map Prod.fst).Nodup
  count : (declarations calls).length ≤ 32
  lengths : ∀ d ∈ declarations calls, 1 ≤ d.2
  /-- Every position of a declared set has exactly one entry. -/
  filled : ∀ d ∈ declarations calls, ∀ i < d.2, ∃ e, entriesAt calls d.1 i = [e]
  /-- An entry is added at a position of a set that was declared before. -/
  declared : ∀ before key display metadata_ after,
    calls = before ++ .addEntryToSet key display metadata_ :: after →
      ∃ d ∈ declarations before, d.1 = key.setId ∧ key.setIndex < d.2
  /-- A field belongs to an entry that was added before. -/
  fields : ∀ before key field after,
    calls = before ++ .addFieldToEntrySet key field :: after →
      ∃ e ∈ entries before, e.1 = key
  icons : ∀ e ∈ entries calls, e.2.icon ≠ []
  /-- A diagnostics set needs the debug flag, and is the only set. -/
  diagnostics : ∀ d ∈ declarations calls, IsDiagnostics d.1 →
    (∃ db, CredentialDatabase.fromCbor ciborium input.blob = .ok db ∧
      db.profile.debug = true) ∧ declarations calls = [d]

/-! ## The sets of an invocation -/

section Sets

variable {sj : SerdeJson} {origin : String} {db : CredentialDatabase} {query : DcqlQuery}
  {context : RequestContext} {w : PointerWidth}

/-- A digit stays what it is in a host string. -/
theorem map_lossyChar_digits (n : Nat) :
    (toString n).toList.map lossyChar = Nat.toDigits 10 n := by
  have hdigits : (toString n).toList = Nat.toDigits 10 n := Nat.toList_repr
  rw [hdigits]
  refine (List.map_congr_left fun ch hch => ?_).trans (List.map_id _)
  have hdigit := Nat.isDigit_of_mem_toDigits (by decide) (by decide) hch
  refine if_neg ?_
  rintro rfl
  revert hdigit
  decide

/-- Different numbers give different ids. -/
theorem numbered_inj {n m : Nat}
    (h : C8Str.ofLossy (SET_PREFIX ++ "-" ++ toString n) =
      C8Str.ofLossy (SET_PREFIX ++ "-" ++ toString m)) : n = m := by
  have htext := congrArg (fun s : C8Str => s.text.toList) h
  simp only [ofLossy_toList, String.toList_append, List.map_append, map_lossyChar_digits] at htext
  have hdigits := List.append_cancel_left htext
  have hvalue := congrArg (fun digits => Nat.ofDigitChars 10 digits 0) hdigits
  simpa only [Nat.ofDigitChars_toDigits (by decide : 1 < 10) (by decide)] using hvalue

theorem iconOf_ne_nil (credential : Db.Credential) : iconOf db credential ≠ [] := by
  unfold iconOf
  cases h : (db.iconBytes credential).filter fun bytes => !bytes.isEmpty with
  | none => exact List.cons_ne_nil _ _
  | some bytes =>
    have hkept := (Option.filter_eq_some_iff.mp h).2
    rintro rfl
    cases hkept

theorem mem_emitSet {setId : String} {members : List Member} {set : EntrySet}
    (h : set ∈ emitSet setId members) :
    set.id = .ofLossy setId ∧ set.entries = members.map Member.entry := by
  refine ⟨?_, entries_of_emitSet h⟩
  cases members with
  | nil => cases h
  | cons first others =>
    rw [List.mem_singleton.mp h]

theorem length_emitSet (setId : String) (members : List Member) :
    (emitSet setId members).length ≤ 1 := by
  cases members with
  | nil => exact Nat.zero_le _
  | cons first others => exact Nat.le_refl _

/-- The set of a combination has its number, and an icon on every entry. -/
theorem mem_offerCombination {dropped : Dropped} {numbered : Combination × Nat} {set : EntrySet}
    (h : set ∈ offerCombination sj origin db query context dropped numbered) :
    set.id = .ofLossy (SET_PREFIX ++ "-" ++ toString numbered.2) ∧
      ∀ e ∈ set.entries, e.icon ≠ [] := by
  unfold offerCombination at h
  split at h
  · cases h
  · obtain ⟨hid, hentries⟩ := mem_emitSet h
    refine ⟨hid, fun e he => ?_⟩
    rw [hentries, List.map_map] at he
    obtain ⟨found, _, rfl⟩ := List.mem_map.mp he
    exact iconOf_ne_nil found.2.2

theorem length_offerCombination (dropped : Dropped) (numbered : Combination × Nat) :
    (offerCombination sj origin db query context dropped numbered).length ≤ 1 := by
  unfold offerCombination
  split
  · exact Nat.zero_le _
  · exact length_emitSet _ _

/-- At most 32 combinations are built. -/
theorem length_builtOf : (builtOf sj db query context w).combinations.length ≤ 32 := by
  unfold builtOf
  cases hsat : (resultOf sj db query context).satisfiable with
  | true =>
    rw [resultOf, combinations_of_satisfiable w _ hsat]
    split
    · exact Nat.zero_le _
    · exact List.length_take_le _ _
  | false =>
    rw [combinations_of_not_satisfiable w _ hsat]
    exact Nat.zero_le _

end Sets

section Run

variable {sj : SerdeJson} {w : PointerWidth} {ciborium : Ciborium} {input : Input}

/-- The sets of the combinations of an invocation. -/
def combinationSets (sj : SerdeJson) (w : PointerWidth) (db : CredentialDatabase)
    (origin : String) (query : DcqlQuery) (context : RequestContext) : List EntrySet :=
  (builtOf sj db query context w).combinations.zipIdx.flatMap
    (offerCombination sj origin db query context (builtOf sj db query context w).dropped)

/-- An invocation emits nothing, a diagnostic, or the sets of its combinations. -/
theorem run_cases :
    run sj w ciborium input = [] ∨
    (∃ db kind message, CredentialDatabase.fromCbor ciborium input.blob = .ok db ∧
      run sj w ciborium input = diagnose db.profile.debug kind message) ∨
    ∃ db query context, run sj w ciborium input =
      combinationSets sj w db input.origin query context := by
  unfold run
  cases hdb : CredentialDatabase.fromCbor ciborium input.blob with
  | error e => exact Or.inl rfl
  | ok db =>
    refine Or.inr ?_
    simp only [runOn]
    split
    · exact Or.inl ⟨db, _, _, rfl, rfl⟩
    · next context query _ =>
      rcases @offer_cases sj input.origin db query context w with
        ⟨kind, message, hoffer, _⟩ | hoffer
      · exact Or.inl ⟨db, kind, message, rfl, hoffer⟩
      · exact Or.inr ⟨db, query, context, hoffer⟩

/-- A diagnostic is one set, and needs the debug flag. -/
theorem diagnose_cases (enabled : Bool) (kind message : String) :
    diagnose enabled kind message = [] ∨
      enabled = true ∧ ∃ set, diagnose enabled kind message = [set] ∧
        ∀ e ∈ set.entries, e.icon ≠ [] := by
  cases enabled with
  | false => exact Or.inl rfl
  | true =>
    refine Or.inr ⟨rfl, _, rfl, fun e he => ?_⟩
    rw [List.mem_singleton.mp he]
    exact List.cons_ne_nil _ _

section Combinations

variable {db : CredentialDatabase} {origin : String} {query : DcqlQuery}
  {context : RequestContext}

theorem combinationSets_ids :
    ((combinationSets sj w db origin query context).map (·.id)).Nodup := by
  rw [List.nodup_iff_pairwise_ne, List.pairwise_map]
  unfold combinationSets
  rw [List.pairwise_flatMap]
  constructor
  · intro numbered _
    have hone := @length_offerCombination sj origin db query context
      (builtOf sj db query context w).dropped numbered
    rcases Nat.le_one_iff_eq_zero_or_eq_one.mp hone with hlength | hlength
    · rw [List.length_eq_zero_iff.mp hlength]
      exact List.Pairwise.nil
    · obtain ⟨set, hset⟩ := List.length_eq_one_iff.mp hlength
      rw [hset]
      exact List.pairwise_singleton _ _
  · have hnumbers : ((builtOf sj db query context w).combinations.zipIdx.map Prod.snd).Nodup := by
      rw [List.zipIdx_map_snd]
      exact List.nodup_range'
    rw [List.nodup_iff_pairwise_ne, List.pairwise_map] at hnumbers
    refine hnumbers.imp fun hne set hset set' hset' heq => hne ?_
    rw [(mem_offerCombination hset).1, (mem_offerCombination hset').1] at heq
    exact numbered_inj heq

theorem combinationSets_length :
    (combinationSets sj w db origin query context).length ≤ 32 := by
  unfold combinationSets
  have hle : ∀ numbered : List (Combination × Nat),
      (numbered.flatMap (offerCombination sj origin db query context
        (builtOf sj db query context w).dropped)).length ≤ numbered.length := by
    intro numbered
    induction numbered with
    | nil => exact Nat.le_refl _
    | cons first others ih =>
      rw [List.flatMap_cons, List.length_append, List.length_cons, Nat.add_comm]
      exact Nat.add_le_add ih (length_offerCombination _ _)
  refine Nat.le_trans (hle _) ?_
  rw [List.length_zipIdx]
  exact length_builtOf

theorem combinationSets_icons {set : EntrySet}
    (h : set ∈ combinationSets sj w db origin query context) :
    ∀ e ∈ set.entries, e.icon ≠ [] := by
  obtain ⟨numbered, _, hset⟩ := List.mem_flatMap.mp h
  exact (mem_offerCombination hset).2

theorem combinationSets_isDebug {set : EntrySet}
    (h : set ∈ combinationSets sj w db origin query context) : set.isDebug = false := by
  obtain ⟨numbered, _, hset⟩ := List.mem_flatMap.mp h
  rw [EntrySet.isDebug, (mem_offerCombination hset).1]
  exact isDebug_numbered numbered.2

end Combinations

/-! ### Over a whole run -/

theorem run_ids : ((run sj w ciborium input).map (·.id)).Nodup := by
  rcases @run_cases sj w ciborium input with h | ⟨db, kind, message, _, h⟩ | ⟨_, _, _, h⟩
  · rw [h]
    exact List.nodup_nil
  · rcases diagnose_cases db.profile.debug kind message with hnone | ⟨_, set, hset, _⟩
    · rw [h, hnone]
      exact List.nodup_nil
    · rw [h, hset]
      exact List.nodup_singleton _
  · rw [h]
    exact combinationSets_ids

theorem run_length : (run sj w ciborium input).length ≤ 32 := by
  rcases @run_cases sj w ciborium input with h | ⟨db, kind, message, _, h⟩ | ⟨_, _, _, h⟩
  · rw [h]
    exact Nat.zero_le _
  · rcases diagnose_cases db.profile.debug kind message with hnone | ⟨_, set, hset, _⟩
    · rw [h, hnone]
      exact Nat.zero_le _
    · rw [h, hset]
      exact Nat.le_add_left 1 31
  · rw [h]
    exact combinationSets_length

theorem run_icons {set : EntrySet} (hset : set ∈ run sj w ciborium input) :
    ∀ e ∈ set.entries, e.icon ≠ [] := by
  rcases @run_cases sj w ciborium input with h | ⟨db, kind, message, _, h⟩ | ⟨_, _, _, h⟩
  · rw [h] at hset
    cases hset
  · rw [h] at hset
    rcases diagnose_cases db.profile.debug kind message with hnone | ⟨_, one, hone, hicon⟩
    · rw [hnone] at hset
      cases hset
    · rw [hone] at hset
      rw [List.mem_singleton.mp hset]
      exact hicon
  · rw [h] at hset
    exact combinationSets_icons hset

/-- A diagnostic set needs the debug flag, and is the only set. -/
theorem run_diagnostics {set : EntrySet} (hset : set ∈ run sj w ciborium input)
    (hdebug : set.isDebug = true) :
    (∃ db, CredentialDatabase.fromCbor ciborium input.blob = .ok db ∧
      db.profile.debug = true) ∧ run sj w ciborium input = [set] := by
  rcases @run_cases sj w ciborium input with h | ⟨db, kind, message, hdb, h⟩ | ⟨_, _, _, h⟩
  · rw [h] at hset
    cases hset
  · rcases diagnose_cases db.profile.debug kind message with hnone | ⟨henabled, one, hone, _⟩
    · rw [h, hnone] at hset
      cases hset
    · rw [h, hone] at hset
      refine ⟨⟨db, hdb, henabled⟩, ?_⟩
      rw [h, hone, List.mem_singleton.mp hset]
  · rw [h] at hset
    rw [combinationSets_isDebug hset] at hdebug
    cases hdebug

end Run

/-! ## The calls of an invocation -/

section Calls

variable {sj : SerdeJson} {w : PointerWidth} {ciborium : Ciborium} {host : SetHost}
  {input : Input}

theorem declarations_calls :
    declarations (calls sj w ciborium host input) =
      (run sj w ciborium input).map fun set => (set.id, set.entries.length) := by
  rw [calls, declarations_sendAll, List.map_map]
  refine List.map_congr_left fun set _ => ?_
  have hlength := congrArg List.length set.slots_sent
  rw [Credman.EntrySet.length_slots, List.length_map] at hlength
  exact congrArg (Prod.mk set.id) hlength

theorem sent_ids : (((run sj w ciborium input).map EntrySet.sent).map (·.id)).Nodup := by
  rw [List.map_map]
  exact run_ids

/-- Every position of a set has its entry and no other. -/
theorem entriesAt_calls {set : EntrySet} (hset : set ∈ run sj w ciborium input) {i : Nat}
    (hi : i < set.entries.length) :
    ∃ e, entriesAt (calls sj w ciborium host input) set.id i = [e] := by
  have hslot : set.sent.slots[i]? = some (.one set.entries[i].setEntry) := by
    rw [set.slots_sent, List.getElem?_map, List.getElem?_eq_getElem hi]
    rfl
  exact ⟨_, entriesAt_sendAll host sent_ids (List.mem_map_of_mem hset) hslot⟩

theorem icons_calls {e : EntryKey × VerificationDisplay}
    (he : e ∈ entries (calls sj w ciborium host input)) : e.2.icon ≠ [] := by
  obtain ⟨sent, hsent, slot, hslot, entry, hentry, hkind⟩ := mem_entries_sendAll host he
  obtain ⟨set, hset, rfl⟩ := List.mem_map.mp hsent
  rw [set.slots_sent] at hslot
  obtain ⟨one, hone, rfl⟩ := List.mem_map.mp hslot
  obtain rfl := List.mem_singleton.mp hentry
  rw [hkind]
  exact run_icons hset one hone

end Calls

/-- Every invocation keeps the rules of the host. -/
theorem calls_disciplined (sj : SerdeJson) (w : PointerWidth) (ciborium : Ciborium)
    (host : SetHost) (input : Input) :
    Disciplined ciborium input (calls sj w ciborium host input) := by
  have hfollows : Holds Follows [] (calls sj w ciborium host input) := follows_sendAll host _
  have hdeclared := @declarations_calls sj w ciborium host input
  constructor
  case ids =>
    rw [hdeclared, List.map_map]
    exact run_ids
  case count =>
    rw [hdeclared, List.length_map]
    exact run_length
  case lengths =>
    intro d hd
    rw [hdeclared] at hd
    obtain ⟨set, _, rfl⟩ := List.mem_map.mp hd
    exact List.length_pos_iff.mpr set.nonempty
  case filled =>
    intro d hd i hi
    rw [hdeclared] at hd
    obtain ⟨set, hset, rfl⟩ := List.mem_map.mp hd
    exact entriesAt_calls hset hi
  case declared =>
    intro before key display metadata_ after hsplit
    rw [hsplit] at hfollows
    exact hfollows.at
  case fields =>
    intro before key field after hsplit
    rw [hsplit] at hfollows
    exact hfollows.at
  case icons => exact fun e he => icons_calls he
  case diagnostics =>
    intro d hd hdiagnostics
    rw [hdeclared] at hd ⊢
    obtain ⟨set, hset, rfl⟩ := List.mem_map.mp hd
    obtain ⟨hdebug, honly⟩ := run_diagnostics hset hdiagnostics
    exact ⟨hdebug, by rw [honly]; rfl⟩

end Picker

end DcMatcher
