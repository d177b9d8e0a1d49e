import DcMatcher.DatabaseWriter
import DcMatcher.Lib.KeyOrder
import DcMatcher.Lib.Lists
import DcMatcher.Matching

/-!
# Building the blob

`SirosBlobBuilder` of the FFI crate: a wallet registers credentials, icons and systems, in any
order, and `build` packs them. The icons lie one after the other in one area; a credential
refers to its icon by a 32-bit start and length, which `build` casts without a check.

Results:
1. `run_icons`: the builder holds, of every icon, what was registered last.
2. `iconBytes_eq_some_iff`: when a reference gives its icon back.
3. `preserves_iff`: the blob preserves what was registered exactly when the icons fit.
4. `not_preserves_wrappedIcons`: with icons of 4 GiB, a credential shows another icon's bytes.
-/

namespace DcMatcher

open Lists

/-! ## What is registered -/

/-- `BlobError`. -/
inductive BlobError
  | encoding (reason : String)
  | unknownIcon (credentialId iconId : String)
deriving DecidableEq, Repr

/-- `FfiClaim`. -/
structure FfiClaim where
  path : List String
  value : String
  display : String
  displayValue : Option String

/-- `FfiCredential`. -/
structure FfiCredential where
  id : String
  format : String
  doctype : Option String
  vct : Option String
  title : String
  subtitle : String
  iconId : Option String
  claims : List FfiClaim

/-- `BuilderState`. -/
structure BuilderState where
  credentials : List FfiCredential
  icons : List (String × List UInt8)
  zkSystems : List FfiCapability
  zkpReqSystems : List FfiCapability
  debug : Bool

/-- `BuilderState::default`. -/
def BuilderState.empty : BuilderState where
  credentials := []
  icons := []
  zkSystems := []
  zkpReqSystems := []
  debug := false

/-- A call on the builder, other than `build`. -/
inductive BuilderCall
  | addCredential (credential : FfiCredential)
  | addIcon (id : String) (bytes : List UInt8)
  | addZkSystem (capability : FfiCapability)
  | addZkpReqSystem (capability : FfiCapability)
  | setDebug (debug : Bool)

namespace BuilderState

/-- `add_icon`. -/
def addIcon (s : BuilderState) (id : String) (bytes : List UInt8) : BuilderState :=
  { s with icons := (s.icons.filter fun icon => icon.1 ≠ id) ++ [(id, bytes)] }

/-- What a call does. -/
def step (s : BuilderState) : BuilderCall → BuilderState
  | .addCredential credential => { s with credentials := s.credentials ++ [credential] }
  | .addIcon id bytes => s.addIcon id bytes
  | .addZkSystem capability => { s with zkSystems := s.zkSystems ++ [capability] }
  | .addZkpReqSystem capability => { s with zkpReqSystems := s.zkpReqSystems ++ [capability] }
  | .setDebug debug => { s with debug }

/-- The builder after some calls. -/
def run (calls : List BuilderCall) : BuilderState := calls.foldl step empty

end BuilderState

/-! ## `build` -/

/-- The area of the icons, and where each lies in it. -/
structure PackedIcons where
  area : List UInt8
  offsets : Table IconRef

/-- The body of the loop over the icons. The casts are those of `build`. -/
def PackedIcons.add (packed : PackedIcons) (icon : String × List UInt8) : PackedIcons where
  area := packed.area ++ icon.2
  offsets := KeyOrder.insert packed.offsets icon.1
    ⟨UInt32.ofNat packed.area.length, UInt32.ofNat icon.2.length⟩

/-- The loop over the icons. -/
def packIcons (icons : List (String × List UInt8)) : PackedIcons :=
  icons.foldl PackedIcons.add ⟨[], []⟩

/-- The reference of a credential to its icon. -/
def iconRefOf (offsets : Table IconRef) (c : FfiCredential) :
    Except BlobError (Option IconRef) :=
  match c.iconId with
  | none => .ok none
  | some id =>
    match KeyOrder.get offsets id with
    | none => .error (.unknownIcon c.id id)
    | some r => .ok (some r)

/-- The body of the loop over the credentials. -/
def storeCredential (offsets : Table IconRef) (c : FfiCredential) :
    Except BlobError Db.Credential :=
  (iconRefOf offsets c).map fun icon =>
    { id := c.id
      format := c.format
      doctype := c.doctype
      vct := c.vct
      title := c.title
      subtitle := c.subtitle
      icon
      claims := c.claims.map fun claim =>
        { path := claim.path
          value := claim.value
          display := claim.display
          displayValue := claim.displayValue } }

/-- A capability, with the entries of its `HashMap` put into a `BTreeMap`. -/
def FfiCapability.stored (capability : FfiCapability) : Capability where
  system := capability.system
  params := KeyOrder.insertAll [] capability.params

/-- A list of systems, entered unless it is empty. -/
def enterSystems (capabilities : Table (List Capability)) (key : String)
    (systems : List FfiCapability) : Table (List Capability) :=
  if systems.isEmpty then capabilities
  else KeyOrder.insert capabilities key (systems.map FfiCapability.stored)

namespace BuilderState

/-- The profile `build` registers. -/
def profile (s : BuilderState) : MatchProfile :=
  { MatchProfile.sirosDefault with
    debug := s.debug
    capabilities := enterSystems
      (enterSystems MatchProfile.sirosDefault.capabilities ZK_CAPABILITY s.zkSystems)
      ZKP_REQ_CAPABILITY s.zkpReqSystems }

/-- `build`, up to the database. -/
def database (s : BuilderState) : Except BlobError CredentialDatabase :=
  let packed := packIcons s.icons
  (collectOk (storeCredential packed.offsets) s.credentials).map fun credentials =>
    { version := VERSION
      profile := s.profile
      credentials
      icons := packed.area }

end BuilderState

/-- `ciborium`, with its writer. -/
structure CiboriumCodec extends Ciborium where
  /-- `into_writer` of a `CredentialDatabase`, or the text of its error. -/
  intoWriter : CredentialDatabase → Except String (List UInt8)

/-- `SirosBlobBuilder::build`. -/
def BuilderState.build (codec : CiboriumCodec) (s : BuilderState) :
    Except BlobError (List UInt8) :=
  match s.database with
  | .error e => .error e
  | .ok db =>
    match codec.intoWriter db with
    | .error reason => .error (.encoding reason)
    | .ok bytes => .ok bytes

/-! ## What the blob is to keep -/

/-- The credentials that were added, in order. -/
def added (calls : List BuilderCall) : List FfiCredential :=
  calls.filterMap fun call => match call with
    | .addCredential credential => some credential
    | _ => none

/-- The bytes last registered for an icon. -/
def lastIcon : List BuilderCall → String → Option (List UInt8)
  | [], _ => none
  | .addIcon other bytes :: calls, id =>
    (lastIcon calls id).or (if other = id then some bytes else none)
  | _ :: calls, id => lastIcon calls id

/-- The icons, in the order of their last registration. -/
def registered : List BuilderCall → List (String × List UInt8)
  | [] => []
  | .addIcon id bytes :: calls =>
    if lastIcon calls id = none then (id, bytes) :: registered calls else registered calls
  | _ :: calls => registered calls

/-- Where an icon lies when the icons are put one after the other, the first at `start`. -/
def locate (start : Nat) : List (String × List UInt8) → String → Option (Nat × List UInt8)
  | [], _ => none
  | (other, bytes) :: icons, id =>
    if other = id then some (start, bytes) else locate (start + bytes.length) icons id

/-- The stored credential is the one that was added, but for its icon. -/
structure SameBesidesIcon (c : FfiCredential) (stored : Db.Credential) : Prop where
  id : stored.id = c.id
  format : stored.format = c.format
  doctype : stored.doctype = c.doctype
  vct : stored.vct = c.vct
  title : stored.title = c.title
  subtitle : stored.subtitle = c.subtitle
  claims : List.Forall₂ (fun claim (entry : Db.Claim) =>
    entry = ⟨claim.path, claim.value, claim.display, claim.displayValue⟩) c.claims stored.claims

/-- The credential names an icon that was never registered. -/
def NamesUnknown (calls : List BuilderCall) (c : FfiCredential) : Prop :=
  ∃ id, c.iconId = some id ∧ lastIcon calls id = none

/-- The database that is read back from the blob has the credentials in order, each with the
icon last registered for it; there is no blob exactly when a credential names an icon that was
never registered. -/
structure Preserves (codec : CiboriumCodec) (calls : List BuilderCall) : Prop where
  readBack : ∀ blob, (BuilderState.run calls).build codec = .ok blob →
    ∃ db, CredentialDatabase.fromCbor codec.toCiborium blob = .ok db ∧
      List.Forall₂ (fun c stored => SameBesidesIcon c stored ∧
        db.iconBytes stored = c.iconId.bind (lastIcon calls)) (added calls) db.credentials
  unknownIcon : (∃ credentialId iconId, (BuilderState.run calls).build codec =
    .error (.unknownIcon credentialId iconId)) ↔ ∃ c ∈ added calls, NamesUnknown calls c

/-- An icon that a 32-bit reference reaches: it is not too long, and it starts below the limit,
or the area has the same bytes where its start wraps to. -/
structure Reachable (area : List UInt8) (start : Nat) (bytes : List UInt8) : Prop where
  length : bytes.length < 2 ^ 32
  start : start < 2 ^ 32 ∨ (area.drop (start % 2 ^ 32)).take bytes.length = bytes

/-- The icon that a credential names is reached. -/
def IconFits (calls : List BuilderCall) (c : FfiCredential) : Prop :=
  ∀ id start bytes, c.iconId = some id →
    locate 0 (registered calls) id = some (start, bytes) →
      Reachable ((registered calls).flatMap Prod.snd) start bytes

/-- Every icon that a credential names is reached. -/
def IconsFit (calls : List BuilderCall) : Prop := ∀ c ∈ added calls, IconFits calls c

/-- Reading the database back from what was written. -/
def CiboriumCodec.RoundTrips (codec : CiboriumCodec) (db : CredentialDatabase) : Prop :=
  ∃ bytes, codec.intoWriter db = .ok bytes ∧ codec.fromReader bytes = some db

/-! ## What the builder holds -/

namespace BuilderState

theorem foldl_credentials (s : BuilderState) (calls : List BuilderCall) :
    (calls.foldl step s).credentials = s.credentials ++ added calls := by
  induction calls generalizing s with
  | nil => exact (List.append_nil _).symm
  | cons call calls ih =>
    rw [List.foldl_cons, ih]
    cases call <;> simp [step, addIcon, added]

theorem run_credentials (calls : List BuilderCall) :
    (run calls).credentials = added calls := by
  rw [run, foldl_credentials]
  rfl

/-- The icons held before stay unless they are registered again. -/
theorem foldl_icons (s : BuilderState) (calls : List BuilderCall) :
    (calls.foldl step s).icons =
      (s.icons.filter fun icon => lastIcon calls icon.1 = none) ++ registered calls := by
  induction calls generalizing s with
  | nil => simp [lastIcon, registered]
  | cons call calls ih =>
    rw [List.foldl_cons, ih]
    cases call with
    | addIcon id bytes =>
      have hkeep : ∀ icon : String × List UInt8,
          lastIcon (.addIcon id bytes :: calls) icon.1 = none ↔
            lastIcon calls icon.1 = none ∧ icon.1 ≠ id := by
        intro icon
        rw [lastIcon, Option.or_eq_none_iff]
        by_cases h : id = icon.1 <;> simp [h, eq_comm]
      simp only [step, addIcon, registered, hkeep, List.filter_append, List.filter_filter,
        List.append_assoc, Bool.decide_and]
      congr 1
      split
      · next h => simp [h]
      · next h => simp [h]
    | _ => rfl

/-- The builder holds, of every icon, what was registered last. -/
theorem run_icons (calls : List BuilderCall) : (run calls).icons = registered calls := by
  rw [run, foldl_icons]
  rfl

end BuilderState

/-! ## Where the icons lie -/

theorem registered_lastIcon {calls : List BuilderCall} {icon : String × List UInt8}
    (h : icon ∈ registered calls) : lastIcon calls icon.1 = some icon.2 := by
  induction calls with
  | nil => cases h
  | cons call calls ih =>
    cases call with
    | addIcon id bytes =>
      rw [registered] at h
      rw [lastIcon]
      split at h
      · next hnone =>
        rcases List.mem_cons.mp h with rfl | h
        · rw [hnone]
          simp
        · rw [ih h]
          rfl
      · rw [ih h]
        rfl
    | _ => exact ih h

/-- An icon lies somewhere exactly when it was registered, with what was registered last. -/
theorem locate_registered (start : Nat) (calls : List BuilderCall) (id : String) :
    (locate start (registered calls) id).map Prod.snd = lastIcon calls id := by
  induction calls generalizing start with
  | nil => rfl
  | cons call calls ih =>
    cases call with
    | addIcon other bytes =>
      rw [registered, lastIcon]
      split
      · next hnone =>
        rw [locate]
        split
        · next h =>
          subst h
          rw [hnone]
          rfl
        · rw [ih]
          simp
      · next hsome =>
        rw [ih]
        by_cases h : other = id
        · subst h
          obtain ⟨last, hlast⟩ := Option.ne_none_iff_exists'.mp hsome
          rw [hlast]
          rfl
        · simp [h]
    | _ => exact ih start

/-- What lies before and after an icon. -/
theorem locate_split {start p : Nat} {icons : List (String × List UInt8)} {id : String}
    {bytes : List UInt8} (h : locate start icons id = some (p, bytes)) :
    ∃ before after, icons.flatMap Prod.snd = before ++ bytes ++ after ∧
      p = start + before.length := by
  induction icons generalizing start with
  | nil => cases h
  | cons icon icons ih =>
    obtain ⟨other, first⟩ := icon
    rw [locate] at h
    split at h
    · cases h
      exact ⟨[], icons.flatMap Prod.snd, rfl, rfl⟩
    · obtain ⟨before, after, harea, hp⟩ := ih h
      refine ⟨first ++ before, after, ?_, ?_⟩
      · rw [List.flatMap_cons, harea]
        simp
      · rw [hp, List.length_append, Nat.add_assoc]

theorem registered_keys (calls : List BuilderCall) :
    ((registered calls).map Prod.fst).Nodup := by
  induction calls with
  | nil => exact List.nodup_nil
  | cons call calls ih =>
    cases call with
    | addIcon id bytes =>
      rw [registered]
      split
      · next hnone =>
        rw [List.map_cons, List.nodup_cons]
        refine ⟨fun hmem => ?_, ih⟩
        obtain ⟨icon, hicon, hid⟩ := List.mem_map.mp hmem
        have hsome := registered_lastIcon hicon
        rw [hid, hnone] at hsome
        cases hsome
      · exact ih
    | _ => exact ih

/-- The reference `build` makes for an icon. -/
def refOf (located : Nat × List UInt8) : IconRef :=
  ⟨UInt32.ofNat located.1, UInt32.ofNat located.2.length⟩

theorem locate_eq_none {start : Nat} {icons : List (String × List UInt8)} {id : String}
    (h : id ∉ icons.map Prod.fst) : locate start icons id = none := by
  induction icons generalizing start with
  | nil => rfl
  | cons icon icons ih =>
    rw [List.map_cons, List.mem_cons, not_or] at h
    rw [locate, if_neg fun heq => h.1 heq.symm]
    exact ih h.2

/-- The loop over the icons, from what it packed so far. -/
theorem foldl_add (packed : PackedIcons) {icons : List (String × List UInt8)}
    (hkeys : (icons.map Prod.fst).Nodup) :
    (icons.foldl PackedIcons.add packed).area = packed.area ++ icons.flatMap Prod.snd ∧
      ∀ id, KeyOrder.get (icons.foldl PackedIcons.add packed).offsets id =
        ((locate packed.area.length icons id).map refOf).or (KeyOrder.get packed.offsets id) := by
  induction icons generalizing packed with
  | nil => exact ⟨(List.append_nil _).symm, fun id => rfl⟩
  | cons icon icons ih =>
    obtain ⟨other, bytes⟩ := icon
    rw [List.map_cons, List.nodup_cons] at hkeys
    obtain ⟨harea, hoffsets⟩ := ih (packed.add (other, bytes)) hkeys.2
    rw [List.foldl_cons]
    constructor
    · rw [harea]
      simp [PackedIcons.add]
    · intro id
      rw [hoffsets]
      simp only [PackedIcons.add, KeyOrder.get_insert, List.length_append]
      rw [locate]
      split
      · next h =>
        subst h
        rw [locate_eq_none hkeys.1]
        rfl
      · rfl

theorem packIcons_area {icons : List (String × List UInt8)}
    (hkeys : (icons.map Prod.fst).Nodup) : (packIcons icons).area = icons.flatMap Prod.snd :=
  (foldl_add ⟨[], []⟩ hkeys).1

theorem packIcons_offsets {icons : List (String × List UInt8)}
    (hkeys : (icons.map Prod.fst).Nodup) (id : String) :
    KeyOrder.get (packIcons icons).offsets id = (locate 0 icons id).map refOf := by
  rw [packIcons, (foldl_add ⟨[], []⟩ hkeys).2]
  exact Option.or_none

/-! ## Reading an icon back -/

/-- A reference with the wrapped start and length gives the icon back exactly when the icon is
reachable. -/
theorem iconBytes_eq_some_iff {db : CredentialDatabase} {stored : Db.Credential}
    {before after bytes : List UInt8} (harea : db.icons = before ++ bytes ++ after)
    (hicon : stored.icon = some (refOf (before.length, bytes))) :
    db.iconBytes stored = some bytes ↔ Reachable db.icons before.length bytes := by
  have hstart : before.length % 2 ^ 32 ≤ before.length := Nat.mod_le _ _
  have hlen : bytes.length % 2 ^ 32 ≤ bytes.length := Nat.mod_le _ _
  have hsize : db.icons.length = before.length + bytes.length + after.length := by
    rw [harea]
    simp only [List.length_append]
  have hread : db.iconBytes stored =
      some ((db.icons.drop (before.length % 2 ^ 32)).take (bytes.length % 2 ^ 32)) := by
    unfold CredentialDatabase.iconBytes
    simp only [hicon, refOf, UInt32.toNat_ofNat']
    rw [if_pos (by omega), List.drop_take, Nat.add_sub_cancel_left]
  rw [hread, Option.some.injEq]
  constructor
  · intro h
    have hlength : bytes.length = bytes.length % 2 ^ 32 := by
      have hcount := congrArg List.length h
      rw [List.length_take, List.length_drop] at hcount
      omega
    refine ⟨by omega, Or.inr ?_⟩
    rwa [← hlength] at h
  · rintro ⟨hshort, hplace⟩
    rw [Nat.mod_eq_of_lt hshort]
    rcases hplace with hplace | hplace
    · rw [Nat.mod_eq_of_lt hplace, harea, List.append_assoc, List.drop_left, List.take_left]
    · exact hplace

theorem iconBytes_none {db : CredentialDatabase} {stored : Db.Credential}
    (hicon : stored.icon = none) : db.iconBytes stored = none := by
  unfold CredentialDatabase.iconBytes
  rw [hicon]

/-! ## What is stored -/

section Stored

variable {offsets : Table IconRef} {c : FfiCredential} {stored : Db.Credential}

theorem storeCredential_eq_ok (h : storeCredential offsets c = .ok stored) :
    SameBesidesIcon c stored ∧ iconRefOf offsets c = .ok stored.icon := by
  obtain ⟨icon, hicon, rfl⟩ := map_eq_ok.mp h
  exact ⟨⟨rfl, rfl, rfl, rfl, rfl, rfl, List.forall₂_map_right_iff.mpr
    (List.forall₂_same.mpr fun _ _ => rfl)⟩, hicon⟩

theorem iconRefOf_eq_ok {r : Option IconRef} (h : iconRefOf offsets c = .ok r) :
    r = c.iconId.bind (KeyOrder.get offsets) := by
  unfold iconRefOf at h
  split at h
  · next hnone =>
    cases h
    rw [hnone]
    rfl
  · next id hid =>
    split at h
    · cases h
    · next r' hget =>
      cases h
      rw [hid]
      exact hget.symm

theorem storeCredential_error_iff :
    (∃ e, storeCredential offsets c = .error e) ↔
      ∃ id, c.iconId = some id ∧ KeyOrder.get offsets id = none := by
  unfold storeCredential iconRefOf
  cases hid : c.iconId with
  | none => simp [Except.map]
  | some id => cases hget : KeyOrder.get offsets id <;> simp [Except.map, hget]

theorem storeCredential_error {e : BlobError} (h : storeCredential offsets c = .error e) :
    ∃ id, e = .unknownIcon c.id id := by
  unfold storeCredential iconRefOf at h
  cases hid : c.iconId with
  | none =>
    rw [hid] at h
    cases h
  | some id =>
    simp only [hid] at h
    cases hget : KeyOrder.get offsets id with
    | none =>
      rw [hget] at h
      cases h
      exact ⟨id, rfl⟩
    | some r =>
      rw [hget] at h
      cases h

end Stored

namespace BuilderState

variable {calls : List BuilderCall}

theorem offsets_run (calls : List BuilderCall) (id : String) :
    KeyOrder.get (packIcons (run calls).icons).offsets id =
      (locate 0 (registered calls) id).map refOf := by
  rw [run_icons, packIcons_offsets (registered_keys calls)]

/-- A credential cannot be stored exactly when it names an icon that was never registered. -/
theorem namesUnknown_iff {c : FfiCredential} :
    NamesUnknown calls c ↔
      ∃ e, storeCredential (packIcons (run calls).icons).offsets c = .error e := by
  simp only [storeCredential_error_iff, NamesUnknown, offsets_run, Option.map_eq_none_iff,
    ← locate_registered 0 calls]

/-- The database holds the credentials in order, over the area of the icons. -/
theorem database_eq_ok {db : CredentialDatabase} (h : (run calls).database = .ok db) :
    db.version = VERSION ∧ db.icons = (registered calls).flatMap Prod.snd ∧
      List.Forall₂ (fun c stored => SameBesidesIcon c stored ∧
        stored.icon = c.iconId.bind fun id => (locate 0 (registered calls) id).map refOf)
        (added calls) db.credentials := by
  unfold database at h
  obtain ⟨credentials, hstored, rfl⟩ := map_eq_ok.mp h
  refine ⟨rfl, ?_, ?_⟩
  · show (packIcons (run calls).icons).area = _
    rw [run_icons, packIcons_area (registered_keys calls)]
  · rw [run_credentials] at hstored
    refine (collectOk_eq_ok.mp hstored).imp fun c stored hstore => ?_
    obtain ⟨hsame, hicon⟩ := storeCredential_eq_ok hstore
    refine ⟨hsame, ?_⟩
    rw [iconRefOf_eq_ok hicon]
    exact congrArg _ (funext fun id => offsets_run calls id)

/-- The loop over the credentials stops exactly at a dangling reference. -/
theorem database_error_iff :
    (∃ e, (run calls).database = .error e) ↔ ∃ c ∈ added calls, NamesUnknown calls c := by
  simp only [namesUnknown_iff]
  rw [← exists_collectOk_error_iff, ← run_credentials]
  exact exists_congr fun e => map_eq_error

theorem database_error {e : BlobError} (h : (run calls).database = .error e) :
    ∃ credentialId iconId, e = .unknownIcon credentialId iconId := by
  obtain ⟨c, _, hc⟩ := collectOk_eq_error (map_eq_error.mp h)
  obtain ⟨id, rfl⟩ := storeCredential_error hc
  exact ⟨c.id, id, rfl⟩

/-- `UnknownIcon` is reported exactly when a credential names an icon that was never
registered. -/
theorem build_unknownIcon_iff (codec : CiboriumCodec) :
    (∃ credentialId iconId, (run calls).build codec = .error (.unknownIcon credentialId iconId)) ↔
      ∃ c ∈ added calls, NamesUnknown calls c := by
  rw [← database_error_iff]
  unfold build
  cases h : (run calls).database with
  | error e =>
    obtain ⟨credentialId, iconId, rfl⟩ := database_error h
    simp
  | ok db => cases hw : codec.intoWriter db <;> simp [hw]

theorem build_eq_ok {codec : CiboriumCodec} {blob : List UInt8} :
    (run calls).build codec = .ok blob ↔
      ∃ db, (run calls).database = .ok db ∧ codec.intoWriter db = .ok blob := by
  unfold build
  cases h : (run calls).database with
  | error e => simp
  | ok db => cases hw : codec.intoWriter db <;> simp [hw]

end BuilderState

/-! ## The icons in the blob -/

section Blob

variable {codec : CiboriumCodec} {calls : List BuilderCall} {db : CredentialDatabase}

theorem iconBytes_iff {c : FfiCredential} {stored : Db.Credential}
    (hicons : db.icons = (registered calls).flatMap Prod.snd)
    (hstored : stored.icon = c.iconId.bind fun id => (locate 0 (registered calls) id).map refOf) :
    db.iconBytes stored = c.iconId.bind (lastIcon calls) ↔ IconFits calls c := by
  unfold IconFits
  cases hid : c.iconId with
  | none =>
    rw [hid] at hstored
    simp [iconBytes_none hstored]
  | some id =>
    rw [hid, Option.bind_some] at hstored
    rw [Option.bind_some, ← locate_registered 0 calls]
    cases hlocate : locate 0 (registered calls) id with
    | none =>
      rw [hlocate] at hstored
      refine iff_of_true (iconBytes_none hstored) ?_
      rintro id' start bytes hid' hlocate'
      cases hid'
      rw [hlocate] at hlocate'
      cases hlocate'
    | some located =>
      obtain ⟨start, bytes⟩ := located
      rw [hlocate] at hstored
      obtain ⟨before, after, harea, hstart⟩ := locate_split hlocate
      rw [Nat.zero_add] at hstart
      subst hstart
      show db.iconBytes stored = some bytes ↔ _
      rw [iconBytes_eq_some_iff (hicons.trans harea) hstored, hicons]
      constructor
      · rintro h id' start' bytes' hid' hlocate'
        cases hid'
        rw [hlocate] at hlocate'
        cases hlocate'
        exact h
      · intro h
        exact h id before.length bytes rfl hlocate

/-- The database keeps the icons exactly when they fit. -/
theorem database_keeps_iff (hdb : (BuilderState.run calls).database = .ok db) :
    List.Forall₂ (fun c stored => SameBesidesIcon c stored ∧
      db.iconBytes stored = c.iconId.bind (lastIcon calls)) (added calls) db.credentials ↔
        IconsFit calls := by
  obtain ⟨_, hicons, hstored⟩ := BuilderState.database_eq_ok hdb
  exact forall₂_and_iff (hstored.imp fun c stored h => ⟨h.1, iconBytes_iff hicons h.2⟩)

theorem fromCbor_of_roundTrips (hdb : (BuilderState.run calls).database = .ok db)
    {blob : List UInt8} (hread : codec.fromReader blob = some db) :
    CredentialDatabase.fromCbor codec.toCiborium blob = .ok db := by
  unfold CredentialDatabase.fromCbor
  rw [hread]
  refine if_neg ?_
  rw [(BuilderState.database_eq_ok hdb).1]
  decide

/-- A blob that is written and read keeps the icons exactly when they fit. -/
theorem readBack_iff (hdb : (BuilderState.run calls).database = .ok db)
    (hcodec : codec.RoundTrips db) :
    (∀ blob, (BuilderState.run calls).build codec = .ok blob →
      ∃ db, CredentialDatabase.fromCbor codec.toCiborium blob = .ok db ∧
        List.Forall₂ (fun c stored => SameBesidesIcon c stored ∧
          db.iconBytes stored = c.iconId.bind (lastIcon calls)) (added calls) db.credentials) ↔
      IconsFit calls := by
  obtain ⟨bytes, hwrite, hread⟩ := hcodec
  constructor
  · intro h
    obtain ⟨db', hdb', hkeep⟩ := h bytes (BuilderState.build_eq_ok.mpr ⟨db, hdb, hwrite⟩)
    rw [fromCbor_of_roundTrips hdb hread] at hdb'
    cases hdb'
    exact (database_keeps_iff hdb).mp hkeep
  · intro h blob hblob
    obtain ⟨db', hdb', hwrite'⟩ := BuilderState.build_eq_ok.mp hblob
    rw [hdb] at hdb'
    cases hdb'
    rw [hwrite] at hwrite'
    cases hwrite'
    exact ⟨db, fromCbor_of_roundTrips hdb hread, (database_keeps_iff hdb).mpr h⟩

end Blob

/-- The blob preserves what was registered exactly when there is none, for a dangling
reference, or every icon that a credential names is reached by its 32-bit reference. -/
theorem preserves_iff (codec : CiboriumCodec) (calls : List BuilderCall)
    (hcodec : ∀ db, (BuilderState.run calls).database = .ok db → codec.RoundTrips db) :
    Preserves codec calls ↔ (∃ c ∈ added calls, NamesUnknown calls c) ∨ IconsFit calls := by
  have hunknown := @BuilderState.build_unknownIcon_iff calls codec
  cases hdb : (BuilderState.run calls).database with
  | error e =>
    have hdangling := BuilderState.database_error_iff.mp ⟨e, hdb⟩
    refine iff_of_true ⟨fun blob hblob => ?_, hunknown⟩ (Or.inl hdangling)
    obtain ⟨db, hok, _⟩ := BuilderState.build_eq_ok.mp hblob
    rw [hdb] at hok
    cases hok
  | ok db =>
    have hnone : ¬ ∃ c ∈ added calls, NamesUnknown calls c := fun h => by
      obtain ⟨e, he⟩ := BuilderState.database_error_iff.mpr h
      rw [hdb] at he
      cases he
    rw [or_iff_right hnone, ← readBack_iff hdb (hcodec db hdb)]
    exact ⟨fun h => h.readBack, fun h => ⟨h, hunknown⟩⟩

/-- The databases that some wallets register. -/
def databasesOf (wallets : List (List BuilderCall)) : List CredentialDatabase :=
  wallets.filterMap fun calls => (BuilderState.run calls).database.toOption

/-- A codec that knows the blobs of these databases. -/
def codecOf (wallets : List (List BuilderCall)) : CiboriumCodec where
  toCiborium := .ofDatabases (databasesOf wallets)
  intoWriter db := .ok db.toCbor

theorem codecOf_roundTrips {wallets : List (List BuilderCall)}
    (hdistinct : ((databasesOf wallets).map CredentialDatabase.toCbor).Nodup)
    {calls : List BuilderCall} (hmem : calls ∈ wallets) {db : CredentialDatabase}
    (h : (BuilderState.run calls).database = .ok db) : (codecOf wallets).RoundTrips db := by
  refine ⟨db.toCbor, rfl, Ciborium.fromReader_ofDatabases hdistinct ?_⟩
  exact List.mem_filterMap.mpr ⟨calls, hmem, congrArg Except.toOption h⟩

theorem codecOf_roundTrips_one {calls : List BuilderCall} {db : CredentialDatabase}
    (h : (BuilderState.run calls).database = .ok db) : (codecOf [calls]).RoundTrips db := by
  refine codecOf_roundTrips ?_ (List.mem_singleton_self calls) h
  simp [databasesOf, h, Except.toOption]

/-- A credential with an icon. -/
def pictured (id iconId : String) : FfiCredential where
  id := id
  format := "mso_mdoc"
  doctype := none
  vct := none
  title := "Driving licence"
  subtitle := "Issuer"
  iconId := some iconId
  claims := []

/-- An icon registered after its use and again after another one, and a shared one. -/
def sharedIcons : List BuilderCall :=
  [.addCredential (pictured "a" "logo"), .addIcon "logo" [1, 2], .addIcon "seal" [],
   .addIcon "logo" [3], .addCredential (pictured "b" "seal"),
   .addCredential (pictured "c" "logo")]

theorem preserves_iff_sharedIcons : Preserves (codecOf [sharedIcons]) sharedIcons := by
  refine (preserves_iff _ _ fun db hdb => codecOf_roundTrips_one hdb).mpr (Or.inr ?_)
  have hall : ∀ icon ∈ registered sharedIcons, icon.2.length < 2 ^ 32 := by decide
  intro c _ id start bytes _ hlocate
  obtain ⟨before, after, harea, hstart⟩ := locate_split hlocate
  have hlength := congrArg List.length harea
  have harea : ((registered sharedIcons).flatMap Prod.snd).length = 1 := by decide
  simp only [List.length_append] at hlength
  exact ⟨by omega, Or.inl (by omega)⟩

/-! ### Past the limit -/

/-- As many bytes as an array of a caller can hold. -/
def bulk : List UInt8 := List.replicate (2 ^ 31 - 1) 0

/-- Three icons that take 4 GiB, and a fourth one that is used. -/
def wrappedIcons : List BuilderCall :=
  [.addIcon "a" bulk, .addIcon "b" bulk, .addIcon "c" [0, 0], .addIcon "d" [7],
   .addCredential (pictured "cred" "d")]

theorem registered_wrappedIcons :
    registered wrappedIcons = [("a", bulk), ("b", bulk), ("c", [0, 0]), ("d", [7])] := by
  simp [wrappedIcons, registered, lastIcon]

theorem locate_wrappedIcons :
    locate 0 (registered wrappedIcons) "d" = some (2 ^ 32, [7]) := by
  have hbulk : bulk.length = 2 ^ 31 - 1 := List.length_replicate
  rw [registered_wrappedIcons]
  simp [locate, hbulk]

/-- Where the start of the fourth icon wraps to, the area has the first one. -/
theorem not_reachable_wrappedIcons :
    ¬ Reachable ((registered wrappedIcons).flatMap Prod.snd) (2 ^ 32) [7] := by
  rintro ⟨_, hlt | hwrap⟩
  · exact absurd hlt (lt_irrefl _)
  · have hbulk : bulk = 0 :: List.replicate (2 ^ 31 - 2) 0 := by
      have hsucc : 2 ^ 31 - 1 = 2 ^ 31 - 2 + 1 := by omega
      rw [bulk, hsucc, List.replicate_succ]
    rw [registered_wrappedIcons, Nat.mod_self, List.drop_zero, List.flatMap_cons, hbulk] at hwrap
    cases hwrap

theorem not_preserves_wrappedIcons : ¬ Preserves (codecOf [wrappedIcons]) wrappedIcons := by
  intro h
  cases hdb : (BuilderState.run wrappedIcons).database with
  | error e =>
    obtain ⟨c, hc, id, hid, hnone⟩ := BuilderState.database_error_iff.mp ⟨e, hdb⟩
    obtain rfl := List.mem_singleton.mp hc
    cases hid
    rw [← locate_registered 0, locate_wrappedIcons] at hnone
    cases hnone
  | ok db =>
    have hfit := (readBack_iff hdb (codecOf_roundTrips_one hdb)).mp h.readBack
    exact not_reachable_wrappedIcons
      (hfit (pictured "cred" "d") (List.mem_singleton_self _) "d" _ _ rfl locate_wrappedIcons)

end DcMatcher
