import DcMatcher.Db
import DcMatcher.Text
import DcMatcher.Lib.Records

/-!
# The layout of the credential blob

The derived reader of `CredentialDatabase` (`db.rs`), over what `ciborium` gives for each key and
each value. The version is one member among the others, and is compared after all of them are read.

Result: `fromCbor_newer_exact`: a newer blob is reported as newer exactly when it still has the
layout of this version.
-/

namespace DcMatcher

/-! ## The derived reader -/

/-- The members that the derived reader of `CredentialDatabase` knows. -/
inductive DatabaseField
  | version
  | profile
  | credentials
  | icons
deriving DecidableEq, Repr

namespace DatabaseField

/-- The name of a member. -/
def name : DatabaseField → String
  | .version => "version"
  | .profile => "profile"
  | .credentials => "credentials"
  | .icons => "icons"

/-- The member of that name, by its bytes. -/
def ofName (name : List UInt8) : Option DatabaseField :=
  [version, profile, credentials, icons].find? fun f => utf8 f.name == name

/-- What a member is read as. -/
def Value : DatabaseField → Type
  | .version => UInt32
  | .profile => MatchProfile
  | .credentials => List Db.Credential
  | .icons => List UInt8

end DatabaseField

/-- `ciborium`, as the derived reader calls it. Keys and values are as they stand in the blob. -/
structure CiboriumValues where
  /-- The entries of the map that the blob is, if it is one. -/
  entries : List UInt8 → Option (List (List UInt8 × List UInt8))
  /-- `deserialize_identifier`: the bytes of a name. -/
  identifier : List UInt8 → Option (List UInt8)
  u32 : List UInt8 → Option UInt32
  matchProfile : List UInt8 → Option MatchProfile
  credentials : List UInt8 → Option (List Db.Credential)
  /-- `serde_bytes`. -/
  byteBuf : List UInt8 → Option (List UInt8)
  /-- `IgnoredAny`. -/
  ignoredAny : List UInt8 → Bool

namespace CiboriumValues

variable (values : CiboriumValues)

/-- The members of `CredentialDatabase`, each with its own reader. Others are skipped. -/
def reader : Records.Reader DatabaseField (List UInt8) (List UInt8) DatabaseField.Value where
  field key := (values.identifier key).map DatabaseField.ofName
  value
    | .version => values.u32
    | .profile => values.matchProfile
    | .credentials => values.credentials
    | .icons => values.byteBuf
  skip := values.ignoredAny

/-- The derived reader: all members but `icons` have to be there. -/
def database (entries : List (List UInt8 × List UInt8)) : Option CredentialDatabase := do
  let members ← values.reader.collect entries
  let version ← members .version
  let profile ← members .profile
  let credentials ← members .credentials
  return { version, profile, credentials, icons := (members .icons).getD [] }

/-- The map has the layout of this version: every key is a name, every member that this version
does not know can be skipped, and each that it knows is there once and can be read. The icons may
be left out. -/
structure FirstLayout (entries : List (List UInt8 × List UInt8)) : Prop where
  keys : ∀ entry ∈ entries, (values.identifier entry.1).isSome
  unknown : ∀ entry ∈ entries, (values.identifier entry.1).map DatabaseField.ofName = some none →
    values.ignoredAny entry.2 = true
  version : ∃ item, values.reader.valuesOf .version entries = [item]
  profile : ∃ item, values.reader.valuesOf .profile entries = [item] ∧
    (values.matchProfile item).isSome
  credentials : ∃ item, values.reader.valuesOf .credentials entries = [item] ∧
    (values.credentials item).isSome
  icons : values.reader.valuesOf .icons entries = [] ∨
    ∃ item, values.reader.valuesOf .icons entries = [item] ∧ (values.byteBuf item).isSome

end CiboriumValues

/-- `ciborium` reads a map with the derived reader. -/
def Ciborium.Derives (ciborium : Ciborium) (values : CiboriumValues) : Prop :=
  ∀ bytes entries, values.entries bytes = some entries →
    ciborium.fromReader bytes = values.database entries

/-! ## A newer version -/

namespace CiboriumValues

variable {values : CiboriumValues} {entries : List (List UInt8 × List UInt8)}

theorem database_eq_some {db : CredentialDatabase} :
    values.database entries = some db ↔
      values.reader.Fits entries ∧
      values.reader.gathered entries .version = some db.version ∧
      values.reader.gathered entries .profile = some db.profile ∧
      values.reader.gathered entries .credentials = some db.credentials ∧
      (values.reader.gathered entries .icons).getD [] = db.icons := by
  obtain ⟨version, profile, credentials, icons⟩ := db
  unfold database
  simp only [Option.bind_eq_bind, Option.bind_eq_some_iff, Records.Reader.collect_eq_some,
    Option.pure_def, Option.some_inj]
  constructor
  · rintro ⟨_, ⟨hfits, rfl⟩, _, hversion, _, hprofile, _, hcredentials, hdb⟩
    cases hdb
    exact ⟨hfits, hversion, hprofile, hcredentials, rfl⟩
  · rintro ⟨hfits, hversion, hprofile, hcredentials, rfl⟩
    exact ⟨_, ⟨hfits, rfl⟩, _, hversion, _, hprofile, _, hcredentials, rfl⟩

theorem ofName_version : DatabaseField.ofName (utf8 "version") = some .version := by
  unfold DatabaseField.ofName
  exact List.find?_cons_of_pos (beq_self_eq_true (utf8 "version"))

/-- What is read has the layout of this version. -/
theorem firstLayout_of_database {db : CredentialDatabase}
    (h : values.database entries = some db) : values.FirstLayout entries := by
  obtain ⟨hfits, hversion, hprofile, hcredentials, -⟩ := database_eq_some.mp h
  obtain ⟨version, hversion, -⟩ := hfits.gathered_eq_some.mp hversion
  obtain ⟨profile, hprofile, hreadProfile⟩ := hfits.gathered_eq_some.mp hprofile
  obtain ⟨credentials, hcredentials, hreadCredentials⟩ := hfits.gathered_eq_some.mp hcredentials
  exact
    { keys := fun entry hentry => Option.isSome_map.symm.trans (hfits.keys entry hentry)
      unknown := hfits.skipped
      version := ⟨version, hversion⟩
      profile := ⟨profile, hprofile, Option.isSome_of_eq_some hreadProfile⟩
      credentials := ⟨credentials, hcredentials, Option.isSome_of_eq_some hreadCredentials⟩
      icons := hfits.values .icons }

/-- A map of that layout is read, with the number that is its version. -/
theorem exists_database_of_firstLayout (h : values.FirstLayout entries)
    {entry : List UInt8 × List UInt8} (hentry : entry ∈ entries)
    (hname : values.identifier entry.1 = some (utf8 "version")) {version : UInt32}
    (hversion : values.u32 entry.2 = some version) :
    ∃ db, values.database entries = some db ∧ db.version = version := by
  obtain ⟨item, hitem⟩ := h.version
  have hfield : values.reader.field entry.1 = some (some .version) := by
    show (values.identifier entry.1).map DatabaseField.ofName = _
    rw [hname, Option.map_some, ofName_version]
  have hmem := Records.Reader.mem_valuesOf hentry hfield
  rw [hitem, List.mem_singleton] at hmem
  rw [hmem] at hversion
  obtain ⟨profile, hprofile, hreadProfile⟩ := h.profile
  obtain ⟨credentials, hcredentials, hreadCredentials⟩ := h.credentials
  have hfits : values.reader.Fits entries :=
    { keys := fun entry hentry => Option.isSome_map.trans (h.keys entry hentry)
      skipped := h.unknown
      values := fun f => by
        cases f with
        | version => exact .inr ⟨item, hitem, Option.isSome_of_eq_some hversion⟩
        | profile => exact .inr h.profile
        | credentials => exact .inr h.credentials
        | icons => exact h.icons }
  obtain ⟨readProfile, hreadProfile⟩ := Option.isSome_iff_exists.mp hreadProfile
  obtain ⟨readCredentials, hreadCredentials⟩ := Option.isSome_iff_exists.mp hreadCredentials
  refine ⟨⟨version, readProfile, readCredentials, _⟩, database_eq_some.mpr ⟨hfits, ?_, ?_, ?_, rfl⟩,
    rfl⟩
  · exact hfits.gathered_eq_some.mpr ⟨item, hitem, hversion⟩
  · exact hfits.gathered_eq_some.mpr ⟨profile, hprofile, hreadProfile⟩
  · exact hfits.gathered_eq_some.mpr ⟨credentials, hcredentials, hreadCredentials⟩

end CiboriumValues

/-- A map with a newer version is reported as newer, with its number, if and only if it still has
the layout of this version. -/
theorem fromCbor_newer_exact {ciborium : Ciborium} {values : CiboriumValues}
    (hderives : ciborium.Derives values) {bytes : List UInt8}
    {entries : List (List UInt8 × List UInt8)} (hbytes : values.entries bytes = some entries)
    {entry : List UInt8 × List UInt8} (hentry : entry ∈ entries)
    (hname : values.identifier entry.1 = some (utf8 "version")) {version : UInt32}
    (hversion : values.u32 entry.2 = some version) (hnewer : VERSION < version) :
    CredentialDatabase.fromCbor ciborium bytes = .error (.unsupportedVersion version) ↔
      values.FirstLayout entries := by
  unfold CredentialDatabase.fromCbor
  rw [hderives bytes entries hbytes]
  constructor
  · intro h
    cases hdb : values.database entries with
    | none => simp [hdb] at h
    | some db => exact CiboriumValues.firstLayout_of_database hdb
  · intro h
    obtain ⟨db, hdb, rfl⟩ :=
      CiboriumValues.exists_database_of_firstLayout h hentry hname hversion
    rw [hdb]
    exact if_pos hnewer

/-! ### Small blobs -/

/-- Entries whose keys are short texts and whose values take one byte. -/
def shortEntries : Nat → List UInt8 → Option (List (List UInt8 × List UInt8))
  | 0, _ => some []
  | _ + 1, [] => none
  | n + 1, initial :: rest =>
    let length := initial.toNat - 0x60
    match rest.drop length with
    | [] => none
    | value :: rest' =>
      (shortEntries n rest').map fun entries =>
        ((initial :: rest.take length, [value]) :: entries)

/-- `ciborium` on maps of such entries. -/
def shortValues : CiboriumValues where
  entries
    | [] => none
    | initial :: rest => shortEntries (initial.toNat - 0xA0) rest
  identifier key := some key.tail
  u32
    | [n] => if n < 24 then some n.toUInt32 else none
    | _ => none
  matchProfile value := if value = [0xA0] then some ⟨[], [], [], [], [], .reject, false⟩ else none
  credentials value := if value = [0x80] then some [] else none
  byteBuf value := if value = [0x40] then some [] else none
  ignoredAny _ := true

def shortCiborium : Ciborium where
  fromReader bytes := (shortValues.entries bytes).bind shortValues.database

theorem shortCiborium_derives : shortCiborium.Derives shortValues := by
  intro bytes entries h
  show (shortValues.entries bytes).bind shortValues.database = _
  rw [h]
  rfl

/-- Version 2 with a profile and without credentials, as this version would write it. -/
def newerBlob : List UInt8 :=
  0xA3 :: 0x67 :: utf8 "version" ++ 0x02 :: 0x67 :: utf8 "profile" ++ 0xA0 ::
    0x6B :: utf8 "credentials" ++ [0x80]

theorem fromCbor_newer_exact_newerBlob :
    CredentialDatabase.fromCbor shortCiborium newerBlob = .error (.unsupportedVersion 2) :=
  (@fromCbor_newer_exact shortCiborium shortValues shortCiborium_derives newerBlob
    [(0x67 :: utf8 "version", [0x02]), (0x67 :: utf8 "profile", [0xA0]),
      (0x6B :: utf8 "credentials", [0x80])]
    (by decide) _ List.mem_cons_self rfl 2 rfl (by decide)).mpr
    { keys := by decide
      unknown := by decide
      version := ⟨[0x02], by decide⟩
      profile := ⟨[0xA0], by decide⟩
      credentials := ⟨[0x80], by decide⟩
      icons := .inl (by decide) }

/-- Version 2, and nothing else. -/
theorem fromCbor_versionAlone :
    let blob : List UInt8 := [0xA1, 0x67, 0x76, 0x65, 0x72, 0x73, 0x69, 0x6F, 0x6E, 0x02]
    shortValues.entries blob = some [(0x67 :: utf8 "version", [0x02])] ∧
      shortValues.identifier (0x67 :: utf8 "version") = some (utf8 "version") ∧
      shortValues.u32 [0x02] = some 2 ∧ VERSION < 2 ∧
      CredentialDatabase.fromCbor shortCiborium blob = .error .malformed := by
  exact ⟨by decide, rfl, rfl, by decide, by decide⟩

end DcMatcher
