import DcMatcher.Db
import DcMatcher.Lib.Rfc8949
import Mathlib.Data.List.Nodup

/-!
# The bytes of a credential blob

`db.rs`, `profile.rs`: what `to_cbor` writes of a database. The derived writers give `ciborium` a
map with the names of the members, in the order of the struct and without those that are skipped,
the name of a variant that has no data, and for a `Vec` an array; it writes all with the shortest
heads.

Results:
1. `toCbor_encodes`: a blob is the encoding of the data item of its database.
2. `fromCbor_ofDatabases`: a reader for the blobs of some databases reads each of them.
-/

namespace DcMatcher

open Rfc8949

/-! ## Data items -/

/-- A struct: its members that are not skipped. -/
def structItem (members : List (String × Option Item)) : Item :=
  .map (members.filterMap fun m => m.2.map fun value => (.text m.1, value))

/-- A `Vec`. -/
def vecItem {α : Type} (f : α → Item) (items : List α) : Item := .array (items.map f)

/-- A `BTreeMap` with text keys. -/
def Table.item {α : Type} (f : α → Item) (t : Table α) : Item :=
  .map (t.map fun entry => (.text entry.1, f entry.2))

def boolItem (b : Bool) : Item := if b then Item.true else Item.false

def Op.item : Op → Item
  | .eq => .text "eq"
  | .isIn => .text "in"
  | .hasPrefix => .text "prefix"
  | .exists => .text "exists"
  | .ignore => .text "ignore"

def UnknownFormat.item : UnknownFormat → Item
  | .reject => .text "reject"
  | .matchAny => .text "match_any"

def Parser.item : Parser → Item
  | .openid4vpV1 => .text "openid4vp_v1"
  | .isoMdocApi => .text "iso_mdoc_api"

def Requirement.item (r : Requirement) : Item :=
  structItem [("capability", some (.text r.capability)), ("from_meta", some (.text r.fromMeta))]

def FormatRule.item (rule : FormatRule) : Item :=
  structItem
    [("query_format", some (.text rule.queryFormat)),
     ("stored_formats", some (vecItem .text rule.storedFormats)),
     ("requires", if rule.requires.isEmpty then none
      else some (vecItem Requirement.item rule.requires))]

def MetaTrigger.item (trigger : MetaTrigger) : Item :=
  structItem
    [("when_meta_present", some (.text trigger.whenMetaPresent)),
     ("capability", some (.text trigger.capability)),
     ("required_flag", trigger.requiredFlag.map .text)]

def MetaRule.item (rule : MetaRule) : Item :=
  structItem
    [("meta_key", some (.text rule.metaKey)), ("field", rule.field.map .text),
     ("op", some rule.op.item)]

def ProtocolRule.item (rule : ProtocolRule) : Item :=
  structItem [("id", some (.text rule.id)), ("parser", some rule.parser.item)]

def Capability.item (capability : Capability) : Item :=
  structItem
    [("system", some (.text capability.system)),
     ("params", some (capability.params.item .text))]

def MatchProfile.item (profile : MatchProfile) : Item :=
  structItem
    [("protocols", some (vecItem ProtocolRule.item profile.protocols)),
     ("formats", some (vecItem FormatRule.item profile.formats)),
     ("meta_rules", some (vecItem MetaRule.item profile.metaRules)),
     ("meta_triggers", some (vecItem MetaTrigger.item profile.metaTriggers)),
     ("capabilities", some (profile.capabilities.item (vecItem Capability.item))),
     ("unknown_format", some profile.unknownFormat.item),
     ("debug", some (boolItem profile.debug))]

def IconRef.item (r : IconRef) : Item :=
  structItem [("start", some (.uint r.start.toNat)), ("len", some (.uint r.len.toNat))]

namespace Db

def Claim.item (claim : Claim) : Item :=
  structItem
    [("path", some (vecItem .text claim.path)), ("value", some (.text claim.value)),
     ("display", some (.text claim.display)), ("display_value", claim.displayValue.map .text)]

def Credential.item (c : Credential) : Item :=
  structItem
    [("id", some (.text c.id)), ("format", some (.text c.format)),
     ("doctype", c.doctype.map .text), ("vct", c.vct.map .text),
     ("title", some (.text c.title)), ("subtitle", some (.text c.subtitle)),
     ("icon", c.icon.map IconRef.item), ("claims", some (vecItem Claim.item c.claims))]

end Db

namespace CredentialDatabase

def item (db : CredentialDatabase) : Item :=
  structItem
    [("version", some (.uint db.version.toNat)), ("profile", some db.profile.item),
     ("credentials", some (vecItem Db.Credential.item db.credentials)),
     ("icons", if db.icons.isEmpty then none else some (.bytes db.icons))]

/-- `to_cbor`. -/
def toCbor (db : CredentialDatabase) : List UInt8 := db.item.write

/-- A blob is the encoding of its database, whose parts are shorter than `2 ^ 64`. -/
theorem toCbor_encodes {db : CredentialDatabase} (h : db.item.Writable) :
    Encodes db.item db.toCbor := Item.write_encodes h

end CredentialDatabase

/-! ## Reading them back -/

/-- A reader that knows the blobs of some databases. -/
def Ciborium.ofDatabases (dbs : List CredentialDatabase) : Ciborium where
  fromReader bytes := dbs.find? fun db => db.toCbor == bytes

theorem Ciborium.fromReader_ofDatabases {dbs : List CredentialDatabase}
    (hdistinct : (dbs.map CredentialDatabase.toCbor).Nodup) {db : CredentialDatabase}
    (hmem : db ∈ dbs) : (Ciborium.ofDatabases dbs).fromReader db.toCbor = some db := by
  have hsome : (dbs.find? fun d => d.toCbor == db.toCbor).isSome :=
    List.find?_isSome.mpr ⟨db, hmem, beq_self_eq_true _⟩
  obtain ⟨found, hfound⟩ := Option.isSome_iff_exists.mp hsome
  have hsame : found.toCbor = db.toCbor := by simpa using List.find?_some hfound
  have hfound' := List.mem_of_find?_eq_some hfound
  rw [List.inj_on_of_nodup_map hdistinct hfound' hmem hsame] at hfound
  exact hfound

theorem fromCbor_ofDatabases {dbs : List CredentialDatabase}
    (hdistinct : (dbs.map CredentialDatabase.toCbor).Nodup) {db : CredentialDatabase}
    (hmem : db ∈ dbs) (hversion : db.version ≤ VERSION) :
    CredentialDatabase.fromCbor (.ofDatabases dbs) db.toCbor = .ok db := by
  rw [CredentialDatabase.fromCbor, Ciborium.fromReader_ofDatabases hdistinct hmem]
  exact if_neg (UInt32.not_lt.mpr hversion)

theorem fromCbor_ofDatabase {db : CredentialDatabase} (hversion : db.version ≤ VERSION) :
    CredentialDatabase.fromCbor (.ofDatabases [db]) db.toCbor = .ok db :=
  @fromCbor_ofDatabases [db] (List.nodup_singleton _) db (List.mem_singleton_self db) hversion

end DcMatcher
