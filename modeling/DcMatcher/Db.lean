import DcMatcher.Profile

/-!
# The credential blob

`db.rs`: what a wallet registers with the platform. The CBOR reader behind it,
`ciborium` with the derived readers of these structs, is a parameter.
-/

namespace DcMatcher

/-- Format version of the blob. -/
def VERSION : UInt32 := 1

/-- A slice of the icon bytes. -/
structure IconRef where
  start : UInt32
  len : UInt32
deriving DecidableEq, Repr

namespace Db

/-- One claim, as both a matchable value and a displayable one. -/
structure Claim where
  path : List String
  value : String
  display : String
  displayValue : Option String
deriving DecidableEq, Repr

/-- One credential the wallet holds. -/
structure Credential where
  id : String
  format : String
  doctype : Option String
  vct : Option String
  title : String
  subtitle : String
  icon : Option IconRef
  claims : List Claim
deriving DecidableEq, Repr

end Db

/-- Everything a wallet registers: what it holds, and the rules for offering it. -/
structure CredentialDatabase where
  version : UInt32
  profile : MatchProfile
  credentials : List Db.Credential
  icons : List UInt8
deriving DecidableEq, Repr

/-- Why a blob could not be read. -/
inductive DecodeError
  | malformed
  | unsupportedVersion (version : UInt32)
deriving DecidableEq, Repr

/-- `DecodeError`'s texts. -/
def DecodeError.text : DecodeError → String
  | .malformed => "credential blob is not valid CBOR"
  | .unsupportedVersion version =>
    "credential blob version " ++ toString version.toNat ++ " is newer than this matcher"

/-- `ciborium`, as far as it is called. -/
structure Ciborium where
  /-- `from_reader::<CredentialDatabase>`. -/
  fromReader : List UInt8 → Option CredentialDatabase

/-- `CredentialDatabase::from_cbor`. -/
def CredentialDatabase.fromCbor (ciborium : Ciborium) (bytes : List UInt8) :
    Except DecodeError CredentialDatabase :=
  match ciborium.fromReader bytes with
  | none => .error .malformed
  | some db => if db.version > VERSION then .error (.unsupportedVersion db.version) else .ok db

/-- `CredentialDatabase::icon_bytes`. -/
def CredentialDatabase.iconBytes (db : CredentialDatabase) (credential : Db.Credential) :
    Option (List UInt8) :=
  match credential.icon with
  | none => none
  | some r =>
    let last := r.start.toNat + r.len.toNat
    if last ≤ db.icons.length then some ((db.icons.take last).drop r.start.toNat) else none

end DcMatcher
