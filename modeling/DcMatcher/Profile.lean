import Mathlib.Data.List.Basic

/-!
# The match profile

`profile.rs`: the rules a wallet registers with its credentials. A `BTreeMap` with text
keys is a `Table`, in key order.
-/

namespace DcMatcher

/-- `BTreeMap<String, _>`. -/
abbrev Table (α : Type) := List (String × α)

/-- `BTreeMap::get`. -/
def Table.get {α : Type} (t : Table α) (key : String) : Option α :=
  (t.find? fun entry => entry.1 == key).map Prod.snd

/-! ## Rules -/

/-- Comparison operators available to a `MetaRule`. -/
inductive Op
  | eq
  | isIn
  | hasPrefix
  | exists
  | ignore
deriving DecidableEq, Repr

/-- What happens when a query names a format the profile does not describe. -/
inductive UnknownFormat
  | reject
  | matchAny
deriving DecidableEq, Repr

/-- A capability this wallet must have for a match to be offered. -/
structure Requirement where
  capability : String
  fromMeta : String
deriving DecidableEq, Repr

/-- How a requested query format maps onto stored credentials. -/
structure FormatRule where
  queryFormat : String
  storedFormats : List String
  requires : List Requirement
deriving DecidableEq, Repr

/-- A capability required by the presence of a `meta` key. -/
structure MetaTrigger where
  whenMetaPresent : String
  capability : String
  requiredFlag : Option String
deriving DecidableEq, Repr

/-- How one `meta` key constrains a match. -/
structure MetaRule where
  metaKey : String
  field : Option String
  op : Op
deriving DecidableEq, Repr

/-- How to read a request for a given protocol. -/
inductive Parser
  | openid4vpV1
  | isoMdocApi
deriving DecidableEq, Repr

/-- A protocol this wallet answers to. -/
structure ProtocolRule where
  id : String
  parser : Parser
deriving DecidableEq, Repr

/-- What this wallet can produce, beyond what it stores. -/
structure Capability where
  system : String
  params : Table String
deriving DecidableEq, Repr

/-- The complete set of rules a wallet registers alongside its credentials. -/
structure MatchProfile where
  protocols : List ProtocolRule
  formats : List FormatRule
  metaRules : List MetaRule
  metaTriggers : List MetaTrigger
  capabilities : Table (List Capability)
  unknownFormat : UnknownFormat
  debug : Bool
deriving DecidableEq, Repr

namespace MatchProfile

/-- `MatchProfile::format_rule`. -/
def formatRule (profile : MatchProfile) (queryFormat : String) : Option FormatRule :=
  profile.formats.find? fun f => f.queryFormat == queryFormat

/-- `MatchProfile::parser_for`. -/
def parserFor (profile : MatchProfile) (protocol : String) : Option Parser :=
  (profile.protocols.find? fun p => p.id == protocol).map (·.parser)

end MatchProfile

/-! ## Names -/

/-- Capability name a `mso_mdoc_zk` format rule refers to. -/
def ZK_CAPABILITY : String := "zk_system"
/-- Capability family for `zkp_req` circuits a wallet can prove with. -/
def ZKP_REQ_CAPABILITY : String := "zkp_req"
/-- Param naming a circuit. -/
def SYSTEM_ID_PARAM : String := "system_id"
/-- Param listing the function ids a circuit supports. -/
def FUNCTIONS_PARAM : String := "functions"
/-- Param restricting a circuit to one credential type. -/
def CREDENTIAL_TYPE_PARAM : String := "credential_type"
/-- Param carrying the catalog's `capabilities` object for the circuit. -/
def CAPABILITIES_PARAM : String := "capabilities"
/-- The format a `zkp_req` query is asked in. -/
def ZKP_REQ_FORMAT : String := "zkp_req"

/-- The profile SIROS wallets register. -/
def MatchProfile.sirosDefault : MatchProfile where
  protocols :=
    [⟨"openid4vp-v1-unsigned", .openid4vpV1⟩, ⟨"openid4vp-v1-signed", .openid4vpV1⟩,
     ⟨"openid4vp-v1-multisigned", .openid4vpV1⟩]
  formats :=
    [⟨"mso_mdoc", ["mso_mdoc"], []⟩,
     ⟨"dc+sd-jwt", ["dc+sd-jwt"], []⟩,
     ⟨"mso_mdoc_zk", ["mso_mdoc"], [⟨ZK_CAPABILITY, "zk_system_type"⟩]⟩,
     ⟨ZKP_REQ_FORMAT, ["mso_mdoc"], []⟩]
  metaRules :=
    [⟨"doctype_value", some "doctype", .eq⟩, ⟨"vct_values", some "vct", .isIn⟩,
     ⟨"ppid_context", none, .ignore⟩]
  metaTriggers := [⟨"zk_system_type", ZK_CAPABILITY, some "zk_required"⟩]
  capabilities := []
  unknownFormat := .reject
  debug := false

end DcMatcher
