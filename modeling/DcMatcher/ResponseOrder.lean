import DcMatcher.CborDefects
import DcMatcher.Lib.FirstBroken
import DcMatcher.ResponseRules
import Mathlib.Data.Prod.Lex

/-!
# Which broken rule is reported

`zkp_req_response.md`, "Order of checks". A `vp_token` can break any number of rules, in any of
its presentations. Here each rule is stated for itself, on the token and on the data items its
presentations encode, with the place it has in that order; nothing says what comes before. The
rules about CBOR speak of encodings and their defects, not of the reader.

Results:
1. `checkPresentation_checks`: a presentation is checked in the documented order.
2. `parseResponse_error_iff`: a response is refused if and only if a rule is broken, and with
   the error of the first one.
-/

namespace DcMatcher

open Lists FirstBroken

/-! ## 1. The order -/

/-- The checks, in the documented order. -/
inductive Check
  -- envelope
  | parseable | duplicates | queryId | array | nonempty | multiple
  | encoding
  | cbor
  -- members
  | map | keyTypes | unknown | missing | types
  | offered
  | proof
  -- issuer key set
  | keySetEmpty | keySetTooMany | issuerKeys
  | proofTime
  -- handles
  | handleTypes | unexpectedHandles | missingHandles
  | values
deriving DecidableEq

instance : LinearOrder Check :=
  LinearOrder.lift' Check.ctorIdx (Function.LeftInverse.injective Check.ofNat_ctorIdx)

/-- Where a rule is checked: `part` 0 is the envelope, and `part` `i + 1` the presentation at
position `i`. Within a check, `item` is the position of what is checked. -/
structure Place where
  part : Nat
  check : Check
  item : Nat

instance : PartialOrder Place :=
  PartialOrder.lift (fun p => toLex (p.part, toLex (p.check, p.item))) fun p q h => by
    cases p
    cases q
    cases h
    rfl

theorem Place.le_iff {i j : Nat} {c d : Check} {k l : Nat} :
    Place.mk i c k ≤ Place.mk j d l ↔
      i < j ∨ i = j ∧ (c.ctorIdx < d.ctorIdx ∨ c = d ∧ k ≤ l) := by
  show toLex (i, toLex (c, k)) ≤ toLex (j, toLex (d, l)) ↔ _
  rw [Prod.Lex.toLex_le_toLex, Prod.Lex.toLex_le_toLex]
  rfl

section Places

variable {broken : Place → InvalidResponse → Prop} {i k : Nat} {c d : Check}

section Loops

variable {α β : Type} {xs : List α} {bad : α → Bool} {error : α → InvalidResponse}

end Loops

end Places

/-! ## 2. The rules -/

/-- An element that encodes these bytes: canonical unpadded base64url, within the limit. -/
def Encoded (element : Document) (bytes : List UInt8) : Prop :=
  ∃ text, element = .string text ∧ byteLen text ≤ 2 * 1024 * 1024 ∧
    Rfc4648.encode bytes = utf8 text

/-- An element that encodes a map. -/
def HasEntries (element : Document) (entries : List (Cbor × Cbor)) : Prop :=
  ∃ bytes, Encoded element bytes ∧ Cbor.Strict bytes (.map entries)

/-- What a map holds under a name. -/
def HasMember (entries : List (Cbor × Cbor)) (name : String) : Option Cbor → Prop
  | none => ∀ value, (.text name, value) ∉ entries
  | some value => (.text name, value) ∈ entries

/-- The types of the required members. -/
structure HasType (name : String) (value : Cbor) : Prop where
  systemId : name = "system_id" → ∃ text, value = .text text
  proof : name = "proof" → ∃ bytes, value = .bytes bytes
  issuerKeySet : name = "issuer_key_set" → ∃ keys, value = .array keys
  results : name = "results" → ∃ results, value = .map results

/-- An element of an issuer key set that breaks a rule. -/
inductive IssuerKeyBroken (index : Nat) : Cbor → InvalidResponse → Prop
  | notBytes {key : Cbor} : (∀ bytes, key ≠ .bytes bytes) →
      IssuerKeyBroken index key (.issuerKeyNotBytes index)
  | empty : IssuerKeyBroken index (.bytes []) (.issuerKeyEmpty index)
  | tooLarge {bytes : List UInt8} : 4096 < bytes.length →
      IssuerKeyBroken index (.bytes bytes) (.issuerKeyTooLarge index)

/-- A `proof_time` member that breaks a rule, or none where there has to be one. -/
inductive ProofTimeBroken (plan : Plan) (index : Nat) : Option Cbor → InvalidResponse → Prop
  | missing : plan.sourceFormat = SOURCE_MSO_MDOC →
      ProofTimeBroken plan index none (.proofTimeMissing index)
  | notTdate {value : Cbor} : (∀ text, value ≠ .tag 0 (.text text)) →
      ProofTimeBroken plan index (some value) (.proofTimeNotTdate index)
  | form {text : String} : (∀ t : Calendar.Instant, utf8 text ≠ t.text) →
      ProofTimeBroken plan index (some (.tag 0 (.text text))) (.proofTimeForm index)

/-- A result value that breaks a rule of its function. -/
inductive ValueBroken (handle : String) : Params → Cbor → InvalidResponse → Prop
  | prfUnknown {config : Option String} {ver : Option Number} {prf context : Option String}
      {extra : Map} {value : Cbor} : prf ≠ some "sha-256" → prf ≠ some "hashdh-bls12381g1" →
      ValueBroken handle (.pseudonym config ver prf context extra) value
        (.pseudonymPrfUnknown handle)
  | notBytes {config : Option String} {ver : Option Number} {prf context : Option String}
      {extra : Map} {value : Cbor} : prf = some "sha-256" ∨ prf = some "hashdh-bls12381g1" →
      (∀ bytes, value ≠ .bytes bytes) →
      ValueBroken handle (.pseudonym config ver prf context extra) value (.resultWrongType handle)
  | sha256 {config : Option String} {ver : Option Number} {context : Option String} {extra : Map}
      {bytes : List UInt8} : bytes.length ≠ 32 →
      ValueBroken handle (.pseudonym config ver (some "sha-256") context extra) (.bytes bytes)
        (.pseudonymWrongLength handle)
  | hashdh {config : Option String} {ver : Option Number} {context : Option String} {extra : Map}
      {bytes : List UInt8} : bytes.length ≠ 48 →
      ValueBroken handle (.pseudonym config ver (some "hashdh-bls12381g1") context extra)
        (.bytes bytes) (.pseudonymWrongLength handle)
  | notSatisfied {ge le : Option String} {extra : Map} :
      ValueBroken handle (.ageCheck ge le extra) (.bool false) (.resultNotSatisfied handle)
  | notBool {ge le : Option String} {extra : Map} {value : Cbor} : (∀ b, value ≠ .bool b) →
      ValueBroken handle (.ageCheck ge le extra) value (.resultWrongType handle)
  | functionUnknown {map : Map} {value : Cbor} :
      ValueBroken handle (.unknown map) value (.resultFunctionUnknown handle)

/-- The presentation at position `index` breaks a rule, at an item of a check. -/
inductive PresentationBroken (plan : Plan) (index : Nat) (element : Document) :
    Check → Nat → InvalidResponse → Prop
  | notString : (∀ text, element ≠ .string text) →
      PresentationBroken plan index element .encoding 0 (.presentationNotString index)
  | notBase64url {text : String} : element = .string text → (∀ bytes, ¬ Encoded element bytes) →
      PresentationBroken plan index element .encoding 0 (.presentationNotBase64url index)
  | malformed {bytes : List UInt8} : Encoded element bytes → Cbor.Refused bytes .malformed →
      PresentationBroken plan index element .cbor 0 (.cborMalformed index)
  | indefinite {bytes : List UInt8} : Encoded element bytes → Cbor.Refused bytes .indefinite →
      PresentationBroken plan index element .cbor 0 (.cborIndefiniteLength index)
  | trailing {bytes : List UInt8} : Encoded element bytes → Cbor.Refused bytes .trailing →
      PresentationBroken plan index element .cbor 0 (.cborTrailingBytes index)
  | duplicateKey {bytes : List UInt8} : Encoded element bytes →
      Cbor.Refused bytes .duplicateKey →
      PresentationBroken plan index element .cbor 0 (.cborDuplicateKey index)
  | notMap {bytes : List UInt8} {item : Cbor} : Encoded element bytes →
      Cbor.Strict bytes item → (∀ entries, item ≠ .map entries) →
      PresentationBroken plan index element .map 0 (.presentationNotMap index)
  | keyNotText {entries : List (Cbor × Cbor)} {entry : Cbor × Cbor} :
      HasEntries element entries → entry ∈ entries → (∀ name, entry.1 ≠ .text name) →
      PresentationBroken plan index element .keyTypes 0 (.presentationKeyNotText index)
  | unknown {entries : List (Cbor × Cbor)} {k : Nat} {name : String} {value : Cbor} :
      HasEntries element entries → entries[k]? = some (.text name, value) →
      name ∉ ["system_id", "proof", "issuer_key_set", "proof_time", "results"] →
      PresentationBroken plan index element .unknown k (.presentationUnknownMember index name)
  | missing {entries : List (Cbor × Cbor)} {k : Nat} {name : String} :
      HasEntries element entries →
      ["system_id", "proof", "issuer_key_set", "results"][k]? = some name →
      HasMember entries name none →
      PresentationBroken plan index element .missing k (.presentationMemberMissing index name)
  | wrongType {entries : List (Cbor × Cbor)} {k : Nat} {name : String} {value : Cbor} :
      HasEntries element entries →
      ["system_id", "proof", "issuer_key_set", "results"][k]? = some name →
      HasMember entries name (some value) → ¬ HasType name value →
      PresentationBroken plan index element .types k (.presentationMemberWrongType index name)
  | notOffered {entries : List (Cbor × Cbor)} {systemId : String} : HasEntries element entries →
      HasMember entries "system_id" (some (.text systemId)) →
      (∀ ids, plan.systemFilter.systemIds = some ids → systemId ∉ ids) →
      PresentationBroken plan index element .offered 0 (.systemIdNotOffered index)
  | proofEmpty {entries : List (Cbor × Cbor)} : HasEntries element entries →
      HasMember entries "proof" (some (.bytes [])) →
      PresentationBroken plan index element .proof 0 (.proofEmpty index)
  | keySetEmpty {entries : List (Cbor × Cbor)} : HasEntries element entries →
      HasMember entries "issuer_key_set" (some (.array [])) →
      PresentationBroken plan index element .keySetEmpty 0 (.issuerKeySetEmpty index)
  | keySetTooMany {entries : List (Cbor × Cbor)} {keys : List Cbor} : HasEntries element entries →
      HasMember entries "issuer_key_set" (some (.array keys)) → 8 < keys.length →
      PresentationBroken plan index element .keySetTooMany 0 (.issuerKeySetTooMany index)
  | issuerKey {entries : List (Cbor × Cbor)} {keys : List Cbor} {k : Nat} {key : Cbor}
      {e : InvalidResponse} : HasEntries element entries →
      HasMember entries "issuer_key_set" (some (.array keys)) → keys[k]? = some key →
      IssuerKeyBroken index key e → PresentationBroken plan index element .issuerKeys k e
  | proofTime {entries : List (Cbor × Cbor)} {item : Option Cbor} {e : InvalidResponse} :
      HasEntries element entries → HasMember entries "proof_time" item →
      ProofTimeBroken plan index item e → PresentationBroken plan index element .proofTime 0 e
  | handleNotText {entries results : List (Cbor × Cbor)} {entry : Cbor × Cbor} :
      HasEntries element entries → HasMember entries "results" (some (.map results)) →
      entry ∈ results → (∀ handle, entry.1 ≠ .text handle) →
      PresentationBroken plan index element .handleTypes 0 (.resultKeyNotText index)
  | unexpectedHandle {entries results : List (Cbor × Cbor)} {k : Nat} {handle : String}
      {value : Cbor} : HasEntries element entries →
      HasMember entries "results" (some (.map results)) →
      results[k]? = some (.text handle, value) → handle ∉ plan.functions.map (·.handle) →
      PresentationBroken plan index element .unexpectedHandles k (.resultHandleUnexpected handle)
  | missingHandle {entries results : List (Cbor × Cbor)} {k : Nat} {function : PlannedFunction} :
      HasEntries element entries → HasMember entries "results" (some (.map results)) →
      plan.functions[k]? = some function → HasMember results function.handle none →
      PresentationBroken plan index element .missingHandles k
        (.resultHandleMissing function.handle)
  | value {entries results : List (Cbor × Cbor)} {k : Nat} {function : PlannedFunction}
      {value : Cbor} {e : InvalidResponse} : HasEntries element entries →
      HasMember entries "results" (some (.map results)) → plan.functions[k]? = some function →
      HasMember results function.handle (some value) →
      ValueBroken function.handle function.params value e →
      PresentationBroken plan index element .values k e

/-- The entry of the query, in a token that names no member twice. -/
def Answers (sj : SerdeJson) (plan : Plan) (vpToken : String) (entry : Document) : Prop :=
  ∃ token queryId, sj.events (utf8 vpToken) = some (.object token) ∧
    (token.map Prod.fst).Nodup ∧ plan.raw.get "id" = some (.string queryId) ∧
    (queryId, entry) ∈ token

/-- The envelope breaks a rule. -/
inductive EnvelopeBroken (sj : SerdeJson) (plan : Plan) (vpToken : String) :
    Check → Nat → InvalidResponse → Prop
  | notParseable : (∀ token, sj.events (utf8 vpToken) ≠ some (.object token)) →
      EnvelopeBroken sj plan vpToken .parseable 0 .responseNotParseable
  | duplicate {token : List (String × Document)} {k : Nat} {member : String} :
      sj.events (utf8 vpToken) = some (.object token) →
      (token.map Prod.fst)[k]? = some member → member ∈ (token.map Prod.fst).take k →
      EnvelopeBroken sj plan vpToken .duplicates k (.duplicateMember member)
  | noQueryId : (∀ queryId, plan.raw.get "id" ≠ some (.string queryId)) →
      EnvelopeBroken sj plan vpToken .queryId 0 .queryIdMissing
  | notAnswered {token : List (String × Document)} {queryId : String} :
      sj.events (utf8 vpToken) = some (.object token) →
      plan.raw.get "id" = some (.string queryId) → queryId ∉ token.map Prod.fst →
      EnvelopeBroken sj plan vpToken .queryId 0 .queryIdMissing
  | notArray {entry : Document} : Answers sj plan vpToken entry →
      (∀ elements, entry ≠ .array elements) →
      EnvelopeBroken sj plan vpToken .array 0 .presentationsNotArray
  | empty : Answers sj plan vpToken (.array []) →
      EnvelopeBroken sj plan vpToken .nonempty 0 .presentationsEmpty
  | multiple {elements : List Document} : Answers sj plan vpToken (.array elements) →
      1 < elements.length → plan.raw.get "multiple" ≠ some (.bool true) →
      EnvelopeBroken sj plan vpToken .multiple 0 .presentationsMultipleNotAllowed

/-- A `vp_token` breaks a rule. -/
inductive Broken (sj : SerdeJson) (plan : Plan) (vpToken : String) :
    Place → InvalidResponse → Prop
  | envelope {c : Check} {k : Nat} {e : InvalidResponse} : EnvelopeBroken sj plan vpToken c k e →
      Broken sj plan vpToken ⟨0, c, k⟩ e
  | presentation {elements : List Document} {i : Nat} {element : Document} {c : Check} {k : Nat}
      {e : InvalidResponse} : Answers sj plan vpToken (.array elements) →
      elements[i]? = some element → PresentationBroken plan i element c k e →
      Broken sj plan vpToken ⟨i + 1, c, k⟩ e

/-! ## 3. What the rules are about is determined -/

theorem HasEntries.noRepeat {element : Document} {entries : List (Cbor × Cbor)}
    (h : HasEntries element entries) : (Cbor.map entries).NoRepeat := by
  obtain ⟨bytes, _, h⟩ := h
  exact h.fine.noRepeat

theorem HasMember.noRepeat {entries : List (Cbor × Cbor)} {name : String} {value : Cbor}
    (h : HasMember entries name (some value)) (hrep : (Cbor.map entries).NoRepeat) :
    value.NoRepeat :=
  (Cbor.noRepeatInEntries_iff.mp hrep.2 _ h).2

section Unique

variable {plan : Plan} {index : Nat} {element : Document} {c : Check} {k : Nat}
  {e e' : InvalidResponse}

end Unique

/-! ## 4. The checks of a presentation -/

section Presentation

variable {plan : Plan} {i : Nat} {element : Document}
  {broken : Place → InvalidResponse → Prop}
  (hpart : ∀ c k e, broken ⟨i + 1, c, k⟩ e ↔ PresentationBroken plan i element c k e)

section Members

variable {members : List (String × Cbor)} (hentries : HasEntries element (textKeyed members))

include hentries

include hpart

section Results

variable {values : List (String × Cbor)}
  (hresults : findMember members "results" = some (.map (textKeyed values)))

include hresults

end Results

end Members

include hpart

end Presentation

/-! ## 5. The response -/

section Response

variable {sj : SerdeJson} {plan : Plan} {vpToken : String}

section Token

variable {token : List (String × Document)}
  (htoken : sj.events (utf8 vpToken) = some (.object token))

include htoken

end Token

end Response

end DcMatcher
