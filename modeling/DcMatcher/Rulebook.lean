import DcMatcher.Lib.FirstBroken
import DcMatcher.Planning
import Mathlib.Data.Prod.Lex

/-!
# The rulebook

`unsatisfiable` of `zkp_req.rs` against the table of unsatisfiable requests in
`docs/zkp_req_request.md`. The rules are stated on their own: those about the request, and those
about an item of `_req` and the items before it, with dates as days of the calendar.

Results:
1. `checkRequest_first`, `checkItem_first`: the parts of the check find the first broken rule.
2. `unsatisfiable_exact`: the whole check passes exactly when no rule is broken, and otherwise
   returns the first one.
-/

namespace DcMatcher

open Lists FirstBroken Calendar Gregorian

/-! ## 1. The rules -/

/-- The codes, in the order of the table. -/
def UNSATISFIABLE : List Unsatisfiable :=
  [.sourceFormatUnsupported,
   .metaTypeValueInvalid,
   .holderBindingWaived,
   .functionUnknown,
   .pseudonymRepeated, .ageCheckRepeated,
   .pseudonymConfigMissing, .pseudonymConfigUnknown,
   .pseudonymVerMissing, .pseudonymVerUnsupported,
   .pseudonymPrfMissing, .pseudonymPrfUnsupported,
   .verifierContextInvalid,
   .ageCheckNoBound, .ageCheckInverted, .ageCheckSpanTooShort]

/-- Where a rule stands in the table. -/
def Unsatisfiable.row (e : Unsatisfiable) : Nat := UNSATISFIABLE.idxOf e

namespace Rulebook

/-- The type value of the source format is there, and no other. -/
def HasTypeValue (plan : Plan) : Prop :=
  (plan.sourceFormat = SOURCE_MSO_MDOC ∧ plan.metaDoctype ≠ none ∧ plan.metaSchemaId = none) ∨
  (plan.sourceFormat = SOURCE_BBS_CD ∧ plan.metaSchemaId ≠ none ∧ plan.metaDoctype = none)

/-- The rules about the request. -/
inductive RequestBroken (plan : Plan) : Unsatisfiable → Prop
  | sourceFormat : plan.sourceFormat ∉ [SOURCE_MSO_MDOC, SOURCE_BBS_CD] →
      RequestBroken plan .sourceFormatUnsupported
  | typeValue : ¬ HasTypeValue plan → RequestBroken plan .metaTypeValueInvalid
  | vctValues {metaValue vct : Value} : plan.raw.get "meta" = some metaValue →
      metaValue.get "vct_values" = some vct → RequestBroken plan .metaTypeValueInvalid
  | holderBinding : plan.raw.get "require_cryptographic_holder_binding" = some (.bool false) →
      RequestBroken plan .holderBindingWaived

/-- The configurations of a pseudonym that the rulebook defines. -/
def CONFIGURATIONS : List String :=
  ["known-offender-matching-ssc", "known-offender-matching-psc", "account-recovery-ssc",
   "user-managed-pseudonym-xsite-ssc"]

/-- The `prf` is defined for the source format and the configuration. -/
def PrfDefined (format config prf : String) : Prop :=
  (format = SOURCE_MSO_MDOC ∧ prf = "sha-256") ∨
  (format = SOURCE_BBS_CD ∧ config = "known-offender-matching-ssc" ∧ prf = "hashdh-bls12381g1")

/-- The `verifier_context` is what the configuration asks for. -/
def ContextFits (config : String) (context : Option String) : Prop :=
  (config = "account-recovery-ssc" ∧ ∃ c, context = some c ∧ 1 ≤ byteLen c ∧ byteLen c ≤ 64) ∨
  (config ≠ "account-recovery-ssc" ∧ context = none)

/-- The rules about the parameters of a `pseudonym`: `config`, `ver`, `prf` and
`verifier_context`. -/
inductive PseudonymBroken (format : String) :
    Option String → Option Number → Option String → Option String → Unsatisfiable → Prop
  | configMissing {ver prf context} :
      PseudonymBroken format none ver prf context .pseudonymConfigMissing
  | configUnknown {config ver prf context} : config ∉ CONFIGURATIONS →
      PseudonymBroken format (some config) ver prf context .pseudonymConfigUnknown
  | verMissing {config prf context} :
      PseudonymBroken format config none prf context .pseudonymVerMissing
  | verUnsupported {config ver prf context} : ver ≠ .posInt 1 →
      PseudonymBroken format config (some ver) prf context .pseudonymVerUnsupported
  | prfMissing {config ver context} :
      PseudonymBroken format config ver none context .pseudonymPrfMissing
  | prfUnsupported {config ver prf context} : ¬ PrfDefined format config prf →
      PseudonymBroken format (some config) ver (some prf) context .pseudonymPrfUnsupported
  | context {config ver prf context} : ¬ ContextFits config context →
      PseudonymBroken format (some config) ver prf context .verifierContextInvalid

/-- The rules about the bounds of an `age_check`: `ge` and `le`. -/
inductive AgeBroken : Option String → Option String → Unsatisfiable → Prop
  | noBound : AgeBroken none none .ageCheckNoBound
  | inverted {ge le : String} {a b : Day} : utf8 ge = a.text → utf8 le = b.text →
      b.date < a.date → AgeBroken (some ge) (some le) .ageCheckInverted
  | spanTooShort {ge le : String} {a b : Day} : utf8 ge = a.text → utf8 le = b.text →
      (Date.span a.date b.date).ncard < 365 →
      AgeBroken (some ge) (some le) .ageCheckSpanTooShort

/-- The rules about an item, after the items before it. -/
inductive ItemBroken (format : String) (earlier : List PlannedFunction) (f : PlannedFunction) :
    Unsatisfiable → Prop
  | unknown : f.functionId ∉ ["pseudonym", "age_check"] →
      ItemBroken format earlier f .functionUnknown
  | pseudonymRepeated {g : PlannedFunction} : f.functionId = "pseudonym" → g ∈ earlier →
      g.functionId = "pseudonym" → ItemBroken format earlier f .pseudonymRepeated
  | ageCheckRepeated {g : PlannedFunction} : f.functionId = "age_check" → g ∈ earlier →
      g.functionId = "age_check" → ItemBroken format earlier f .ageCheckRepeated
  | pseudonym {config ver prf context extra e} : f.functionId = "pseudonym" →
      f.params = .pseudonym config ver prf context extra →
      PseudonymBroken format config ver prf context e → ItemBroken format earlier f e
  | ageCheck {ge le extra e} : f.functionId = "age_check" → f.params = .ageCheck ge le extra →
      AgeBroken ge le e → ItemBroken format earlier f e

/-- A rule is broken at a place: 0 is the request, and `i + 1` the item at position `i`. -/
inductive Broken (plan : Plan) : Nat → Unsatisfiable → Prop
  | request {e} : RequestBroken plan e → Broken plan 0 e
  | item {i f e} : plan.functions[i]? = some f →
      ItemBroken plan.sourceFormat (plan.functions.take i) f e → Broken plan (i + 1) e

/-! ## 2. What is planned -/

/-- A function that is planned: the parameters are of its kind, and the bounds are days. -/
inductive Carries : PlannedFunction → Prop
  | pseudonym (handle config ver prf context extra) :
      Carries ⟨"pseudonym", handle, .pseudonym config ver prf context extra⟩
  | ageCheck (handle ge le extra) : (∀ s ∈ ge, ∃ d : Day, utf8 s = d.text) →
      (∀ s ∈ le, ∃ d : Day, utf8 s = d.text) →
      Carries ⟨"age_check", handle, .ageCheck ge le extra⟩
  | unknown (functionId handle map) : functionId ∉ ["pseudonym", "age_check"] →
      Carries ⟨functionId, handle, .unknown map⟩

theorem carries_readParamsFrom {functionId handle : String} {map : Map} {params : Params}
    (h : readParamsFrom functionId handle map = .ok params) :
    Carries ⟨functionId, handle, params⟩ := by
  have hshape := readParamsFrom_ok_iff.mp ⟨params, h⟩
  unfold readParamsFrom at h
  by_cases hpseudonym : functionId = "pseudonym"
  · subst hpseudonym
    obtain ⟨_, _, rfl⟩ := map_eq_ok.mp h
    exact .pseudonym ..
  · by_cases hage : functionId = "age_check"
    · subst hage
      obtain ⟨_, _, rfl⟩ := map_eq_ok.mp h
      have hdate : ∀ name, ⟨name, .fullDate⟩ ∈ FUNCTIONS[1].params →
          ∀ s ∈ paramText map name, ∃ d : Day, utf8 s = d.text := by
        intro name hname s hs
        obtain ⟨v, hv, hs⟩ := Option.bind_eq_some_iff.mp hs
        obtain ⟨s', rfl, hd⟩ := hshape _ (by decide) rfl _ hname v hv
        cases hs
        exact hd
      exact .ageCheck _ _ _ _ (hdate "ge" (by decide)) (hdate "le" (by decide))
    · have hnone : FUNCTIONS.find? (fun s => s.functionId == functionId) = none := by
        simp [FUNCTIONS, Ne.symm hpseudonym, Ne.symm hage]
      rw [hnone] at h
      cases h
      exact .unknown _ _ _ (by simp [hpseudonym, hage])

/-- What is planned carries what its identifier says. -/
theorem carries_of_plan {sj : SerdeJson} {text : String} {clientMetadata : Option String}
    {p : Plan} (hplan : plan sj text clientMetadata = .ok p) :
    ∀ f ∈ p.functions, Carries f := by
  obtain ⟨items, _, hall⟩ := plan_functions hplan
  intro f hf
  obtain ⟨item, _, hread⟩ := forall₂_mem_right hall hf
  have hparams := hread.params
  unfold readParams at hparams
  split at hparams
  · exact carries_readParamsFrom hparams
  · exact carries_readParamsFrom hparams
  · cases hparams

/-! ## 3. The parts of the check -/

/-- The first broken rule of a part, in the order of the table. -/
def FirstOf (broken : Unsatisfiable → Prop) : Except Unsatisfiable Unit → Prop
  | .ok () => ∀ e, ¬ broken e
  | .error e => broken e ∧ ∀ e', broken e' → e.row ≤ e'.row

theorem configuration_find {config : String} :
    (CONFIGS.find? fun c => c.1 == config) =
      if config ∈ CONFIGURATIONS then some (config, config == "known-offender-matching-ssc")
      else none := by
  by_cases hconfig : config ∈ CONFIGURATIONS
  · rw [if_pos hconfig]
    simp only [CONFIGURATIONS, List.mem_cons, List.not_mem_nil, or_false] at hconfig
    rcases hconfig with rfl | rfl | rfl | rfl <;> rfl
  · rw [if_neg hconfig]
    simp only [CONFIGURATIONS, List.mem_cons, List.not_mem_nil, or_false, not_or] at hconfig
    obtain ⟨h₁, h₂, h₃, h₄⟩ := hconfig
    simp [CONFIGS, Ne.symm h₁, Ne.symm h₂, Ne.symm h₃, Ne.symm h₄]

theorem prfDefined_iff {format config prf : String}
    (hformat : format ∈ [SOURCE_MSO_MDOC, SOURCE_BBS_CD]) :
    PrfDefined format config prf ↔
      (if format == SOURCE_BBS_CD then
        prf == "hashdh-bls12381g1" && config == "known-offender-matching-ssc"
      else prf == "sha-256") = true := by
  simp only [List.mem_cons, List.not_mem_nil, or_false] at hformat
  rcases hformat with rfl | rfl
  · simp [PrfDefined, SOURCE_MSO_MDOC, SOURCE_BBS_CD]
  · simp [PrfDefined, SOURCE_MSO_MDOC, SOURCE_BBS_CD, and_comm]

theorem contextFits_none {config : String} :
    ContextFits config none ↔ (!(config == "account-recovery-ssc")) = true := by
  simp [ContextFits]

theorem contextFits_some {config c : String} :
    ContextFits config (some c) ↔
      (config == "account-recovery-ssc" && 1 ≤ byteLen c && byteLen c ≤ 64) = true := by
  simp [ContextFits, and_assoc]

theorem asU64_ver_iff {ver : Number} : ver.asU64 ≠ some PSEUDONYM_VER ↔ ver ≠ .posInt 1 := by
  cases ver <;> simp [Number.asU64, PSEUDONYM_VER]

theorem checkPseudonym_first {format : String}
    (hformat : format ∈ [SOURCE_MSO_MDOC, SOURCE_BBS_CD])
    (config : Option String) (ver : Option Number) (prf context : Option String) :
    FirstOf (PseudonymBroken format config ver prf context)
      (checkPseudonym (format == SOURCE_BBS_CD) config ver prf context) := by
  cases config with
  | none => exact ⟨.configMissing, by rintro _ ⟨⟩ <;> decide⟩
  | some config =>
    by_cases hconfig : config ∈ CONFIGURATIONS
    case neg =>
      simp only [checkPseudonym, configuration_find, if_neg hconfig]
      exact ⟨.configUnknown hconfig, by rintro _ ⟨⟩ <;> decide⟩
    simp only [checkPseudonym, configuration_find, if_pos hconfig]
    cases ver with
    | none => exact ⟨.verMissing, by rintro _ ⟨⟩ <;> first | decide | contradiction⟩
    | some ver =>
      by_cases hver : ver = .posInt 1
      case neg =>
        simp only [if_pos (asU64_ver_iff.mpr hver)]
        exact ⟨.verUnsupported hver, by rintro _ ⟨⟩ <;> first | decide | contradiction⟩
      have hone : ¬ ver.asU64 ≠ some PSEUDONYM_VER := asU64_ver_iff.not.mpr (not_not.mpr hver)
      simp only [if_neg hone]
      cases prf with
      | none => exact ⟨.prfMissing, by rintro _ ⟨⟩ <;> first | decide | contradiction⟩
      | some prf =>
        by_cases hprf : PrfDefined format config prf
        case neg =>
          have hbad := hprf
          rw [prfDefined_iff hformat, Bool.not_eq_true] at hbad
          simp only [hbad, Bool.not_false, if_true]
          exact ⟨.prfUnsupported hprf, by rintro _ ⟨⟩ <;> first | decide | contradiction⟩
        have hgood := (prfDefined_iff hformat).mp hprf
        simp only [hgood, Bool.not_true, Bool.false_eq_true, if_false]
        by_cases hcontext : ContextFits config context
        case neg =>
          cases context with
          | none =>
            rw [if_neg (contextFits_none.not.mp hcontext)]
            exact ⟨.context hcontext, by rintro _ ⟨⟩ <;> first | decide | contradiction⟩
          | some c =>
            rw [if_neg (contextFits_some.not.mp hcontext)]
            exact ⟨.context hcontext, by rintro _ ⟨⟩ <;> first | decide | contradiction⟩
        cases context with
        | none =>
          rw [if_pos (contextFits_none.mp hcontext)]
          rintro _ ⟨⟩ <;> contradiction
        | some c =>
          rw [if_pos (contextFits_some.mp hcontext)]
          rintro _ ⟨⟩ <;> contradiction

/-- A text writes one date. -/
theorem date_of_text {s : String} {a b : Day} (ha : utf8 s = a.text) (hb : utf8 s = b.text) :
    a.date = b.date :=
  Date.number_injective (Option.some.inj ((dayNumber_text ha).symm.trans (dayNumber_text hb)))

theorem span_short_iff {a b : Date} :
    (Date.span a b).ncard < 365 ↔ b.number - a.number + 1 < MIN_AGE_SPAN_DAYS := by
  rw [Date.ncard_span]
  unfold MIN_AGE_SPAN_DAYS
  omega

theorem checkAge_first {ge le : Option String} (hge : ∀ s ∈ ge, ∃ d : Day, utf8 s = d.text)
    (hle : ∀ s ∈ le, ∃ d : Day, utf8 s = d.text) :
    FirstOf (AgeBroken ge le) (checkAge ge le) := by
  cases ge with
  | none =>
    cases le with
    | none => exact ⟨.noBound, by rintro _ ⟨⟩; decide⟩
    | some le => rintro _ ⟨⟩
  | some ge =>
    cases le with
    | none => rintro _ ⟨⟩
    | some le =>
      obtain ⟨a, ha⟩ := hge ge rfl
      obtain ⟨b, hb⟩ := hle le rfl
      simp only [checkAge, dayNumber_text ha, dayNumber_text hb]
      split_ifs with hinverted hshort
      · refine ⟨.inverted ha hb (Date.number_lt_iff.mp hinverted), ?_⟩
        rintro _ ⟨⟩ <;> decide
      · refine ⟨.spanTooShort ha hb (span_short_iff.mpr hshort), ?_⟩
        rintro _ (_ | ⟨ha', hb', hlt⟩)
        · rw [date_of_text ha' ha, date_of_text hb' hb, ← Date.number_lt_iff] at hlt
          exact absurd hlt hinverted
        · decide
      · rintro _ (_ | ⟨ha', hb', hlt⟩ | ⟨ha', hb', hlt⟩)
        · rw [date_of_text ha' ha, date_of_text hb' hb, ← Date.number_lt_iff] at hlt
          exact hinverted hlt
        · rw [date_of_text ha' ha, date_of_text hb' hb, span_short_iff] at hlt
          exact hshort hlt

/-- The arm of the loop for a function, with whether a `pseudonym` and an `age_check` were seen. -/
def checkItem (bbs pseudonym ageCheck : Bool) (function : PlannedFunction) :
    Except Unsatisfiable Unit :=
  match function.params with
  | .unknown _ => .error .functionUnknown
  | .pseudonym config ver prf verifierContext _ =>
    if pseudonym then .error .pseudonymRepeated
    else checkPseudonym bbs config ver prf verifierContext
  | .ageCheck ge le _ => if ageCheck then .error .ageCheckRepeated else checkAge ge le

theorem checkFunctions_cons {bbs pseudonym ageCheck : Bool} {f : PlannedFunction}
    {functions : List PlannedFunction} (hf : Carries f) :
    checkFunctions bbs pseudonym ageCheck (f :: functions) =
      checkItem bbs pseudonym ageCheck f >>= fun _ =>
        checkFunctions bbs (pseudonym || f.functionId == "pseudonym")
          (ageCheck || f.functionId == "age_check") functions := by
  cases hf with
  | pseudonym handle config ver prf context extra =>
    cases pseudonym with
    | true => rfl
    | false =>
      simp only [checkFunctions, checkItem, Bool.false_eq_true, if_false]
      cases checkPseudonym bbs config ver prf context <;> simp [bind, Except.bind]
  | ageCheck handle ge le extra =>
    cases ageCheck with
    | true => rfl
    | false =>
      simp only [checkFunctions, checkItem, Bool.false_eq_true, if_false]
      cases checkAge ge le <;> simp [bind, Except.bind]
  | unknown functionId handle map => rfl

/-- A function was seen among the items before. -/
def seen (functionId : String) (earlier : List PlannedFunction) : Bool :=
  earlier.any fun f => f.functionId == functionId

theorem seen_iff {functionId : String} {earlier : List PlannedFunction} :
    seen functionId earlier = true ↔ ∃ g ∈ earlier, g.functionId = functionId := by
  simp [seen]

theorem FirstOf.congr {broken broken' : Unsatisfiable → Prop} {r : Except Unsatisfiable Unit}
    (hsame : ∀ e, broken' e ↔ broken e) (h : FirstOf broken r) : FirstOf broken' r := by
  cases r with
  | ok _ => exact fun e he => h e ((hsame e).mp he)
  | error e => exact ⟨(hsame e).mpr h.1, fun e' he' => h.2 e' ((hsame e').mp he')⟩

/-- A rule that comes before the others. -/
theorem FirstOf.guard {c : Prop} [Decidable c] {e₀ : Unsatisfiable}
    {broken rest : Unsatisfiable → Prop} {r : Except Unsatisfiable Unit}
    (hbroken : ∀ e, broken e ↔ e = e₀ ∧ c ∨ rest e) (hrow : ∀ e, rest e → e₀.row ≤ e.row)
    (hr : ¬ c → FirstOf rest r) : FirstOf broken (if c then .error e₀ else r) := by
  split
  · next hc =>
    refine ⟨(hbroken e₀).mpr (.inl ⟨rfl, hc⟩), fun e he => ?_⟩
    rcases (hbroken e).mp he with ⟨rfl, _⟩ | he
    · exact Nat.le_refl _
    · exact hrow e he
  · next hc => exact (hr hc).congr fun e => by simp [hbroken e, hc]

theorem checkItem_first {format : String} (hformat : format ∈ [SOURCE_MSO_MDOC, SOURCE_BBS_CD])
    {f : PlannedFunction} (hf : Carries f) (earlier : List PlannedFunction) :
    FirstOf (ItemBroken format earlier f)
      (checkItem (format == SOURCE_BBS_CD) (seen "pseudonym" earlier) (seen "age_check" earlier)
        f) := by
  have hpseudonym : "pseudonym" ∈ ["pseudonym", "age_check"] := by decide
  have hage : "age_check" ∈ ["pseudonym", "age_check"] := by decide
  have hne : "pseudonym" ≠ "age_check" := by decide
  cases hf with
  | pseudonym handle config ver prf context extra =>
    refine FirstOf.guard (fun e => ?_) ?_ fun _ =>
      checkPseudonym_first hformat config ver prf context
    · constructor
      · rintro (hunknown | ⟨-, hg, hid⟩ | ⟨hid, _⟩ | ⟨_, hparams, hbroken⟩ | ⟨hid, _⟩)
        · exact absurd hpseudonym hunknown
        · exact .inl ⟨rfl, seen_iff.mpr ⟨_, hg, hid⟩⟩
        · exact absurd hid hne
        · cases hparams
          exact .inr hbroken
        · exact absurd hid hne
      · rintro (⟨rfl, hseen⟩ | hbroken)
        · obtain ⟨g, hg, hid⟩ := seen_iff.mp hseen
          exact .pseudonymRepeated rfl hg hid
        · exact .pseudonym rfl rfl hbroken
    · rintro _ ⟨⟩ <;> decide
  | ageCheck handle ge le extra hge hle =>
    refine FirstOf.guard (fun e => ?_) ?_ fun _ => checkAge_first hge hle
    · constructor
      · rintro (hunknown | ⟨hid, _⟩ | ⟨-, hg, hid⟩ | ⟨hid, _⟩ | ⟨_, hparams, hbroken⟩)
        · exact absurd hage hunknown
        · exact absurd hid hne.symm
        · exact .inl ⟨rfl, seen_iff.mpr ⟨_, hg, hid⟩⟩
        · exact absurd hid hne.symm
        · cases hparams
          exact .inr hbroken
      · rintro (⟨rfl, hseen⟩ | hbroken)
        · obtain ⟨g, hg, hid⟩ := seen_iff.mp hseen
          exact .ageCheckRepeated rfl hg hid
        · exact .ageCheck rfl rfl hbroken
    · rintro _ ⟨⟩ <;> decide
  | unknown functionId handle map hid =>
    refine ⟨.unknown hid, ?_⟩
    rintro _ (_ | ⟨rfl, _⟩ | ⟨rfl, _⟩ | ⟨_, hparams, _⟩ | ⟨_, hparams, _⟩)
    · decide
    · exact absurd hpseudonym hid
    · exact absurd hage hid
    · cases hparams
    · cases hparams

/-- The part of `unsatisfiable` before the functions. -/
def checkRequest (plan : Plan) : Except Unsatisfiable Unit :=
  if plan.sourceFormat ∉ [SOURCE_MSO_MDOC, SOURCE_BBS_CD] then .error .sourceFormatUnsupported
  else checkMeta (plan.sourceFormat == SOURCE_BBS_CD) plan

theorem unsatisfiable_eq (plan : Plan) :
    unsatisfiable plan = checkRequest plan >>= fun _ =>
      checkFunctions (plan.sourceFormat == SOURCE_BBS_CD) false false plan.functions := by
  unfold unsatisfiable checkRequest
  simp only [List.mem_cons, List.not_mem_nil, or_false, not_or, ne_eq]
  split
  · rfl
  · cases checkMeta (plan.sourceFormat == SOURCE_BBS_CD) plan <;> rfl

theorem hasTypeValue_iff {plan : Plan}
    (hformat : plan.sourceFormat ∈ [SOURCE_MSO_MDOC, SOURCE_BBS_CD]) :
    HasTypeValue plan ↔
      (if plan.sourceFormat == SOURCE_BBS_CD then
        plan.metaSchemaId.isSome && plan.metaDoctype.isNone
      else plan.metaDoctype.isSome && plan.metaSchemaId.isNone) = true := by
  unfold HasTypeValue
  simp only [List.mem_cons, List.not_mem_nil, or_false] at hformat
  rcases hformat with h | h
  · simp [h, SOURCE_MSO_MDOC, SOURCE_BBS_CD, Option.isSome_iff_ne_none]
  · simp [h, SOURCE_MSO_MDOC, SOURCE_BBS_CD, Option.isSome_iff_ne_none]

theorem checkRequest_first (plan : Plan) : FirstOf (RequestBroken plan) (checkRequest plan) := by
  by_cases hformat : plan.sourceFormat ∈ [SOURCE_MSO_MDOC, SOURCE_BBS_CD]
  case neg =>
    rw [checkRequest, if_pos hformat]
    exact ⟨.sourceFormat hformat, by rintro _ ⟨⟩ <;> decide⟩
  rw [checkRequest, if_neg (not_not.mpr hformat)]
  let waived := plan.raw.get "require_cryptographic_holder_binding" = some (.bool false)
  refine @FirstOf.guard _ _ _ _ (fun e => e = .holderBindingWaived ∧ waived) _
    (fun e => ?_) ?_ fun _ => ?_
  · rw [Bool.or_eq_true, Bool.not_eq_true', ← Bool.not_eq_true, ← hasTypeValue_iff hformat,
      Option.isSome_iff_exists]
    constructor
    · rintro (hunsupported | htype | ⟨hmeta, hvct⟩ | hwaived)
      · exact absurd hformat hunsupported
      · exact .inl ⟨rfl, .inl htype⟩
      · exact .inl ⟨rfl, .inr ⟨_, Option.bind_eq_some_iff.mpr ⟨_, hmeta, hvct⟩⟩⟩
      · exact .inr ⟨rfl, hwaived⟩
    · rintro (⟨rfl, htype | ⟨vct, hvct⟩⟩ | ⟨rfl, hwaived⟩)
      · exact .typeValue htype
      · obtain ⟨m, hmeta, hvct⟩ := Option.bind_eq_some_iff.mp hvct
        exact .vctValues hmeta hvct
      · exact .holderBinding hwaived
  · rintro _ ⟨rfl, _⟩
    decide
  · split
    · next hwaived =>
      refine ⟨⟨rfl, hwaived⟩, ?_⟩
      rintro _ ⟨rfl, _⟩
      decide
    · next hkept =>
      rintro _ ⟨_, hwaived⟩
      exact hkept hwaived

/-! ## 4. The whole check -/

/-- The rules at their places: the part, and the row of the table. -/
def brokenAt (plan : Plan) (place : ℕ ×ₗ ℕ) (e : Unsatisfiable) : Prop :=
  Broken plan (ofLex place).1 e ∧ (ofLex place).2 = e.row

theorem checks_part {plan : Plan} {i : Nat} {r : Except Unsatisfiable Unit}
    (h : FirstOf (Broken plan i) r) :
    Checks (brokenAt plan) (toLex (i, 0)) r (toLex (i + 1, 0)) := by
  intro hclear
  cases r with
  | error e =>
    refine ⟨toLex (i, e.row), ⟨h.1, rfl⟩, fun place e' he' => ?_⟩
    rcases Prod.Lex.le_iff.mp (hclear place e' he') with hlt | ⟨heq, _⟩
    · exact Prod.Lex.le_iff.mpr (.inl hlt)
    · obtain ⟨hbroken, hrow⟩ := he'
      rw [← heq] at hbroken
      exact Prod.Lex.le_iff.mpr (.inr ⟨heq, hrow ▸ h.2 e' hbroken⟩)
  | ok _ =>
    refine hclear.move fun place e he hle => ?_
    rcases Prod.Lex.le_iff.mp hle with hlt | ⟨heq, _⟩
    · rcases Nat.lt_or_eq_of_le (Nat.succ_le_of_lt hlt) with hlt | heq
      · exact Prod.Lex.le_iff.mpr (.inl hlt)
      · exact Prod.Lex.le_iff.mpr (.inr ⟨heq, Nat.zero_le _⟩)
    · have hbroken := he.1
      rw [← heq] at hbroken
      exact absurd hbroken (h e)

theorem broken_request_iff {plan : Plan} {e : Unsatisfiable} :
    Broken plan 0 e ↔ RequestBroken plan e := by
  constructor
  · rintro ⟨h⟩
    exact h
  · exact .request

theorem broken_item_iff {plan : Plan} {i : Nat} {f : PlannedFunction} {e : Unsatisfiable}
    (hf : plan.functions[i]? = some f) :
    Broken plan (i + 1) e ↔ ItemBroken plan.sourceFormat (plan.functions.take i) f e := by
  constructor
  · intro h
    cases h with
    | item hg hbroken =>
      cases hf.symm.trans hg
      exact hbroken
  · exact .item hf

theorem checks_functions {plan : Plan}
    (hformat : plan.sourceFormat ∈ [SOURCE_MSO_MDOC, SOURCE_BBS_CD])
    (hcarries : ∀ f ∈ plan.functions, Carries f) {earlier functions : List PlannedFunction}
    (hsplit : plan.functions = earlier ++ functions) :
    Checks (brokenAt plan) (toLex (earlier.length + 1, 0))
      (checkFunctions (plan.sourceFormat == SOURCE_BBS_CD) (seen "pseudonym" earlier)
        (seen "age_check" earlier) functions)
      (toLex (plan.functions.length + 1, 0)) := by
  induction functions generalizing earlier with
  | nil =>
    rw [hsplit, List.append_nil]
    exact Checks.ok id ()
  | cons f functions ih =>
    have hf : Carries f := hcarries f (by rw [hsplit]; simp)
    have hget : plan.functions[earlier.length]? = some f := by rw [hsplit]; simp
    have htake : plan.functions.take earlier.length = earlier := by rw [hsplit]; simp
    have hsame : ∀ e, Broken plan (earlier.length + 1) e ↔
        ItemBroken plan.sourceFormat earlier f e := fun e => by
      rw [broken_item_iff hget, htake]
    have hitem := (checkItem_first hformat hf earlier).congr hsame
    rw [checkFunctions_cons hf]
    refine Checks.bind (checks_part hitem) fun _ _ => ?_
    have hrest := @ih (earlier ++ [f]) (by rw [hsplit, List.append_assoc]; rfl)
    rw [List.length_append, List.length_singleton] at hrest
    simpa [seen, List.any_append] using hrest

theorem checks_unsatisfiable {plan : Plan} (hcarries : ∀ f ∈ plan.functions, Carries f) :
    Checks (brokenAt plan) (toLex (0, 0)) (unsatisfiable plan)
      (toLex (plan.functions.length + 1, 0)) := by
  have hrequest := (checkRequest_first plan).congr fun e => broken_request_iff
  rw [unsatisfiable_eq]
  refine Checks.bind (checks_part hrequest) fun _ hok => ?_
  have hformat : plan.sourceFormat ∈ [SOURCE_MSO_MDOC, SOURCE_BBS_CD] := by
    by_contra hformat
    rw [checkRequest, if_pos hformat] at hok
    cases hok
  exact checks_functions hformat hcarries (List.nil_append _).symm

/-- Each code has a row of its own. -/
theorem row_injective : Function.Injective Unsatisfiable.row := by
  have hmem : ∀ e, e ∈ UNSATISFIABLE := by
    intro e
    cases e <;> decide
  intro e e' h
  exact (List.idxOf_inj (hmem e)).mp h

/-- No rule stands after the last item. -/
theorem brokenAt_lt {plan : Plan} {place : ℕ ×ₗ ℕ} {e : Unsatisfiable}
    (h : brokenAt plan place e) : ¬ toLex (plan.functions.length + 1, 0) ≤ place := by
  have hpart : (ofLex place).1 < plan.functions.length + 1 := by
    obtain ⟨hbroken, -⟩ := h
    generalize (ofLex place).1 = i at hbroken
    cases hbroken with
    | request => exact Nat.succ_pos _
    | item hf => exact Nat.succ_lt_succ (List.getElem?_eq_some_iff.mp hf).1
  intro hle
  rcases Prod.Lex.le_iff.mp hle with hlt | ⟨heq, -⟩
  · exact Nat.lt_asymm hlt hpart
  · exact Nat.ne_of_gt hpart heq

/-- A plan is satisfiable exactly when it breaks no rule of the table; otherwise the error is
that of the first broken one, the request before the items, the items in their order, and the
rules about each in the order of the table. -/
theorem unsatisfiable_exact {sj : SerdeJson} {text : String} {clientMetadata : Option String}
    {p : Plan} (hplan : plan sj text clientMetadata = .ok p) :
    (unsatisfiable p = .ok () ↔ ∀ i e, ¬ Broken p i e) ∧
    ∀ e, unsatisfiable p = .error e ↔
      ∃ i, Broken p i e ∧ ∀ i' e', Broken p i' e' → i < i' ∨ i = i' ∧ e.row ≤ e'.row := by
  have hstart : Clear (brokenAt p) (toLex (0, 0)) := fun place e _ => by
    rcases Nat.eq_zero_or_pos (ofLex place).1 with heq | hpos
    · exact Prod.Lex.le_iff.mpr (.inr ⟨heq.symm, Nat.zero_le _⟩)
    · exact Prod.Lex.le_iff.mpr (.inl hpos)
  have houtcome := checks_unsatisfiable (carries_of_plan hplan) hstart
  have hend : ∀ place e, brokenAt p place e → ¬ toLex (p.functions.length + 1, 0) ≤ place :=
    fun _ _ => brokenAt_lt
  constructor
  · have hbroken := houtcome.broken_iff hend
    constructor
    · intro hok i e he
      obtain ⟨e', herror⟩ := hbroken.mpr ⟨toLex (i, e.row), e, he, rfl⟩
      rw [hok] at herror
      cases herror
    · intro hnone
      cases hresult : unsatisfiable p with
      | ok _ => rfl
      | error e =>
        obtain ⟨place, e', he', -⟩ := hbroken.mp ⟨e, hresult⟩
        exact absurd he' (hnone _ e')
  · intro e
    rw [houtcome.error_iff hend (fun place e e' he he' => row_injective (he.2.symm.trans he'.2))]
    constructor
    · rintro ⟨place, ⟨hbroken, hrow⟩, hfirst⟩
      refine ⟨(ofLex place).1, hbroken, fun i' e' he' => ?_⟩
      rw [← hrow]
      exact Prod.Lex.le_iff.mp (hfirst (toLex (i', e'.row)) e' ⟨he', rfl⟩)
    · rintro ⟨i, hbroken, hfirst⟩
      refine ⟨toLex (i, e.row), ⟨hbroken, rfl⟩, fun place e' he' => ?_⟩
      exact Prod.Lex.le_iff.mpr (he'.2 ▸ hfirst _ e' he'.1)

/-- An age range of 364 days, with a leap day in it, before a function that is not defined. -/
def shortAge : Value :=
  .ofMembers
    [("meta", .ofMembers [("source_format", .string SOURCE_MSO_MDOC),
       ("doctype_value", .string "nym")]),
     ("_req", .array
       [.ofMembers
          [("fn_id", .string "age_check"), ("return", .string "age"),
           ("params", .ofMembers [("ge", .string "2007-10-10"), ("le", .string "2008-10-07")])],
        .ofMembers [("fn_id", .string "income_check"), ("return", .string "income")]])]

theorem unsatisfiable_exact_shortAge :
    ∃ p, plan (.ofValues [shortAge]) shortAge.compact none = .ok p ∧
      ∃ i, Broken p i .ageCheckSpanTooShort ∧ ∀ i' e', Broken p i' e' →
        i < i' ∨ i = i' ∧ Unsatisfiable.ageCheckSpanTooShort.row ≤ e'.row := by
  have hshort : (plan (.ofValues [shortAge]) shortAge.compact none).toOption.map unsatisfiable =
      some (.error .ageCheckSpanTooShort) := by decide +kernel
  obtain ⟨p, hp, hshort⟩ := exists_ok_of_toOption hshort
  exact ⟨p, hp, ((unsatisfiable_exact hp).2 _).mp hshort⟩

end Rulebook

end DcMatcher
