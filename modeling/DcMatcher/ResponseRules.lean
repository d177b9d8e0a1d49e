import DcMatcher.CborItems
import DcMatcher.Response

/-!
# What a response has to be

The rules of `zkp_req_response.md`, stated on the data items the presentations encode,
with no order of checks. `ResponseRules` says when a `vp_token` carries given
presentations for a plan.

Results:
1. `checkResults_ok`, `checkMembers_ok`: the checks of a presentation accept exactly
   what the rules allow, once no key occurs twice.
2. `checkPresentation_ok`: with the decoders before them, exactly what encodes it.
3. `parseResponse_ok_iff`: a response is accepted, with these presentations, if and only
   if the rules hold.
-/

namespace DcMatcher

open Lists Rfc8949

/-! ## 1. The rules -/

/-- The entries of a map whose keys are texts. -/
def textKeyed (members : List (String × Cbor)) : List (Cbor × Cbor) :=
  members.map fun m => (.text m.1, m.2)

/-- The value of a result, by its function: a pseudonym of the length its `prf` sets, or
`true`. A function without a result shape has no value. -/
inductive ValueRule : Params → Cbor → ResultValue → Prop
  | sha256 {config : Option String} {ver : Option Number} {context : Option String} {extra : Map}
      {bytes : List UInt8} : bytes.length = 32 →
      ValueRule (.pseudonym config ver (some "sha-256") context extra) (.bytes bytes)
        (.pseudonym bytes)
  | hashdh {config : Option String} {ver : Option Number} {context : Option String} {extra : Map}
      {bytes : List UInt8} : bytes.length = 48 →
      ValueRule (.pseudonym config ver (some "hashdh-bls12381g1") context extra) (.bytes bytes)
        (.pseudonym bytes)
  | age {ge le : Option String} {extra : Map} :
      ValueRule (.ageCheck ge le extra) (.bool true) .predicate

/-- The handles are those of the request, and each function has its value. -/
structure ResultsRule (plan : Plan) (members : List (String × Cbor))
    (results : List (String × ResultValue)) : Prop where
  handles : ∀ handle, handle ∈ members.map Prod.fst ↔ handle ∈ plan.functions.map (·.handle)
  values : List.Forall₂ (fun f r => r.1 = f.handle ∧
    ∃ v, (f.handle, v) ∈ members ∧ ValueRule f.params v r.2) plan.functions results

/-- `proof_time` is the text of a real instant with tag 0; only another source format than
`mso_mdoc` can do without. -/
def ProofTimeRule (plan : Plan) (members : List (String × Cbor)) : Option String → Prop
  | none => "proof_time" ∉ members.map Prod.fst ∧ plan.sourceFormat ≠ SOURCE_MSO_MDOC
  | some text => ("proof_time", .tag 0 (.text text)) ∈ members ∧
      ∃ t : Calendar.Instant, utf8 text = t.text

/-- The members of a presentation. -/
structure MembersRule (plan : Plan) (members : List (String × Cbor)) (p : Presentation) : Prop where
  known : ∀ m ∈ members,
    m.1 ∈ ["system_id", "proof", "issuer_key_set", "proof_time", "results"]
  systemId : ("system_id", .text p.systemId) ∈ members
  offered : ∃ ids, plan.systemFilter.systemIds = some ids ∧ p.systemId ∈ ids
  proof : ("proof", .bytes p.proof) ∈ members
  proof_ne : p.proof ≠ []
  issuerKeySet : ("issuer_key_set", .array (p.issuerKeySet.map .bytes)) ∈ members
  issuerKeySet_length : 1 ≤ p.issuerKeySet.length ∧ p.issuerKeySet.length ≤ 8
  issuerKey_length : ∀ key ∈ p.issuerKeySet, 1 ≤ key.length ∧ key.length ≤ 4096
  proofTime : ProofTimeRule plan members p.proofTime
  results : ∃ results, ("results", .map (textKeyed results)) ∈ members ∧
    ResultsRule plan results p.results

/-- An element of the entry: canonical unpadded base64url, within the input limit, of the
encoding of a data item with the members of a presentation. The encoding has definite
lengths only, at most 16 levels below the item, no key twice, and nothing after it. -/
structure PresentationRules (plan : Plan) (element : Document) (p : Presentation) : Prop where
  encoded : ∃ text bytes D members, element = .string text ∧ byteLen text ≤ 2 * 1024 * 1024 ∧
    Rfc4648.encode bytes = utf8 text ∧ Encodes D bytes ∧ D.levels ≤ 16 + 1 ∧ D.DistinctKeys ∧
    Cbor.ofItem D = .map (textKeyed members) ∧ MembersRule plan members p

/-- A `vp_token` that answers a plan with these presentations. -/
structure ResponseRules (sj : SerdeJson) (plan : Plan) (vpToken : String)
    (presentations : List Presentation) : Prop where
  answered : ∃ token queryId elements, sj.events (utf8 vpToken) = some (.object token) ∧
    (token.map Prod.fst).Nodup ∧ plan.raw.get "id" = some (.string queryId) ∧
    (queryId, .array elements) ∈ token ∧ elements ≠ [] ∧
    (1 < elements.length → plan.raw.get "multiple" = some (.bool true)) ∧
    List.Forall₂ (PresentationRules plan) elements presentations

/-! ## 2. Members by name -/

section Members

variable {members : List (String × Cbor)}

theorem collect_named {entries : List (Cbor × Cbor)} :
    collect named entries = some members ↔ entries = textKeyed members := by
  have hnamed : ∀ (e : Cbor × Cbor) (m : String × Cbor),
      named e = some m ↔ e = (.text m.1, m.2) := by
    rintro ⟨key, value⟩ ⟨name, value'⟩
    cases key <;> simp [named]
  rw [collect_eq_some, textKeyed]
  simp only [hnamed]
  constructor
  · intro h
    induction h with
    | nil => rfl
    | cons he _ ih => rw [he, ih, List.map_cons]
  · rintro rfl
    induction members with
    | nil => exact .nil
    | cons m members ih => exact .cons rfl ih

theorem findMember_eq_some (hn : (members.map Prod.fst).Nodup) {name : String} {v : Cbor} :
    findMember members name = some v ↔ (name, v) ∈ members := by
  unfold findMember
  constructor
  · intro h
    obtain ⟨m, hm, rfl⟩ := Option.map_eq_some_iff.mp h
    have hname : m.1 = name := by simpa using List.find?_some hm
    rw [← hname]
    exact List.mem_of_find?_eq_some hm
  · intro h
    have hfound : members.find? (fun m => m.1 == name) = some (name, v) :=
      find?_key_of_mem hn h
    rw [hfound]
    rfl

theorem findMember_eq_none {name : String} :
    findMember members name = none ↔ name ∉ members.map Prod.fst := by
  unfold findMember
  rw [Option.map_eq_none_iff, List.find?_eq_none]
  constructor
  · intro h hmem
    obtain ⟨m, hm, hname⟩ := List.mem_map.mp hmem
    exact h m hm (beq_iff_eq.mpr hname)
  · intro h m hm hname
    exact h (List.mem_map.mpr ⟨m, hm, beq_iff_eq.mp hname⟩)

theorem noRepeat_textKeyed : (Cbor.map (textKeyed members)).NoRepeat ↔
    (members.map Prod.fst).Nodup ∧ ∀ m ∈ members, m.2.NoRepeat := by
  have hkeys : (textKeyed members).Pairwise (fun a b => (a.1 == b.1) = false) ↔
      (members.map Prod.fst).Nodup := by
    rw [textKeyed, List.pairwise_map, List.Nodup, List.pairwise_map]
    have hne : ∀ a b : String × Cbor,
        ((Cbor.text a.1 == Cbor.text b.1) = false ↔ a.1 ≠ b.1) := fun a b => by
      show (a.1 == b.1) = false ↔ _
      simp
    simp only [hne]
  have hvalues : Cbor.NoRepeatInEntries (textKeyed members) ↔ ∀ m ∈ members, m.2.NoRepeat := by
    rw [Cbor.noRepeatInEntries_iff, textKeyed, List.forall_mem_map]
    exact forall₂_congr fun m _ => ⟨fun h => h.2, fun h => ⟨trivial, h⟩⟩
  exact and_congr hkeys hvalues

theorem plain_textKeyed :
    (Cbor.map (textKeyed members)).Plain ↔ ∀ m ∈ members, m.2.Plain := by
  show Cbor.PlainEntries _ ↔ _
  rw [Cbor.plainEntries_iff, textKeyed, List.forall_mem_map]
  exact forall₂_congr fun m _ => ⟨fun h => h.2, fun h => ⟨trivial, h⟩⟩

/-- With distinct names, a name has one value. -/
theorem value_unique (hn : (members.map Prod.fst).Nodup) {name : String} {v w : Cbor}
    (hv : (name, v) ∈ members) (hw : (name, w) ∈ members) : v = w :=
  Option.some.inj (((findMember_eq_some hn).mpr hv).symm.trans ((findMember_eq_some hn).mpr hw))

end Members

/-! ## 3. The checks accept what the rules allow -/

theorem checkIssuerKey_ok {index : Nat} {c : Cbor} {key : List UInt8} :
    checkIssuerKey index c = .ok key ↔
      c = .bytes key ∧ 1 ≤ key.length ∧ key.length ≤ 4096 := by
  cases c with
  | bytes bs =>
    show (if bs.isEmpty then Except.error (InvalidResponse.issuerKeyEmpty index)
      else if bs.length > 4096 then .error (.issuerKeyTooLarge index) else .ok bs) = _ ↔ _
    constructor
    · intro h
      split_ifs at h with hempty hlarge
      cases h
      exact ⟨rfl, List.length_pos_iff.mpr (by simpa using hempty), Nat.le_of_not_gt hlarge⟩
    · rintro ⟨h, hpos, hfits⟩
      cases h
      rw [if_neg (by simpa using List.length_pos_iff.mp hpos),
        if_neg (Nat.not_lt_of_ge hfits)]
  | _ => simp [checkIssuerKey]

theorem checkIssuerKeySet_ok {index : Nat} {keys : List Cbor} {out : List (List UInt8)} :
    checkIssuerKeySet index keys = .ok out ↔
      keys = out.map .bytes ∧ (1 ≤ out.length ∧ out.length ≤ 8) ∧
        ∀ key ∈ out, 1 ≤ key.length ∧ key.length ≤ 4096 := by
  have hall : collectOk (checkIssuerKey index) keys = .ok out ↔
      keys = out.map .bytes ∧ ∀ key ∈ out, 1 ≤ key.length ∧ key.length ≤ 4096 := by
    rw [collectOk_eq_ok]
    simp only [checkIssuerKey_ok]
    constructor
    · intro h
      induction h with
      | nil => exact ⟨rfl, by simp⟩
      | cons hkey _ ih =>
        rw [hkey.1, ih.1, List.map_cons, List.forall_mem_cons]
        exact ⟨rfl, hkey.2, ih.2⟩
    · rintro ⟨rfl, hsize⟩
      induction out with
      | nil => exact .nil
      | cons key out ih =>
        rw [List.forall_mem_cons] at hsize
        exact .cons ⟨rfl, hsize.1⟩ (ih hsize.2)
  have hlength : keys = out.map .bytes → keys.length = out.length := fun h => by
    rw [h, List.length_map]
  unfold checkIssuerKeySet ISSUER_KEY_SET_MAX
  constructor
  · intro h
    split at h
    · cases h
    · next hsome =>
      split at h
      · cases h
      · next hfew =>
        obtain ⟨hkeys, hsize⟩ := hall.mp h
        have hlen := hlength hkeys
        have hpos := List.length_pos_iff.mpr (by simpa using hsome : keys ≠ [])
        exact ⟨hkeys, ⟨by omega, by omega⟩, hsize⟩
  · rintro ⟨hkeys, ⟨hpos, hfew⟩, hsize⟩
    have hlen := hlength hkeys
    have hsome : keys ≠ [] := List.ne_nil_of_length_pos (by omega)
    rw [if_neg (by simpa using hsome), if_neg (by omega), hall]
    exact ⟨hkeys, hsize⟩

theorem checkProofTime_ok {plan : Plan} {index : Nat} {members : List (String × Cbor)}
    (hn : (members.map Prod.fst).Nodup) {time : Option String} :
    checkProofTime plan index (findMember members "proof_time") = .ok time ↔
      ProofTimeRule plan members time := by
  cases hitem : findMember members "proof_time" with
  | none =>
    -- absent: right for every source format but `mso_mdoc`
    have habsent := findMember_eq_none.mp hitem
    unfold checkProofTime
    constructor
    · intro h
      split_ifs at h with hmdoc
      cases h
      exact ⟨habsent, hmdoc⟩
    · intro h
      cases time with
      | none => exact if_neg h.2
      | some text => exact absurd (List.mem_map.mpr ⟨_, h.1, rfl⟩) habsent
  | some c =>
    have hmem := (findMember_eq_some hn).mp hitem
    have hpresent : "proof_time" ∈ members.map Prod.fst := List.mem_map.mpr ⟨_, hmem, rfl⟩
    constructor
    · intro h
      unfold checkProofTime at h
      split at h
      · cases ‹some c = none›
      · next text hc =>
        cases Option.some.inj hc
        split at h
        · cases h
        · next secs hparse =>
          cases h
          exact ⟨hmem, ProofTime.parse_ok_iff.mp ⟨secs, hparse⟩⟩
      · cases h
    · intro h
      cases time with
      | none => exact absurd hpresent h.1
      | some text =>
        obtain ⟨htext, hinstant⟩ := h
        cases value_unique hn hmem htext
        obtain ⟨secs, hparse⟩ := ProofTime.parse_ok_iff.mpr hinstant
        simp only [checkProofTime, hparse]

/-- The length of a pseudonym is set by the `prf`, and by nothing else. -/
theorem pseudonymLength_eq_some {prf : Option String} {n : Nat} :
    pseudonymLength prf = some n ↔
      (prf = some "sha-256" ∧ n = 32) ∨ (prf = some "hashdh-bls12381g1" ∧ n = 48) := by
  unfold pseudonymLength
  split
  · simp [PSEUDONYM_LEN_SHA256, eq_comm]
  · simp [PSEUDONYM_LEN_HASHDH, eq_comm]
  · next hsha hhash =>
    constructor
    · intro h
      cases h
    · rintro (⟨h, -⟩ | ⟨h, -⟩)
      · exact absurd h hsha
      · exact absurd h hhash

theorem checkValue_ok {handle : String} {params : Params} {c : Cbor} {r : ResultValue} :
    checkValue handle params c = .ok r ↔ ValueRule params c r := by
  cases params with
  | pseudonym config ver prf context extra =>
    constructor
    · intro h
      unfold checkValue at h
      simp only at h
      split at h
      · cases h
      · next n hlength =>
        split at h
        · next bytes =>
          split_ifs at h with hwrong
          cases h
          rcases pseudonymLength_eq_some.mp hlength with ⟨rfl, rfl⟩ | ⟨rfl, rfl⟩
          · exact .sha256 (not_not.mp hwrong)
          · exact .hashdh (not_not.mp hwrong)
        · cases h
    · intro h
      cases h with
      | sha256 hlength => simp [checkValue, pseudonymLength, PSEUDONYM_LEN_SHA256, hlength]
      | hashdh hlength => simp [checkValue, pseudonymLength, PSEUDONYM_LEN_HASHDH, hlength]
  | ageCheck ge le extra =>
    constructor
    · intro h
      unfold checkValue at h
      simp only at h
      split at h
      · cases h
        exact .age
      · cases h
      · cases h
    · intro h
      cases h
      rfl
  | unknown map =>
    constructor
    · intro h
      cases h
    · intro h
      cases h

section Results

variable {plan : Plan} {index : Nat} {members : List (String × Cbor)}

theorem checkFunction_ok (hn : (members.map Prod.fst).Nodup) {f : PlannedFunction}
    {r : String × ResultValue} :
    checkFunction members f = .ok r ↔
      r.1 = f.handle ∧ ∃ v, (f.handle, v) ∈ members ∧ ValueRule f.params v r.2 := by
  unfold checkFunction
  cases hfound : findMember members f.handle with
  | none =>
    have habsent := findMember_eq_none.mp hfound
    constructor
    · intro h
      cases h
    · rintro ⟨-, v, hv, -⟩
      exact absurd (List.mem_map.mpr ⟨_, hv, rfl⟩) habsent
  | some c =>
    have hmem := (findMember_eq_some hn).mp hfound
    constructor
    · intro h
      obtain ⟨value, hvalue, rfl⟩ := map_eq_ok.mp h
      exact ⟨rfl, c, hmem, checkValue_ok.mp hvalue⟩
    · rintro ⟨hhandle, v, hv, hrule⟩
      cases value_unique hn hmem hv
      exact map_eq_ok.mpr ⟨r.2, checkValue_ok.mpr hrule, Prod.ext hhandle.symm rfl⟩

/-- No handle is unexpected and none is missing. -/
theorem handles_iff :
    (members.find? (fun r => r.1 ∉ plan.functions.map (·.handle)) = none ∧
      plan.functions.find? (fun f => !members.any fun r => r.1 == f.handle) = none) ↔
    ∀ handle, handle ∈ members.map Prod.fst ↔ handle ∈ plan.functions.map (·.handle) := by
  rw [List.find?_eq_none, List.find?_eq_none]
  constructor
  · rintro ⟨hexpected, hthere⟩ handle
    constructor
    · intro h
      obtain ⟨m, hm, rfl⟩ := List.mem_map.mp h
      exact not_not.mp fun hno => hexpected m hm (decide_eq_true hno)
    · intro h
      obtain ⟨f, hf, rfl⟩ := List.mem_map.mp h
      have hany : (members.any fun r => r.1 == f.handle) = true := by
        simpa using hthere f hf
      obtain ⟨m, hm, hname⟩ := List.any_eq_true.mp hany
      exact List.mem_map.mpr ⟨m, hm, beq_iff_eq.mp hname⟩
  · intro h
    constructor
    · intro m hm hno
      exact of_decide_eq_true hno ((h m.1).mp (List.mem_map_of_mem hm))
    · intro f hf hno
      obtain ⟨m, hm, hname⟩ := List.mem_map.mp ((h f.handle).mpr (List.mem_map_of_mem hf))
      have hany : (members.any fun r => r.1 == f.handle) = true :=
        List.any_eq_true.mpr ⟨m, hm, beq_iff_eq.mpr hname⟩
      rw [hany] at hno
      cases hno

theorem checkResults_textKeyed (hn : (members.map Prod.fst).Nodup)
    {results : List (String × ResultValue)} :
    checkResults plan index (textKeyed members) = .ok results ↔
      ResultsRule plan members results := by
  have hvalues : collectOk (checkFunction members) plan.functions = .ok results ↔
      List.Forall₂ (fun f r => r.1 = f.handle ∧
        ∃ v, (f.handle, v) ∈ members ∧ ValueRule f.params v r.2) plan.functions results := by
    rw [collectOk_eq_ok]
    simp only [checkFunction_ok hn]
  unfold checkResults
  rw [collect_named.mpr rfl]
  simp only
  constructor
  · intro h
    split at h
    · cases h
    · next hexpected =>
      split at h
      · cases h
      · next hthere => exact ⟨handles_iff.mp ⟨hexpected, hthere⟩, hvalues.mp h⟩
  · rintro ⟨hhandles, hrule⟩
    obtain ⟨hexpected, hthere⟩ := handles_iff.mpr hhandles
    rw [hexpected, hthere]
    exact hvalues.mpr hrule

theorem checkResults_ok {entries : List (Cbor × Cbor)} (hrep : (Cbor.map entries).NoRepeat)
    {results : List (String × ResultValue)} :
    checkResults plan index entries = .ok results ↔
      ∃ members, entries = textKeyed members ∧ ResultsRule plan members results := by
  constructor
  · intro h
    cases hnamed : collect named entries with
    | none => simp [checkResults, hnamed] at h
    | some members =>
      obtain rfl := collect_named.mp hnamed
      obtain ⟨hn, -⟩ := noRepeat_textKeyed.mp hrep
      exact ⟨members, rfl, (checkResults_textKeyed hn).mp h⟩
  · rintro ⟨members, rfl, hrule⟩
    obtain ⟨hn, -⟩ := noRepeat_textKeyed.mp hrep
    exact (checkResults_textKeyed hn).mpr hrule

end Results

/-! ## 4. A presentation -/

section Presentation

variable {plan : Plan} {index : Nat} {members : List (String × Cbor)} {p : Presentation}

theorem offered_iff {filter : SystemFilter} {systemId : String} :
    filter.systemIds.any (·.contains systemId) = true ↔
      ∃ ids, filter.systemIds = some ids ∧ systemId ∈ ids := by
  cases filter.systemIds with
  | none => simp
  | some ids => simp

theorem checkTyped_ok {systemId : String} {proof : List UInt8} {keys : List Cbor}
    {results : List (Cbor × Cbor)} (hn : (members.map Prod.fst).Nodup)
    (hrep : (Cbor.map results).NoRepeat) :
    checkTyped plan index systemId proof keys results (findMember members "proof_time") = .ok p ↔
      p.systemId = systemId ∧ p.proof = proof ∧
      (∃ ids, plan.systemFilter.systemIds = some ids ∧ systemId ∈ ids) ∧ proof ≠ [] ∧
      (keys = p.issuerKeySet.map .bytes ∧
        (1 ≤ p.issuerKeySet.length ∧ p.issuerKeySet.length ≤ 8) ∧
        ∀ key ∈ p.issuerKeySet, 1 ≤ key.length ∧ key.length ≤ 4096) ∧
      ProofTimeRule plan members p.proofTime ∧
      ∃ named, results = textKeyed named ∧ ResultsRule plan named p.results := by
  unfold checkTyped
  constructor
  · intro h
    split_ifs at h with hrefused hempty
    obtain ⟨issuerKeySet, hkeys, h⟩ := bind_eq_ok.mp h
    obtain ⟨proofTime, htime, h⟩ := bind_eq_ok.mp h
    obtain ⟨checked, hresults, h⟩ := bind_eq_ok.mp h
    cases h
    refine ⟨rfl, rfl, offered_iff.mp (by simpa using hrefused), by simpa using hempty,
      checkIssuerKeySet_ok.mp hkeys, (checkProofTime_ok hn).mp htime,
      (checkResults_ok hrep).mp hresults⟩
  · rintro ⟨rfl, rfl, hoffered, hproof, hkeys, htime, hresults⟩
    rw [if_neg (by simpa using offered_iff.mpr hoffered), if_neg (by simpa using hproof),
      checkIssuerKeySet_ok.mpr hkeys, (checkProofTime_ok hn).mpr htime,
      (checkResults_ok hrep).mpr hresults]
    rfl

/-- The required members have their types, and the checks of `checkTyped` hold of them. -/
theorem checkTypes_ok (hn : (members.map Prod.fst).Nodup) :
    checkTypes plan index members = .ok p ↔
      ∃ systemId proof keys results, ("system_id", .text systemId) ∈ members ∧
        ("proof", .bytes proof) ∈ members ∧ ("issuer_key_set", .array keys) ∈ members ∧
        ("results", .map results) ∈ members ∧
        checkTyped plan index systemId proof keys results (findMember members "proof_time") =
          .ok p := by
  unfold checkTypes
  constructor
  · intro h
    split at h
    · next systemId hsystem =>
      split at h
      · next proof hproof =>
        split at h
        · next keys hkeys =>
          split at h
          · next results hresults =>
            exact ⟨systemId, proof, keys, results, (findMember_eq_some hn).mp hsystem,
              (findMember_eq_some hn).mp hproof, (findMember_eq_some hn).mp hkeys,
              (findMember_eq_some hn).mp hresults, h⟩
          · cases h
        · cases h
      · cases h
    · cases h
  · rintro ⟨systemId, proof, keys, results, hsystem, hproof, hkeys, hresults, h⟩
    rw [(findMember_eq_some hn).mpr hsystem, (findMember_eq_some hn).mpr hproof,
      (findMember_eq_some hn).mpr hkeys, (findMember_eq_some hn).mpr hresults]
    exact h

/-- The required members are there. -/
theorem required_iff :
    REQUIRED.find? (fun name => (findMember members name).isNone) = none ↔
      ∀ name ∈ REQUIRED, name ∈ members.map Prod.fst := by
  rw [List.find?_eq_none]
  refine forall₂_congr fun name _ => ?_
  rw [← not_iff_not, not_not, Option.isNone_iff_eq_none, findMember_eq_none]

theorem checkMembers_textKeyed (hrep : (Cbor.map (textKeyed members)).NoRepeat) :
    checkMembers plan index (textKeyed members) = .ok p ↔ MembersRule plan members p := by
  obtain ⟨hn, hvalues⟩ := noRepeat_textKeyed.mp hrep
  have hinner : ∀ {name : String} {results : List (Cbor × Cbor)},
      (name, .map results) ∈ members → (Cbor.map results).NoRepeat :=
    fun hmem => hvalues _ hmem
  unfold checkMembers
  rw [collect_named.mpr rfl]
  simp only
  constructor
  · intro h
    split at h
    · cases h
    · next hknown =>
      split at h
      · cases h
      · obtain ⟨systemId, proof, keys, results, hsystem, hproof, hkeys, hresults, htyped⟩ :=
          (checkTypes_ok hn).mp h
        obtain ⟨rfl, rfl, hoffered, hne, ⟨rfl, hcount, hsize⟩, htime, named, rfl, hrule⟩ :=
          (checkTyped_ok hn (hinner hresults)).mp htyped
        have hmembers : ∀ m ∈ members, m.1 ∈ MEMBERS := fun m hm =>
          not_not.mp fun hno => List.find?_eq_none.mp hknown m hm (decide_eq_true hno)
        exact {
          known := hmembers
          systemId := hsystem
          offered := hoffered
          proof := hproof
          proof_ne := hne
          issuerKeySet := hkeys
          issuerKeySet_length := hcount
          issuerKey_length := hsize
          proofTime := htime
          results := ⟨named, hresults, hrule⟩ }
  · intro h
    obtain ⟨results, hresults, hrule⟩ := h.results
    have hknown : members.find? (fun m => m.1 ∉ MEMBERS) = none := by
      rw [List.find?_eq_none]
      exact fun m hm hno => of_decide_eq_true hno (h.known m hm)
    have hrequired : REQUIRED.find? (fun name => (findMember members name).isNone) = none := by
      rw [required_iff]
      intro name hname
      rcases (by simpa [REQUIRED] using hname : _ ∨ _ ∨ _ ∨ _) with rfl | rfl | rfl | rfl
      · exact List.mem_map_of_mem h.systemId
      · exact List.mem_map_of_mem h.proof
      · exact List.mem_map_of_mem h.issuerKeySet
      · exact List.mem_map_of_mem hresults
    rw [hknown, hrequired]
    refine (checkTypes_ok hn).mpr ⟨_, _, _, _, h.systemId, h.proof, h.issuerKeySet,
      hresults, (checkTyped_ok hn (hinner hresults)).mpr ⟨rfl, rfl, h.offered, h.proof_ne,
        ⟨rfl, h.issuerKeySet_length, h.issuerKey_length⟩, h.proofTime, results, rfl, hrule⟩⟩

theorem checkMembers_ok {entries : List (Cbor × Cbor)} (hrep : (Cbor.map entries).NoRepeat) :
    checkMembers plan index entries = .ok p ↔
      ∃ members, entries = textKeyed members ∧ MembersRule plan members p := by
  constructor
  · intro h
    cases hnamed : collect named entries with
    | none => simp [checkMembers, hnamed] at h
    | some members =>
      obtain rfl := collect_named.mp hnamed
      exact ⟨members, rfl, (checkMembers_textKeyed hrep).mp h⟩
  · rintro ⟨members, rfl, hrule⟩
    exact (checkMembers_textKeyed hrep).mpr hrule

/-! ## 5. What is accepted is plain -/

/-- A value of a result is a byte string or `true`. -/
theorem ValueRule.flat {params : Params} {c : Cbor} {r : ResultValue} (h : ValueRule params c r) :
    c.NoRepeat ∧ c.Plain := by
  cases h <;> exact ⟨trivial, trivial⟩

theorem ResultsRule.flat (hn : (members.map Prod.fst).Nodup)
    {results : List (String × ResultValue)} (h : ResultsRule plan members results) :
    ∀ m ∈ members, m.2.NoRepeat ∧ m.2.Plain := by
  intro m hm
  obtain ⟨f, hf, hhandle⟩ := List.mem_map.mp ((h.handles m.1).mp (List.mem_map_of_mem hm))
  obtain ⟨r, -, -, v, hv, hrule⟩ := forall₂_mem_left h.values hf
  rw [hhandle] at hv
  rw [value_unique hn hm hv]
  exact hrule.flat

/-- Each member is flat, or it is the results. -/
theorem MembersRule.value_cases (hn : (members.map Prod.fst).Nodup)
    (h : MembersRule plan members p) {m : String × Cbor} (hm : m ∈ members) :
    (m.2.NoRepeat ∧ m.2.Plain) ∨
      ∃ results, m.2 = .map (textKeyed results) ∧ ResultsRule plan results p.results := by
  have hvalue : ∀ {c : Cbor}, (m.1, c) ∈ members → m.2 = c := fun hc => value_unique hn hm hc
  rcases (by simpa using h.known m hm : _ ∨ _ ∨ _ ∨ _ ∨ _) with
    hname | hname | hname | hname | hname
  · rw [hvalue (hname ▸ h.systemId)]
    exact .inl ⟨trivial, trivial⟩
  · rw [hvalue (hname ▸ h.proof)]
    exact .inl ⟨trivial, trivial⟩
  · rw [hvalue (hname ▸ h.issuerKeySet)]
    refine .inl ⟨Cbor.noRepeatInItems_iff.mpr ?_, Cbor.plainItems_iff.mpr ?_⟩
    · exact List.forall_mem_map.mpr fun _ _ => trivial
    · exact List.forall_mem_map.mpr fun _ _ => trivial
  · have htime := h.proofTime
    cases htext : p.proofTime with
    | none =>
      rw [htext] at htime
      exact absurd (List.mem_map.mpr ⟨m, hm, hname⟩) htime.1
    | some text =>
      rw [htext] at htime
      rw [hvalue (hname ▸ htime.1)]
      exact .inl ⟨trivial, trivial⟩
  · obtain ⟨results, hresults, hrule⟩ := h.results
    exact .inr ⟨results, hvalue (hname ▸ hresults), hrule⟩

theorem MembersRule.plain (hrep : (Cbor.map (textKeyed members)).NoRepeat)
    (h : MembersRule plan members p) : (Cbor.map (textKeyed members)).Plain := by
  obtain ⟨hn, hvalues⟩ := noRepeat_textKeyed.mp hrep
  refine plain_textKeyed.mpr fun m hm => ?_
  rcases h.value_cases hn hm with hflat | ⟨results, hresults, hrule⟩
  · exact hflat.2
  · have hinner := hvalues m hm
    rw [hresults] at hinner ⊢
    exact plain_textKeyed.mpr fun r hr => (hrule.flat (noRepeat_textKeyed.mp hinner).1 r hr).2

end Presentation

/-- Where the reader keeps all keys as texts, distinct keys have distinct names. -/
theorem textKeyed_of_distinctKeys {D : Item} {members : List (String × Cbor)}
    (hD : D.DistinctKeys) (h : Cbor.ofItem D = .map (textKeyed members)) :
    (members.map Prod.fst).Nodup ∧
      ∀ m ∈ members, ∃ V : Item, V.DistinctKeys ∧ Cbor.ofItem V = m.2 := by
  cases D with
  | map entries =>
    obtain ⟨hnodup, hinner⟩ := hD
    have hentries : Cbor.ofEntries entries = textKeyed members := Cbor.map.inj h
    clear h
    induction entries generalizing members with
    | nil =>
      cases members with
      | nil => exact ⟨List.nodup_nil, fun _ hm => absurd hm List.not_mem_nil⟩
      | cons m members => cases hentries
    | cons entry entries ih =>
      cases members with
      | nil => cases hentries
      | cons m members =>
        obtain ⟨key, value⟩ := entry
        obtain ⟨⟨hkey, hvalue⟩, hrest⟩ := List.cons.inj hentries |>.imp Prod.mk.inj id
        rw [List.map_cons, List.nodup_cons] at hnodup
        obtain ⟨hnames, hvalues⟩ := ih hnodup.2 hinner.2 hrest
        refine ⟨?_, List.forall_mem_cons.mpr ⟨⟨value, hinner.1.2, hvalue⟩, hvalues⟩⟩
        rw [List.map_cons, List.nodup_cons]
        refine ⟨fun hmem => hnodup.1 ?_, hnames⟩
        -- the same name further on is the same key
        obtain ⟨m', hm', hname⟩ := List.mem_map.mp hmem
        have hlater : (Cbor.text m'.1, m'.2) ∈ Cbor.ofEntries entries := by
          rw [hrest]
          exact List.mem_map.mpr ⟨m', hm', rfl⟩
        rw [Cbor.ofEntries_eq_map] at hlater
        obtain ⟨e, he, heq⟩ := List.mem_map.mp hlater
        have htext := Cbor.ofItem_eq_text.mp (Prod.mk.inj heq).1
        rw [Cbor.ofItem_eq_text.mp hkey, ← hname, ← htext]
        exact List.mem_map.mpr ⟨e, he, rfl⟩
  -- no other item is kept as a map
  | simple v =>
    unfold Cbor.ofItem at h
    split_ifs at h
  | _ => cases h

theorem MembersRule.noRepeat {plan : Plan} {members : List (String × Cbor)} {p : Presentation}
    {D : Item} (hD : D.DistinctKeys) (hmembers : Cbor.ofItem D = .map (textKeyed members))
    (h : MembersRule plan members p) : (Cbor.map (textKeyed members)).NoRepeat := by
  obtain ⟨hn, hvalues⟩ := textKeyed_of_distinctKeys hD hmembers
  refine noRepeat_textKeyed.mpr ⟨hn, fun m hm => ?_⟩
  rcases h.value_cases hn hm with hflat | ⟨results, hresults, hrule⟩
  · exact hflat.1
  · obtain ⟨V, hV, hvalue⟩ := hvalues m hm
    rw [hresults] at hvalue ⊢
    obtain ⟨hinner, -⟩ := textKeyed_of_distinctKeys hV hvalue
    exact noRepeat_textKeyed.mpr ⟨hinner, fun r hr => (hrule.flat hinner r hr).1⟩

/-! ## 6. The response -/

theorem checkPresentation_ok {plan : Plan} {index : Nat} {element : Document} {p : Presentation} :
    checkPresentation plan index element = .ok p ↔ PresentationRules plan element p := by
  constructor
  · intro h
    unfold checkPresentation at h
    split at h
    · next text =>
      split at h
      · cases h
      · next bytes hbytes =>
        split at h
        · cases h
        · next entries hdecoded =>
          have hrep := decodeCbor_noRepeat hdecoded
          obtain ⟨members, rfl, hrule⟩ := (checkMembers_ok hrep).mp h
          obtain ⟨D, hD, hlevels, hitem⟩ := decodeCbor_sound hdecoded (hrule.plain hrep)
          have hkeys := Cbor.distinctKeys_of_noRepeat D (hitem ▸ hrep)
          obtain ⟨hlimit, hencoded⟩ := Base64url.decodeWithLimit_eq_some.mp hbytes
          exact ⟨text, bytes, D, members, rfl, hlimit, hencoded, hD, hlevels, hkeys, hitem, hrule⟩
        · cases h
    · cases h
  · rintro ⟨text, bytes, D, members, rfl, hlimit, hencoded, hD, hlevels, hkeys, hitem, hrule⟩
    have hrep := hrule.noRepeat hkeys hitem
    have hbytes := Base64url.decodeWithLimit_eq_some.mpr ⟨hlimit, hencoded⟩
    have hdecoded := decodeCbor_complete hD hlevels (hitem ▸ hrep)
    rw [hitem] at hdecoded
    unfold checkPresentation MAX_PRESENTATION_INPUT
    simp only [hbytes, hdecoded]
    exact (checkMembers_ok hrep).mpr ⟨members, rfl, hrule⟩

theorem checkPresentations_ok {plan : Plan} {index : Nat} {elements : List Document}
    {ps : List Presentation} :
    checkPresentations plan index elements = .ok ps ↔
      List.Forall₂ (PresentationRules plan) elements ps := by
  induction elements generalizing index ps with
  | nil => simp [checkPresentations, List.forall₂_nil_left_iff, eq_comm]
  | cons element elements ih =>
    rw [checkPresentations, List.forall₂_cons_left_iff]
    constructor
    · intro h
      split at h
      · cases h
      · next p hp =>
        obtain ⟨rest, hrest, rfl⟩ := map_eq_ok.mp h
        exact ⟨p, rest, checkPresentation_ok.mp hp, ih.mp hrest, rfl⟩
    · rintro ⟨p, rest, hp, hrest, rfl⟩
      rw [checkPresentation_ok.mpr hp]
      exact map_eq_ok.mpr ⟨rest, ih.mpr hrest, rfl⟩

theorem allowsMultiple_iff {plan : Plan} :
    plan.allowsMultiple = true ↔ plan.raw.get "multiple" = some (.bool true) := by
  unfold Plan.allowsMultiple
  split
  · next hmultiple => simp [hmultiple]
  · next hno => simpa using hno

/-- A response is accepted, and gives these presentations, exactly when the rules hold of
it and them. -/
theorem parseResponse_ok_iff (sj : SerdeJson) (plan : Plan) (vpToken : String)
    (ps : List Presentation) :
    parseResponse sj plan vpToken = .ok ps ↔ ResponseRules sj plan vpToken ps := by
  unfold parseResponse
  constructor
  · intro h
    split at h
    · next token htoken =>
      split at h
      · cases h
      · next hdistinct =>
        have hn := firstRepeat_eq_none.mp hdistinct
        split at h
        · cases h
        · next queryId hid =>
          split at h
          · cases h
          · next name elements hentry =>
            have hname : name = queryId := by simpa using List.find?_some hentry
            split_ifs at h with hempty hmany
            refine ⟨token, queryId, elements, htoken, hn, Value.asStr_eq_some.mp hid,
              hname ▸ List.mem_of_find?_eq_some hentry, by simpa using hempty, ?_,
              checkPresentations_ok.mp h⟩
            intro hlength
            rw [← allowsMultiple_iff]
            simpa [hlength] using hmany
          · cases h
    · cases h
  · rintro ⟨token, queryId, elements, htoken, hn, hid, hentry, hsome, hmany, hall⟩
    have hfound : token.find? (fun member => member.1 == queryId) =
        some (queryId, .array elements) := find?_key_of_mem hn hentry
    have hcount : ¬(elements.length > 1 ∧ (!plan.allowsMultiple) = true) := by
      rintro ⟨hlength, hone⟩
      rw [allowsMultiple_iff.mpr (hmany hlength)] at hone
      cases hone
    simp only [htoken, firstRepeat_eq_none.mpr hn, Value.asStr_eq_some.mpr hid, hfound]
    rw [if_neg (by simpa using hsome), if_neg hcount]
    exact checkPresentations_ok.mpr hall

end DcMatcher
