import DcMatcher.Planning
import DcMatcher.ResponseVectors
import DcMatcher.ZkpReqGate

/-!
# Whether a match can be answered

The matcher reads a request without circuit ids as one that any circuit may answer;
`zkp_req_response.rs` lets a response name none but the circuits of the request.

Results:
1. `encode_shortAnswer`: a presentation with little in it is written in few bytes.
2. `exists_answers`: a plan that is satisfiable is answered by such a presentation, with any circuit
   that the request names.
3. `reported_answerable`: whatever a wallet library is told to prove can be answered with the
   circuit it was given exactly if the request names circuits.
4. `matchDcql_unanswerable`: without client metadata, nothing that is reported can be answered.
-/

namespace DcMatcher

open Lists

/-- The bytes that suffice for an answer to a plan, from a circuit: the id, and for each function
its handle and a result. -/
def answerSize (plan : Plan) (systemId : String) : Nat :=
  184 + byteLen systemId + (plan.functions.map fun f => 66 + byteLen f.handle).sum

/-- An answer for a circuit, as it is encoded: the response checks accept it under the id of the
query, whatever else is in the token. -/
structure Accepted (sj : SerdeJson) (plan : Plan) (systemId key : String) (p : Presentation)
    (enc : List UInt8) : Prop where
  systemId : p.systemId = systemId
  answers : Vectors.Answers plan p
  encoded : Vectors.Encoded p enc
  accepted : ∀ {others : List (String × Document)} {vpToken : String},
    (key :: others.map Prod.fst).Nodup →
    sj.events (utf8 vpToken) = some (Vectors.vp key [enc] others) →
    parseResponse sj plan vpToken = .ok [p]

/-- What the checks of a response make of a selection. -/
structure Answerable (sj : SerdeJson) (selection : ZkpReqSelection) : Prop where
  /-- Where the request names no circuits, nothing is accepted. -/
  unnamed : selection.plan.systemFilter.systemIds = none → ∀ vpToken ps,
    parseResponse sj selection.plan vpToken ≠ .ok ps
  /-- Where it names some, that of the selection is among them. The plan is read from a query with
  an id, as it was written. Where its own id is a text, an answer from the circuit is accepted under
  it; the answer is short enough unless the id of the circuit and the handles alone are not. -/
  named : selection.plan.systemFilter.systemIds ≠ none → ∃ systemId,
    selection.capability.params.get SYSTEM_ID_PARAM = some systemId ∧
      (∃ query id, query.get "id" = some (.string id) ∧
        sj.fromStr (sj.write query) = some selection.plan.raw) ∧
      ∀ key, selection.plan.raw.get "id" = some (.string key) →
        4 * answerSize selection.plan systemId ≤ 3 * MAX_PRESENTATION_INPUT →
        ∃ p enc, Accepted sj selection.plan systemId key p enc

/-- All records of an outcome. -/
def FfiMatchOutcome.records (outcome : FfiMatchOutcome) : List FfiMatchedCredential :=
  outcome.queryMatches.flatMap (·.credentials) ++ outcome.combinations.flatMap (·.members)

/-! ## 1. Sizes -/

namespace Vectors

/-- What is written is at most `n` bytes. -/
def Within (enc : Option (List UInt8)) (n : Nat) : Prop :=
  ∃ bytes, enc = some bytes ∧ bytes.length ≤ n

section Sizes

theorem head_within (major : Nat) {n : Nat} (h : n < 2 ^ 64) : Within (head major n) 9 := by
  unfold head
  split_ifs with h0 h1 h2 h3 h4
  · exact ⟨_, rfl, Nat.le_add_left 1 8⟩
  · exact ⟨_, rfl, Nat.le_add_left 2 7⟩
  · exact ⟨_, rfl, by rw [List.length_cons, length_toBytes]; decide⟩
  · exact ⟨_, rfl, by rw [List.length_cons, length_toBytes]; decide⟩
  · exact ⟨_, rfl, by rw [List.length_cons, length_toBytes]⟩
  · exact absurd h h4

theorem Within.map_append {enc : Option (List UInt8)} {n : Nat} (h : Within enc n)
    (rest : List UInt8) : Within (enc.map (· ++ rest)) (n + rest.length) := by
  obtain ⟨bytes, rfl, hlength⟩ := h
  refine ⟨bytes ++ rest, rfl, ?_⟩
  rw [List.length_append]
  exact Nat.add_le_add_right hlength rest.length

theorem bstr_within {b : List UInt8} (h : b.length < 2 ^ 64) : Within (bstr b) (9 + b.length) :=
  (head_within 2 h).map_append b

theorem tstr_within {s : String} (h : byteLen s < 2 ^ 64) : Within (tstr s) (9 + byteLen s) :=
  (head_within 3 h).map_append (utf8 s)

/-- The bytes of a map with text keys, at most. -/
def mapSize (members : List (String × List UInt8)) : Nat :=
  9 + (members.map fun m => 9 + byteLen m.1 + m.2.length).sum

theorem pairs_within {members : List (String × List UInt8)}
    (h : ∀ m ∈ members, byteLen m.1 < 2 ^ 64) :
    ∃ pairs, collect (fun m => (tstr m.1).map fun k => (k, m.2)) members = some pairs ∧
      pairs.length = members.length ∧ (pairs.flatMap fun pair => pair.1 ++ pair.2).length ≤
        (members.map fun m => 9 + byteLen m.1 + m.2.length).sum := by
  induction members with
  | nil => exact ⟨[], rfl, rfl, Nat.le_refl 0⟩
  | cons m members ih =>
    obtain ⟨hone, hrest⟩ := List.forall_mem_cons.mp h
    obtain ⟨key, hkey, hkeyLength⟩ := tstr_within hone
    obtain ⟨pairs, hpairs, hlength, hsize⟩ := ih hrest
    refine ⟨(key, m.2) :: pairs, ?_, congrArg (· + 1) hlength, ?_⟩
    · rw [collect, hkey, Option.map_some, hpairs]
      rfl
    · simp only [List.flatMap_cons, List.length_append, List.map_cons, List.sum_cons]
      omega

theorem mpOf_within {members : List (String × List UInt8)} (hcount : members.length < 2 ^ 64)
    (h : ∀ m ∈ members, byteLen m.1 < 2 ^ 64) : Within (mpOf members []) (mapSize members) := by
  obtain ⟨pairs, hpairs, hlength, hsize⟩ := pairs_within h
  rw [← hlength] at hcount
  obtain ⟨bytes, hbytes, hle⟩ := (head_within 5 hcount).map_append
    (pairs.flatMap fun pair => pair.1 ++ pair.2)
  refine ⟨bytes, ?_, ?_⟩
  · rw [mpOf, hpairs]
    show mp (pairs ++ []) = _
    rw [List.append_nil]
    exact hbytes
  · unfold mapSize
    omega

/-- All members in the order of their own names. -/
theorem inOrder_self {α : Type} {d : List (String × α)} (h : (d.map Prod.fst).Nodup) :
    inOrder d (d.map Prod.fst) [] = d := by
  unfold inOrder
  rw [List.filterMap_map]
  conv_rhs => rw [← List.filterMap_some (l := d)]
  refine List.filterMap_congr fun m hm => ?_
  have hvalue : d.lookup m.1 = some m.2 := (lookup_eq_some h).mpr hm
  simp only [Function.comp_apply, List.not_mem_nil, if_false, hvalue, Option.map_some]

/-- No result is longer than a pseudonym of 48 bytes. -/
theorem value_within {params : Params} {r : ResultValue} (h : Fits params r) :
    Within (value r) 57 := by
  cases r with
  | predicate => exact ⟨TRUE, rfl, by decide⟩
  | pseudonym bytes =>
    cases params with
    | pseudonym config ver prf verifierContext extra =>
      have hlength : bytes.length = 32 ∨ bytes.length = 48 := by
        rcases pseudonymLength_eq_some.mp h with ⟨_, h⟩ | ⟨_, h⟩
        · exact .inl h
        · exact .inr h
      obtain ⟨enc, henc, hle⟩ := bstr_within (b := bytes) (by omega)
      exact ⟨enc, henc, by omega⟩
    | _ => exact h.elim

theorem values_within {functions : List PlannedFunction} {results : List (String × ResultValue)}
    (h : List.Forall₂ (fun f r => r.1 = f.handle ∧ Fits f.params r.2) functions results) :
    ∃ vals, collect (fun r => (value r.2).map fun v => (r.1, v)) results = some vals ∧
      vals.map Prod.fst = functions.map (·.handle) ∧
      (vals.map fun m => 9 + byteLen m.1 + m.2.length).sum ≤
        (functions.map fun f => 66 + byteLen f.handle).sum := by
  induction h with
  | nil => exact ⟨[], rfl, rfl, Nat.le_refl 0⟩
  | @cons f r functions results hone _ ih =>
    obtain ⟨enc, henc, hlength⟩ := value_within hone.2
    obtain ⟨vals, hvals, hhandles, hsize⟩ := ih
    refine ⟨(r.1, enc) :: vals, ?_, congrArg₂ List.cons hone.1 hhandles, ?_⟩
    · rw [collect, henc, Option.map_some, hvals]
      rfl
    · simp only [List.map_cons, List.sum_cons, hone.1]
      omega

/-- A presentation with little in it. -/
def shortAnswer (systemId : String) (results : List (String × ResultValue)) : Presentation where
  systemId := systemId
  proof := [0]
  issuerKeySet := [[0]]
  proofTime := some "1970-01-01T00:00:00Z"
  results := results

/-- Each member of a sum of sizes is within it, and their number is. -/
theorem sum_sizes {vals : List (String × List UInt8)} :
    let size := (vals.map fun m => 9 + byteLen m.1 + m.2.length).sum
    vals.length ≤ size ∧ ∀ m ∈ vals, byteLen m.1 ≤ size := by
  induction vals with
  | nil => exact ⟨Nat.le_refl 0, nofun⟩
  | cons m vals ih =>
    obtain ⟨hcount, hall⟩ := ih
    simp only [List.length_cons, List.map_cons, List.sum_cons, List.forall_mem_cons]
    refine ⟨by omega, by omega, fun m hm => ?_⟩
    have := hall m hm
    omega

/-- It is written in no more bytes than its id and its handles call for. -/
theorem encode_shortAnswer {plan : Plan} {systemId : String}
    {results : List (String × ResultValue)} (hhandles : (plan.functions.map (·.handle)).Nodup)
    (h : List.Forall₂ (fun f r => r.1 = f.handle ∧ Fits f.params r.2) plan.functions results)
    (hsize : answerSize plan systemId < 2 ^ 64) :
    Within (encode NAMES (plan.functions.map (·.handle)) (shortAnswer systemId results))
      (answerSize plan systemId) := by
  unfold answerSize at hsize ⊢
  obtain ⟨vals, hvals, hkeys, hvalsSize⟩ := values_within h
  obtain ⟨hcount, hkey⟩ := @sum_sizes vals
  obtain ⟨res, hres, hresLength⟩ := @mpOf_within vals (by omega)
    fun m hm => Nat.lt_of_le_of_lt (hkey m hm) (by omega)
  obtain ⟨id, hid, hidLength⟩ := tstr_within (s := systemId) (by omega)
  have hordered : inOrder vals (plan.functions.map (·.handle)) [] = vals :=
    hkeys ▸ inOrder_self (hkeys ▸ hhandles)
  have hnames : ∀ name ∈ NAMES, byteLen name < 2 ^ 64 := by decide
  let written := [("system_id", id), ("proof", [0x41, 0]), ("issuer_key_set", [0x81, 0x41, 0]),
    ("proof_time", 0xC0 :: 0x74 :: utf8 "1970-01-01T00:00:00Z"), ("results", res)]
  obtain ⟨bytes, hbytes, hlength⟩ := @mpOf_within written (Nat.lt_of_sub_eq_succ rfl)
    fun m hm => hnames m.1 (List.mem_map_of_mem (f := Prod.fst) hm)
  refine ⟨bytes, ?_, ?_⟩
  · have htime : tdate "1970-01-01T00:00:00Z" =
        some (0xC0 :: 0x74 :: utf8 "1970-01-01T00:00:00Z") := by decide +kernel
    have hproof : bstr [0] = some [0x41, 0] := rfl
    have hkeySet : collect bstr [[0]] >>= arr = some [0x81, 0x41, 0] := rfl
    rw [encode, shortAnswer]
    simp only [hid, hproof, hkeySet, optional, htime, hvals, Vectors.results, Option.map_some,
      Option.bind_eq_bind, Option.bind_some, hordered, hres]
    exact hbytes
  · refine Nat.le_trans hlength ?_
    unfold mapSize at hresLength ⊢
    have hkeys : NAMES.map byteLen = [9, 5, 14, 10, 7] := by decide
    simp only [NAMES, List.map_cons, List.map_nil, List.cons.injEq] at hkeys
    simp only [written, List.map_cons, List.map_nil, List.sum_cons, List.sum_nil, hkeys,
      List.length_cons, List.length_nil]
    have htime : (utf8 "1970-01-01T00:00:00Z").length = 20 := by decide
    omega

end Sizes

end Vectors

/-! ## 2. Satisfiable plans -/

section Satisfiable

theorem checkPseudonym_prf {bbs : Bool} {config : Option String} {ver : Option Number}
    {prf verifierContext : Option String}
    (h : checkPseudonym bbs config ver prf verifierContext = .ok ()) :
    ∃ n, pseudonymLength prf = some n := by
  unfold checkPseudonym at h
  split at h
  · cases h
  · split at h
    · cases h
    · next bbsOk _ =>
      split at h
      · cases h
      · split at h
        · cases h
        · split at h
          · cases h
          · next prf =>
            generalize hok : (if bbs then prf == "hashdh-bls12381g1" && bbsOk
              else prf == "sha-256") = prfOk at h
            cases prfOk with
            | false => cases h
            | true =>
              cases bbs with
              | true =>
                obtain ⟨hprf, _⟩ := (Bool.and_eq_true _ _).mp hok
                exact ⟨48, pseudonymLength_eq_some.mpr
                  (.inr ⟨congrArg some (beq_iff_eq.mp hprf), rfl⟩)⟩
              | false =>
                exact ⟨32, pseudonymLength_eq_some.mpr
                  (.inl ⟨congrArg some (beq_iff_eq.mp hok), rfl⟩)⟩

/-- Each function of a plan that passes has a result. -/
theorem exists_fits {bbs pseudonym ageCheck : Bool} {functions : List PlannedFunction}
    (h : checkFunctions bbs pseudonym ageCheck functions = .ok ()) :
    ∀ f ∈ functions, ∃ r, Vectors.Fits f.params r := by
  induction functions generalizing pseudonym ageCheck with
  | nil => exact fun f hf => absurd hf List.not_mem_nil
  | cons function functions ih =>
    rw [checkFunctions] at h
    rw [List.forall_mem_cons]
    cases hparams : function.params with
    | unknown map =>
      rw [hparams] at h
      cases h
    | pseudonym config ver prf verifierContext extra =>
      rw [hparams] at h
      simp only at h
      split at h
      · cases h
      · split at h
        · cases h
        · next hchecked =>
          obtain ⟨n, hn⟩ := checkPseudonym_prf hchecked
          refine ⟨⟨.pseudonym (List.replicate n 0), ?_⟩, ih h⟩
          rw [Vectors.Fits, List.length_replicate]
          exact hn
    | ageCheck ge le extra =>
      rw [hparams] at h
      simp only at h
      split at h
      · cases h
      · split at h
        · cases h
        · exact ⟨⟨.predicate, trivial⟩, ih h⟩

/-- A satisfiable plan is answered by some presentation of each circuit that it names. -/
theorem exists_answers {plan : Plan} (h : unsatisfiable plan = .ok ()) {ids : List String}
    (hids : plan.systemFilter.systemIds = some ids) {id : String} (hid : id ∈ ids) :
    ∃ results, List.Forall₂ (fun f r => r.1 = f.handle ∧ Vectors.Fits f.params r.2) plan.functions
      results ∧ Vectors.Answers plan (Vectors.shortAnswer id results) := by
  have hfunctions : ∀ f ∈ plan.functions, ∃ r, Vectors.Fits f.params r := by
    unfold unsatisfiable at h
    split at h
    · cases h
    · simp only at h
      split at h
      · cases h
      · exact exists_fits h
  have hresults : ∃ results : List (String × ResultValue),
      List.Forall₂ (fun f r => r.1 = f.handle ∧ Vectors.Fits f.params r.2) plan.functions
        results := by
    generalize plan.functions = functions at hfunctions
    induction functions with
    | nil => exact ⟨[], .nil⟩
    | cons f functions ih =>
      obtain ⟨⟨r, hr⟩, hrest⟩ := List.forall_mem_cons.mp hfunctions
      obtain ⟨results, hresults⟩ := ih hrest
      exact ⟨(f.handle, r) :: results, .cons ⟨rfl, hr⟩ hresults⟩
  obtain ⟨results, hresults⟩ := hresults
  refine ⟨results, hresults, ?_⟩
  exact {
    offered := ⟨ids, hids, hid⟩
    proof_ne := List.cons_ne_nil _ _
    issuerKeySet_length := ⟨Nat.le_refl 1, Nat.succ_pos 7⟩
    issuerKey_length := List.forall_mem_singleton.mpr ⟨Nat.le_refl 1, Nat.succ_pos 4095⟩
    untimed := fun h => (nomatch h)
    timed := fun time htime => by
      cases htime
      exact ProofTime.parse_ok_iff.mp ⟨0, by decide +kernel⟩
    results := hresults }

end Satisfiable

/-! ## 3. What is reported -/

section Reported

variable {sj : SerdeJson} {policy : ProfilePolicy}

/-- A response is accepted for a circuit of the request. -/
theorem offered_of_parseResponse {plan : Plan} {vpToken : String} {ps : List Presentation}
    (h : parseResponse sj plan vpToken = .ok ps) : plan.systemFilter.systemIds ≠ none := by
  unfold parseResponse at h
  split at h
  · split at h
    · cases h
    · split at h
      · cases h
      · split at h
        · cases h
        · next elements _ =>
          split_ifs at h with hempty _
          have hall := checkPresentations_ok.mp h
          cases elements with
          | nil => exact absurd rfl hempty
          | cons element elements =>
            obtain ⟨p, _, hp, _, _⟩ := List.forall₂_cons_left_iff.mp hall
            obtain ⟨_, _, _, _, _, _, _, _, _, _, _, hmembers⟩ := hp.encoded
            obtain ⟨ids, hids, _⟩ := hmembers.offered
            rw [hids]
            exact Option.some_ne_none ids
        · cases h
  · cases h

/-- The raw query that is planned has an id. -/
theorem rawQuery_id {context : RequestContext} {id : String} {raw : Value}
    (h : ProfilePolicy.rawQuery context id = some raw) : raw.get "id" = some (.string id) := by
  obtain ⟨items, _, h⟩ := Option.bind_eq_some_iff.mp h
  exact Value.asStr_eq_some.mp (by simpa using List.find?_some h)

theorem selection_answerable {cq : CredentialQuery} {selection : ZkpReqSelection}
    (h : policy.zkpReqSelection sj cq = some selection) : Answerable sj selection := by
  obtain ⟨context, _, h⟩ := Option.bind_eq_some_iff.mp h
  obtain ⟨raw, hraw, h⟩ := Option.bind_eq_some_iff.mp h
  obtain ⟨p, hp, h⟩ := Option.bind_eq_some_iff.mp h
  obtain ⟨circuits, _, h⟩ := Option.bind_eq_some_iff.mp h
  obtain ⟨circuit, hcircuit, h⟩ := Option.bind_eq_some_iff.mp h
  cases h
  obtain ⟨hplanned, hsatisfiable⟩ := planned_eq_some.mp hp
  have hcircuit : policy.circuitServes sj circuit p = true := by
    simpa using List.find?_some hcircuit
  have hserves := circuitServes_iff.mp hcircuit
  refine ⟨fun hnone vpToken ps hok => offered_of_parseResponse hok hnone, fun hsome => ?_⟩
  obtain ⟨ids, hids⟩ := Option.ne_none_iff_exists'.mp hsome
  obtain ⟨id, hid, hparam⟩ := hserves.systemId ids hids
  obtain ⟨results, hresults, hanswers⟩ := exists_answers hsatisfiable hids hid
  obtain ⟨hread, _, hhandles⟩ := plan_ok hplanned
  refine ⟨id, hparam, ⟨raw, cq.id, rawQuery_id hraw, hread⟩, fun key hkey hsize => ?_⟩
  have hmax : MAX_PRESENTATION_INPUT = 2097152 := rfl
  simp only at hsize
  obtain ⟨enc, henc, hlength⟩ := @Vectors.encode_shortAnswer _ id _ hhandles hresults
    (by omega)
  have hnames : results.map Prod.fst = p.functions.map (·.handle) :=
    (forall₂_map_eq hresults fun _ _ hone => hone.1.symm).symm
  have hencoded : Vectors.Encoded (Vectors.shortAnswer id results) enc :=
    ⟨hnames ▸ hhandles, Vectors.NAMES, _, .refl _, .of_eq hnames.symm, henc⟩
  have hlimit : byteLen (Vectors.b64u enc) ≤ MAX_PRESENTATION_INPUT := by
    have hbytes := Rfc4648.length_encode_le enc
    rw [Vectors.b64u, byteLen, Base64url.utf8_encode]
    omega
  refine ⟨Vectors.shortAnswer id results, enc, rfl, hanswers, hencoded, fun hothers htoken => ?_⟩
  rw [Vectors.parseResponse_entry hkey hothers htoken]
  exact (Vectors.checkPresentations_encoded hhandles (.cons hencoded .nil)).mpr
    ⟨List.forall_mem_singleton.mpr hlimit, .cons ⟨rfl, rfl, rfl, rfl, .refl _, hanswers⟩ .nil⟩

/-- The proof that a record reports is that of a selection. -/
theorem member_zkpReq {query : DcqlQuery} {queryId : String} {candidate : Candidate}
    {text : String} (h : (Ffi.member sj policy query queryId candidate).zkpReq = some text) :
    ∃ cq selection, policy.zkpReqSelection sj cq = some selection ∧
      text = sj.write selection.toJson := by
  obtain ⟨selection, hselection, rfl⟩ := Option.map_eq_some_iff.mp h
  obtain ⟨resolved, hresolved, hzkp⟩ := Option.bind_eq_some_iff.mp hselection
  obtain ⟨cq, _, rfl⟩ := Option.map_eq_some_iff.mp hresolved
  refine ⟨cq, selection, ?_, rfl⟩
  unfold resolve at hzkp
  simp only at hzkp
  split_ifs at hzkp
  exact hzkp

/-- The proof of a reported record is that of a selection for the query that is evaluated. -/
theorem evaluate_selection {w : PointerWidth} {db : CredentialDatabase} {query : DcqlQuery}
    {context : RequestContext} {m : FfiMatchedCredential}
    (hm : m ∈ (Ffi.evaluate sj w db query context).records) {text : String}
    (htext : m.zkpReq = some text) :
    ∃ cq selection, ProfilePolicy.zkpReqSelection sj
        { profile := db.profile, context := some context } cq = some selection ∧
      text = sj.write selection.toJson := by
  have hmember : ∃ queryId candidate, m =
      Ffi.member sj { profile := db.profile, context := some context } query queryId candidate := by
    rcases List.mem_append.mp hm with h | h
    · obtain ⟨qm, hqm, hm⟩ := List.mem_flatMap.mp h
      obtain ⟨result, _, rfl⟩ := List.mem_map.mp hqm
      obtain ⟨candidate, _, rfl⟩ := List.mem_map.mp hm
      exact ⟨_, _, rfl⟩
    · obtain ⟨combination, hcombination, hm⟩ := List.mem_flatMap.mp h
      obtain ⟨built, _, rfl⟩ := List.mem_map.mp hcombination
      obtain ⟨found, _, rfl⟩ := List.mem_map.mp hm
      exact ⟨_, _, rfl⟩
  obtain ⟨queryId, candidate, rfl⟩ := hmember
  exact member_zkpReq htext

end Reported

/-- Without client metadata no circuit is named, and nothing answers what is reported. -/
theorem matchDcql_unanswerable (sj : SerdeJson) (w : PointerWidth) (texts : DcqlTexts)
    (ciborium : Ciborium) (blob : List UInt8) {dcqlJson : String} {outcome : FfiMatchOutcome}
    (h : Ffi.matchDcql sj w texts ciborium blob dcqlJson = .ok outcome)
    {m : FfiMatchedCredential} (hm : m ∈ outcome.records) {text : String}
    (htext : m.zkpReq = some text) :
    ∃ selection : ZkpReqSelection, text = sj.write selection.toJson ∧
      ∀ vpToken ps, parseResponse sj selection.plan vpToken ≠ .ok ps := by
  obtain ⟨db, _, h⟩ := bind_eq_ok.mp h
  obtain ⟨⟨query, context⟩, hcontext, h⟩ := bind_eq_ok.mp h
  cases h
  obtain ⟨cq, selection, hselection, rfl⟩ := evaluate_selection hm htext
  refine ⟨selection, rfl, (selection_answerable hselection).unnamed ?_⟩
  obtain ⟨_, _, hmetadata⟩ := dcqlContext_ok hcontext
  obtain ⟨raw, _, h⟩ := Option.bind_eq_some_iff.mp hselection
  obtain ⟨p, hp, h⟩ := Option.bind_eq_some_iff.mp h
  obtain ⟨_, _, h⟩ := Option.bind_eq_some_iff.mp h
  obtain ⟨_, _, h⟩ := Option.bind_eq_some_iff.mp h
  cases h
  obtain ⟨hplan, _⟩ := planned_eq_some.mp hp
  rw [hmetadata] at hplan
  obtain ⟨_, _, _, _, _, _, _, _, hfilter, _⟩ := plan_eq_ok.mp hplan
  exact congrArg SystemFilter.systemIds (Except.ok.inj hfilter).symm

end DcMatcher
