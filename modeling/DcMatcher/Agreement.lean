import DcMatcher.Disclosure

/-!
# The picker and the wallet library agree

Both evaluate the same query with the same policy, and both enumerate at most 32
combinations, each with the `usize` of its own target.

Results:
1. `combinations_width`: the combinations do not depend on the width of `usize`.
2. `offered_offer`: the sets that are no diagnostics are those of the combinations.
3. `run_agrees`: set by set and entry by entry, the picker offers what the library reports.
-/

namespace DcMatcher

open Lists

/-- The combinations do not depend on the width of `usize`. -/
theorem combinations_width {C : Type} [Credential C] {query : DcqlQuery} {wallet : List C}
    {policy : Policy C} {w w' : PointerWidth} {limit : Usize w} {limit' : Usize w'}
    (h : limit.val = limit'.val) :
    ((execute query wallet policy).combinations w limit).combinations =
      ((execute query wallet policy).combinations w' limit').combinations := by
  cases hsat : (execute query wallet policy).satisfiable with
  | true =>
    rw [combinations_of_satisfiable w limit hsat, combinations_of_satisfiable w' limit' hsat, h]
  | false =>
    rw [combinations_of_not_satisfiable w limit hsat,
      combinations_of_not_satisfiable w' limit' hsat]

namespace Picker

/-! ## 1. Diagnostics and sets -/

/-- What the ids of diagnostic sets start with. -/
def DEBUG_PREFIX : String := "siros-debug-"

/-- A set that is a diagnostic. -/
def EntrySet.isDebug (set : EntrySet) : Bool :=
  DEBUG_PREFIX.toList.isPrefixOf set.id.text.toList

/-- The sets that offer credentials. -/
def offered (sets : List EntrySet) : List EntrySet := sets.filter fun set => !set.isDebug

theorem ofLossy_toList (text : String) :
    (C8Str.ofLossy text).text.toList = text.toList.map lossyChar :=
  String.toList_ofList

theorem offered_diagnose (enabled : Bool) (kind message : String) :
    offered (diagnose enabled kind message) = [] := by
  cases enabled with
  | false => rfl
  | true =>
    have hdebug : DEBUG_PREFIX.toList.isPrefixOf
        (C8Str.ofLossy (DEBUG_PREFIX ++ kind)).text.toList = true := by
      have hkeep : DEBUG_PREFIX.toList.map lossyChar = DEBUG_PREFIX.toList := by decide
      rw [ofLossy_toList, String.toList_append, List.map_append, hkeep]
      exact List.isPrefixOf_iff_prefix.mpr (List.prefix_append _ _)
    show List.filter _ [_] = []
    rw [List.filter_cons_of_neg, List.filter_nil]
    rw [Bool.not_eq_true, Bool.not_eq_false']
    exact hdebug

/-- A numbered set is no diagnostic: a digit follows the prefix. -/
theorem isDebug_numbered (n : Nat) :
    DEBUG_PREFIX.toList.isPrefixOf
      (C8Str.ofLossy (SET_PREFIX ++ "-" ++ toString n)).text.toList = false := by
  rw [Bool.eq_false_iff]
  intro h
  obtain ⟨rest, hrest⟩ := List.isPrefixOf_iff_prefix.mp h
  have hletter : 'd' ∈ (toString n).toList.map lossyChar := by
    have hsplit : DEBUG_PREFIX.toList =
        (SET_PREFIX ++ "-").toList.map lossyChar ++ "debug-".toList := by decide
    rw [ofLossy_toList, String.toList_append, List.map_append, hsplit, List.append_assoc] at hrest
    rw [← List.append_cancel_left hrest]
    exact List.mem_append_left _ (by decide)
  -- the character after the prefix would be a digit and a letter
  obtain ⟨ch, hch, hlossy⟩ := List.mem_map.mp hletter
  have hdigits : ch ∈ Nat.toDigits 10 n := by simpa using hch
  have hdigit : ch.isDigit = true := Nat.isDigit_of_mem_toDigits (by decide) (by decide) hdigits
  unfold lossyChar at hlossy
  split at hlossy
  · revert hlossy
    decide
  · rw [hlossy] at hdigit
    revert hdigit
    decide

/-! ## 2. The sets of the combinations -/

section Offer

variable {sj : SerdeJson} {origin : String} {db : CredentialDatabase} {query : DcqlQuery}
  {context : RequestContext} {w : PointerWidth}

/-- The result of an invocation. -/
def resultOf (sj : SerdeJson) (db : CredentialDatabase) (query : DcqlQuery)
    (context : RequestContext) : QueryResult :=
  execute query (credentials sj db) ((policyOf db context).policyMatches sj)

/-- Its combinations. -/
def builtOf (sj : SerdeJson) (db : CredentialDatabase) (query : DcqlQuery)
    (context : RequestContext) (w : PointerWidth) : Combinations :=
  (resultOf sj db query context).combinations w (MAX_COMBINATIONS w)

theorem offered_emitSet (n : Nat) (members : List Member) :
    offered (emitSet (SET_PREFIX ++ "-" ++ toString n) members) =
      emitSet (SET_PREFIX ++ "-" ++ toString n) members := by
  cases members with
  | nil => rfl
  | cons first others =>
    refine List.filter_eq_self.mpr fun set hset => ?_
    rw [List.mem_singleton.mp hset]
    exact congrArg _ (isDebug_numbered n)

/-- The sets of an invocation: a diagnostic if there are no combinations, else theirs. -/
theorem offer_cases :
    (∃ kind message, offer sj origin db query context w = diagnose db.profile.debug kind message ∧
      (builtOf sj db query context w).combinations = []) ∨
    offer sj origin db query context w =
      (builtOf sj db query context w).combinations.zipIdx.flatMap
        (offerCombination sj origin db query context
          (builtOf sj db query context w).dropped) := by
  unfold offer
  simp only
  split
  · next hunsatisfiable =>
    exact .inl ⟨_, _, rfl,
      combinations_of_not_satisfiable w _ ((Bool.not_eq_true' _).mp hunsatisfiable)⟩
  · split
    · next hnone => exact .inl ⟨_, _, rfl, List.isEmpty_iff.mp hnone⟩
    · exact .inr rfl

/-- The sets that are no diagnostics are those of the combinations. -/
theorem offered_offer :
    offered (offer sj origin db query context w) =
      (builtOf sj db query context w).combinations.zipIdx.flatMap
        (offerCombination sj origin db query context
          (builtOf sj db query context w).dropped) := by
  rcases offer_cases with ⟨kind, message, hoffer, hnone⟩ | hoffer
  · rw [hoffer, offered_diagnose, hnone]
    rfl
  · rw [hoffer]
    refine List.filter_eq_self.mpr fun set hset => ?_
    obtain ⟨numbered, _, hset⟩ := List.mem_flatMap.mp hset
    unfold offerCombination at hset
    split at hset
    · cases hset
    · rw [← offered_emitSet] at hset
      exact (List.mem_filter.mp hset).2

/-- The credential of a member is in the blob, under its id. -/
theorem findCredential_eq_some {m : DcMatcher.Member} {found : String × Candidate × Db.Credential}
    (h : findCredential db m = some found) :
    ∃ c ∈ db.credentials, c.id = m.2.credentialId ∧ found = (m.1, m.2, c) := by
  obtain ⟨c, hc, rfl⟩ := Option.map_eq_some_iff.mp h
  exact ⟨c, List.mem_of_find?_eq_some hc, by simpa using List.find?_some hc, rfl⟩

/-- Every member of a combination has its credential in the blob. -/
theorem exists_findCredential {combination : Combination}
    (h : combination ∈ (builtOf sj db query context w).combinations)
    {m : DcMatcher.Member} (hm : m ∈ combination.members) :
    ∃ found, findCredential db m = some found := by
  obtain ⟨cq, _, hcandidate⟩ := combination_member h hm
  obtain ⟨c, hc, _, hselected⟩ := mem_blobCandidates.mp hcandidate
  obtain ⟨_, hid⟩ := candidateOf_eq_some.mp hselected
  have hsome : (db.credentials.find? fun c => c.id == m.2.credentialId).isSome := by
    rw [List.find?_isSome]
    exact ⟨c, hc, beq_iff_eq.mpr hid.symm⟩
  obtain ⟨c', hc'⟩ := Option.isSome_iff_exists.mp hsome
  exact ⟨_, Option.map_eq_some_iff.mpr ⟨c', hc', rfl⟩⟩

/-- A combination is offered whole: an entry for each member. -/
theorem offerCombination_eq {combination : Combination}
    (h : combination ∈ (builtOf sj db query context w).combinations) (dropped : Dropped) (n : Nat) :
    ∃ found, List.Forall₂ (fun m f => findCredential db m = some f) combination.members found ∧
      offerCombination sj origin db query context dropped (combination, n) =
        emitSet (SET_PREFIX ++ "-" ++ toString n)
          (found.map (offerMember sj origin db query context dropped
            (Purpose.line combination.purposes))) := by
  obtain ⟨found, hfound⟩ := exists_collect fun m hm => exists_findCredential h hm
  refine ⟨found, collect_eq_some.mp hfound, ?_⟩
  simp only [offerCombination, hfound]

theorem entries_of_emitSet {setId : String} {members : List Member} {set : EntrySet}
    (h : set ∈ emitSet setId members) : set.entries = members.map Member.entry := by
  cases members with
  | nil => cases h
  | cons first others =>
    rw [List.mem_singleton.mp h]
    rfl

end Offer

end Picker

/-! ## 3. Agreement -/

namespace Picker

section Data

variable {sj : SerdeJson} {origin : String} {db : CredentialDatabase} {query : DcqlQuery}
  {context : RequestContext} {dropped : Dropped} {queryId credentialId : String}
  {resolved : Option Resolved}

/-- What an entry's data says of the match. -/
theorem entryData_get :
    let data := entryData origin context dropped queryId credentialId resolved
    data.get "query_id" = some (.string queryId) ∧
      data.get "credential_id" = some (.string credentialId) ∧
      data.get "claims" =
        some (.array (((resolved.map (·.claims)).getD []).map Value.texts)) ∧
      data.get "capabilities" =
        some (.array (((resolved.map (·.capabilities)).getD []).map Capability.toValue)) ∧
      data.get "zkp_req" =
        some (((resolved.bind (·.zkpReq)).map ZkpReqSelection.toJson).getD .null) := by
  intro data
  simp [data, entryData, Value.ofMembers, Map.ofList, Map.get_insert]

end Data

end Picker

section Agreement

/-- The data of an entry says what the record says. -/
structure EntryAgrees (sj : SerdeJson) (e : Picker.Entry) (m : FfiMatchedCredential) : Prop where
  data : ∃ (data : Value) (zkpReq : Option ZkpReqSelection),
    e.data = .ofLossy (sj.write data) ∧
    data.get "query_id" = some (.string m.queryId) ∧
    data.get "credential_id" = some (.string m.credentialId) ∧
    data.get "claims" = some (.array (m.claims.map Value.texts)) ∧
    data.get "capabilities" = some (.array (m.capabilities.map fun c =>
      Capability.toValue { system := c.system, params := c.params })) ∧
    data.get "zkp_req" = some ((zkpReq.map ZkpReqSelection.toJson).getD .null) ∧
    m.zkpReq = zkpReq.map fun selection => sj.write selection.toJson

/-- A set offers the members of a combination, in order. -/
def SetAgrees (sj : SerdeJson) (set : Picker.EntrySet) (combination : FfiCombination) : Prop :=
  List.Forall₂ (EntryAgrees sj) set.entries combination.members

variable {sj : SerdeJson} {origin : String} {db : CredentialDatabase} {query : DcqlQuery}
  {context : RequestContext}

theorem entry_agrees {dropped : Dropped} {purpose : Option String} {m : Member}
    {c : Db.Credential} (hid : c.id = m.2.credentialId) :
    EntryAgrees sj
      (Picker.offerMember sj origin db query context dropped purpose (m.1, m.2, c)).entry
      (Ffi.member sj (Picker.policyOf db context) query m.1 m.2) := by
  obtain ⟨hquery, hcredential, hclaims, hcapabilities, hzkp⟩ :=
    @Picker.entryData_get origin context dropped m.1 c.id
      (Picker.resolvedMember sj db query context m.1 m.2)
  refine ⟨_, _, rfl, hquery, hcredential.trans ?_, hclaims, hcapabilities.trans ?_, hzkp, rfl⟩
  · rw [hid]
    rfl
  · show some (Value.array _) = some (Value.array (List.map _ (List.map _ _)))
    rw [List.map_map]
    rfl

/-- A combination is offered as a set that agrees with its record, if it has members. -/
theorem combination_agrees {w : PointerWidth} {combination : Combination}
    (h : combination ∈ (Picker.builtOf sj db query context w).combinations)
    (dropped : Dropped) (n : Nat) :
    let reported := Ffi.combination sj (Picker.policyOf db context) query combination
    List.Forall₂ (SetAgrees sj)
      (Picker.offerCombination sj origin db query context dropped (combination, n))
      (if !reported.members.isEmpty then [reported] else []) := by
  intro reported
  obtain ⟨found, hfound, hoffered⟩ :=
    @Picker.offerCombination_eq sj origin db query context w _ h dropped n
  rw [hoffered]
  have hentries : List.Forall₂ (EntryAgrees sj)
      ((found.map (Picker.offerMember sj origin db query context dropped
        (Purpose.line combination.purposes))).map Picker.Member.entry) reported.members := by
    rw [List.map_map, List.forall₂_map_left_iff]
    refine List.forall₂_map_right_iff.mpr ?_
    refine hfound.flip.imp fun f m hf => ?_
    obtain ⟨c, _, hid, rfl⟩ := Picker.findCredential_eq_some hf
    exact entry_agrees hid
  cases hmembers : found.map (Picker.offerMember sj origin db query context dropped
      (Purpose.line combination.purposes)) with
  | nil =>
    rw [hmembers] at hentries
    rw [List.forall₂_nil_left_iff.mp hentries]
    exact .nil
  | cons first others =>
    rw [hmembers] at hentries
    have hsome : reported.members.isEmpty = false := by
      obtain ⟨m, ms, _, _, hcons⟩ := List.forall₂_cons_left_iff.mp hentries
      rw [hcons]
      rfl
    rw [hsome]
    exact .cons hentries .nil

/-- The combinations of the outcome are those that the picker offers, in their order. -/
theorem evaluate_combinations (w w' : PointerWidth) :
    (Ffi.evaluate sj w db query context).combinations =
      (Picker.builtOf sj db query context w').combinations.zipIdx.map fun numbered =>
        Ffi.combination sj (Picker.policyOf db context) query numbered.1 := by
  have hbuilt : (Picker.builtOf sj db query context w).combinations =
      (Picker.builtOf sj db query context w').combinations := combinations_width rfl
  show (Picker.builtOf sj db query context w).combinations.map _ = _
  rw [hbuilt]
  conv_lhs =>
    rw [← List.zipIdx_map_fst 0 (Picker.builtOf sj db query context w').combinations]
  rw [List.map_map]
  rfl

/-- For a request that is evaluated, the sets agree with the combinations that have members,
one by one in the order both enumerate them. -/
theorem offer_agrees (w w' : PointerWidth) :
    List.Forall₂ (SetAgrees sj) (Picker.offered (Picker.offer sj origin db query context w'))
      ((Ffi.evaluate sj w db query context).combinations.filter fun c => !c.members.isEmpty) := by
  rw [Picker.offered_offer, evaluate_combinations w w', filter_map_eq_flatMap]
  refine forall₂_flatMap fun numbered hnumbered => ?_
  exact combination_agrees (List.fst_mem_of_mem_zipIdx hnumbered) _ numbered.2

/-- An unsatisfiable request has no combination, so no set is offered. -/
theorem offered_of_unsatisfiable {w w' : PointerWidth}
    (h : (Ffi.evaluate sj w db query context).satisfiable = false) :
    Picker.offered (Picker.offer sj origin db query context w') = [] := by
  have hnone : (Picker.builtOf sj db query context w').combinations = [] :=
    combinations_of_not_satisfiable w' _ h
  rw [Picker.offered_offer, hnone]
  rfl

/-- Set by set and entry by entry, the picker offers what the library reports, and it offers
nothing where the library reports an error or no way to satisfy the request. -/
theorem run_agrees (sj : SerdeJson) (ciborium : Ciborium) (w w' : PointerWidth)
    (blob : List UInt8) (requestJson origin : String) :
    let sets := Picker.offered
      (Picker.run sj w' ciborium { request := utf8 requestJson, blob, origin })
    let result := Ffi.matchDcApiRequest sj w ciborium blob requestJson
    (∀ e, result = .error e → sets = []) ∧
      ∀ outcome, result = .ok outcome →
        (outcome.satisfiable = false → sets = []) ∧
          List.Forall₂ (SetAgrees sj) sets
            (outcome.combinations.filter fun c => !c.members.isEmpty) := by
  intro sets result
  cases hdb : CredentialDatabase.fromCbor ciborium blob with
  | error e =>
    have hsets : sets = [] := by simp only [sets, Picker.run, hdb]; rfl
    have hresult : result = .error (.blob e.text) := by
      simp only [result, Ffi.matchDcApiRequest, Ffi.decode, hdb]
    exact ⟨fun _ _ => hsets, fun outcome houtcome => by rw [hresult] at houtcome; cases houtcome⟩
  | ok db =>
    have hresult : result = Ffi.matchRequest sj w db requestJson := by
      simp only [result, Ffi.matchDcApiRequest, Ffi.decode, hdb]
    have hsets : sets = Picker.offered (Picker.runOn sj w' db (utf8 requestJson) origin) := by
      simp only [sets, Picker.run, hdb]
    rw [runOn_eq] at hsets
    cases hchosen : chosen sj db.profile (utf8 requestJson) with
    | none =>
      rw [hchosen, Picker.offered_diagnose] at hsets
      obtain ⟨e, he⟩ := matchRequest_of_not_chosen sj w hchosen
      refine ⟨fun _ _ => hsets, fun outcome houtcome => ?_⟩
      rw [hresult, he] at houtcome
      cases houtcome
    | some found =>
      obtain ⟨context, query⟩ := found
      rw [hchosen] at hsets
      rw [matchRequest_of_chosen sj w hchosen] at hresult
      refine ⟨fun e he => ?_, fun outcome houtcome => ?_⟩
      · rw [hresult] at he
        cases he
      · rw [hresult] at houtcome
        cases houtcome
        rw [hsets]
        exact ⟨offered_of_unsatisfiable, offer_agrees w w'⟩

end Agreement

end DcMatcher
