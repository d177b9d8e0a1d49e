import DcMatcher.HostDiscipline
import DcMatcher.Matching

/-!
# What a request can tell of a wallet

Two wallets, one request. A request sees the credentials that answer one of its queries, and of
these what the picker shows and the claims under the paths that are asked for. Everything else,
other claims and other credentials altogether, it cannot tell from its absence.

Results:
1. `execute_congr`: a result depends on what credentials that answer a query answer.
2. `evaluate_congr`, `offered_congr`: what a wallet library and the picker are told.
3. `run_indistinguishable`: two wallets that look alike to a request give the same outcome.
-/

namespace DcMatcher

open Lists

/-! ## 1. Answers -/

section Answers

variable {C C' : Type} [Credential C] [Credential C'] {query : DcqlQuery} {policy : Policy C}
  {policy' : Policy C'}

/-- What a credential answers a credential query with. -/
def answer (policy : Policy C) (cq : CredentialQuery) (c : C) : Option Candidate :=
  if (!cq.requireCryptographicHolderBinding || Credential.hasCryptographicHolderBinding c) &&
      policy cq c then candidateOf cq c
  else none

/-- Whether a credential answers a query at all. -/
def answers (query : DcqlQuery) (policy : Policy C) (c : C) : Bool :=
  query.credentials.any fun cq => (answer policy cq c).isSome

theorem candidates_eq (wallet : List C) (cq : CredentialQuery) :
    (queryMatch wallet policy cq).candidates = wallet.filterMap (answer policy cq) := by
  unfold queryMatch
  rw [List.filterMap_filter, List.filterMap_filter]
  refine List.filterMap_congr fun c _ => ?_
  unfold answer
  cases !cq.requireCryptographicHolderBinding || Credential.hasCryptographicHolderBinding c <;> rfl

/-- Only what answers a query counts. -/
theorem filterMap_answers {cq : CredentialQuery} (hcq : cq ∈ query.credentials) (wallet : List C) :
    (wallet.filter (answers query policy)).filterMap (answer policy cq) =
      wallet.filterMap (answer policy cq) := by
  rw [List.filterMap_filter]
  refine List.filterMap_congr fun c _ => ?_
  split
  · rfl
  · next hnone =>
    cases hanswer : answer policy cq c with
    | none => rfl
    | some candidate =>
      exact absurd (List.any_eq_true.mpr ⟨cq, hcq, by rw [hanswer]; rfl⟩) hnone

/-- A result depends on what the wallet answers each credential query with. -/
theorem execute_eq_of_answers {wallet : List C} {wallet' : List C'}
    (h : ∀ cq ∈ query.credentials,
      wallet.filterMap (answer policy cq) = wallet'.filterMap (answer policy' cq)) :
    execute query wallet policy = execute query wallet' policy' := by
  have hmatch : query.credentials.map (queryMatch wallet policy) =
      query.credentials.map (queryMatch wallet' policy') := by
    refine List.map_congr_left fun cq hcq => ?_
    have hsame : (queryMatch wallet policy cq).candidates =
        (queryMatch wallet' policy' cq).candidates := by
      rw [candidates_eq, candidates_eq, h cq hcq]
    exact congrArg (fun candidates => QueryMatch.mk cq.id candidates cq.multiple) hsame
  unfold execute
  simp only [hmatch]

/-- A result depends on what the credentials that answer a query answer, in wallet order. -/
theorem execute_congr {R : C → C → Prop} {wallet wallet' : List C}
    (h : List.Forall₂ R (wallet.filter (answers query policy))
      (wallet'.filter (answers query policy)))
    (hR : ∀ c c', R c c' → ∀ cq ∈ query.credentials, answer policy cq c = answer policy cq c') :
    execute query wallet policy = execute query wallet' policy := by
  refine execute_eq_of_answers fun cq hcq => ?_
  rw [← filterMap_answers hcq wallet, ← filterMap_answers hcq wallet']
  exact forall₂_filterMap_eq h fun c c' hcc => hR c c' hcc cq hcq

/-- A candidate depends on the id of its credential and on the claims that are asked for. -/
theorem candidateOf_congr {cq : CredentialQuery} {c : C} {c' : C'}
    (hid : Credential.id c = Credential.id c')
    (h : ∀ claim ∈ cq.claims, resolveClaim claim c = resolveClaim claim c') :
    candidateOf cq c = candidateOf cq c' := by
  have hbyId : ∀ id, ((cq.claim id).bind fun claim => resolveClaim claim c) =
      (cq.claim id).bind fun claim => resolveClaim claim c' := by
    intro id
    cases hclaim : cq.claim id with
    | none => rfl
    | some claim => exact h claim (List.mem_of_find?_eq_some hclaim)
  have hselected : selectClaims cq c = selectClaims cq c' := by
    unfold selectClaims
    simp only [hbyId, collect_congr h]
  unfold candidateOf
  rw [hselected, hid]

end Answers

/-! ## 2. Credentials of two blobs -/

/-- The paths that a query asks for, by their keys. -/
def DcqlQuery.requestedPaths (query : DcqlQuery) : List (List String) :=
  query.credentials.flatMap fun cq => cq.claims.map fun claim => pathKeys claim.path

/-- Two credentials that differ at most in claims under other paths, and in where the bytes of
their icons stand. -/
structure Alike (paths : List (List String)) (db db' : CredentialDatabase)
    (c c' : Db.Credential) : Prop where
  id : c.id = c'.id
  format : c.format = c'.format
  doctype : c.doctype = c'.doctype
  vct : c.vct = c'.vct
  title : c.title = c'.title
  subtitle : c.subtitle = c'.subtitle
  icon : Picker.iconOf db c = Picker.iconOf db' c'
  claims : ∀ keys ∈ paths, c.storedClaim keys = c'.storedClaim keys

section Alike

variable {sj : SerdeJson} {query : DcqlQuery} {db db' : CredentialDatabase}
  {c c' : Db.Credential} {cq : CredentialQuery}

theorem mem_requestedPaths (hcq : cq ∈ query.credentials) {claim : ClaimsQuery}
    (hclaim : claim ∈ cq.claims) : pathKeys claim.path ∈ query.requestedPaths :=
  List.mem_flatMap.mpr ⟨cq, hcq, List.mem_map_of_mem hclaim⟩

theorem Alike.resolveClaim (h : Alike query.requestedPaths db db' c c')
    (hcq : cq ∈ query.credentials) {claim : ClaimsQuery} (hclaim : claim ∈ cq.claims) :
    resolveClaim claim ({ credential := c } : BlobCredential sj) =
      resolveClaim claim ({ credential := c' } : BlobCredential sj) := by
  have hfound : Credential.claim ({ credential := c } : BlobCredential sj) claim.path =
      Credential.claim ({ credential := c' } : BlobCredential sj) claim.path := by
    show BlobCredential.claim _ _ = BlobCredential.claim _ _
    unfold BlobCredential.claim
    cases hkeys : collect PathComponent.asKey claim.path with
    | none => rfl
    | some keys =>
      have hsame := h.claims _ (mem_requestedPaths hcq hclaim)
      rw [pathKeys, filterMap_of_collect hkeys] at hsame
      simp only [hsame]
  unfold DcMatcher.resolveClaim
  rw [hfound]

theorem Alike.candidateOf (h : Alike query.requestedPaths db db' c c')
    (hcq : cq ∈ query.credentials) :
    candidateOf cq ({ credential := c } : BlobCredential sj) =
      candidateOf cq ({ credential := c' } : BlobCredential sj) :=
  candidateOf_congr h.id fun _ hclaim => h.resolveClaim hcq hclaim

theorem Alike.policyMatches (h : Alike query.requestedPaths db db' c c') (policy : ProfilePolicy) :
    policy.policyMatches sj cq { credential := c } =
      policy.policyMatches sj cq { credential := c' } := by
  have hnym : isNymAuth c = isNymAuth c' := by
    unfold isNymAuth
    rw [h.doctype, h.vct]
  have hfield : credentialField c = credentialField c' := by
    funext field
    unfold credentialField
    rw [h.doctype, h.vct, h.format]
  have hmeta : ∀ rule, metaMatches rule cq c = metaMatches rule cq c' := by
    intro rule
    unfold metaMatches
    rw [hfield]
  unfold ProfilePolicy.policyMatches ProfilePolicy.queryAccepts
  simp only [h.format, hnym, hmeta]

theorem Alike.answer (h : Alike query.requestedPaths db db' c c') (hcq : cq ∈ query.credentials)
    (policy : ProfilePolicy) :
    answer (policy.policyMatches sj) cq { credential := c } =
      answer (policy.policyMatches sj) cq { credential := c' } := by
  have hbound : Credential.hasCryptographicHolderBinding
      ({ credential := c } : BlobCredential sj) =
      Credential.hasCryptographicHolderBinding ({ credential := c' } : BlobCredential sj) := rfl
  unfold DcMatcher.answer
  rw [hbound, h.policyMatches policy, h.candidateOf hcq]

end Alike

/-- The credentials of a blob that answer a query. -/
def answering (sj : SerdeJson) (db : CredentialDatabase) (query : DcqlQuery)
    (context : RequestContext) : List Db.Credential :=
  db.credentials.filter fun c =>
    answers query ((Picker.policyOf db context).policyMatches sj) { credential := c }

/-- Two blobs that a query cannot tell apart: the same rules, and of the credentials that answer
the query only what it does not ask for differs. -/
structure SameView (sj : SerdeJson) (query : DcqlQuery) (context : RequestContext)
    (db db' : CredentialDatabase) : Prop where
  profile : db.profile = db'.profile
  credentials : List.Forall₂ (Alike query.requestedPaths db db')
    (answering sj db query context) (answering sj db' query context)

section Views

variable {sj : SerdeJson} {query : DcqlQuery} {context : RequestContext}
  {db db' : CredentialDatabase}

theorem resultOf_congr (h : SameView sj query context db db') :
    Picker.resultOf sj db query context = Picker.resultOf sj db' query context := by
  have hpolicy : Picker.policyOf db context = Picker.policyOf db' context := by
    unfold Picker.policyOf
    rw [h.profile]
  have hview := h.credentials
  unfold answering at hview
  unfold Picker.resultOf DcMatcher.credentials
  rw [hpolicy] at hview ⊢
  refine @execute_congr _ _ query _
    (fun b b' => Alike query.requestedPaths db db' b.credential b'.credential) _ _ ?_ ?_
  · rw [List.filter_map, List.filter_map, List.forall₂_map_left_iff, List.forall₂_map_right_iff]
    exact hview
  · exact fun b b' halike cq hcq => halike.answer hcq _

/-- A wallet library is told the same of both. -/
theorem evaluate_congr (h : SameView sj query context db db') (w : PointerWidth) :
    Ffi.evaluate sj w db query context = Ffi.evaluate sj w db' query context := by
  have hresult := resultOf_congr h
  unfold Picker.resultOf Picker.policyOf at hresult
  unfold Ffi.evaluate
  simp only [h.profile] at hresult ⊢
  rw [hresult]

/-- The member of a combination is a credential of each blob, and the two look alike. -/
theorem exists_alike (h : SameView sj query context db db')
    (hids : (db.credentials.map (·.id)).Nodup) (hids' : (db'.credentials.map (·.id)).Nodup)
    {w : PointerWidth} {combination : Combination}
    (hbuilt : combination ∈ (Picker.builtOf sj db query context w).combinations)
    {m : Member} (hm : m ∈ combination.members) :
    ∃ c c', Picker.findCredential db m = some (m.1, m.2, c) ∧
      Picker.findCredential db' m = some (m.1, m.2, c') ∧
      Alike query.requestedPaths db db' c c' ∧
      ∀ claim ∈ m.2.claims, pathKeys claim.path ∈ query.requestedPaths := by
  obtain ⟨cq, hfound, hcandidate⟩ := combination_member hbuilt hm
  obtain ⟨hcq, _⟩ := DcqlQuery.credential_eq_some hfound
  obtain ⟨c, hc, hpolicy, hselected⟩ := mem_blobCandidates.mp hcandidate
  have hanswer : answer ((Picker.policyOf db context).policyMatches sj) cq { credential := c } =
      some m.2 := by
    unfold answer
    rw [hpolicy, Bool.and_true]
    exact (if_pos (Bool.or_true _)).trans hselected
  have hanswers : c ∈ answering sj db query context :=
    List.mem_filter.mpr ⟨hc, List.any_eq_true.mpr ⟨cq, hcq, by rw [hanswer]; rfl⟩⟩
  obtain ⟨c', hanswers', halike⟩ := forall₂_mem_left h.credentials hanswers
  have hc' : c' ∈ db'.credentials := (List.mem_filter.mp hanswers').1
  obtain ⟨hclaims, hid⟩ := candidateOf_eq_some.mp hselected
  have hid : m.2.credentialId = c.id := hid
  refine ⟨c, c', ?_, ?_, halike, fun claim hclaim => ?_⟩
  · unfold Picker.findCredential
    rw [hid, find?_key_of_mem hids hc]
    rfl
  · unfold Picker.findCredential
    rw [hid, halike.id, find?_key_of_mem hids' hc']
    rfl
  · obtain ⟨asked, hasked, hresolved⟩ := selectClaims_resolved hclaims claim hclaim
    obtain ⟨_, _, _, _, rfl⟩ := resolveClaim_eq_some.mp hresolved
    exact mem_requestedPaths hcq hasked

/-- The entry of a member is the same for both. -/
theorem offerMember_congr {origin : String} {dropped : Dropped} {purpose : Option String}
    {paths : List (List String)} {m : Member} {c c' : Db.Credential}
    (hprofile : db.profile = db'.profile) (halike : Alike paths db db' c c')
    (hclaims : ∀ claim ∈ m.2.claims, pathKeys claim.path ∈ paths) :
    Picker.offerMember sj origin db query context dropped purpose (m.1, m.2, c) =
      Picker.offerMember sj origin db' query context dropped purpose (m.1, m.2, c') := by
  have hresolved : Picker.resolvedMember sj db query context =
      Picker.resolvedMember sj db' query context := by
    unfold Picker.resolvedMember Picker.policyOf
    rw [hprofile]
  have hfields : Picker.disclosedFields c m.2 = Picker.disclosedFields c' m.2 := by
    unfold Picker.disclosedFields
    rw [List.filterMap_congr fun claim hclaim => halike.claims _ (hclaims claim hclaim)]
  unfold Picker.offerMember
  simp only [hresolved, hfields, halike.id, halike.title, halike.subtitle, halike.icon]

/-- What the credentials of two blobs, found for the same members, are offered as. -/
theorem offerMembers_congr {origin : String} {dropped : Dropped} {purpose : Option String}
    {members : List Member} {found found' : List (String × Candidate × Db.Credential)}
    (hprofile : db.profile = db'.profile)
    (hfound : List.Forall₂ (fun m f => Picker.findCredential db m = some f) members found)
    (hfound' : List.Forall₂ (fun m f => Picker.findCredential db' m = some f) members found')
    (halike : ∀ m ∈ members, ∃ c c', Picker.findCredential db m = some (m.1, m.2, c) ∧
      Picker.findCredential db' m = some (m.1, m.2, c') ∧
      Alike query.requestedPaths db db' c c' ∧
      ∀ claim ∈ m.2.claims, pathKeys claim.path ∈ query.requestedPaths) :
    found.map (Picker.offerMember sj origin db query context dropped purpose) =
      found'.map (Picker.offerMember sj origin db' query context dropped purpose) := by
  induction hfound generalizing found' with
  | nil =>
    cases hfound'
    rw [List.map_nil, List.map_nil]
  | @cons m f members found hone hrest ih =>
    rcases hfound' with _ | ⟨hone', hrest'⟩
    obtain ⟨hfirst, hothers⟩ := List.forall_mem_cons.mp halike
    obtain ⟨c, c', hc, hc', hlike, hclaims⟩ := hfirst
    rw [hone] at hc
    rw [hone'] at hc'
    cases hc
    cases hc'
    rw [List.map_cons, List.map_cons, offerMember_congr hprofile hlike hclaims, ih hrest' hothers]

/-- The picker is told the same of both, diagnostics apart. -/
theorem offered_congr (h : SameView sj query context db db')
    (hids : (db.credentials.map (·.id)).Nodup) (hids' : (db'.credentials.map (·.id)).Nodup)
    (origin : String) (w : PointerWidth) :
    Picker.offered (Picker.offer sj origin db query context w) =
      Picker.offered (Picker.offer sj origin db' query context w) := by
  have hbuilt : Picker.builtOf sj db query context w = Picker.builtOf sj db' query context w := by
    unfold Picker.builtOf
    rw [resultOf_congr h]
  rw [Picker.offered_offer, Picker.offered_offer, ← hbuilt]
  refine List.flatMap_congr fun ⟨combination, n⟩ hnumbered => ?_
  have hmem := List.fst_mem_of_mem_zipIdx hnumbered
  have hmem' : combination ∈ (Picker.builtOf sj db' query context w).combinations := hbuilt ▸ hmem
  obtain ⟨found, hfound, hoffer⟩ := @Picker.offerCombination_eq sj origin db query context w _
    hmem (Picker.builtOf sj db query context w).dropped n
  obtain ⟨found', hfound', hoffer'⟩ := @Picker.offerCombination_eq sj origin db' query context w _
    hmem' (Picker.builtOf sj db query context w).dropped n
  rw [hoffer, hoffer', offerMembers_congr h.profile hfound hfound' fun m hm =>
    exists_alike h hids hids' hmem hm]

end Views

/-! ## 3. Two runs -/

/-- Whatever query is evaluated of a request, it cannot tell the blobs apart. -/
def Unseen (sj : SerdeJson) (request : List UInt8) (db db' : CredentialDatabase) : Prop :=
  ∀ context query, chosen sj db.profile request = some (context, query) →
    SameView sj query context db db'

section Runs

variable {sj : SerdeJson} {ciborium : Ciborium} {db db' : CredentialDatabase}
  {blob blob' : List UInt8}

theorem chosen_of_found {profile : MatchProfile} {requestJson : String} {parsed : Value}
    (hparsed : sj.fromStr requestJson = some parsed) {query : DcqlQuery}
    {context : RequestContext} (h : Ffi.found sj profile parsed = some (query, context)) :
    chosen sj profile (utf8 requestJson) = some (context, query) := by
  obtain ⟨context', hcontext, hquery⟩ := Option.bind_eq_some_iff.mp h
  obtain ⟨query', hquery', hpair⟩ := Option.map_eq_some_iff.mp hquery
  cases hpair
  have hslice : sj.fromSlice (utf8 requestJson) = some parsed := hparsed
  rw [chosen, firstSupportedContext, hslice, Option.bind_some, hcontext, Option.bind_some,
    withQuery, hquery', Option.map_some]

/-- A request that is declined is declined in words that depend on the profile only. -/
theorem matchRequest_congr (w : PointerWidth) {requestJson : String}
    (hprofile : db.profile = db'.profile) (h : Unseen sj (utf8 requestJson) db db') :
    Ffi.matchRequest sj w db requestJson = Ffi.matchRequest sj w db' requestJson := by
  unfold Ffi.matchRequest
  rw [← hprofile]
  cases hparsed : sj.fromStr requestJson with
  | none => rfl
  | some parsed =>
    cases hrequests : (parsed.get "requests").bind Value.asArray with
    | none => simp only [hrequests]
    | some requests =>
      cases hfound : Ffi.found sj db.profile parsed with
      | none => simp only [hrequests, hfound]
      | some found =>
        obtain ⟨query, context⟩ := found
        simp only [hrequests, hfound]
        rw [evaluate_congr (h context query (chosen_of_found hparsed hfound)) w]

theorem offered_runOn_congr (w : PointerWidth) {request : List UInt8} {origin : String}
    (hprofile : db.profile = db'.profile) (hids : (db.credentials.map (·.id)).Nodup)
    (hids' : (db'.credentials.map (·.id)).Nodup) (h : Unseen sj request db db') :
    Picker.offered (Picker.runOn sj w db request origin) =
      Picker.offered (Picker.runOn sj w db' request origin) := by
  rw [runOn_eq, runOn_eq, ← hprofile]
  cases hchosen : chosen sj db.profile request with
  | none => rfl
  | some found => exact offered_congr (h found.1 found.2 hchosen) hids hids' origin w

/-- Without the debug flag, there are no diagnostics. -/
theorem offered_runOn (w : PointerWidth) {request : List UInt8} {origin : String}
    (hdebug : db.profile.debug = false) :
    Picker.offered (Picker.runOn sj w db request origin) =
      Picker.runOn sj w db request origin := by
  rw [runOn_eq, hdebug]
  cases hchosen : chosen sj db.profile request with
  | none => rfl
  | some found =>
    show Picker.offered (Picker.offer _ _ _ _ _ _) = Picker.offer _ _ _ _ _ _
    rcases @Picker.offer_cases sj origin db found.2 found.1 w with
      ⟨kind, message, hoffer, _⟩ | hoffer
    · rw [hoffer, hdebug]
      rfl
    · rw [Picker.offered_offer, hoffer]

end Runs

/-- Two wallets that look alike to a request: a wallet library reports the same, the picker is
offered the same, and without the debug flag the host sees the same calls. -/
theorem run_indistinguishable (sj : SerdeJson) (ciborium : Ciborium) (w w' : PointerWidth)
    {blob blob' : List UInt8} {db db' : CredentialDatabase}
    (hdb : CredentialDatabase.fromCbor ciborium blob = .ok db)
    (hdb' : CredentialDatabase.fromCbor ciborium blob' = .ok db')
    (hids : (db.credentials.map (·.id)).Nodup) (hids' : (db'.credentials.map (·.id)).Nodup)
    (hprofile : db.profile = db'.profile) (requestJson origin : String)
    (h : Unseen sj (utf8 requestJson) db db') :
    Ffi.matchDcApiRequest sj w ciborium blob requestJson =
        Ffi.matchDcApiRequest sj w ciborium blob' requestJson ∧
      Picker.offered
          (Picker.run sj w' ciborium { request := utf8 requestJson, blob := blob, origin }) =
        Picker.offered
          (Picker.run sj w' ciborium { request := utf8 requestJson, blob := blob', origin }) ∧
      (db.profile.debug = false → ∀ host,
        Picker.calls sj w' ciborium host { request := utf8 requestJson, blob := blob, origin } =
          Picker.calls sj w' ciborium host
            { request := utf8 requestJson, blob := blob', origin }) := by
  have hoffered := @offered_runOn_congr sj db db' w' _ origin hprofile hids hids' h
  have hrun : ∀ {blob db}, CredentialDatabase.fromCbor ciborium blob = .ok db →
      Picker.run sj w' ciborium { request := utf8 requestJson, blob := blob, origin } =
        Picker.runOn sj w' db (utf8 requestJson) origin := by
    intro blob db hdb
    simp only [Picker.run, hdb]
  refine ⟨?_, ?_, fun hdebug host => ?_⟩
  · simp only [Ffi.matchDcApiRequest, Ffi.decode, hdb, hdb']
    exact matchRequest_congr w hprofile h
  · rw [hrun hdb, hrun hdb', hoffered]
  · rw [offered_runOn w' hdebug, offered_runOn w' (hprofile ▸ hdebug)] at hoffered
    unfold Picker.calls
    rw [hrun hdb, hrun hdb', hoffered]

/-- The identity document with one more claim, in a wallet with one more credential. -/
def otherPidDatabase : CredentialDatabase where
  version := VERSION
  profile := pidDatabase.profile
  credentials :=
    { id := "loyalty-1"
      format := SOURCE_MSO_MDOC
      doctype := some "org.example.loyalty"
      vct := none
      title := "Loyalty card"
      subtitle := "Shop"
      icon := none
      claims := [⟨["eu.europa.ec.eudi.pid.1", "family_name"], "Doe", "Family name", none⟩] } ::
    pidDatabase.credentials.map fun c =>
      { c with claims := ⟨["eu.europa.ec.eudi.pid.1", "birth_date"], "1999-12-31", "Born", none⟩ ::
          c.claims }
  icons := []

theorem unseen_pid :
    Unseen (.ofValues [pidRequest, ageQuery, .bool true]) pidInput.request pidDatabase
      otherPidDatabase := by
  have hchosen : (chosen (.ofValues [pidRequest, ageQuery, .bool true]) pidDatabase.profile
      pidInput.request).all (fun found => decide
        (found.2.requestedPaths = [["eu.europa.ec.eudi.pid.1", "family_name"],
          ["eu.europa.ec.eudi.pid.1", "age_over_18"]] ∧
        answering (.ofValues [pidRequest, ageQuery, .bool true]) pidDatabase found.2 found.1 =
          pidDatabase.credentials ∧
        answering (.ofValues [pidRequest, ageQuery, .bool true]) otherPidDatabase found.2 found.1 =
          otherPidDatabase.credentials.tail)) = true := by
    decide +kernel
  intro context query h
  rw [h] at hchosen
  obtain ⟨hpaths, hfirst, hother⟩ := of_decide_eq_true hchosen
  refine ⟨rfl, ?_⟩
  rw [hfirst, hother, hpaths]
  refine .cons ?_ (.cons ?_ .nil)
  · exact ⟨rfl, rfl, rfl, rfl, rfl, rfl, rfl, by decide⟩
  · exact ⟨rfl, rfl, rfl, rfl, rfl, rfl, rfl, by decide⟩

def bothReader : Ciborium := .ofDatabases [pidDatabase, otherPidDatabase]

theorem fromCbor_both {db : CredentialDatabase} (hmem : db ∈ [pidDatabase, otherPidDatabase])
    (hversion : db.version ≤ VERSION) :
    CredentialDatabase.fromCbor bothReader db.toCbor = .ok db :=
  fromCbor_ofDatabases (by decide +kernel) hmem hversion

theorem run_indistinguishable_pid :
    Picker.offered (Picker.run (.ofValues [pidRequest, ageQuery, .bool true]) .w32 bothReader
        { pidInput with blob := pidDatabase.toCbor }) =
      Picker.offered (Picker.run (.ofValues [pidRequest, ageQuery, .bool true]) .w32 bothReader
        { pidInput with blob := otherPidDatabase.toCbor }) :=
  (@run_indistinguishable _ _ .w64 .w32 _ _ pidDatabase otherPidDatabase
    (fromCbor_both List.mem_cons_self (by decide))
    (fromCbor_both (List.mem_cons_of_mem _ List.mem_cons_self) (by decide)) (by decide)
    (by decide) rfl pidRequest.compact "https://verifier.example" unseen_pid).2.1

end DcMatcher
