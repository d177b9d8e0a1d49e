import DcMatcher.BareQueries
import DcMatcher.Builder
import DcMatcher.Noninterference

/-!
# What a wallet registers decides what the matcher does

A wallet builds its blob with any number of calls, in the order it likes. Icons may be
registered before or after their use, again, twice under two ids, or for nothing; where an icon
lies in the blob depends on all of it.

Results:
1. `run_profile`: the rules of a blob come from the systems and the last debug flag.
2. `offer_congr`: two blobs with credentials that show and hold the same are offered the same.
3. `build_sameToAll`: what was registered decides whether there is a blob and what every function
   of the matcher does with it.
-/

namespace DcMatcher

open Lists

/-! ## What is registered -/

/-- The systems that were added. -/
def zkSystemsOf (calls : List BuilderCall) : List FfiCapability :=
  calls.filterMap fun call => match call with
    | .addZkSystem capability => some capability
    | _ => none

/-- The `zkp_req` systems that were added. -/
def zkpReqSystemsOf (calls : List BuilderCall) : List FfiCapability :=
  calls.filterMap fun call => match call with
    | .addZkpReqSystem capability => some capability
    | _ => none

/-- The debug flag that was set last. -/
def lastDebug : List BuilderCall → Option Bool
  | [] => none
  | .setDebug debug :: calls => (lastDebug calls).or (some debug)
  | _ :: calls => lastDebug calls

/-- What a credential shows as its icon: nothing, or what was registered last for the icon it
names, if anything was. -/
def pictureOf (calls : List BuilderCall) (c : FfiCredential) : Option (Option (List UInt8)) :=
  c.iconId.map (lastIcon calls)

/-- Two credentials that are the same but for the name of their icon. -/
structure SamePicture (calls calls' : List BuilderCall) (c c' : FfiCredential) : Prop where
  credential : { c with iconId := none } = { c' with iconId := none }
  picture : pictureOf calls c = pictureOf calls' c'

/-- Two wallets that registered the same, in whatever order and under whatever icon names. -/
structure SameRegistrations (calls calls' : List BuilderCall) : Prop where
  credentials : List.Forall₂ (SamePicture calls calls') (added calls) (added calls')
  zkSystems : zkSystemsOf calls = zkSystemsOf calls'
  zkpReqSystems : zkpReqSystemsOf calls = zkpReqSystemsOf calls'
  debug : (lastDebug calls).getD false = (lastDebug calls').getD false

/-- No function of the matcher tells two blobs apart, whatever it is asked. -/
structure SameToAll (sj : SerdeJson) (ciborium : Ciborium) (blob blob' : List UInt8) : Prop where
  request : ∀ w requestJson, Ffi.matchDcApiRequest sj w ciborium blob requestJson =
    Ffi.matchDcApiRequest sj w ciborium blob' requestJson
  dcql : ∀ w texts dcqlJson clientMetadataJson,
    Ffi.matchDcqlWithContext sj w texts ciborium blob dcqlJson clientMetadataJson =
      Ffi.matchDcqlWithContext sj w texts ciborium blob' dcqlJson clientMetadataJson
  run : ∀ w request origin, Picker.run sj w ciborium { request, blob, origin } =
    Picker.run sj w ciborium { request, blob := blob', origin }

/-! ## 1. The rules -/

namespace BuilderState

/-- The fields of a builder that make its profile, after some calls. -/
theorem foldl_settings (s : BuilderState) (calls : List BuilderCall) :
    (calls.foldl step s).zkSystems = s.zkSystems ++ zkSystemsOf calls ∧
      (calls.foldl step s).zkpReqSystems = s.zkpReqSystems ++ zkpReqSystemsOf calls ∧
      (calls.foldl step s).debug = (lastDebug calls).getD s.debug := by
  induction calls generalizing s with
  | nil => exact ⟨(List.append_nil _).symm, (List.append_nil _).symm, rfl⟩
  | cons call calls ih =>
    obtain ⟨hzk, hzkpReq, hdebug⟩ := ih (s.step call)
    rw [List.foldl_cons, hzk, hzkpReq, hdebug]
    cases call with
    | setDebug debug =>
      refine ⟨rfl, rfl, ?_⟩
      rw [lastDebug]
      cases lastDebug calls <;> rfl
    | _ => simp [step, addIcon, zkSystemsOf, zkpReqSystemsOf, lastDebug]

/-- The profile depends on the systems and on the last debug flag. -/
theorem run_profile {calls calls' : List BuilderCall} (h : SameRegistrations calls calls') :
    (run calls).profile = (run calls').profile := by
  obtain ⟨hzk, hzkpReq, hdebug⟩ := foldl_settings empty calls
  obtain ⟨hzk', hzkpReq', hdebug'⟩ := foldl_settings empty calls'
  unfold profile run
  have hsame : (lastDebug calls).getD empty.debug = (lastDebug calls').getD empty.debug := h.debug
  rw [hzk, hzkpReq, hdebug, hzk', hzkpReq', hdebug', h.zkSystems, h.zkpReqSystems, hsame]

theorem database_profile {calls : List BuilderCall} {db : CredentialDatabase}
    (h : (run calls).database = .ok db) : db.profile = (run calls).profile := by
  unfold database at h
  obtain ⟨credentials, _, rfl⟩ := map_eq_ok.mp h
  rfl

end BuilderState

/-! ## 2. Credentials that look the same to everyone -/

/-- Two credentials that show and hold the same. -/
def Twins (db db' : CredentialDatabase) (c c' : Db.Credential) : Prop :=
  ∀ paths, Alike paths db db' c c'

/-- Two blobs with the same rules and credentials that look the same. -/
structure SameWallet (db db' : CredentialDatabase) : Prop where
  profile : db.profile = db'.profile
  credentials : List.Forall₂ (Twins db db') db.credentials db'.credentials

section Offered

variable {sj : SerdeJson} {query : DcqlQuery} {context : RequestContext}
  {db db' : CredentialDatabase}

theorem Alike.answers {c c' : Db.Credential} (h : Alike query.requestedPaths db db' c c')
    (policy : ProfilePolicy) :
    answers query (policy.policyMatches sj) { credential := c } =
      answers query (policy.policyMatches sj) { credential := c' } := by
  unfold DcMatcher.answers
  rw [Bool.eq_iff_iff, List.any_eq_true, List.any_eq_true]
  refine exists_congr fun cq => and_congr_right fun hcq => ?_
  rw [h.answer hcq]

theorem SameWallet.sameView (h : SameWallet db db') : SameView sj query context db db' := by
  have hpolicy : Picker.policyOf db context = Picker.policyOf db' context := by
    unfold Picker.policyOf
    rw [h.profile]
  have hall := h.credentials.imp fun c c' htwins => htwins query.requestedPaths
  refine ⟨h.profile, ?_⟩
  unfold answering
  rw [hpolicy]
  refine List.rel_filter (fun c c' halike => ?_) hall
  exact iff_of_eq (congrArg (· = true) (halike.answers _))

theorem SameWallet.unseen (h : SameWallet db db') (request : List UInt8) :
    Unseen sj request db db' :=
  fun _ _ _ => h.sameView

/-- A member is found in both blobs or in neither, and offered alike. -/
theorem SameWallet.findCredential (h : SameWallet db db') (origin : String) (dropped : Dropped)
    (purpose : Option String) (m : Member) :
    (Picker.findCredential db m).map
        (Picker.offerMember sj origin db query context dropped purpose) =
      (Picker.findCredential db' m).map
        (Picker.offerMember sj origin db' query context dropped purpose) := by
  unfold Picker.findCredential
  rw [Option.map_map, Option.map_map]
  refine find?_map_eq h.credentials (fun c c' htwins => ?_) fun c c' htwins => ?_
  · rw [(htwins []).id]
  · exact offerMember_congr h.profile (htwins (m.2.claims.map fun claim => pathKeys claim.path))
      fun claim hclaim => List.mem_map_of_mem hclaim

theorem SameWallet.offerCombination (h : SameWallet db db') (origin : String) (dropped : Dropped)
    (numbered : Combination × Nat) :
    Picker.offerCombination sj origin db query context dropped numbered =
      Picker.offerCombination sj origin db' query context dropped numbered := by
  have hmembers := collect_map_eq fun m (_ : m ∈ numbered.1.members) =>
    @SameWallet.findCredential sj query context db db' h origin dropped
      (Purpose.line numbered.1.purposes) m
  unfold Picker.offerCombination
  cases hfound : collect (Picker.findCredential db) numbered.1.members with
  | none =>
    rw [hfound, Option.map_none, eq_comm, Option.map_eq_none_iff] at hmembers
    rw [hmembers]
  | some found =>
    rw [hfound, Option.map_some, eq_comm, Option.map_eq_some_iff] at hmembers
    obtain ⟨found', hfound', hoffers⟩ := hmembers
    simp only [hfound', hoffers]

/-- The picker is offered the same, diagnostics included. -/
theorem offer_congr (h : SameWallet db db') (origin : String) (w : PointerWidth) :
    Picker.offer sj origin db query context w = Picker.offer sj origin db' query context w := by
  have hresult := @resultOf_congr sj query context db db' h.sameView
  have hheld : (credentials sj db).length = (credentials sj db').length := by
    unfold credentials
    rw [List.length_map, List.length_map]
    exact h.credentials.length_eq
  have hcombination : Picker.offerCombination sj origin db query context =
      Picker.offerCombination sj origin db' query context :=
    funext fun dropped => funext fun numbered => h.offerCombination origin dropped numbered
  unfold Picker.resultOf at hresult
  unfold Picker.offer
  simp only [hresult, hheld, h.profile, hcombination]

theorem runOn_congr (h : SameWallet db db') (w : PointerWidth) (request : List UInt8)
    (origin : String) :
    Picker.runOn sj w db request origin = Picker.runOn sj w db' request origin := by
  rw [runOn_eq, runOn_eq, h.profile]
  cases chosen sj db'.profile request with
  | none => rfl
  | some found => exact offer_congr h origin w

/-- No function tells two blobs apart that hold such databases. -/
theorem SameWallet.sameToAll (h : SameWallet db db') {ciborium : Ciborium} {blob blob' : List UInt8}
    (hdb : CredentialDatabase.fromCbor ciborium blob = .ok db)
    (hdb' : CredentialDatabase.fromCbor ciborium blob' = .ok db') :
    SameToAll sj ciborium blob blob' := by
  constructor
  case request =>
    intro w requestJson
    simp only [Ffi.matchDcApiRequest, Ffi.decode, hdb, hdb']
    exact matchRequest_congr w h.profile (h.unseen _)
  case dcql =>
    intro w texts dcqlJson clientMetadataJson
    have hevaluate : Ffi.evaluate sj w db = Ffi.evaluate sj w db' :=
      funext fun query => funext fun context => evaluate_congr h.sameView w
    simp only [Ffi.matchDcqlWithContext, Ffi.decode, hdb, hdb', bind, Except.bind, hevaluate]
  case run =>
    intro w request origin
    simp only [Picker.run, hdb, hdb']
    exact runOn_congr h w request origin

end Offered

/-! ## 3. Two wallets that registered the same -/

section Registered

variable {calls calls' : List BuilderCall}

theorem SameRegistrations.symm (h : SameRegistrations calls calls') :
    SameRegistrations calls' calls where
  credentials := h.credentials.flip.imp fun _ _ hsame => ⟨hsame.credential.symm, hsame.picture.symm⟩
  zkSystems := h.zkSystems.symm
  zkpReqSystems := h.zkpReqSystems.symm
  debug := h.debug.symm

/-- If one names an icon that was never registered, so does the other. -/
theorem SameRegistrations.namesUnknown (h : SameRegistrations calls calls')
    (hunknown : ∃ c ∈ added calls, NamesUnknown calls c) :
    ∃ c ∈ added calls', NamesUnknown calls' c := by
  obtain ⟨c, hc, id, hid, hnone⟩ := hunknown
  obtain ⟨c', hc', hsame⟩ := forall₂_mem_left h.credentials hc
  have hpicture := hsame.picture
  unfold pictureOf at hpicture
  rw [hid, Option.map_some, hnone, eq_comm, Option.map_eq_some_iff] at hpicture
  obtain ⟨id', hid', hnone'⟩ := hpicture
  exact ⟨c', hc', id', hid', hnone'⟩

/-- There are databases for both or for neither. -/
theorem SameRegistrations.exists_database (h : SameRegistrations calls calls')
    {db : CredentialDatabase} (hdb : (BuilderState.run calls).database = .ok db) :
    ∃ db', (BuilderState.run calls').database = .ok db' := by
  cases hdb' : (BuilderState.run calls').database with
  | ok db' => exact ⟨db', rfl⟩
  | error e =>
    obtain ⟨e', he'⟩ := BuilderState.database_error_iff.mpr
      (h.symm.namesUnknown (BuilderState.database_error_iff.mp ⟨e, hdb'⟩))
    rw [hdb] at he'
    cases he'

/-- A stored credential shows the icon that was registered for it, the fallback without one. -/
theorem iconOf_stored {db : CredentialDatabase} {c : FfiCredential} {stored : Db.Credential}
    (h : db.iconBytes stored = c.iconId.bind (lastIcon calls)) :
    Picker.iconOf db stored = (((pictureOf calls c).join).filter fun bytes => !bytes.isEmpty).getD
      Picker.FALLBACK_ICON_PNG := by
  unfold Picker.iconOf pictureOf
  rw [h]
  cases c.iconId <;> rfl

theorem SameBesidesIcon.claims_eq {c : FfiCredential} {stored : Db.Credential}
    (h : SameBesidesIcon c stored) : stored.claims = c.claims.map fun claim =>
      ⟨claim.path, claim.value, claim.display, claim.displayValue⟩ := by
  have hmap := forall₂_map_eq h.claims fun _ _ hentry => hentry.symm
  exact (List.map_id _).symm.trans hmap.symm

/-- What was stored for two credentials that are the same looks the same. -/
theorem twins_stored {db db' : CredentialDatabase} {c c' : FfiCredential}
    {stored stored' : Db.Credential} (hsame : SamePicture calls calls' c c')
    (hstored : SameBesidesIcon c stored ∧ db.iconBytes stored = c.iconId.bind (lastIcon calls))
    (hstored' : SameBesidesIcon c' stored' ∧
      db'.iconBytes stored' = c'.iconId.bind (lastIcon calls')) :
    Twins db db' stored stored' := by
  obtain ⟨hcredential, hpicture⟩ := hsame
  obtain ⟨hfields, hicon⟩ := hstored
  obtain ⟨hfields', hicon'⟩ := hstored'
  obtain ⟨id, format, doctype, vct, title, subtitle, iconId, claims⟩ := c
  cases hcredential
  have hclaims : stored.claims = stored'.claims := by
    rw [hfields.claims_eq, hfields'.claims_eq]
  exact fun paths =>
    { id := hfields.id.trans hfields'.id.symm
      format := hfields.format.trans hfields'.format.symm
      doctype := hfields.doctype.trans hfields'.doctype.symm
      vct := hfields.vct.trans hfields'.vct.symm
      title := hfields.title.trans hfields'.title.symm
      subtitle := hfields.subtitle.trans hfields'.subtitle.symm
      icon := by rw [iconOf_stored hicon, iconOf_stored hicon', hpicture]
      claims := fun keys _ => by
        rw [Db.Credential.storedClaim, Db.Credential.storedClaim, hclaims] }

/-- Two databases of the same registrations hold wallets that look the same. -/
theorem SameRegistrations.sameWallet (h : SameRegistrations calls calls') (hfit : IconsFit calls)
    (hfit' : IconsFit calls') {db db' : CredentialDatabase}
    (hdb : (BuilderState.run calls).database = .ok db)
    (hdb' : (BuilderState.run calls').database = .ok db') : SameWallet db db' := by
  have hkept := (database_keeps_iff hdb).mpr hfit
  have hkept' := (database_keeps_iff hdb').mpr hfit'
  refine ⟨?_, ?_⟩
  · rw [BuilderState.database_profile hdb, BuilderState.database_profile hdb',
      BuilderState.run_profile h]
  · have hacross : List.Forall₂ (fun c stored' => ∃ c', SamePicture calls calls' c c' ∧
        SameBesidesIcon c' stored' ∧ db'.iconBytes stored' = c'.iconId.bind (lastIcon calls'))
        (added calls) db'.credentials :=
      forall₂_trans h.credentials hkept' fun c c' stored' hsame hstored' => ⟨c', hsame, hstored'⟩
    refine forall₂_trans hkept.flip hacross ?_
    rintro stored c stored' hstored ⟨c', hsame, hstored'⟩
    exact twins_stored hsame hstored hstored'

theorem SameRegistrations.exists_build (h : SameRegistrations calls calls') {codec : CiboriumCodec}
    (hcodec' : ∀ db, (BuilderState.run calls').database = .ok db → codec.RoundTrips db)
    (hblob : ∃ blob, (BuilderState.run calls).build codec = .ok blob) :
    ∃ blob, (BuilderState.run calls').build codec = .ok blob := by
  obtain ⟨blob, hblob⟩ := hblob
  obtain ⟨db, hdb, _⟩ := BuilderState.build_eq_ok.mp hblob
  obtain ⟨db', hdb'⟩ := h.exists_database hdb
  obtain ⟨blob', hwrite, _⟩ := hcodec' db' hdb'
  exact ⟨blob', BuilderState.build_eq_ok.mpr ⟨db', hdb', hwrite⟩⟩

/-- The database that is written is the one that is read. -/
theorem fromCbor_of_build {codec : CiboriumCodec} {blob : List UInt8}
    (hcodec : ∀ db, (BuilderState.run calls).database = .ok db → codec.RoundTrips db)
    (hblob : (BuilderState.run calls).build codec = .ok blob) :
    ∃ db, (BuilderState.run calls).database = .ok db ∧
      CredentialDatabase.fromCbor codec.toCiborium blob = .ok db := by
  obtain ⟨db, hdb, hwrite⟩ := BuilderState.build_eq_ok.mp hblob
  obtain ⟨bytes, hbytes, hread⟩ := hcodec db hdb
  rw [hwrite] at hbytes
  cases hbytes
  exact ⟨db, hdb, fromCbor_of_roundTrips hdb hread⟩

end Registered

/-- Two wallets that registered the same, with icons that fit: either both have a blob or neither
has, and no function of the matcher tells their blobs apart. -/
theorem build_sameToAll (sj : SerdeJson) (codec : CiboriumCodec) {calls calls' : List BuilderCall}
    (h : SameRegistrations calls calls') (hfit : IconsFit calls) (hfit' : IconsFit calls')
    (hcodec : ∀ db, (BuilderState.run calls).database = .ok db → codec.RoundTrips db)
    (hcodec' : ∀ db, (BuilderState.run calls').database = .ok db → codec.RoundTrips db) :
    ((∃ blob, (BuilderState.run calls).build codec = .ok blob) ↔
        ∃ blob, (BuilderState.run calls').build codec = .ok blob) ∧
      ∀ blob blob', (BuilderState.run calls).build codec = .ok blob →
        (BuilderState.run calls').build codec = .ok blob' →
          SameToAll sj codec.toCiborium blob blob' := by
  refine ⟨⟨h.exists_build hcodec', h.symm.exists_build hcodec⟩, fun blob blob' hblob hblob' => ?_⟩
  obtain ⟨db, hdb, hread⟩ := fromCbor_of_build hcodec hblob
  obtain ⟨db', hdb', hread'⟩ := fromCbor_of_build hcodec' hblob'
  exact (h.sameWallet hfit hfit' hdb hdb').sameToAll hread hread'

/-- The wallet of `sharedIcons` with each icon under two names, in another order, and one more
icon that nothing names. -/
def copiedIcons : List BuilderCall :=
  [.addIcon "unused" [9, 9], .addIcon "logo 2" [3], .setDebug true, .addIcon "seal" [],
   .addCredential (pictured "a" "logo"), .addCredential (pictured "b" "seal"),
   .addCredential (pictured "c" "logo 2"), .addIcon "logo" [3], .setDebug false]

/-- Icons that take less than 4 GiB together fit. -/
theorem iconsFit_of_length {calls : List BuilderCall}
    (h : ((registered calls).flatMap Prod.snd).length < 2 ^ 32) : IconsFit calls := by
  intro c _ id start bytes _ hlocate
  obtain ⟨before, after, harea, hstart⟩ := locate_split hlocate
  rw [harea] at h
  simp only [List.length_append] at h
  exact ⟨by omega, Or.inl (by omega)⟩

theorem sameRegistrations_copiedIcons : SameRegistrations sharedIcons copiedIcons where
  credentials := .cons ⟨rfl, by decide⟩ (.cons ⟨rfl, by decide⟩ (.cons ⟨rfl, by decide⟩ .nil))
  zkSystems := rfl
  zkpReqSystems := rfl
  debug := by decide

theorem codecOf_sharedIcons {calls : List BuilderCall} (hmem : calls ∈ [sharedIcons, copiedIcons])
    {db : CredentialDatabase} (h : (BuilderState.run calls).database = .ok db) :
    (codecOf [sharedIcons, copiedIcons]).RoundTrips db :=
  codecOf_roundTrips (by decide +kernel) hmem h

theorem build_sameToAll_copiedIcons :
    let codec := codecOf [sharedIcons, copiedIcons]
    ∃ blob blob', (BuilderState.run sharedIcons).build codec = .ok blob ∧
      (BuilderState.run copiedIcons).build codec = .ok blob' ∧ blob ≠ blob' ∧
      SameToAll (.ofValues [pidRequest, ageQuery]) codec.toCiborium blob blob' := by
  intro codec
  have hbuilt : ((BuilderState.run sharedIcons).build codec).toOption.map (fun _ => ()) = some () ∧
      ((BuilderState.run copiedIcons).build codec).toOption.map (fun _ => ()) = some () ∧
      (BuilderState.run sharedIcons).build codec ≠ (BuilderState.run copiedIcons).build codec := by
    decide +kernel
  have hsame := (build_sameToAll (.ofValues [pidRequest, ageQuery]) codec
    sameRegistrations_copiedIcons (iconsFit_of_length (by decide)) (iconsFit_of_length (by decide))
    (fun _ => codecOf_sharedIcons List.mem_cons_self)
    (fun _ => codecOf_sharedIcons (List.mem_cons_of_mem _ List.mem_cons_self))).2
  obtain ⟨hshared, hcopied, hne⟩ := hbuilt
  obtain ⟨blob, hblob, _⟩ := exists_ok_of_toOption hshared
  obtain ⟨blob', hblob', _⟩ := exists_ok_of_toOption hcopied
  rw [hblob, hblob'] at hne
  exact ⟨blob, blob', hblob, hblob', fun h => hne (congrArg Except.ok h),
    hsame blob blob' hblob hblob'⟩

end DcMatcher
