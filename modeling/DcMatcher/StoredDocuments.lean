import DcMatcher.Dcql.Path
import DcMatcher.Lib.Trees
import DcMatcher.Noninterference

/-!
# A blob instead of documents

A wallet holds JSON documents; the blob has a claim for each place in them that is not an object,
under the names that lead to it. `BlobCredential::claim` looks a pointer up instead of processing
it against the document.

Results:
1. `claim_eq_ok_iff`: the lookup gives what processing the pointer gives, except for pointers
   into arrays and pointers that end at an object, which it does not find.
2. `execute_documents`: a query without such pointers has the same result over the blob as over
   the documents, claim sets, values and all.
-/

namespace DcMatcher

open Lists Trees

/-! ## 1. A document and its claims -/

mutual

/-- A document as a tree: the members of its objects are the branches. -/
def Value.tree : Value → Tree String Value
  | .object members => .node (Value.treesOf members)
  | v => .leaf v

def Value.treesOf : List (String × Value) → List (String × Tree String Value)
  | [] => []
  | (name, v) :: members => (name, v.tree) :: treesOf members

end

/-- What the names of members lead to. -/
def Value.reach : List String → Value → Option Value
  | [], v => some v
  | name :: names, v => (v.get name).bind (reach names)

/-- The claims of a credential, as their texts are read, are what its document holds besides
objects. -/
structure StoredFrom (sj : SerdeJson) (document : Value) (c : Db.Credential) : Prop where
  ordered : document.Ordered
  claims : ∀ entry, entry ∈ c.claims.map (fun claim => (claim.path, claimValue sj claim)) ↔
    entry ∈ document.tree.leaves

section Trees

theorem Value.treesOf_eq_map (members : List (String × Value)) :
    Value.treesOf members = members.map fun member => (member.1, member.2.tree) := by
  induction members with
  | nil => rfl
  | cons member members ih => rw [Value.treesOf, ih, List.map_cons]

theorem Value.Ordered.distinct {v : Value} (h : v.Ordered) : v.tree.Distinct := by
  induction h with
  | object hkeys _ ih =>
    rw [Value.tree, Value.treesOf_eq_map]
    refine .node ?_ fun branch hbranch => ?_
    · rw [List.map_map]
      exact List.pairwise_map.mpr (hkeys.imp fun hlt => ne_of_lt hlt)
    · obtain ⟨member, hmember, rfl⟩ := List.mem_map.mp hbranch
      exact ih member hmember
  | _ => exact .leaf _

theorem Value.tree_eq_leaf {v a : Value} : v.tree = .leaf a ↔ v = a ∧ v.asObject = none := by
  cases v <;> simp [Value.tree, Value.asObject]

theorem walk_tree (names : List String) (v : Value) :
    Tree.walk names v.tree = (v.reach names).map Value.tree := by
  induction names generalizing v with
  | nil => rfl
  | cons name names ih =>
    cases v with
    | object members =>
      rw [Value.tree, Value.treesOf_eq_map, Tree.walk, Value.reach, List.find?_map]
      show _ = ((Map.get members name).bind _).map _
      unfold Map.get
      show ((Option.map _ (members.find? fun member => member.1 == name)).bind _) = _
      cases members.find? fun member => member.1 == name with
      | none => rfl
      | some member => exact ih member.2
    | _ => rfl

end Trees

/-! ## 2. Pointers of names -/

section Pointers

variable {w : PointerWidth}

theorem level_key (name : String) (v : Value) :
    Levels.level (PathComponent.select w) (.key name) [v] =
      v.asObject.map fun _ => (v.get name).toList := by
  cases v with
  | object members => simp [Levels.level, PathComponent.select, Value.asObject]
  | _ => rfl

/-- A descent along names selects what they lead to, or nothing. -/
theorem descend_names {names : List String} {position : Nat} {v u : Value} {us : List Value} :
    Levels.descend (PathComponent.select w) position (names.map .key) [v] = .ok (u :: us) ↔
      v.reach names = some u ∧ us = [] := by
  induction names generalizing position v with
  | nil => simp [Levels.descend, Value.reach, eq_comm]
  | cons name names ih =>
    rw [List.map_cons, Levels.descend, level_key, Value.reach]
    cases v with
    | object members =>
      cases hget : (Value.object members).get name with
      | none => simp [Value.asObject, Levels.descend_nil]
      | some next => exact ih
    | _ => simp [Value.asObject, Value.get]

theorem resolveJson_names {names : List String} (hnames : names ≠ []) {v : Value}
    {found : List Value} :
    resolveJson w v (names.map .key) = .ok found ↔ ∃ u, v.reach names = some u ∧ found = [u] := by
  rw [resolveJson_eq (by simpa using hnames), selectionResult_eq_ok]
  unfold descent
  constructor
  · rintro ⟨h, hsome⟩
    obtain ⟨u, us, rfl⟩ := List.exists_cons_of_ne_nil hsome
    obtain ⟨hreach, rfl⟩ := descend_names.mp h
    exact ⟨u, hreach, rfl⟩
  · rintro ⟨u, hreach, rfl⟩
    exact ⟨descend_names.mpr ⟨hreach, rfl⟩, List.cons_ne_nil u []⟩

theorem asKey_eq_some {component : PathComponent} {name : String} :
    component.asKey = some name ↔ component = .key name := by
  cases component <;> simp [PathComponent.asKey]

theorem collect_asKey {path : List PathComponent} {names : List String} :
    collect PathComponent.asKey path = some names ↔ path = names.map .key := by
  rw [collect_eq_some]
  constructor
  · intro h
    induction h with
    | nil => rfl
    | cons hkey _ ih =>
      rw [List.map_cons, ← ih, asKey_eq_some.mp hkey]
  · rintro rfl
    induction names with
    | nil => exact .nil
    | cons name names ih => exact .cons rfl ih

end Pointers

/-! ## 3. Claims -/

section Claims

variable {sj : SerdeJson} {w : PointerWidth} {document : Value} {c : Db.Credential}

/-- A pointer whose lookup in the blob loses nothing: whatever it selects of the document is
stored under names. -/
def Kept (w : PointerWidth) (document : Value) (path : List PathComponent) : Prop :=
  ∀ found, resolveJson w document path = .ok found →
    (∃ names : List String, path = names.map .key) ∧ ∀ v ∈ found, v.asObject = none

theorem storedClaim_iff (h : StoredFrom sj document c) {names : List String} {v : Value} :
    (∃ stored, c.storedClaim names = some stored ∧ claimValue sj stored = v) ↔
      document.reach names = some v ∧ v.asObject = none := by
  have hlookup : ((c.claims.map fun claim => (claim.path, claimValue sj claim)).find?
      fun entry => entry.1 == names) = some (names, v) ↔
        Tree.walk names document.tree = some (.leaf v) :=
    Tree.lookup_iff h.ordered.distinct h.claims
  have hfind : ((c.claims.map fun claim => (claim.path, claimValue sj claim)).find?
      fun entry => entry.1 == names) =
        (c.storedClaim names).map fun claim => (claim.path, claimValue sj claim) :=
    List.find?_map ..
  rw [hfind, walk_tree] at hlookup
  constructor
  · rintro ⟨stored, hstored, rfl⟩
    have hpath : stored.path = names := by
      unfold Db.Credential.storedClaim at hstored
      simpa using List.find?_some hstored
    obtain ⟨u, hreach, htree⟩ :=
      Option.map_eq_some_iff.mp (hlookup.mp (by rw [hstored, Option.map_some, hpath]))
    obtain ⟨rfl, hobject⟩ := Value.tree_eq_leaf.mp htree
    exact ⟨hreach, hobject⟩
  · rintro ⟨hreach, hobject⟩
    have htree : (document.reach names).map Value.tree = some (.leaf v) := by
      rw [hreach, Option.map_some, Value.tree_eq_leaf.mpr ⟨rfl, hobject⟩]
    obtain ⟨stored, hstored, hentry⟩ := Option.map_eq_some_iff.mp (hlookup.mpr htree)
    exact ⟨stored, hstored, congrArg Prod.snd hentry⟩

theorem claim_eq_ok_iff (h : StoredFrom sj document c) (path : List PathComponent)
    {found : List Value} :
    ({ credential := c } : BlobCredential sj).claim path = .ok found ↔
      resolveJson w document path = .ok found ∧ (∃ names : List String, path = names.map .key) ∧
        ∀ v ∈ found, v.asObject = none := by
  cases path with
  | nil => simp [BlobCredential.claim, resolveJson]
  | cons component path =>
    cases hkeys : collect PathComponent.asKey (component :: path) with
    | none =>
      refine ⟨fun hclaim => ?_, ?_⟩
      · rw [BlobCredential.claim, hkeys] at hclaim
        cases hclaim
      · rintro ⟨_, ⟨names, hpath⟩, _⟩
        rw [collect_asKey.mpr hpath] at hkeys
        cases hkeys
    | some names =>
      have hpath := collect_asKey.mp hkeys
      have hnames : names ≠ [] := by
        rintro rfl
        cases hpath
      have hclaim : ({ credential := c } : BlobCredential sj).claim (component :: path) =
          .ok found ↔ ∃ v, (∃ stored, c.storedClaim names = some stored ∧
            claimValue sj stored = v) ∧ found = [v] := by
        simp only [BlobCredential.claim, hkeys, List.isEmpty_cons]
        cases c.storedClaim names with
        | none => simp
        | some stored => simp [eq_comm]
      rw [hclaim, hpath, resolveJson_names hnames]
      simp only [storedClaim_iff h]
      constructor
      · rintro ⟨v, ⟨hreach, hobject⟩, rfl⟩
        refine ⟨⟨v, hreach, rfl⟩, ⟨names, rfl⟩, fun u hu => ?_⟩
        rw [List.mem_singleton.mp hu]
        exact hobject
      · rintro ⟨⟨v, hreach, rfl⟩, _, hall⟩
        exact ⟨v, ⟨hreach, hall v (List.mem_singleton_self v)⟩, rfl⟩

end Claims

/-! ## 4. Queries -/

/-- A credential of the blob, with the document that it was registered from. -/
structure Documented (w : PointerWidth) where
  credential : Db.Credential
  document : Value

/-- DCQL over the document itself. -/
instance {w : PointerWidth} : Credential (Documented w) where
  id c := c.credential.id
  format c := c.credential.format
  claim c path := resolveJson w c.document path
  hasCryptographicHolderBinding _ := true

def Documented.blob {w : PointerWidth} (sj : SerdeJson) (c : Documented w) : BlobCredential sj where
  credential := c.credential

theorem resolveClaim_blob {sj : SerdeJson} {w : PointerWidth} {c : Documented w}
    (h : StoredFrom sj c.document c.credential) {claim : ClaimsQuery}
    (hkept : Kept w c.document claim.path) :
    resolveClaim claim (c.blob sj) = resolveClaim claim c := by
  have hsame : ∀ found, Credential.claim (c.blob sj) claim.path = .ok found ↔
      Credential.claim c claim.path = .ok found := fun found =>
    (claim_eq_ok_iff h claim.path).trans
      ⟨fun hfound => hfound.1, fun hfound => ⟨hfound, hkept found hfound⟩⟩
  unfold resolveClaim
  cases hblob : Credential.claim (c.blob sj) claim.path with
  | ok found => rw [(hsame found).mp hblob]
  | error e =>
    cases hdocument : Credential.claim c claim.path with
    | ok found => cases hblob.symm.trans ((hsame found).mpr hdocument)
    | error e' => rfl

/-- What the blob answers for a pointer is what processing it against the document selects, where
it is a pointer of names that does not end at an object. So a query with no other pointers has
the same result over a blob as over the documents it was built from. -/
theorem execute_documents (sj : SerdeJson) (w : PointerWidth) (query : DcqlQuery)
    (policy : Policy (BlobCredential sj)) {wallet : List (Documented w)}
    (hstored : ∀ c ∈ wallet, StoredFrom sj c.document c.credential) :
    (∀ c ∈ wallet, ∀ path found, (c.blob sj).claim path = .ok found ↔
      resolveJson w c.document path = .ok found ∧
        (∃ names : List String, path = names.map .key) ∧ ∀ v ∈ found, v.asObject = none) ∧
    ((∀ c ∈ wallet, ∀ cq ∈ query.credentials, ∀ claim ∈ cq.claims,
        Kept w c.document claim.path) →
      execute query (wallet.map (Documented.blob sj)) policy =
        execute query wallet fun cq c => policy cq (c.blob sj)) := by
  refine ⟨fun c hc path found => claim_eq_ok_iff (hstored c hc) path, fun hkept => ?_⟩
  refine execute_eq_of_answers fun cq hcq => ?_
  rw [List.filterMap_map]
  refine List.filterMap_congr fun c hc => ?_
  have hcandidate : candidateOf cq (c.blob sj) = candidateOf cq c :=
    candidateOf_congr rfl fun claim hclaim =>
      resolveClaim_blob (hstored c hc) (hkept c hc cq hcq claim hclaim)
  show answer policy cq (c.blob sj) = answer _ cq c
  unfold answer
  rw [hcandidate]
  rfl

/-- A document with a nested object and an array. -/
def residence : Documented .w32 where
  document := .object
    [("address", .object [("city", .string "Porto")]), ("nationalities", .array [.string "PT"])]
  credential :=
    { id := "residence-1"
      format := "dc+sd-jwt"
      doctype := none
      vct := some "org.example.residence"
      title := "Residence"
      subtitle := "City of Porto"
      icon := none
      claims :=
        [⟨["nationalities"], "[\"PT\"]", "Nationalities", none⟩,
          ⟨["address", "city"], "\"Porto\"", "City", none⟩] }

/-- A query for one value under a pointer. -/
def residenceQuery (path : List PathComponent) (value : Value) : DcqlQuery where
  credentials :=
    [{ id := "q"
       format := "dc+sd-jwt"
       multiple := false
       meta_ := []
       trustedAuthorities := none
       requireCryptographicHolderBinding := true
       claims := [{ id := none, path, values := some [value] }]
       claimSets := none }]
  credentialSets := none

theorem execute_documents_residence :
    let sj := SerdeJson.ofValues [.string "Porto", .array [.string "PT"]]
    let query := residenceQuery [.key "address", .key "city"] (.string "Porto")
    (execute query [residence.blob sj] fun _ _ => true).satisfiable = true ∧
      (execute query [residence.blob sj] fun _ _ => true) =
        execute query [residence] fun _ _ => true := by
  intro sj query
  have hclaims : residence.credential.claims.map
      (fun claim => (claim.path, claimValue sj claim)) = residence.document.tree.leaves.reverse :=
    rfl
  have hstored : StoredFrom sj residence.document residence.credential := by
    refine ⟨?_, fun entry => by rw [hclaims, List.mem_reverse]⟩
    exact Value.ofDocument_ordered residence.document.toDocument
  have hfound : resolveJson .w32 residence.document [.key "address", .key "city"] =
      .ok [.string "Porto"] := rfl
  refine ⟨rfl, (execute_documents sj .w32 query (fun _ _ => true)
    (List.forall_mem_singleton.mpr hstored)).2 fun c hc cq hcq claim hclaim => ?_⟩
  rw [List.mem_singleton.mp hcq] at hclaim
  rw [List.mem_singleton.mp hc, List.mem_singleton.mp hclaim]
  intro found h
  cases hfound.symm.trans h
  exact ⟨⟨["address", "city"], rfl⟩, List.forall_mem_singleton.mpr rfl⟩

end DcMatcher
