import DcMatcher.Consent

/-!
# Text claims

A claim is stored as a text, and its text is first tried as JSON. What that does to a text that
is meant as a string.

Results:
1. `resolveClaim_stored`: a claims query with `values` compares with what the first claim stored
   under its path is read as.
2. `textClaim_iff`: for which claims that is the comparison with their own text.
3. `postalCode_not_selected`: not for a postal code.
-/

namespace DcMatcher

open Lists

/-- The JSON text, if it is one, and otherwise the text itself, is this string. -/
def ReadsAs (sj : SerdeJson) (text s : String) : Prop :=
  sj.fromStr text = some (.string s) ∨ sj.fromStr text = none ∧ text = s

section Stored

variable {sj : SerdeJson} {c : Db.Credential} {claim first : Db.Claim} {q : ClaimsQuery}
  {values : List Value}

theorem claimValue_eq_string {s : String} :
    claimValue sj claim = .string s ↔ ReadsAs sj claim.value s := by
  unfold claimValue ReadsAs
  cases sj.fromStr claim.value with
  | none => simp
  | some v => simp

/-- Only the same string is equal to a string. -/
theorem beq_string_iff {s : String} {v : Value} :
    (Value.string s == v) = true ↔ v = .string s := by
  cases v with
  | string t =>
    show (s == t) = true ↔ _
    rw [beq_iff_eq, Value.string.injEq, eq_comm]
  | _ => exact ⟨fun h => absurd h Bool.false_ne_true, fun h => by cases h⟩

theorem string_beq_iff {s : String} {v : Value} :
    (v == Value.string s) = true ↔ v = .string s := by
  cases v with
  | string t =>
    show (t == s) = true ↔ _
    rw [beq_iff_eq, Value.string.injEq]
  | _ => exact ⟨fun h => absurd h Bool.false_ne_true, fun h => by cases h⟩

/-- Every claim has a first one with its path. -/
theorem exists_storedClaim (hclaim : claim ∈ c.claims) :
    ∃ first, c.storedClaim claim.path = some first := by
  have hfound : (c.claims.find? fun other => other.path == claim.path).isSome := by
    rw [List.find?_isSome]
    exact ⟨claim, hclaim, beq_self_eq_true claim.path⟩
  exact Option.isSome_iff_exists.mp hfound

/-- A path of keys is looked up by them. -/
theorem claim_keys {keys : List String} (hstored : c.storedClaim keys = some first) :
    ({ credential := c } : BlobCredential sj).claim (keys.map .key) =
      if keys = [] then .error .malformed else .ok [claimValue sj first] := by
  have hkeys : collect PathComponent.asKey (keys.map .key) = some keys := by
    rw [collect_eq_some, List.forall₂_map_left_iff]
    exact List.forall₂_same.mpr fun key _ => rfl
  unfold BlobCredential.claim
  cases keys with
  | nil => rfl
  | cons key keys =>
    rw [hkeys]
    simp only [hstored]
    rfl

/-- A claims query with `values` compares with what the first claim under its path is read as. -/
theorem resolveClaim_stored {keys : List String} (hstored : c.storedClaim keys = some first)
    (hpath : q.path = keys.map .key) (hvalues : q.values = some values) :
    (resolveClaim q ({ credential := c } : BlobCredential sj)).isSome ↔
      keys ≠ [] ∧ ∃ e ∈ values, (e == claimValue sj first) = true := by
  have hclaim : Credential.claim ({ credential := c } : BlobCredential sj) q.path =
      if keys = [] then .error .malformed else .ok [claimValue sj first] := by
    rw [hpath]
    exact claim_keys hstored
  rw [Option.isSome_iff_exists]
  simp only [resolveClaim_eq_some, hclaim, hvalues]
  by_cases hkeys : keys = []
  · simp [hkeys]
  · simp [hkeys]

/-- A claims query for the path of a claim, with these values. -/
def ClaimsQuery.AsksFor (q : ClaimsQuery) (claim : Db.Claim) (values : List Value) : Prop :=
  q.path = claim.path.map .key ∧ q.values = some values

/-- Where the first claim under the path is read as the string `s`, the values are compared with
it as strings. -/
theorem resolveClaim_readsAs (hstored : c.storedClaim claim.path = some first)
    (hpath : claim.path ≠ []) {s : String} (hreads : ReadsAs sj first.value s)
    (hasks : q.AsksFor claim values) :
    (resolveClaim q ({ credential := c } : BlobCredential sj)).isSome ↔ .string s ∈ values := by
  rw [resolveClaim_stored hstored hasks.1 hasks.2, claimValue_eq_string.mpr hreads]
  constructor
  · rintro ⟨_, e, he, heq⟩
    rw [← string_beq_iff.mp heq]
    exact he
  · intro hmem
    exact ⟨hpath, _, hmem, string_beq_iff.mpr rfl⟩

/-- Where a query for nothing but the string is answered, the first claim is read as it. -/
theorem readsAs_of_selected (hstored : c.storedClaim claim.path = some first) {s : String}
    (hasks : q.AsksFor claim [.string s])
    (hselected : (resolveClaim q ({ credential := c } : BlobCredential sj)).isSome) :
    claim.path ≠ [] ∧ ReadsAs sj first.value s := by
  obtain ⟨hpath, e, he, heq⟩ := (resolveClaim_stored hstored hasks.1 hasks.2).mp hselected
  rw [List.mem_singleton.mp he] at heq
  exact ⟨hpath, claimValue_eq_string.mp (beq_string_iff.mp heq)⟩

/-- A claim is selected by every query whose values have its text as a string, and `values`
compares with its text as a string, exactly if its path is not empty and the first claim under
this path, which is the only one if the path is not repeated, has a text that is read as this
string: for the claim itself, if its text is not the JSON of any other value. -/
theorem textClaim_iff (sj : SerdeJson) (hclaim : claim ∈ c.claims) :
    ((∀ q values, ClaimsQuery.AsksFor q claim values → .string claim.value ∈ values →
        (resolveClaim q ({ credential := c } : BlobCredential sj)).isSome) ↔
      claim.path ≠ [] ∧ ∃ first, c.storedClaim claim.path = some first ∧
        ReadsAs sj first.value claim.value) ∧
    ((∀ q values, ClaimsQuery.AsksFor q claim values →
        ((resolveClaim q ({ credential := c } : BlobCredential sj)).isSome ↔
          .string claim.value ∈ values)) ↔
      claim.path ≠ [] ∧ ∃ first, c.storedClaim claim.path = some first ∧
        ReadsAs sj first.value claim.value) ∧
    (ReadsAs sj claim.value claim.value ↔
      ∀ v, sj.fromStr claim.value = some v → v = .string claim.value) := by
  obtain ⟨first, hstored⟩ := exists_storedClaim hclaim
  have hasks : ClaimsQuery.AsksFor ⟨none, claim.path.map .key, some [.string claim.value]⟩ claim
      [.string claim.value] := ⟨rfl, rfl⟩
  refine ⟨⟨fun h => ?_, ?_⟩, ⟨fun h => ?_, ?_⟩, ?_⟩
  · obtain ⟨hpath, hreads⟩ :=
      readsAs_of_selected hstored hasks (h _ _ hasks (List.mem_singleton.mpr rfl))
    exact ⟨hpath, first, hstored, hreads⟩
  · rintro ⟨hpath, first, hstored, hreads⟩ q values hasks hmem
    exact (resolveClaim_readsAs hstored hpath hreads hasks).mpr hmem
  · obtain ⟨hpath, hreads⟩ :=
      readsAs_of_selected hstored hasks ((h _ _ hasks).mpr (List.mem_singleton.mpr rfl))
    exact ⟨hpath, first, hstored, hreads⟩
  · rintro ⟨hpath, first, hstored, hreads⟩ q values hasks
    exact resolveClaim_readsAs hstored hpath hreads hasks
  · unfold ReadsAs
    cases sj.fromStr claim.value with
    | none => simp
    | some v => simp

end Stored

/-! ## A name and a postal code -/

/-- A credential with a name and a postal code, as a wallet registers them. -/
def addressCredential : Db.Credential where
  id := "address"
  format := "dc+sd-jwt"
  doctype := none
  vct := none
  title := "Address"
  subtitle := ""
  icon := none
  claims := [⟨["family_name"], "Johansson", "Family name", none⟩,
    ⟨["postal_code"], "90210", "Postal code", none⟩]

/-- The name is selected by a query for it. -/
theorem textClaim_name :
    (resolveClaim ⟨none, [.key "family_name"], some [.string "Johansson"]⟩
      ({ credential := addressCredential } :
        BlobCredential (.ofValues [.number (.posInt 90210)]))).isSome :=
  ((textClaim_iff (.ofValues [.number (.posInt 90210)])
    (List.mem_cons_self : _ ∈ addressCredential.claims)).1.mpr
      ⟨by decide, _, rfl, .inr ⟨rfl, rfl⟩⟩) _ _ ⟨rfl, rfl⟩ (List.mem_singleton.mpr rfl)

/-- The postal code is not: its text is read as a number. -/
theorem postalCode_not_selected :
    (SerdeJson.ofValues [.number (.posInt 90210)]).fromStr "90210" =
        some (.number (.posInt 90210)) ∧
      (addressCredential.storedClaim ["postal_code"]).map Db.Claim.value = some "90210" ∧
      ¬ (resolveClaim ⟨none, [.key "postal_code"], some [.string "90210", .string "90211"]⟩
        ({ credential := addressCredential } :
          BlobCredential (.ofValues [.number (.posInt 90210)]))).isSome :=
  ⟨rfl, rfl, Bool.false_ne_true⟩

end DcMatcher
