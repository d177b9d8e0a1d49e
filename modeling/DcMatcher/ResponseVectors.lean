import DcMatcher.ResponseRules

/-!
# Responses, as the vectors encode them

`scripts/gen_zkp_req_response_vectors.py`: its CBOR encoder, and the `vp_token` it builds of
presentations. Python bytes are lists of bytes, and a dict is a list of its items.

Results:
1. `tstr_encodes`, `bstr_encodes`, `tdate_encodes`, `mp_encodes`: what is written is an encoding
   of the data item.
2. `checkPresentation_encoded`: an encoded presentation is read as itself, its results in the
   order of the request, exactly if it answers the plan.
3. `parseResponse_vp`: so is a whole token.
-/

namespace DcMatcher

open Lists Rfc8949

namespace Vectors

/-! ## The encoder -/

/-- `n.to_bytes(length, "big")`, for `n` that fits. -/
def toBytes (n : Nat) : Nat → List UInt8
  | 0 => []
  | length + 1 => toBytes (n / 256) length ++ [UInt8.ofNat n]

/-- `head`. What does not fit in 8 bytes is an `OverflowError`. -/
def head (major n : Nat) : Option (List UInt8) :=
  if n < 24 then some [UInt8.ofNat (major <<< 5 ||| n)]
  else if n < 1 <<< 8 then some [UInt8.ofNat (major <<< 5 ||| 24), UInt8.ofNat n]
  else if n < 1 <<< 16 then some (UInt8.ofNat (major <<< 5 ||| 25) :: toBytes n 2)
  else if n < 1 <<< 32 then some (UInt8.ofNat (major <<< 5 ||| 26) :: toBytes n 4)
  else if n < 1 <<< 64 then some (UInt8.ofNat (major <<< 5 ||| 27) :: toBytes n 8)
  else none

def bstr (b : List UInt8) : Option (List UInt8) := (head 2 b.length).map (· ++ b)

def tstr (s : String) : Option (List UInt8) := (head 3 (utf8 s).length).map (· ++ utf8 s)

def arr (items : List (List UInt8)) : Option (List UInt8) :=
  (head 4 items.length).map (· ++ items.flatten)

def mp (pairs : List (List UInt8 × List UInt8)) : Option (List UInt8) :=
  (head 5 pairs.length).map (· ++ pairs.flatMap fun pair => pair.1 ++ pair.2)

def tag (n : Nat) (item : List UInt8) : Option (List UInt8) := (head 6 n).map (· ++ item)

def TRUE : List UInt8 := [0xF5]

def tdate (s : String) : Option (List UInt8) := tstr s >>= tag 0

/-- `b64u`: `urlsafe_b64encode` without its padding. -/
def b64u (b : List UInt8) : String := Base64url.encode b

/-! ## The token -/

/-- `[... for k in order if k in d and k not in drop]`, with the values of `d`. -/
def inOrder {α : Type} (d : List (String × α)) (order drop : List String) : List (String × α) :=
  order.filterMap fun k => if k ∈ drop then none else (d.lookup k).map fun v => (k, v)

/-- A map with text keys, then the items of `extra`. -/
def mpOf (members : List (String × List UInt8)) (extra : List (List UInt8 × List UInt8)) :
    Option (List UInt8) := do
  let pairs ← collect (fun m => (tstr m.1).map fun k => (k, m.2)) members
  mp (pairs ++ extra)

/-- `results`, of given values by their handles. -/
def results (vals : List (String × List UInt8)) (order drop : List String)
    (extra : List (List UInt8 × List UInt8)) : Option (List UInt8) :=
  mpOf (inOrder vals order drop) extra

/-- The members that `pres` encodes by default, in its order. -/
def NAMES : List String := ["system_id", "proof", "issuer_key_set", "proof_time", "results"]

/-- `m[k] = v`. -/
def assign {α : Type} (m : List (String × α)) (k : String) (v : α) : List (String × α) :=
  (k, v) :: m.filter fun member => member.1 ≠ k

/-- The dict `m` of `pres`, before `raw`. -/
def members {α : Type} (systemId proof keys : α) (proofTime : Option α) (res : α) :
    List (String × α) :=
  let m := [("system_id", systemId), ("proof", proof), ("issuer_key_set", keys), ("results", res)]
  proofTime.elim m fun time => assign m "proof_time" time

/-- `pres`, of encoded members; `raw` replaces some of them. No `order` is an empty one. -/
def pres (systemId proof keys : List UInt8) (proofTime : Option (List UInt8)) (res : List UInt8)
    (omitted : List String) (extra : List (String × List UInt8)) (order : List String)
    (raw : List (String × List UInt8)) : Option (List UInt8) := do
  let m := raw.foldl (fun m member => assign m member.1 member.2)
    (members systemId proof keys proofTime res)
  let extra ← collect (fun member => (tstr member.1).map fun k => (k, member.2)) extra
  mpOf (inOrder m (if order.isEmpty then NAMES else order) omitted) extra

/-- `vp`, as the JSON text of its dict is read: the presentations of a query, and others. -/
def vp (key : String) (presentations : List (List UInt8)) (others : List (String × Document)) :
    Document :=
  .object ((key, .array (presentations.map fun p => .string (b64u p))) :: others)

/-! ## Encoded presentations -/

/-- A pseudonym or a predicate that holds. -/
def value : ResultValue → Option (List UInt8)
  | .pseudonym bytes => bstr bytes
  | .predicate => some TRUE

/-- What may be absent. -/
def optional {α β : Type} (f : α → Option β) : Option α → Option (Option β)
  | none => some none
  | some a => (f a).map some

/-- A presentation: its members in an order, and its results in one. -/
def encode (order handles : List String) (p : Presentation) : Option (List UInt8) := do
  let systemId ← tstr p.systemId
  let proof ← bstr p.proof
  let keys ← collect bstr p.issuerKeySet >>= arr
  let proofTime ← optional tdate p.proofTime
  let vals ← collect (fun r => (value r.2).map fun v => (r.1, v)) p.results
  let res ← results vals handles [] []
  pres systemId proof keys proofTime res [] [] order []

/-! ## 1. What is written -/

section Encoder

theorem toBytes_eq (n length : Nat) : toBytes n length = bytesOf n length := by
  induction length generalizing n with
  | zero => rfl
  | succ length ih => rw [toBytes, bytesOf, ih]

theorem length_toBytes (n length : Nat) : (toBytes n length).length = length := by
  rw [toBytes_eq, length_bytesOf]

theorem bigEndian_toBytes {n length : Nat} (h : n < 256 ^ length) :
    bigEndian (toBytes n length) = n := by
  rw [toBytes_eq, bigEndian_bytesOf h]

/-- `major << 5 | info`. -/
theorem initial_eq (major : Nat) {info : Nat} (h : info < 32) :
    major <<< 5 ||| info = major * 32 + info := by
  rw [← Nat.shiftLeft_add_eq_or_of_lt h, Nat.shiftLeft_eq]

theorem head_follow {major n k info : Nat} (hk : k < 4) (hinfo : info = 24 + k)
    (hn : n < 256 ^ 2 ^ k) :
    Head major n (UInt8.ofNat (major <<< 5 ||| info) :: toBytes n (2 ^ k)) := by
  rw [initial_eq major (by omega), hinfo, ← Nat.add_assoc]
  have hfollow := @Head.follow major k _ hk (length_toBytes n (2 ^ k))
  rwa [bigEndian_toBytes hn] at hfollow

theorem head_head {major n : Nat} {enc : List UInt8} (h : head major n = some enc) :
    Head major n enc := by
  unfold head at h
  split_ifs at h with h0 h1 h2 h3 h4 <;> cases h
  · rw [initial_eq major (by omega)]
    exact .direct h0
  · exact @head_follow major n 0 24 (by decide) rfl h1
  · exact @head_follow major n 1 25 (by decide) rfl h2
  · exact @head_follow major n 2 26 (by decide) rfl h3
  · exact @head_follow major n 3 27 (by decide) rfl h4

theorem bstr_encodes {b enc : List UInt8} (h : bstr b = some enc) : Encodes (.bytes b) enc := by
  obtain ⟨start, hstart, rfl⟩ := Option.map_eq_some_iff.mp h
  exact .bytes (head_head hstart)

theorem tstr_encodes {s : String} {enc : List UInt8} (h : tstr s = some enc) :
    Encodes (.text s) enc := by
  obtain ⟨start, hstart, rfl⟩ := Option.map_eq_some_iff.mp h
  exact .text (head_head hstart)

theorem tdate_encodes {s : String} {enc : List UInt8} (h : tdate s = some enc) :
    Encodes (.tag 0 (.text s)) enc := by
  obtain ⟨text, htext, h⟩ := Option.bind_eq_some_iff.mp h
  obtain ⟨start, hstart, rfl⟩ := Option.map_eq_some_iff.mp h
  exact .tag (head_head hstart) (tstr_encodes htext)

theorem arr_encodes {items : List Item} {encs : List (List UInt8)} {enc : List UInt8}
    (hitems : List.Forall₂ Encodes items encs) (h : arr encs = some enc) :
    Encodes (.array items) enc := by
  obtain ⟨start, hstart, rfl⟩ := Option.map_eq_some_iff.mp h
  refine .array (hitems.length_eq ▸ head_head hstart) ?_
  clear h hstart
  induction hitems with
  | nil => exact .nil
  | cons hone _ ih => exact .cons hone ih

theorem mp_encodes {entries : List (Item × Item)} {encs : List (List UInt8 × List UInt8)}
    {enc : List UInt8}
    (hentries : List.Forall₂ (fun e p => Encodes e.1 p.1 ∧ Encodes e.2 p.2) entries encs)
    (h : mp encs = some enc) : Encodes (.map entries) enc := by
  obtain ⟨start, hstart, rfl⟩ := Option.map_eq_some_iff.mp h
  refine .map (hentries.length_eq ▸ head_head hstart) ?_
  clear h hstart
  induction hentries with
  | nil => exact .nil
  | cons hone _ ih =>
    rw [List.flatMap_cons, List.append_assoc]
    exact .cons hone.1 hone.2 ih

/-- A map with text keys. -/
def textMap (members : List (String × Item)) : Item :=
  .map (members.map fun m => (.text m.1, m.2))

/-- A member and its encoding. -/
def Member (item : String × Item) (enc : String × List UInt8) : Prop :=
  item.1 = enc.1 ∧ Encodes item.2 enc.2

theorem pairs_encode {items : List (String × Item)} {members : List (String × List UInt8)}
    {pairs : List (List UInt8 × List UInt8)} (hmembers : List.Forall₂ Member items members)
    (hpairs : collect (fun m => (tstr m.1).map fun k => (k, m.2)) members = some pairs) :
    List.Forall₂ (fun e p => Encodes e.1 p.1 ∧ Encodes e.2 p.2)
      (items.map fun m => (Item.text m.1, m.2)) pairs := by
  have hkeys := collect_eq_some.mp hpairs
  clear hpairs
  induction hmembers generalizing pairs with
  | nil =>
    cases hkeys
    exact .nil
  | cons hone _ ih =>
    obtain ⟨pair, rest, hpair, hrest, rfl⟩ := List.forall₂_cons_left_iff.mp hkeys
    obtain ⟨k, hk, rfl⟩ := Option.map_eq_some_iff.mp hpair
    rw [← hone.1] at hk
    exact .cons ⟨tstr_encodes hk, hone.2⟩ (ih hrest)

theorem mpOf_encodes {items : List (String × Item)} {members : List (String × List UInt8)}
    {enc : List UInt8} (hmembers : List.Forall₂ Member items members)
    (h : mpOf members [] = some enc) : Encodes (textMap items) enc := by
  obtain ⟨pairs, hpairs, hmp⟩ := Option.bind_eq_some_iff.mp h
  rw [List.append_nil] at hmp
  exact mp_encodes (pairs_encode hmembers hpairs) hmp

end Encoder

/-! ### Members in an order -/

section InOrder

variable {α β : Type} {R : α → β → Prop}

theorem lookup_related {d : List (String × α)} {d' : List (String × β)}
    (h : List.Forall₂ (fun a b => a.1 = b.1 ∧ R a.2 b.2) d d') (k : String) :
    Option.Rel R (d.lookup k) (d'.lookup k) := by
  induction h with
  | nil => exact .none
  | @cons a b _ _ hone _ ih =>
    rw [List.lookup_cons, List.lookup_cons, hone.1]
    split
    · exact .some hone.2
    · exact ih

/-- Members that are related are put in the same order. -/
theorem inOrder_related {d : List (String × α)} {d' : List (String × β)}
    (h : List.Forall₂ (fun a b => a.1 = b.1 ∧ R a.2 b.2) d d') (order drop : List String) :
    List.Forall₂ (fun a b => a.1 = b.1 ∧ R a.2 b.2) (inOrder d order drop)
      (inOrder d' order drop) := by
  unfold inOrder
  induction order with
  | nil => exact .nil
  | cons k order ih =>
    rw [List.filterMap_cons, List.filterMap_cons]
    split_ifs with hdrop
    · exact ih
    · have hk := lookup_related h k
      generalize d.lookup k = a at hk
      generalize d'.lookup k = b at hk
      cases hk with
      | none => exact ih
      | some hR => exact .cons ⟨rfl, hR⟩ ih

theorem lookup_eq_some {d : List (String × α)} (hn : (d.map Prod.fst).Nodup) {k : String} {v : α} :
    d.lookup k = some v ↔ (k, v) ∈ d := by
  induction d with
  | nil => simp
  | cons m d ih =>
    obtain ⟨hm, hd⟩ := List.nodup_cons.mp hn
    rw [List.lookup_cons, List.mem_cons]
    split
    · next hk =>
      obtain rfl := beq_iff_eq.mp hk
      constructor
      · intro h
        exact .inl (Prod.ext rfl (Option.some.inj h).symm)
      · rintro (h | h)
        · rw [← h]
        · exact absurd (List.mem_map_of_mem h) hm
    · next hk =>
      rw [ih hd]
      refine ⟨.inr, fun h => h.resolve_left fun h => ?_⟩
      rw [← h, beq_self_eq_true] at hk
      cases hk

/-- All members, in any order of their names. -/
theorem mem_inOrder {d : List (String × α)} (hn : (d.map Prod.fst).Nodup) {order : List String}
    (horder : ∀ m ∈ d, m.1 ∈ order) {m : String × α} : m ∈ inOrder d order [] ↔ m ∈ d := by
  unfold inOrder
  simp only [List.not_mem_nil, if_false, List.mem_filterMap, Option.map_eq_some_iff,
    lookup_eq_some hn]
  constructor
  · rintro ⟨k, _, v, hv, rfl⟩
    exact hv
  · exact fun hm => ⟨m.1, horder m hm, m.2, hm, rfl⟩

theorem nodup_inOrder {d : List (String × α)} {order : List String} (horder : order.Nodup) :
    ((inOrder d order []).map Prod.fst).Nodup := by
  refine List.Nodup.sublist ?_ horder
  unfold inOrder
  induction order with
  | nil => exact List.Sublist.refl _
  | cons k order ih =>
    have ih := ih horder.tail
    simp only [List.not_mem_nil, if_false, List.filterMap_cons] at ih ⊢
    cases d.lookup k with
    | none => exact ih.cons k
    | some v => exact ih.cons_cons k

theorem assign_related {d : List (String × α)} {d' : List (String × β)}
    (h : List.Forall₂ (fun a b => a.1 = b.1 ∧ R a.2 b.2) d d') (k : String) {v : α} {v' : β}
    (hv : R v v') :
    List.Forall₂ (fun a b => a.1 = b.1 ∧ R a.2 b.2) (assign d k v) (assign d' k v') := by
  refine .cons ⟨rfl, hv⟩ ?_
  induction h with
  | nil => exact .nil
  | cons hone _ ih =>
    rw [List.filter_cons, List.filter_cons, hone.1]
    split
    · exact .cons hone ih
    · exact ih

theorem members_related {systemId proof keys res : α} {systemId' proof' keys' res' : β}
    {proofTime : Option α} {proofTime' : Option β} (hsystemId : R systemId systemId')
    (hproof : R proof proof') (hkeys : R keys keys') (htime : Option.Rel R proofTime proofTime')
    (hres : R res res') :
    List.Forall₂ (fun a b => a.1 = b.1 ∧ R a.2 b.2) (members systemId proof keys proofTime res)
      (members systemId' proof' keys' proofTime' res') := by
  have hfour : List.Forall₂ (fun a b => a.1 = b.1 ∧ R a.2 b.2)
      [("system_id", systemId), ("proof", proof), ("issuer_key_set", keys), ("results", res)]
      [("system_id", systemId'), ("proof", proof'), ("issuer_key_set", keys'), ("results", res')] :=
    .cons ⟨rfl, hsystemId⟩ (.cons ⟨rfl, hproof⟩ (.cons ⟨rfl, hkeys⟩ (.cons ⟨rfl, hres⟩ .nil)))
  unfold members
  cases htime with
  | none => exact hfour
  | some htime => exact assign_related hfour "proof_time" htime

theorem mem_members {systemId proof keys res : α} {proofTime : Option α} {m : String × α} :
    m ∈ members systemId proof keys proofTime res ↔
      m = ("system_id", systemId) ∨ m = ("proof", proof) ∨ m = ("issuer_key_set", keys) ∨
        m = ("results", res) ∨ ∃ time, proofTime = some time ∧ m = ("proof_time", time) := by
  cases proofTime with
  | none => simp [members]
  | some time =>
    simp only [members, Option.elim_some, assign, List.mem_cons, List.mem_filter,
      List.not_mem_nil, or_false, Option.some.injEq, exists_eq_left', decide_eq_true_eq]
    constructor
    · rintro (h | ⟨h | h | h | h, _⟩) <;> simp only [h, true_or, or_true]
    · rintro (h | h | h | h | h) <;> simp [h]

theorem nodup_members {systemId proof keys res : α} {proofTime : Option α} :
    ((members systemId proof keys proofTime res).map Prod.fst).Nodup := by
  cases proofTime with
  | none => exact (by decide : ["system_id", "proof", "issuer_key_set", "results"].Nodup)
  | some time =>
    exact (by decide :
      ["proof_time", "system_id", "proof", "issuer_key_set", "results"].Nodup)

end InOrder

/-! ## 2. A presentation -/

section Items

/-- The data item of a result. -/
def valueItem : ResultValue → Item
  | .pseudonym bytes => .bytes bytes
  | .predicate => .true

/-- The results of a presentation, in an order of their handles. -/
def resultItems (handles : List String) (p : Presentation) : List (String × Item) :=
  inOrder (p.results.map fun r => (r.1, valueItem r.2)) handles []

/-- The members of a presentation. -/
def memberItems (handles : List String) (p : Presentation) : List (String × Item) :=
  members (.text p.systemId) (.bytes p.proof) (.array (p.issuerKeySet.map .bytes))
    (p.proofTime.map fun time => .tag 0 (.text time)) (textMap (resultItems handles p))

/-- The data item of a presentation. -/
def presentationItem (order handles : List String) (p : Presentation) : Item :=
  textMap (inOrder (memberItems handles p) order [])

theorem value_encodes {r : ResultValue} {enc : List UInt8} (h : value r = some enc) :
    Encodes (valueItem r) enc := by
  cases r with
  | pseudonym bytes => exact bstr_encodes h
  | predicate =>
    cases h
    exact .simple (by decide)

theorem results_encode {handles : List String} {p : Presentation}
    {vals : List (String × List UInt8)} {enc : List UInt8}
    (hvals : collect (fun r => (value r.2).map fun v => (r.1, v)) p.results = some vals)
    (h : results vals handles [] [] = some enc) :
    Encodes (textMap (resultItems handles p)) enc := by
  refine mpOf_encodes (inOrder_related ?_ handles []) h
  have hall := collect_eq_some.mp hvals
  refine List.forall₂_map_left_iff.mpr (hall.imp fun r enc hr => ?_)
  obtain ⟨v, hv, rfl⟩ := Option.map_eq_some_iff.mp hr
  exact ⟨rfl, value_encodes hv⟩

/-- What is written of a presentation encodes its data item. -/
theorem encode_encodes {order handles : List String} (horder : order ≠ []) {p : Presentation}
    {enc : List UInt8} (h : encode order handles p = some enc) :
    Encodes (presentationItem order handles p) enc := by
  obtain ⟨systemId, hsystemId, h⟩ := Option.bind_eq_some_iff.mp h
  obtain ⟨proof, hproof, h⟩ := Option.bind_eq_some_iff.mp h
  obtain ⟨keys, hkeys, h⟩ := Option.bind_eq_some_iff.mp h
  obtain ⟨proofTime, hproofTime, h⟩ := Option.bind_eq_some_iff.mp h
  obtain ⟨vals, hvals, h⟩ := Option.bind_eq_some_iff.mp h
  obtain ⟨res, hres, h⟩ := Option.bind_eq_some_iff.mp h
  obtain ⟨keyEncs, hkeyEncs, hkeys⟩ := Option.bind_eq_some_iff.mp hkeys
  have hkeySet : Encodes (.array (p.issuerKeySet.map .bytes)) keys := by
    refine arr_encodes (List.forall₂_map_left_iff.mpr ?_) hkeys
    exact (collect_eq_some.mp hkeyEncs).imp fun _ _ => bstr_encodes
  have htime : Option.Rel Encodes (p.proofTime.map fun time => .tag 0 (.text time)) proofTime := by
    cases htime : p.proofTime with
    | none =>
      rw [htime] at hproofTime
      cases hproofTime
      exact .none
    | some time =>
      rw [htime] at hproofTime
      obtain ⟨enc, henc, rfl⟩ := Option.map_eq_some_iff.mp hproofTime
      exact .some (tdate_encodes henc)
  have hmembers := members_related (tstr_encodes hsystemId) (bstr_encodes hproof) hkeySet htime
    (results_encode hvals hres)
  have hpres : pres systemId proof keys proofTime res [] [] order [] =
      mpOf (inOrder (members systemId proof keys proofTime res) order []) [] := by
    show mpOf (inOrder (members systemId proof keys proofTime res)
      (if order.isEmpty then NAMES else order) []) [] = _
    rw [if_neg (by simpa using horder)]
  exact mpOf_encodes (inOrder_related hmembers order []) (hpres.symm.trans h)

end Items

/-! ### What answers a plan -/

/-- A result is what its function returns. -/
def Fits : Params → ResultValue → Prop
  | .pseudonym _ _ prf _ _, .pseudonym bytes => pseudonymLength prf = some bytes.length
  | .ageCheck _ _ _, .predicate => True
  | _, _ => False

/-- A presentation answers a plan: what the rules say of its values. -/
structure Answers (plan : Plan) (p : Presentation) : Prop where
  offered : ∃ ids, plan.systemFilter.systemIds = some ids ∧ p.systemId ∈ ids
  proof_ne : p.proof ≠ []
  issuerKeySet_length : 1 ≤ p.issuerKeySet.length ∧ p.issuerKeySet.length ≤ 8
  issuerKey_length : ∀ key ∈ p.issuerKeySet, 1 ≤ key.length ∧ key.length ≤ 4096
  untimed : p.proofTime = none → plan.sourceFormat ≠ SOURCE_MSO_MDOC
  timed : ∀ time ∈ p.proofTime, ∃ t : Calendar.Instant, utf8 time = t.text
  results : List.Forall₂ (fun f r => r.1 = f.handle ∧ Fits f.params r.2) plan.functions p.results

/-- A presentation is read as itself, its results in the order of the plan that it answers. -/
structure Reads (plan : Plan) (p p' : Presentation) : Prop where
  systemId : p'.systemId = p.systemId
  proof : p'.proof = p.proof
  issuerKeySet : p'.issuerKeySet = p.issuerKeySet
  proofTime : p'.proofTime = p.proofTime
  results : p.results.Perm p'.results
  answers : Answers plan p'

/-- What the reader keeps of a result. -/
def valueCbor : ResultValue → Cbor
  | .pseudonym bytes => .bytes bytes
  | .predicate => .bool true

theorem valueCbor_injective : Function.Injective valueCbor := by
  intro a b h
  cases a <;> cases b <;> cases h <;> rfl

theorem valueRule_iff {params : Params} {c : Cbor} {r : ResultValue} :
    ValueRule params c r ↔ c = valueCbor r ∧ Fits params r := by
  constructor
  · intro h
    cases h with
    | sha256 hlength => exact ⟨rfl, congrArg some hlength.symm⟩
    | hashdh hlength => exact ⟨rfl, congrArg some hlength.symm⟩
    | age => exact ⟨rfl, trivial⟩
  · rintro ⟨rfl, hfits⟩
    cases params with
    | pseudonym config ver prf context extra =>
      cases r with
      | pseudonym bytes =>
        rcases pseudonymLength_eq_some.mp hfits with ⟨rfl, hlength⟩ | ⟨rfl, hlength⟩
        · exact .sha256 hlength
        · exact .hashdh hlength
      | predicate => exact hfits.elim
    | ageCheck ge le extra =>
      cases r with
      | pseudonym bytes => exact hfits.elim
      | predicate => exact .age
    | unknown map => exact hfits.elim

section Rules

variable {plan : Plan} {p p' : Presentation} {named : List (String × Cbor)}

/-- Of results with one value for each handle, the rule reads all, in the order of the plan. -/
theorem resultsRule_iff (hplan : (plan.functions.map (·.handle)).Nodup)
    (hp : (p.results.map Prod.fst).Nodup)
    (hnamed : ∀ m, m ∈ named ↔ m ∈ p.results.map fun r => (r.1, valueCbor r.2))
    {read : List (String × ResultValue)} :
    ResultsRule plan named read ↔ p.results.Perm read ∧
      List.Forall₂ (fun f r => r.1 = f.handle ∧ Fits f.params r.2) plan.functions read := by
  have hvalue : ∀ {handle : String} {r : ResultValue},
      (handle, valueCbor r) ∈ named ↔ (handle, r) ∈ p.results := by
    intro handle r
    rw [hnamed, List.mem_map]
    constructor
    · rintro ⟨⟨handle', r'⟩, hmem, heq⟩
      obtain ⟨rfl, hr⟩ := Prod.mk.inj heq
      rwa [← valueCbor_injective hr]
    · exact fun hmem => ⟨_, hmem, rfl⟩
  have hkeys : ∀ handle, handle ∈ named.map Prod.fst ↔ handle ∈ p.results.map Prod.fst := by
    intro handle
    simp only [List.mem_map, hnamed, exists_exists_and_eq_and]
  have hhandles : ∀ {read : List (String × ResultValue)},
      List.Forall₂ (fun f r => r.1 = f.handle ∧ Fits f.params r.2) plan.functions read →
        read.map Prod.fst = plan.functions.map (·.handle) := fun h =>
    (forall₂_map_eq h fun _ _ hone => hone.1.symm).symm
  constructor
  · rintro ⟨hsame, hvalues⟩
    have hfits : List.Forall₂ (fun f r => r.1 = f.handle ∧ Fits f.params r.2) plan.functions
        read := hvalues.imp fun f r ⟨hhandle, _, _, hrule⟩ => ⟨hhandle, (valueRule_iff.mp hrule).2⟩
    have hread := hhandles hfits
    refine ⟨?_, hfits⟩
    have hsubset : ∀ r ∈ read, r ∈ p.results := by
      intro r hr
      obtain ⟨f, _, hhandle, v, hv, hrule⟩ := forall₂_mem_right hvalues hr
      obtain ⟨rfl, _⟩ := valueRule_iff.mp hrule
      rw [← hhandle] at hv
      exact hvalue.mp hv
    refine (List.perm_ext_iff_of_nodup (hp.of_map _) ?_).mpr fun r => ⟨fun hr => ?_, hsubset r⟩
    · exact (hread ▸ hplan : (read.map Prod.fst).Nodup).of_map _
    · -- the function with its handle has a result, which is this one
      have hhandle := (hsame r.1).mp ((hkeys r.1).mpr (List.mem_map_of_mem hr))
      rw [← hread] at hhandle
      obtain ⟨r', hr', hkey⟩ := List.mem_map.mp hhandle
      rwa [List.inj_on_of_nodup_map hp hr (hsubset r' hr') hkey.symm]
  · rintro ⟨hperm, hfits⟩
    refine ⟨fun handle => ?_, ?_⟩
    · rw [hkeys, ← hhandles hfits]
      exact (hperm.map Prod.fst).mem_iff
    · have hmems := (forall₂_and_mem_left hfits.flip).flip
      refine hmems.imp fun f r ⟨hmem, hhandle, hr⟩ => ?_
      refine ⟨hhandle, valueCbor r.2, hvalue.mpr ?_, valueRule_iff.mpr ⟨rfl, hr⟩⟩
      rw [← hhandle]
      exact hperm.mem_iff.mpr hmem

/-- What the reader keeps of the members of a presentation. -/
def memberCbors (p : Presentation) (named : List (String × Cbor)) : List (String × Cbor) :=
  members (.text p.systemId) (.bytes p.proof) (.array (p.issuerKeySet.map .bytes))
    (p.proofTime.map fun time => .tag 0 (.text time)) (.map (textKeyed named))

theorem membersRule_iff (hplan : (plan.functions.map (·.handle)).Nodup)
    (hp : (p.results.map Prod.fst).Nodup)
    (hnamed : ∀ m, m ∈ named ↔ m ∈ p.results.map fun r => (r.1, valueCbor r.2))
    {entries : List (String × Cbor)} (hentries : ∀ m, m ∈ entries ↔ m ∈ memberCbors p named) :
    MembersRule plan entries p' ↔ Reads plan p p' := by
  have hentry : ∀ {name : String} {c : Cbor}, (name, c) ∈ entries ↔
      (name = "system_id" ∧ c = .text p.systemId) ∨ (name = "proof" ∧ c = .bytes p.proof) ∨
        (name = "issuer_key_set" ∧ c = .array (p.issuerKeySet.map .bytes)) ∨
        (name = "results" ∧ c = .map (textKeyed named)) ∨
        ∃ time, p.proofTime = some time ∧ name = "proof_time" ∧ c = .tag 0 (.text time) := by
    intro name c
    rw [hentries, memberCbors, mem_members]
    simp only [Prod.mk.injEq, Option.map_eq_some_iff, exists_exists_and_eq_and]
  have hsystemId : ∀ {c}, ("system_id", c) ∈ entries ↔ c = .text p.systemId := by simp [hentry]
  have hproof : ∀ {c}, ("proof", c) ∈ entries ↔ c = .bytes p.proof := by simp [hentry]
  have hkeys : ∀ {c}, ("issuer_key_set", c) ∈ entries ↔
      c = .array (p.issuerKeySet.map .bytes) := by simp [hentry]
  have hresults : ∀ {c}, ("results", c) ∈ entries ↔ c = .map (textKeyed named) := by simp [hentry]
  have htime : ∀ {c}, ("proof_time", c) ∈ entries ↔
      ∃ time, p.proofTime = some time ∧ c = .tag 0 (.text time) := by simp [hentry]
  have huntimed : "proof_time" ∉ entries.map Prod.fst ↔ p.proofTime = none := by
    rw [List.mem_map, Option.eq_none_iff_forall_ne_some]
    constructor
    · exact fun h time hsome => h ⟨_, htime.mpr ⟨time, hsome, rfl⟩, rfl⟩
    · rintro h ⟨⟨name, c⟩, hmem, rfl⟩
      obtain ⟨time, hsome, _⟩ := htime.mp hmem
      exact h time hsome
  constructor
  · intro h
    have hsame : p'.proofTime = p.proofTime := by
      have hrule := h.proofTime
      cases hnew : p'.proofTime with
      | none =>
        rw [hnew] at hrule
        exact (huntimed.mp hrule.1).symm
      | some time =>
        rw [hnew] at hrule
        obtain ⟨_, hsome, hc⟩ := htime.mp hrule.1
        cases hc
        exact hsome.symm
    obtain ⟨results, hmem, hrule⟩ := h.results
    have hall : collect DcMatcher.named (textKeyed named) = some results :=
      collect_named.mpr (Cbor.map.inj (hresults.mp hmem)).symm
    obtain rfl := Option.some.inj ((collect_named.mpr rfl).symm.trans hall)
    obtain ⟨hperm, hfits⟩ := (resultsRule_iff hplan hp hnamed).mp hrule
    exact {
      systemId := Cbor.text.inj (hsystemId.mp h.systemId)
      proof := Cbor.bytes.inj (hproof.mp h.proof)
      issuerKeySet := List.map_injective_iff.mpr (fun _ _ => Cbor.bytes.inj)
        (Cbor.array.inj (hkeys.mp h.issuerKeySet))
      proofTime := hsame
      results := hperm
      answers := {
        offered := h.offered
        proof_ne := h.proof_ne
        issuerKeySet_length := h.issuerKeySet_length
        issuerKey_length := h.issuerKey_length
        untimed := fun hnone => by
          have hrule := h.proofTime
          rw [hnone] at hrule
          exact hrule.2
        timed := fun time hsome => by
          have hrule := h.proofTime
          rw [hsome] at hrule
          exact hrule.2
        results := hfits } }
  · intro h
    exact {
      known := fun m hm => by
        have hm := hentry.mp hm
        simp only [List.mem_cons, List.not_mem_nil, or_false]
        rcases hm with h | h | h | h | ⟨_, _, h, _⟩ <;> simp [h]
      systemId := hsystemId.mpr (congrArg _ h.systemId)
      offered := h.answers.offered
      proof := hproof.mpr (congrArg _ h.proof)
      proof_ne := h.answers.proof_ne
      issuerKeySet := hkeys.mpr (by rw [h.issuerKeySet])
      issuerKeySet_length := h.answers.issuerKeySet_length
      issuerKey_length := h.answers.issuerKey_length
      proofTime := by
        cases hnew : p'.proofTime with
        | none => exact ⟨huntimed.mpr (h.proofTime ▸ hnew), h.answers.untimed hnew⟩
        | some time =>
          exact ⟨htime.mpr ⟨time, h.proofTime ▸ hnew, rfl⟩, h.answers.timed time hnew⟩
      results := ⟨named, hresults.mpr rfl,
        (resultsRule_iff hplan hp hnamed).mpr ⟨h.results, h.answers.results⟩⟩ }

end Rules

/-! ### What is read of an encoded presentation -/

section Reading

variable {order handles : List String} {p : Presentation}

/-- The members of an item, as the reader keeps them. -/
def kept (items : List (String × Item)) : List (String × Cbor) :=
  items.map fun m => (m.1, Cbor.ofItem m.2)

theorem ofItem_textMap (items : List (String × Item)) :
    Cbor.ofItem (textMap items) = .map (textKeyed (kept items)) := by
  unfold textMap textKeyed kept
  rw [Cbor.ofItem, Cbor.ofEntries_eq_map, List.map_map, List.map_map]
  rfl

theorem keys_kept (items : List (String × Item)) :
    (kept items).map Prod.fst = items.map Prod.fst := by
  unfold kept
  rw [List.map_map]
  rfl

theorem ofItem_valueItem (r : ResultValue) : Cbor.ofItem (valueItem r) = valueCbor r := by
  cases r <;> rfl

theorem kept_memberItems : kept (memberItems handles p) =
    memberCbors p (kept (resultItems handles p)) := by
  have harray : Cbor.ofItem (.array (p.issuerKeySet.map .bytes)) =
      .array (p.issuerKeySet.map .bytes) := by
    rw [Cbor.ofItem, Cbor.ofItems_eq_map, List.map_map]
    rfl
  unfold memberItems memberCbors
  rw [← ofItem_textMap, ← harray]
  cases p.proofTime <;> rfl

theorem mem_kept_inOrder {d : List (String × Item)} (hn : (d.map Prod.fst).Nodup)
    (horder : ∀ m ∈ d, m.1 ∈ order) {m : String × Cbor} :
    m ∈ kept (inOrder d order []) ↔ m ∈ kept d := by
  unfold kept
  simp only [List.mem_map, mem_inOrder hn horder]

theorem mem_kept_resultItems (hp : (p.results.map Prod.fst).Nodup)
    (hhandles : handles.Perm (p.results.map Prod.fst)) {m : String × Cbor} :
    m ∈ kept (resultItems handles p) ↔ m ∈ p.results.map fun r => (r.1, valueCbor r.2) := by
  have hkeys : (p.results.map fun r => (r.1, valueItem r.2)).map Prod.fst =
      p.results.map Prod.fst := by
    rw [List.map_map]
    rfl
  unfold resultItems
  rw [mem_kept_inOrder (hkeys ▸ hp)]
  · unfold kept
    rw [List.map_map]
    simp only [Function.comp_def, ofItem_valueItem]
  · intro m hm
    exact hhandles.mem_iff.mpr (hkeys ▸ List.mem_map_of_mem hm)

theorem mem_kept_members (horder : order.Perm NAMES) {m : String × Cbor} :
    m ∈ kept (inOrder (memberItems handles p) order []) ↔
      m ∈ memberCbors p (kept (resultItems handles p)) := by
  rw [← kept_memberItems]
  refine mem_kept_inOrder nodup_members fun m hm => horder.mem_iff.mpr ?_
  rcases mem_members.mp hm with rfl | rfl | rfl | rfl | ⟨_, _, rfl⟩ <;> simp [NAMES]

/-- The item of a presentation has no key twice, as the reader keeps it. -/
theorem noRepeat_presentationItem (horder : order.Perm NAMES)
    (hp : (p.results.map Prod.fst).Nodup) (hhandles : handles.Perm (p.results.map Prod.fst)) :
    (Cbor.ofItem (presentationItem order handles p)).NoRepeat := by
  have hflat : ∀ m ∈ kept (resultItems handles p), m.2.NoRepeat := by
    intro m hm
    obtain ⟨r, _, rfl⟩ := List.mem_map.mp ((mem_kept_resultItems hp hhandles).mp hm)
    cases r.2 <;> trivial
  rw [presentationItem, ofItem_textMap, noRepeat_textKeyed, keys_kept]
  refine ⟨nodup_inOrder (horder.nodup_iff.mpr (by decide)), fun m hm => ?_⟩
  rcases mem_members.mp ((mem_kept_members horder).mp hm) with
    rfl | rfl | rfl | rfl | ⟨_, htime, rfl⟩
  · trivial
  · trivial
  · exact Cbor.noRepeatInItems_iff.mpr (List.forall_mem_map.mpr fun _ _ => trivial)
  · refine noRepeat_textKeyed.mpr ⟨?_, hflat⟩
    rw [keys_kept]
    exact nodup_inOrder (hhandles.nodup_iff.mpr hp)
  · obtain ⟨_, _, rfl⟩ := Option.map_eq_some_iff.mp htime
    trivial

theorem levels_textMap_le {items : List (String × Item)} {n : Nat} (hpos : 1 ≤ n)
    (h : ∀ m ∈ items, m.2.levels ≤ n) : (textMap items).levels ≤ n + 1 := by
  refine Nat.succ_le_succ ?_
  induction items with
  | nil => exact Nat.zero_le n
  | cons m items ih =>
    obtain ⟨hone, hrest⟩ := List.forall_mem_cons.mp h
    exact Nat.max_le.mpr ⟨Nat.max_le.mpr ⟨hpos, hone⟩, ih hrest⟩

theorem levels_presentationItem (order handles : List String) (p : Presentation) :
    (presentationItem order handles p).levels ≤ 3 := by
  have hpicked : ∀ {d : List (String × Item)} {order : List String} {n : Nat},
      (∀ m ∈ d, m.2.levels ≤ n) → ∀ m ∈ inOrder d order [], m.2.levels ≤ n := by
    intro d order n h m hm
    obtain ⟨k, _, hk⟩ := List.mem_filterMap.mp hm
    simp only [List.not_mem_nil, if_false] at hk
    obtain ⟨v, hv, rfl⟩ := Option.map_eq_some_iff.mp hk
    obtain ⟨before, after, hd, _⟩ := List.lookup_eq_some_iff.mp hv
    exact h (k, v) (hd ▸ List.mem_append_right _ List.mem_cons_self)
  have hkeys : ∀ keys : List (List UInt8),
      (Item.array (keys.map .bytes)).levels ≤ 2 := by
    intro keys
    refine Nat.succ_le_succ ?_
    induction keys with
    | nil => exact Nat.zero_le 1
    | cons key keys ih => exact Nat.max_le.mpr ⟨Nat.le_refl 1, ih⟩
  refine levels_textMap_le (by decide) (hpicked fun m hm => ?_)
  rcases mem_members.mp hm with rfl | rfl | rfl | rfl | ⟨_, htime, rfl⟩
  · exact Nat.le_succ 1
  · exact Nat.le_succ 1
  · exact hkeys p.issuerKeySet
  · refine levels_textMap_le (Nat.le_refl 1) (hpicked fun r hr => ?_)
    obtain ⟨⟨_, value⟩, _, rfl⟩ := List.mem_map.mp hr
    cases value <;> exact Nat.le_refl 1
  · obtain ⟨_, _, rfl⟩ := Option.map_eq_some_iff.mp htime
    exact Nat.le_refl 2

end Reading

/-- An encoded presentation: its members and its results in any order, one result for a handle. -/
structure Encoded (p : Presentation) (enc : List UInt8) : Prop where
  handles : (p.results.map Prod.fst).Nodup
  encoded : ∃ order handles, order.Perm NAMES ∧ handles.Perm (p.results.map Prod.fst) ∧
    encode order handles p = some enc

section Presentations

variable {plan : Plan} {p p' : Presentation} {enc : List UInt8}

theorem decodeCbor_encoded (h : Encoded p enc) :
    ∃ entries, decodeCbor enc = .ok (.map entries) ∧ (Cbor.map entries).NoRepeat ∧
      ∀ {plan : Plan} {p' : Presentation}, (plan.functions.map (·.handle)).Nodup →
        ((∃ members, entries = textKeyed members ∧ MembersRule plan members p') ↔
          Reads plan p p') := by
  obtain ⟨hp, order, handles, horder, hhandles, henc⟩ := h
  have hne : order ≠ [] := by
    rintro rfl
    exact absurd horder.length_eq (by decide)
  have hrep := noRepeat_presentationItem horder hp hhandles
  have hdecoded := decodeCbor_complete (encode_encodes hne henc)
    (Nat.le_trans (levels_presentationItem order handles p) (by decide)) hrep
  have hitem := ofItem_textMap (inOrder (memberItems handles p) order [])
  rw [presentationItem, hitem] at hdecoded hrep
  refine ⟨_, hdecoded, hrep, fun hplan => ?_⟩
  rw [← membersRule_iff hplan hp (fun m => mem_kept_resultItems hp hhandles)
    fun m => mem_kept_members horder]
  constructor
  · rintro ⟨members, hmembers, hrule⟩
    have hsame := (collect_named.mpr rfl).symm.trans (collect_named.mpr hmembers)
    rwa [Option.some.inj hsame]
  · exact fun hrule => ⟨_, rfl, hrule⟩

/-- An encoded presentation is read exactly if it answers the plan, within the size limit. -/
theorem checkPresentation_encoded (hplan : (plan.functions.map (·.handle)).Nodup)
    (h : Encoded p enc) {index : Nat} :
    checkPresentation plan index (.string (b64u enc)) = .ok p' ↔
      byteLen (b64u enc) ≤ MAX_PRESENTATION_INPUT ∧ Reads plan p p' := by
  obtain ⟨entries, hdecoded, hrep, hreads⟩ := decodeCbor_encoded h
  unfold checkPresentation
  cases hbytes : Base64url.decodeWithLimit (b64u enc) MAX_PRESENTATION_INPUT with
  | none =>
    have hlong : ¬ byteLen (b64u enc) ≤ MAX_PRESENTATION_INPUT := by
      intro hlimit
      cases hbytes.symm.trans (Base64url.decodeWithLimit_eq_encode.mpr ⟨rfl, hlimit⟩)
    simp only [hbytes, hlong, false_and, reduceCtorEq]
  | some bytes =>
    obtain ⟨hsame, hlimit⟩ := Base64url.decodeWithLimit_eq_encode.mp hbytes
    have hfits : byteLen (b64u enc) ≤ MAX_PRESENTATION_INPUT := by rwa [hsame]
    cases (Base64url.decodeWithLimit_eq_encode.mpr ⟨rfl, hfits⟩).symm.trans hbytes
    rw [and_iff_right hfits]
    simp only [hbytes, hdecoded]
    exact (checkMembers_ok hrep).trans (hreads hplan)

theorem checkPresentations_encoded (hplan : (plan.functions.map (·.handle)).Nodup)
    {ps ps' : List Presentation} {encs : List (List UInt8)} (h : List.Forall₂ Encoded ps encs)
    {index : Nat} :
    checkPresentations plan index (encs.map fun enc => .string (b64u enc)) = .ok ps' ↔
      (∀ enc ∈ encs, byteLen (b64u enc) ≤ MAX_PRESENTATION_INPUT) ∧
        List.Forall₂ (Reads plan) ps ps' := by
  induction h generalizing ps' index with
  | nil => simp [checkPresentations, List.forall₂_nil_left_iff, eq_comm]
  | @cons p enc ps encs hone _ ih =>
    rw [List.map_cons, checkPresentations, List.forall_mem_cons, List.forall₂_cons_left_iff]
    constructor
    · intro hok
      split at hok
      · cases hok
      · next p' hp' =>
        obtain ⟨hlimit, hread⟩ := (checkPresentation_encoded hplan hone).mp hp'
        obtain ⟨rest, hrest, rfl⟩ := map_eq_ok.mp hok
        obtain ⟨hlimits, hreads⟩ := ih.mp hrest
        exact ⟨⟨hlimit, hlimits⟩, p', rest, hread, hreads, rfl⟩
    · rintro ⟨⟨hlimit, hlimits⟩, p', rest, hread, hreads, rfl⟩
      rw [(checkPresentation_encoded hplan hone).mpr ⟨hlimit, hread⟩]
      exact map_eq_ok.mpr ⟨rest, ih.mpr ⟨hlimits, hreads⟩, rfl⟩

end Presentations

/-! ## 3. A token -/

/-- A token whose first entry is that of the query. -/
theorem parseResponse_entry {sj : SerdeJson} {plan : Plan} {key : String}
    (hkey : plan.raw.get "id" = some (.string key)) {elements : List Document}
    {others : List (String × Document)} (hothers : (key :: others.map Prod.fst).Nodup)
    {vpToken : String}
    (htoken : sj.events (utf8 vpToken) = some (.object ((key, .array elements) :: others))) :
    parseResponse sj plan vpToken =
      if elements.isEmpty then .error .presentationsEmpty
      else if elements.length > 1 ∧ !plan.allowsMultiple then
        .error .presentationsMultipleNotAllowed
      else checkPresentations plan 0 elements := by
  have hfound : ((key, Document.array elements) :: others).find?
      (fun member => member.1 == key) = some (key, .array elements) :=
    List.find?_cons_of_pos (beq_self_eq_true key)
  simp only [parseResponse, htoken, List.map_cons, firstRepeat_eq_none.mpr hothers,
    Value.asStr_eq_some.mpr hkey, hfound]

/-- A token that is built of encoded presentations for the query of a plan is accepted exactly if
each of them answers the plan, within the size limit, and there is one or the query allows more.
What is read is what was encoded, the results in the order of the request. -/
theorem parseResponse_vp (sj : SerdeJson) {query : String} {clientMetadata : Option String}
    {p : Plan} (hplan : plan sj query clientMetadata = .ok p) {key : String}
    (hkey : p.raw.get "id" = some (.string key)) {ps ps' : List Presentation}
    {encs : List (List UInt8)} (hencs : List.Forall₂ Encoded ps encs)
    {others : List (String × Document)} (hothers : (key :: others.map Prod.fst).Nodup)
    {vpToken : String} (htoken : sj.events (utf8 vpToken) = some (vp key encs others)) :
    parseResponse sj p vpToken = .ok ps' ↔
      ps ≠ [] ∧ (1 < ps.length → p.raw.get "multiple" = some (.bool true)) ∧
        (∀ enc ∈ encs, byteLen (b64u enc) ≤ MAX_PRESENTATION_INPUT) ∧
        List.Forall₂ (Reads p) ps ps' := by
  obtain ⟨_, _, hhandles⟩ := plan_ok hplan
  have hlength := hencs.length_eq
  have hempty : (encs.map fun enc => Document.string (b64u enc)).isEmpty = true ↔ ps = [] := by
    rw [List.isEmpty_iff, List.map_eq_nil_iff, ← List.length_eq_zero_iff, ← hlength,
      List.length_eq_zero_iff]
  have hmany : ((encs.map fun enc => Document.string (b64u enc)).length > 1 ∧
      (!p.allowsMultiple) = true) ↔
        ¬(1 < ps.length → p.raw.get "multiple" = some (.bool true)) := by
    rw [List.length_map, ← hlength, Classical.not_imp, ← allowsMultiple_iff, Bool.not_eq_true,
      Bool.not_eq_true']
  rw [parseResponse_entry hkey hothers htoken]
  split_ifs with h1 h2
  · exact iff_of_false (fun h => nomatch h) fun h => h.1 (hempty.mp h1)
  · exact iff_of_false (fun h => nomatch h) fun h => hmany.mp h2 h.2.1
  · rw [checkPresentations_encoded hhandles hencs]
    exact ⟨fun h => ⟨fun hnil => h1 (hempty.mpr hnil), not_not.mp fun hno => h2 (hmany.mpr hno), h⟩,
      fun h => h.2.2⟩

/-- A query for an age check of a committed attestation. -/
def ageQuery : Value :=
  .ofMembers
    [("id", .string "age"), ("format", .string "zkp_req"),
     ("meta", .ofMembers [("source_format", .string SOURCE_BBS_CD)]),
     ("_req", .array [.ofMembers
       [("fn_id", .string "age_check"), ("return", .string "a"),
        ("params", .ofMembers [("ge", .string "2008-10-10")])]])]

/-- Client metadata with one circuit. -/
def offeredCircuit : Value :=
  .ofMembers [("vp_formats_supported", .ofMembers
    [("zkp_req", .ofMembers [("system_id_values", .array [.string "urn:c"])])])]

def agePresentation : Presentation where
  systemId := "urn:c"
  proof := [1]
  issuerKeySet := [[0x30]]
  proofTime := none
  results := [("a", .predicate)]

def ageEncoding : List UInt8 := (encode NAMES ["a"] agePresentation).getD []

def ageToken : Value := .ofMembers [("age", .array [.string (b64u ageEncoding)])]

def ageReader : SerdeJson := .ofValues [ageToken, ageQuery, offeredCircuit]

/-- Whether the parameters are those of an age check. -/
def isAgeCheck : Params → Bool
  | .ageCheck _ _ _ => true
  | _ => false

/-- What the plan of the age check says. -/
theorem agePlan {p : Plan}
    (hplan : plan ageReader ageQuery.compact offeredCircuit.compact = .ok p) :
    p.raw.get "id" = some (.string "age") ∧ Answers p agePresentation := by
  have hsaid : (plan ageReader ageQuery.compact offeredCircuit.compact).toOption.map (fun p =>
      ((p.raw.get "id").bind Value.asStr, p.systemFilter.systemIds, p.sourceFormat,
        p.functions.map fun f => (f.handle, isAgeCheck f.params))) =
      some (some "age", some ["urn:c"], SOURCE_BBS_CD, [("a", true)]) := by
    decide +kernel
  rw [hplan] at hsaid
  obtain ⟨hid, hsaid⟩ := Prod.mk.inj (Option.some.inj hsaid)
  obtain ⟨hids, hsaid⟩ := Prod.mk.inj hsaid
  obtain ⟨hformat, hfunctions⟩ := Prod.mk.inj hsaid
  refine ⟨Value.asStr_eq_some.mp hid, ?_⟩
  exact {
    offered := ⟨_, hids, List.mem_cons_self⟩
    proof_ne := List.cons_ne_nil _ _
    issuerKeySet_length := ⟨Nat.le_refl 1, by decide⟩
    issuerKey_length := List.forall_mem_singleton.mpr ⟨Nat.le_refl 1, by decide⟩
    untimed := fun _ hmdoc => absurd (hformat.symm.trans hmdoc) (by decide)
    timed := fun _ htime => (nomatch htime)
    results := by
      obtain ⟨f, rest, hf, hrest, hcons⟩ := List.map_eq_cons_iff.mp hfunctions
      obtain rfl := List.map_eq_nil_iff.mp hcons
      obtain ⟨hhandle, hage⟩ := Prod.mk.inj hrest
      rw [hf]
      refine .cons ⟨hhandle.symm, ?_⟩ .nil
      cases hparams : f.params with
      | ageCheck ge le extra => trivial
      | _ =>
        rw [hparams] at hage
        cases hage }

theorem parseResponse_vp_age :
    ∃ p, plan ageReader ageQuery.compact offeredCircuit.compact = .ok p ∧
      parseResponse ageReader p ageToken.compact = .ok [agePresentation] := by
  have hsome : (plan ageReader ageQuery.compact offeredCircuit.compact).toBool = true := by
    decide +kernel
  cases hplan : plan ageReader ageQuery.compact offeredCircuit.compact with
  | error e =>
    rw [hplan] at hsome
    cases hsome
  | ok p =>
    obtain ⟨hkey, hanswers⟩ := agePlan hplan
    have hencoded : Encoded agePresentation ageEncoding :=
      ⟨by decide, NAMES, ["a"], .refl _, .refl _, by decide +kernel⟩
    have hfound : [ageToken, ageQuery, offeredCircuit].find? (fun v =>
        utf8 v.compact == utf8 ageToken.compact) = some ageToken :=
      List.find?_cons_of_pos (beq_self_eq_true (utf8 ageToken.compact))
    have htoken : ageReader.events (utf8 ageToken.compact) = some (vp "age" [ageEncoding] []) :=
      congrArg (Option.map Value.toDocument) hfound
    refine ⟨p, rfl, (parseResponse_vp ageReader hplan hkey (.cons hencoded .nil)
      (List.nodup_singleton _) htoken).mpr ⟨List.cons_ne_nil _ _, fun h => absurd h (by decide),
        List.forall_mem_singleton.mpr (by decide +kernel), .cons ?_ .nil⟩⟩
    exact ⟨rfl, rfl, rfl, rfl, .refl _, hanswers⟩

end Vectors

end DcMatcher
