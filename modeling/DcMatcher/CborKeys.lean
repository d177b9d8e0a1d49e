import DcMatcher.CborItems
import DcMatcher.CborExact

/-!
# Repeated keys

`decode_cbor` of `zkp_req_response.rs` compares the keys of a map by what it keeps of them. It
keeps no negative integer's value, and the entries of a map in their order.

Results:
1. `Cbor.ofItem_eq_iff`: what is kept of two items is equal if and only if they differ at most in
   the values of negative integers.
2. `Cbor.noRepeat_ofItem`: the reader sees a key twice where what it keeps of two keys is equal.
3. `decodeCbor_repeatedKey_exact`: exactly when the reader is right about repeated data items.
-/

namespace DcMatcher

open Lists Rfc8949

namespace Cbor

/-! ## 1. What the reader does not keep -/

mutual

/-- The item with -1 for each negative integer in it. -/
def eraseNint : Item → Item
  | .nint _ => .nint 0
  | .array items => .array (eraseNintInItems items)
  | .map entries => .map (eraseNintInEntries entries)
  | .tag t item => .tag t (eraseNint item)
  | .uint n => .uint n
  | .bytes bs => .bytes bs
  | .text s => .text s
  | .simple v => .simple v
  | .float raw => .float raw

def eraseNintInItems : List Item → List Item
  | [] => []
  | item :: items => eraseNint item :: eraseNintInItems items

def eraseNintInEntries : List (Item × Item) → List (Item × Item)
  | [] => []
  | (key, value) :: entries => (eraseNint key, eraseNint value) :: eraseNintInEntries entries

end

mutual

/-- A data item the reader keeps so. -/
def toItem : Cbor → Item
  | .uint n => .uint n
  | .nint => .nint 0
  | .bytes bs => .bytes bs
  | .text s => .text s
  | .array items => .array (toItems items)
  | .map entries => .map (toEntries entries)
  | .tag t inner => .tag t (toItem inner)
  | .bool b => .simple (if b then 21 else 20)
  -- a float has at least two bytes after the first
  | .other [initial] => .simple (initial.toNat % 32)
  | .other [_, v] => .simple v.toNat
  | .other raw => .float raw.tail

def toItems : List Cbor → List Item
  | [] => []
  | item :: items => toItem item :: toItems items

def toEntries : List (Cbor × Cbor) → List (Item × Item)
  | [] => []
  | (key, value) :: entries => (toItem key, toItem value) :: toEntries entries

end

theorem toItem_ofItem_simple {v : Nat} (hv : v < 24) : toItem (ofItem (.simple v)) = .simple v := by
  unfold ofItem
  split_ifs with hfalse htrue
  · rw [hfalse]
    rfl
  · rw [htrue]
    rfl
  · have hinitial : (UInt8.ofNat (7 * 32 + v)).toNat = 7 * 32 + v :=
      UInt8.toNat_ofNat_of_lt' (show _ < 256 by omega)
    rw [toItem, hinitial]
    congr 1
    omega

theorem toItem_ofItem_float {k : Nat} {raw : List UInt8} (hpos : 0 < k)
    (hraw : raw.length = 2 ^ k) : toItem (ofItem (.float raw)) = .float raw := by
  have htwo : 2 ^ 1 ≤ raw.length := hraw ▸ Nat.pow_le_pow_right (by decide) hpos
  cases raw with
  | nil => cases htwo
  | cons a raw =>
    cases raw with
    | nil => simp at htwo
    | cons b raw => rfl

mutual

/-- Of an encoded item all is kept but the values of negative integers. -/
theorem toItem_ofItem : ∀ {D : Item} {enc : List UInt8}, Encodes D enc →
    toItem (ofItem D) = eraseNint D
  | _, _, .uint _ | _, _, .nint _ | _, _, .bytes _ | _, _, .text _ => rfl
  | _, _, .array _ hitems => congrArg Item.array (toItems_ofItems hitems)
  | _, _, .map _ hentries => congrArg Item.map (toEntries_ofEntries hentries)
  | _, _, @Encodes.tag t _ _ _ _ hinner => congrArg (Item.tag t) (toItem_ofItem hinner)
  | _, _, .simple hv => toItem_ofItem_simple hv
  | _, _, @Encodes.simpleByte v hv => by
    rw [ofItem, if_neg (by omega), if_neg (by omega), if_neg (by omega), UInt8.ofNat_toNat]
    rfl
  | _, _, .float hpos _ hraw => toItem_ofItem_float hpos hraw

theorem toItems_ofItems : ∀ {items : List Item} {body : List UInt8}, EncodesItems items body →
    toItems (ofItems items) = eraseNintInItems items
  | _, _, .nil => rfl
  | _, _, .cons hone hrest => by
    rw [ofItems, toItems, eraseNintInItems, toItem_ofItem hone, toItems_ofItems hrest]

theorem toEntries_ofEntries : ∀ {entries : List (Item × Item)} {body : List UInt8},
    EncodesEntries entries body → toEntries (ofEntries entries) = eraseNintInEntries entries
  | _, _, .nil => rfl
  | _, _, .cons hkey hvalue hrest => by
    rw [ofEntries, toEntries, eraseNintInEntries, toItem_ofItem hkey, toItem_ofItem hvalue,
      toEntries_ofEntries hrest]

end

mutual

theorem ofItem_eraseNint : (D : Item) → ofItem (eraseNint D) = ofItem D
  | .uint _ | .nint _ | .bytes _ | .text _ | .simple _ | .float _ => rfl
  | .array items => congrArg Cbor.array (ofItems_eraseNint items)
  | .map entries => congrArg Cbor.map (ofEntries_eraseNint entries)
  | .tag t item => congrArg (Cbor.tag t) (ofItem_eraseNint item)

theorem ofItems_eraseNint : (items : List Item) → ofItems (eraseNintInItems items) = ofItems items
  | [] => rfl
  | item :: items => by
    rw [eraseNintInItems, ofItems, ofItems, ofItem_eraseNint item, ofItems_eraseNint items]

theorem ofEntries_eraseNint : (entries : List (Item × Item)) →
    ofEntries (eraseNintInEntries entries) = ofEntries entries
  | [] => rfl
  | (key, value) :: entries => by
    rw [eraseNintInEntries, ofEntries, ofEntries, ofItem_eraseNint key, ofItem_eraseNint value,
      ofEntries_eraseNint entries]

end

/-- What is kept of two items is equal if and only if they differ at most in the values of negative
integers. -/
theorem ofItem_eq_iff {a b : Item} {enc enc' : List UInt8} (ha : Encodes a enc)
    (hb : Encodes b enc') : ofItem a = ofItem b ↔ eraseNint a = eraseNint b := by
  constructor
  · intro h
    rw [← toItem_ofItem ha, ← toItem_ofItem hb, h]
  · intro h
    rw [← ofItem_eraseNint a, ← ofItem_eraseNint b, h]

/-! ## 2. Repeated keys -/

/-- The keys of a map are told apart if and only if what is kept of no two of them is equal. -/
theorem pairwise_ofEntries {entries : List (Item × Item)} :
    (ofEntries entries).Pairwise (fun a b => (a.1 == b.1) = false) ↔
      ¬ ∃ (i j : Nat) (a b : Item × Item), i ≠ j ∧ entries[i]? = some a ∧ entries[j]? = some b ∧
        ofItem a.1 = ofItem b.1 := by
  rw [pairwise_keys_iff, List.Nodup, List.pairwise_map, ofEntries_eq_map, List.pairwise_map]
  exact pairwise_iff_not_exists fun _ _ => Eq.symm

mutual

theorem noRepeat_ofItem : (D : Item) →
    ((ofItem D).NoRepeat ↔ ¬ D.RepeatsKey fun a b => ofItem a = ofItem b)
  | .uint _ | .nint _ | .bytes _ | .text _ | .float _ => by
    refine iff_of_true trivial ?_
    rintro ⟨entries, i, j, a, b, hmap, -⟩
    cases hmap
  | .simple v => by
    refine iff_of_true ?_ ?_
    · unfold ofItem
      split_ifs <;> exact trivial
    · rintro ⟨entries, i, j, a, b, hmap, -⟩
      cases hmap
  | .array items => by
    rw [Item.repeatsKey_array]
    exact noRepeat_ofItems items
  | .map entries => by
    rw [Item.repeatsKey_map, not_or]
    exact and_congr pairwise_ofEntries (noRepeat_ofEntries entries)
  | .tag t item => by
    rw [Item.repeatsKey_tag]
    exact noRepeat_ofItem item

theorem noRepeat_ofItems : (items : List Item) →
    (NoRepeatInItems (ofItems items) ↔
      ¬ ∃ item ∈ items, item.RepeatsKey fun a b => ofItem a = ofItem b)
  | [] => by simp [ofItems, NoRepeatInItems]
  | item :: items => by
    rw [ofItems, NoRepeatInItems, noRepeat_ofItem item, noRepeat_ofItems items]
    simp only [List.mem_cons, exists_eq_or_imp, not_or]

theorem noRepeat_ofEntries : (entries : List (Item × Item)) →
    (NoRepeatInEntries (ofEntries entries) ↔
      ¬ ∃ entry ∈ entries, (entry.1.RepeatsKey fun a b => ofItem a = ofItem b) ∨
        entry.2.RepeatsKey fun a b => ofItem a = ofItem b)
  | [] => by simp [ofEntries, NoRepeatInEntries]
  | (key, value) :: entries => by
    rw [ofEntries, NoRepeatInEntries, noRepeat_ofItem key, noRepeat_ofItem value,
      noRepeat_ofEntries entries]
    simp only [List.mem_cons, exists_eq_or_imp, not_or]

end

end Cbor

/-! ## 3. The same data item -/

/-- A repeated key is reported if and only if two keys of a map differ at most in the values of
negative integers. -/
theorem decodeCbor_duplicateKey {D : Item} {bytes : List UInt8} (hD : Encodes D bytes)
    (hlevels : D.levels ≤ CBOR_MAX_DEPTH + 1) :
    decodeCbor bytes = .error .duplicateKey ↔
      D.RepeatsKey fun a b => Cbor.eraseNint a = Cbor.eraseNint b := by
  obtain ⟨hok, hdup⟩ := Reader.item_reads (Cbor.levels_ofItem D ▸ hlevels) bytes []
    (Cbor.encoded_ofItem hD)
  rw [List.append_nil] at hok hdup
  rw [← hD.repeatsKey_congr fun ha hb => Cbor.ofItem_eq_iff ha hb]
  constructor
  · intro h
    by_contra hkeys
    rw [decodeCbor_item.mpr (hok ((Cbor.noRepeat_ofItem D).mpr hkeys))] at h
    cases h
  · intro hkeys
    exact decodeCbor_error (hdup fun hrep => (Cbor.noRepeat_ofItem D).mp hrep hkeys)

/-- The reader is right about repeated data items exactly when some key is there twice as it is, or
when keys that differ in the values of negative integers alone occur if and only if keys do that
are the same data item with the entries of a map in another order. -/
theorem decodeCbor_repeatedKey_exact {sameFloat : List UInt8 → List UInt8 → Prop}
    (hfloat : ∀ raw, sameFloat raw raw) {D : Item} {bytes : List UInt8} (hD : Encodes D bytes)
    (hlevels : D.levels ≤ CBOR_MAX_DEPTH + 1) :
    (decodeCbor bytes = .error .duplicateKey ↔ D.RepeatsKey (Item.Same sameFloat)) ↔
      D.RepeatsKey Eq ∨
        (D.RepeatsKey (fun a b => a ≠ b ∧ Cbor.eraseNint a = Cbor.eraseNint b) ↔
          D.RepeatsKey fun a b => a ≠ b ∧ Item.Same sameFloat a b) := by
  rw [decodeCbor_duplicateKey hD hlevels,
    Item.repeatsKey_iff (R := fun a b => Cbor.eraseNint a = Cbor.eraseNint b) fun a => rfl,
    Item.repeatsKey_iff (Item.Same.refl hfloat)]
  tauto

/-- The map from `-1 - m` and from `-1 - n` to 0. -/
def nintKeys (m n : Nat) : Item := .map [(.nint m, .uint 0), (.nint n, .uint 0)]

theorem encodes_nintKeys {m n : Nat} (hm : m < 24) (hn : n < 24) :
    Encodes (nintKeys m n)
      [0xA2, UInt8.ofNat (1 * 32 + m), 0x00, UInt8.ofNat (1 * 32 + n), 0x00] :=
  have hhead : Head 5 (List.length [((.nint m : Item), (.uint 0 : Item)), (.nint n, .uint 0)])
      [0xA2] := @Head.direct 5 2 (by decide)
  have hzero : Encodes (.uint 0) [0x00] := .uint (@Head.direct 0 0 (by decide))
  .map hhead (.cons (.nint (.direct hm)) hzero (.cons (.nint (.direct hn)) hzero .nil))

theorem decodeCbor_repeatedKey_exact_twice :
    decodeCbor [0xA2, 0x20, 0x00, 0x20, 0x00] = .error .duplicateKey ↔
      (nintKeys 0 0).RepeatsKey (Item.Same Eq) :=
  (decodeCbor_repeatedKey_exact (fun _ => rfl)
    (encodes_nintKeys (m := 0) (n := 0) (by decide) (by decide)) (by decide)).mpr
      (.inl ⟨_, 0, 1, _, _, .self _, by decide, rfl, rfl, rfl⟩)

/-- The keys -1 and -2 are reported as one key. -/
theorem decodeCbor_distinctNints :
    Encodes (nintKeys 0 1) [0xA2, 0x20, 0x00, 0x21, 0x00] ∧
      (nintKeys 0 1).levels ≤ CBOR_MAX_DEPTH + 1 ∧
      decodeCbor [0xA2, 0x20, 0x00, 0x21, 0x00] = .error .duplicateKey ∧
      ∀ sameFloat, ¬ (nintKeys 0 1).RepeatsKey (Item.Same sameFloat) := by
  refine ⟨encodes_nintKeys (by decide) (by decide), by decide, rfl, fun sameFloat h => ?_⟩
  rcases Item.repeatsKey_map.mp h with ⟨i, j, a, b, hne, ha, hb, hsame⟩ | ⟨entry, hentry, h⟩
  · have hkey : ∀ {k : Nat} {e : Item × Item},
        [((.nint 0 : Item), (.uint 0 : Item)), (.nint 1, .uint 0)][k]? = some e →
          e.1 = .nint k := by
      intro k e he
      match k with
      | 0 | 1 =>
        cases he
        rfl
    rw [hkey ha, hkey hb] at hsame
    cases hsame
    exact hne rfl
  · simp only [List.mem_cons, List.not_mem_nil, or_false] at hentry
    rcases hentry with rfl | rfl <;>
      rcases h with ⟨entries, _, _, _, _, hmap, _⟩ | ⟨entries, _, _, _, _, hmap, _⟩ <;>
        cases hmap

end DcMatcher
