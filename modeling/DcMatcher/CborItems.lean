import DcMatcher.CborReader

/-!
# CBOR data items and the strict reader

What the reader keeps of a data item. It keeps no negative integer's value, and null, undefined,
floats and other simple values as raw bytes.

Results:
1. `decodeCbor_complete`: what encodes a data item within the nesting limit is decoded,
   if the reader sees no key twice in it.
2. `decodeCbor_sound`: what is decoded encodes a data item within the limit, if it has none of the
   values the reader keeps as raw bytes.
3. `Cbor.distinctKeys_of_noRepeat`: keys the reader tells apart are distinct.
-/

namespace DcMatcher

open Lists Rfc8949

namespace Cbor

/-! ## What is kept -/

mutual

/-- The item the reader keeps of a data item. Negative integers lose their value. -/
def ofItem : Item → Cbor
  | .uint n => .uint n
  | .nint _ => .nint
  | .bytes bs => .bytes bs
  | .text s => .text s
  | .array items => .array (ofItems items)
  | .map entries => .map (ofEntries entries)
  | .tag t inner => .tag t (ofItem inner)
  | .simple v =>
    -- the reader keeps the two booleans apart, and all else by its bytes
    if v = 20 then .bool false
    else if v = 21 then .bool true
    else if v < 24 then .other [UInt8.ofNat (7 * 32 + v)]
    else .other [0xF8, UInt8.ofNat v]
  | .float raw => .other (UInt8.ofNat (7 * 32 + 24 + raw.length.log2) :: raw)

def ofItems : List Item → List Cbor
  | [] => []
  | item :: items => ofItem item :: ofItems items

def ofEntries : List (Item × Item) → List (Cbor × Cbor)
  | [] => []
  | (key, value) :: entries => (ofItem key, ofItem value) :: ofEntries entries

end

mutual

/-- The item has no value the reader keeps as raw bytes. -/
def Plain : Cbor → Prop
  | .array items => PlainItems items
  | .map entries => PlainEntries entries
  | .tag _ inner => inner.Plain
  | .other _ => False
  | .uint _ | .nint | .bytes _ | .text _ | .bool _ => True

def PlainItems : List Cbor → Prop
  | [] => True
  | item :: items => item.Plain ∧ PlainItems items

def PlainEntries : List (Cbor × Cbor) → Prop
  | [] => True
  | (key, value) :: entries => (key.Plain ∧ value.Plain) ∧ PlainEntries entries

end

theorem ofItems_eq_map (items : List Item) : ofItems items = items.map ofItem := by
  induction items with
  | nil => rfl
  | cons item items ih => rw [ofItems, ih, List.map_cons]

theorem ofEntries_eq_map (entries : List (Item × Item)) :
    ofEntries entries = entries.map fun entry => (ofItem entry.1, ofItem entry.2) := by
  induction entries with
  | nil => rfl
  | cons entry entries ih => rw [ofEntries, ih, List.map_cons]

theorem plainItems_iff {items : List Cbor} :
    PlainItems items ↔ ∀ item ∈ items, item.Plain := by
  induction items with
  | nil => simp [PlainItems]
  | cons item items ih => rw [PlainItems, ih, List.forall_mem_cons]

theorem plainEntries_iff {entries : List (Cbor × Cbor)} :
    PlainEntries entries ↔ ∀ entry ∈ entries, entry.1.Plain ∧ entry.2.Plain := by
  induction entries with
  | nil => simp [PlainEntries]
  | cons entry entries ih => rw [PlainEntries, ih, List.forall_mem_cons]

theorem ofItem_eq_text {item : Item} {s : String} : ofItem item = .text s ↔ item = .text s := by
  cases item with
  | simple v =>
    unfold ofItem
    split_ifs <;> simp
  | _ => simp [ofItem]

mutual

/-- Keys the reader tells apart are distinct. -/
theorem distinctKeys_of_noRepeat :
    (item : Item) → (ofItem item).NoRepeat → item.DistinctKeys
  | .uint _, _ | .nint _, _ | .bytes _, _ | .text _, _ | .simple _, _ | .float _, _ => trivial
  | .array items, h => distinctInItems_of_noRepeat items h
  | .map entries, h => by
    obtain ⟨hpairwise, hinner⟩ := h
    refine ⟨?_, distinctInEntries_of_noRepeat entries hinner⟩
    rw [ofEntries_eq_map, List.pairwise_map] at hpairwise
    rw [List.Nodup, List.pairwise_map]
    refine hpairwise.imp fun {a b} hdiff hsame => ?_
    rw [hsame] at hdiff
    exact Bool.noConfusion (hdiff.symm.trans (beq_self _))
  | .tag _ inner, h => distinctKeys_of_noRepeat inner h

theorem distinctInItems_of_noRepeat :
    (items : List Item) → NoRepeatInItems (ofItems items) → Item.DistinctInItems items
  | [], _ => trivial
  | item :: items, h =>
    ⟨distinctKeys_of_noRepeat item h.1, distinctInItems_of_noRepeat items h.2⟩

theorem distinctInEntries_of_noRepeat :
    (entries : List (Item × Item)) → NoRepeatInEntries (ofEntries entries) →
      Item.DistinctInEntries entries
  | [], _ => trivial
  | (key, value) :: entries, h =>
    ⟨⟨distinctKeys_of_noRepeat key h.1.1, distinctKeys_of_noRepeat value h.1.2⟩,
      distinctInEntries_of_noRepeat entries h.2⟩

end

/-! ## Encodings -/

mutual

theorem levels_ofItem : (D : Item) → (ofItem D).levels = D.levels
  | .uint _ | .nint _ | .bytes _ | .text _ | .float _ => rfl
  | .simple v => by
    unfold ofItem
    split_ifs <;> rfl
  | .array items => congrArg (· + 1) (levels_ofItems items)
  | .map entries => congrArg (· + 1) (levels_ofEntries entries)
  | .tag _ inner => congrArg (· + 1) (levels_ofItem inner)

theorem levels_ofItems : (items : List Item) →
    levelsOfItems (ofItems items) = Item.levelsOfItems items
  | [] => rfl
  | item :: items => by
    rw [ofItems, levelsOfItems, Item.levelsOfItems, levels_ofItem item, levels_ofItems items]

theorem levels_ofEntries : (entries : List (Item × Item)) →
    levelsOfEntries (ofEntries entries) = Item.levelsOfEntries entries
  | [] => rfl
  | (key, value) :: entries => by
    rw [ofEntries, levelsOfEntries, Item.levelsOfEntries, levels_ofItem key, levels_ofItem value,
      levels_ofEntries entries]

end

theorem length_ofItems (items : List Item) : (ofItems items).length = items.length := by
  rw [ofItems_eq_map, List.length_map]

theorem length_ofEntries (entries : List (Item × Item)) :
    (ofEntries entries).length = entries.length := by
  rw [ofEntries_eq_map, List.length_map]

/-- An initial byte with what follows it. -/
theorem encoded_follow {k : Nat} {raw : List UInt8} (hk : k < 4) (hraw : raw.length = 2 ^ k) :
    (Cbor.other (UInt8.ofNat (7 * 32 + 24 + k) :: raw)).Encoded
      (UInt8.ofNat (7 * 32 + 24 + k) :: raw) := by
  have hwidth : raw.length = width (24 + k) := by
    rw [hraw, width, if_pos (Nat.le_add_right 24 k), Nat.add_sub_cancel_left]
  rw [Nat.add_assoc]
  exact .other (by omega) (by omega) (by omega) hwidth

theorem encoded_simple {v : Nat} (hv : v < 24) :
    (ofItem (.simple v)).Encoded [UInt8.ofNat (7 * 32 + v)] := by
  unfold ofItem
  split_ifs with hfalse htrue
  · rw [hfalse]
    exact .false
  · rw [htrue]
    exact .true
  · exact .other (by omega) hfalse htrue (by rw [width, if_neg (by omega)]; rfl)

mutual

/-- The encodings of a data item are those of what is kept of it. -/
theorem encoded_ofItem : ∀ {D : Item} {enc : List UInt8}, Encodes D enc → (ofItem D).Encoded enc
  | _, _, .uint hhead => .uint hhead
  | _, _, .nint hhead => .nint hhead
  | _, _, .bytes hhead => .bytes hhead
  | _, _, .text hhead => .text hhead
  | _, _, @Encodes.array items _ _ hhead hitems =>
    .array ((length_ofItems items).symm ▸ hhead) (encoded_ofItems hitems)
  | _, _, @Encodes.map entries _ _ hhead hentries =>
    .map ((length_ofEntries entries).symm ▸ hhead) (encoded_ofEntries hentries)
  | _, _, .tag hhead hinner => .tag hhead (encoded_ofItem hinner)
  | _, _, .simple hv => encoded_simple hv
  | _, _, @Encodes.simpleByte v hv => by
    rw [ofItem, if_neg (by omega), if_neg (by omega), if_neg (by omega), UInt8.ofNat_toNat]
    exact @encoded_follow 0 [v] (by decide) rfl
  | _, _, @Encodes.float k raw hpos hk hraw => by
    rw [ofItem, hraw, Nat.log2_two_pow]
    exact encoded_follow hk hraw

theorem encoded_ofItems : ∀ {items : List Item} {body : List UInt8}, EncodesItems items body →
    EncodedItems (ofItems items) body
  | _, _, .nil => .nil
  | _, _, .cons hone hrest => .cons (encoded_ofItem hone) (encoded_ofItems hrest)

theorem encoded_ofEntries : ∀ {entries : List (Item × Item)} {body : List UInt8},
    EncodesEntries entries body → EncodedEntries (ofEntries entries) body
  | _, _, .nil => .nil
  | _, _, .cons hkey hvalue hrest =>
    .cons (encoded_ofItem hkey) (encoded_ofItem hvalue) (encoded_ofEntries hrest)

end

mutual

/-- Without raw values, what is kept is kept of a data item with the same encodings. -/
theorem exists_item : ∀ {c : Cbor} {enc : List UInt8}, c.Encoded enc → c.Plain →
    ∃ D, Encodes D enc ∧ ofItem D = c
  | _, _, .uint hhead, _ => ⟨_, .uint hhead, rfl⟩
  | _, _, .nint hhead, _ => ⟨_, .nint hhead, rfl⟩
  | _, _, .bytes hhead, _ => ⟨_, .bytes hhead, rfl⟩
  | _, _, .text hhead, _ => ⟨_, .text hhead, rfl⟩
  | _, _, .array hhead hitems, hplain => by
    obtain ⟨Ds, hDs, rfl⟩ := exists_items hitems hplain
    exact ⟨.array Ds, .array (length_ofItems Ds ▸ hhead) hDs, rfl⟩
  | _, _, .map hhead hentries, hplain => by
    obtain ⟨Es, hEs, rfl⟩ := exists_entries hentries hplain
    exact ⟨.map Es, .map (length_ofEntries Es ▸ hhead) hEs, rfl⟩
  | _, _, .tag hhead hinner, hplain => by
    obtain ⟨D, hD, rfl⟩ := exists_item hinner hplain
    exact ⟨.tag _ D, .tag hhead hD, rfl⟩
  | _, _, .false, _ => ⟨.simple 20, .simple (by decide), rfl⟩
  | _, _, .true, _ => ⟨.simple 21, .simple (by decide), rfl⟩

theorem exists_items : ∀ {items : List Cbor} {body : List UInt8}, EncodedItems items body →
    PlainItems items → ∃ Ds, EncodesItems Ds body ∧ ofItems Ds = items
  | _, _, .nil, _ => ⟨[], .nil, rfl⟩
  | _, _, .cons hone hrest, hplain => by
    obtain ⟨D, hD, rfl⟩ := exists_item hone hplain.1
    obtain ⟨Ds, hDs, rfl⟩ := exists_items hrest hplain.2
    exact ⟨D :: Ds, .cons hD hDs, rfl⟩

theorem exists_entries : ∀ {entries : List (Cbor × Cbor)} {body : List UInt8},
    EncodedEntries entries body → PlainEntries entries →
      ∃ Es, EncodesEntries Es body ∧ ofEntries Es = entries
  | _, _, .nil, _ => ⟨[], .nil, rfl⟩
  | _, _, .cons hkey hvalue hrest, hplain => by
    obtain ⟨K, hK, rfl⟩ := exists_item hkey hplain.1.1
    obtain ⟨V, hV, rfl⟩ := exists_item hvalue hplain.1.2
    obtain ⟨Es, hEs, rfl⟩ := exists_entries hrest hplain.2
    exact ⟨(K, V) :: Es, .cons hK hV hEs, rfl⟩

end

end Cbor

/-- What is decoded, without raw values, encodes one data item of at most `CBOR_MAX_DEPTH`
levels below the outermost. -/
theorem decodeCbor_sound {bytes : List UInt8} {c : Cbor} (h : decodeCbor bytes = .ok c)
    (hplain : c.Plain) :
    ∃ D, Encodes D bytes ∧ D.levels ≤ CBOR_MAX_DEPTH + 1 ∧ Cbor.ofItem D = c := by
  obtain ⟨enc, rfl, henc, hlevels, -⟩ := Reader.item_sound _ _ _ _ (decodeCbor_item.mp h)
  obtain ⟨D, hD, rfl⟩ := Cbor.exists_item henc hplain
  rw [List.append_nil]
  exact ⟨D, hD, Cbor.levels_ofItem D ▸ hlevels, rfl⟩

/-- What encodes such an item is decoded, if the reader sees no key twice in it. -/
theorem decodeCbor_complete {bytes : List UInt8} {D : Item} (hD : Encodes D bytes)
    (hlevels : D.levels ≤ CBOR_MAX_DEPTH + 1) (hkeys : (Cbor.ofItem D).NoRepeat) :
    decodeCbor bytes = .ok (Cbor.ofItem D) := by
  have hread := Reader.item_reads (Cbor.levels_ofItem D ▸ hlevels) bytes []
    (Cbor.encoded_ofItem hD)
  rw [List.append_nil] at hread
  exact decodeCbor_item.mpr (hread.1 hkeys)

end DcMatcher
