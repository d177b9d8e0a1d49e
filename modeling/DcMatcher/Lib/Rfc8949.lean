import Mathlib.Algebra.Group.Nat.Defs
import Mathlib.Data.List.Basic

/-!
# CBOR data items

Nothing here names a program. The data model of RFC 8949 and its encodings of definite
length, as a relation: an argument may be written in more bytes than it needs.

Results:
1. `Item.Same.refl`: an item is the same data item as itself, for any notion of equal floats.
2. `Item.repeatsKey_array`, `Item.repeatsKey_map`, `Item.repeatsKey_tag`: where a map within an
   item has related keys.
3. `Encodes.exists_of_contains`: an item within an encoded item is encoded.
4. `Item.write_encodes`: the shortest heads make an encoding.
-/

namespace Rfc8949

/-! ## Data items -/

/-- A data item. The text of a text string is what its UTF-8 bytes say. -/
inductive Item
  | uint (n : Nat)
  /-- The integer `-1 - n`. -/
  | nint (n : Nat)
  | bytes (bs : List UInt8)
  | text (s : String)
  | array (items : List Item)
  | map (entries : List (Item × Item))
  | tag (t : Nat) (item : Item)
  | simple (v : Nat)
  /-- A floating-point number of half, single or double precision, by its bits. -/
  | float (raw : List UInt8)

namespace Item

/-- The simple value `false`. -/
abbrev false : Item := simple 20

/-- The simple value `true`. -/
abbrev true : Item := simple 21

mutual

/-- How many levels an item has, itself included. -/
def levels : Item → Nat
  | .array items => levelsOfItems items + 1
  | .map entries => levelsOfEntries entries + 1
  | .tag _ item => item.levels + 1
  | .uint _ | .nint _ | .bytes _ | .text _ | .simple _ | .float _ => 1

/-- The most levels among the items. -/
def levelsOfItems : List Item → Nat
  | [] => 0
  | item :: items => max item.levels (levelsOfItems items)

def levelsOfEntries : List (Item × Item) → Nat
  | [] => 0
  | (key, value) :: entries => max (max key.levels value.levels) (levelsOfEntries entries)

end

mutual

/-- No map in the item, at any level, has a key twice. -/
def DistinctKeys : Item → Prop
  | .array items => DistinctInItems items
  | .map entries => (entries.map Prod.fst).Nodup ∧ DistinctInEntries entries
  | .tag _ item => item.DistinctKeys
  | .uint _ | .nint _ | .bytes _ | .text _ | .simple _ | .float _ => True

def DistinctInItems : List Item → Prop
  | [] => True
  | item :: items => item.DistinctKeys ∧ DistinctInItems items

def DistinctInEntries : List (Item × Item) → Prop
  | [] => True
  | (key, value) :: entries =>
    (key.DistinctKeys ∧ value.DistinctKeys) ∧ DistinctInEntries entries

end

/-! ### The same data item -/

mutual

/-- The same data item. The entries of a map have no order. Which floats are the same is left
open. -/
inductive Same (sameFloat : List UInt8 → List UInt8 → Prop) : Item → Item → Prop
  | uint (n : Nat) : Same sameFloat (.uint n) (.uint n)
  | nint (n : Nat) : Same sameFloat (.nint n) (.nint n)
  | bytes (bs : List UInt8) : Same sameFloat (.bytes bs) (.bytes bs)
  | text (s : String) : Same sameFloat (.text s) (.text s)
  | array {items items' : List Item} : SameItems sameFloat items items' →
      Same sameFloat (.array items) (.array items')
  | map {entries entries' others : List (Item × Item)} : entries.Perm entries' →
      SameEntries sameFloat entries' others → Same sameFloat (.map entries) (.map others)
  | tag (t : Nat) {item item' : Item} : Same sameFloat item item' →
      Same sameFloat (.tag t item) (.tag t item')
  | simple (v : Nat) : Same sameFloat (.simple v) (.simple v)
  | float {raw raw' : List UInt8} : sameFloat raw raw' → Same sameFloat (.float raw) (.float raw')

inductive SameItems (sameFloat : List UInt8 → List UInt8 → Prop) :
    List Item → List Item → Prop
  | nil : SameItems sameFloat [] []
  | cons {item item' : Item} {items items' : List Item} : Same sameFloat item item' →
      SameItems sameFloat items items' → SameItems sameFloat (item :: items) (item' :: items')

inductive SameEntries (sameFloat : List UInt8 → List UInt8 → Prop) :
    List (Item × Item) → List (Item × Item) → Prop
  | nil : SameEntries sameFloat [] []
  | cons {key key' value value' : Item} {entries entries' : List (Item × Item)} :
      Same sameFloat key key' → Same sameFloat value value' →
      SameEntries sameFloat entries entries' →
      SameEntries sameFloat ((key, value) :: entries) ((key', value') :: entries')

end

mutual

theorem Same.refl {sameFloat : List UInt8 → List UInt8 → Prop}
    (hfloat : ∀ raw, sameFloat raw raw) : (D : Item) → Same sameFloat D D
  | .uint n => .uint n
  | .nint n => .nint n
  | .bytes bs => .bytes bs
  | .text s => .text s
  | .array items => .array (SameItems.refl hfloat items)
  | .map entries => .map (List.Perm.refl entries) (SameEntries.refl hfloat entries)
  | .tag t item => .tag t (Same.refl hfloat item)
  | .simple v => .simple v
  | .float raw => .float (hfloat raw)

theorem SameItems.refl {sameFloat : List UInt8 → List UInt8 → Prop}
    (hfloat : ∀ raw, sameFloat raw raw) : (items : List Item) → SameItems sameFloat items items
  | [] => .nil
  | item :: items => .cons (Same.refl hfloat item) (SameItems.refl hfloat items)

theorem SameEntries.refl {sameFloat : List UInt8 → List UInt8 → Prop}
    (hfloat : ∀ raw, sameFloat raw raw) :
    (entries : List (Item × Item)) → SameEntries sameFloat entries entries
  | [] => .nil
  | (key, value) :: entries =>
    .cons (Same.refl hfloat key) (Same.refl hfloat value) (SameEntries.refl hfloat entries)

end

/-! ### Items within an item -/

/-- An item is within an item, at any level. -/
inductive Contains : Item → Item → Prop
  | self (D : Item) : Contains D D
  | element {items : List Item} {item D : Item} : item ∈ items → Contains item D →
      Contains (.array items) D
  | key {entries : List (Item × Item)} {entry : Item × Item} {D : Item} : entry ∈ entries →
      Contains entry.1 D → Contains (.map entries) D
  | value {entries : List (Item × Item)} {entry : Item × Item} {D : Item} : entry ∈ entries →
      Contains entry.2 D → Contains (.map entries) D
  | inner {t : Nat} {item D : Item} : Contains item D → Contains (.tag t item) D

/-- Some map within the item has related keys at two places. -/
def RepeatsKey (R : Item → Item → Prop) (D : Item) : Prop :=
  ∃ (entries : List (Item × Item)) (i j : Nat) (a b : Item × Item),
    Contains D (.map entries) ∧ i ≠ j ∧ entries[i]? = some a ∧ entries[j]? = some b ∧ R a.1 b.1

section RepeatsKey

variable {R : Item → Item → Prop}

theorem repeatsKey_array {items : List Item} :
    RepeatsKey R (.array items) ↔ ∃ item ∈ items, RepeatsKey R item := by
  constructor
  · rintro ⟨entries, i, j, a, b, hmap, hrest⟩
    cases hmap with
    | element hitem hmap => exact ⟨_, hitem, entries, i, j, a, b, hmap, hrest⟩
  · rintro ⟨item, hitem, entries, i, j, a, b, hmap, hrest⟩
    exact ⟨entries, i, j, a, b, .element hitem hmap, hrest⟩

theorem repeatsKey_map {entries : List (Item × Item)} :
    RepeatsKey R (.map entries) ↔
      (∃ (i j : Nat) (a b : Item × Item),
        i ≠ j ∧ entries[i]? = some a ∧ entries[j]? = some b ∧ R a.1 b.1) ∨
      ∃ entry ∈ entries, RepeatsKey R entry.1 ∨ RepeatsKey R entry.2 := by
  constructor
  · rintro ⟨inner, i, j, a, b, hmap, hrest⟩
    cases hmap with
    | self => exact .inl ⟨i, j, a, b, hrest⟩
    | key hentry hmap => exact .inr ⟨_, hentry, .inl ⟨inner, i, j, a, b, hmap, hrest⟩⟩
    | value hentry hmap => exact .inr ⟨_, hentry, .inr ⟨inner, i, j, a, b, hmap, hrest⟩⟩
  · rintro (⟨i, j, a, b, hrest⟩ | ⟨entry, hentry, ⟨inner, i, j, a, b, hmap, hrest⟩ |
      ⟨inner, i, j, a, b, hmap, hrest⟩⟩)
    · exact ⟨entries, i, j, a, b, .self _, hrest⟩
    · exact ⟨inner, i, j, a, b, .key hentry hmap, hrest⟩
    · exact ⟨inner, i, j, a, b, .value hentry hmap, hrest⟩

theorem repeatsKey_tag {t : Nat} {item : Item} :
    RepeatsKey R (.tag t item) ↔ RepeatsKey R item := by
  constructor
  · rintro ⟨entries, i, j, a, b, hmap, hrest⟩
    cases hmap with
    | inner hmap => exact ⟨entries, i, j, a, b, hmap, hrest⟩
  · rintro ⟨entries, i, j, a, b, hmap, hrest⟩
    exact ⟨entries, i, j, a, b, .inner hmap, hrest⟩

/-- A key is there twice as it is, or in two forms. -/
theorem repeatsKey_iff (hrefl : ∀ a, R a a) {D : Item} :
    RepeatsKey R D ↔ RepeatsKey Eq D ∨ RepeatsKey (fun a b => a ≠ b ∧ R a b) D := by
  constructor
  · rintro ⟨entries, i, j, a, b, hmap, hne, ha, hb, hR⟩
    by_cases heq : a.1 = b.1
    · exact .inl ⟨entries, i, j, a, b, hmap, hne, ha, hb, heq⟩
    · exact .inr ⟨entries, i, j, a, b, hmap, hne, ha, hb, heq, hR⟩
  · rintro (⟨entries, i, j, a, b, hmap, hne, ha, hb, heq⟩ |
      ⟨entries, i, j, a, b, hmap, hne, ha, hb, -, hR⟩)
    · exact ⟨entries, i, j, a, b, hmap, hne, ha, hb, heq ▸ hrefl a.1⟩
    · exact ⟨entries, i, j, a, b, hmap, hne, ha, hb, hR⟩

end RepeatsKey

end Item

/-! ## Encodings -/

/-- The number that bytes write, the most significant one first. -/
def bigEndian (raw : List UInt8) : Nat := raw.foldl (fun n b => n * 256 + b.toNat) 0

/-- The head of an item of a major type with an argument: in the initial byte, or in 1, 2,
4 or 8 bytes after it. -/
inductive Head (major : Nat) : Nat → List UInt8 → Prop
  | direct {n : Nat} : n < 24 → Head major n [UInt8.ofNat (major * 32 + n)]
  | follow {k : Nat} {raw : List UInt8} : k < 4 → raw.length = 2 ^ k →
      Head major (bigEndian raw) (UInt8.ofNat (major * 32 + 24 + k) :: raw)

/-- The bytes of a string. -/
def stringBytes (s : String) : List UInt8 := s.toByteArray.data.toList

mutual

/-- The bytes encode the item, with all lengths definite. -/
inductive Encodes : Item → List UInt8 → Prop
  | uint {n : Nat} {head : List UInt8} : Head 0 n head → Encodes (.uint n) head
  | nint {n : Nat} {head : List UInt8} : Head 1 n head → Encodes (.nint n) head
  | bytes {bs head : List UInt8} : Head 2 bs.length head → Encodes (.bytes bs) (head ++ bs)
  | text {s : String} {head : List UInt8} : Head 3 (stringBytes s).length head →
      Encodes (.text s) (head ++ stringBytes s)
  | array {items : List Item} {head body : List UInt8} : Head 4 items.length head →
      EncodesItems items body → Encodes (.array items) (head ++ body)
  | map {entries : List (Item × Item)} {head body : List UInt8} :
      Head 5 entries.length head → EncodesEntries entries body →
      Encodes (.map entries) (head ++ body)
  | tag {t : Nat} {item : Item} {head body : List UInt8} : Head 6 t head →
      Encodes item body → Encodes (.tag t item) (head ++ body)
  | simple {v : Nat} : v < 24 → Encodes (.simple v) [UInt8.ofNat (7 * 32 + v)]
  | simpleByte {v : UInt8} : 32 ≤ v.toNat → Encodes (.simple v.toNat) [0xF8, v]
  | float {k : Nat} {raw : List UInt8} : 0 < k → k < 4 → raw.length = 2 ^ k →
      Encodes (.float raw) (UInt8.ofNat (7 * 32 + 24 + k) :: raw)

inductive EncodesItems : List Item → List UInt8 → Prop
  | nil : EncodesItems [] []
  | cons {item : Item} {items : List Item} {one rest : List UInt8} :
      Encodes item one → EncodesItems items rest → EncodesItems (item :: items) (one ++ rest)

inductive EncodesEntries : List (Item × Item) → List UInt8 → Prop
  | nil : EncodesEntries [] []
  | cons {key value : Item} {entries : List (Item × Item)} {one two rest : List UInt8} :
      Encodes key one → Encodes value two → EncodesEntries entries rest →
      EncodesEntries ((key, value) :: entries) (one ++ (two ++ rest))

end

theorem Head.ne_nil {major n : Nat} {head : List UInt8} (h : Head major n head) : head ≠ [] := by
  cases h <;> exact List.cons_ne_nil _ _

theorem EncodesItems.exists_of_mem {items : List Item} {body : List UInt8} {item : Item}
    (h : EncodesItems items body) (hmem : item ∈ items) : ∃ enc, Encodes item enc := by
  induction items generalizing body with
  | nil => cases hmem
  | cons head items ih =>
    cases h with
    | cons hone hrest =>
      rcases List.mem_cons.mp hmem with rfl | hmem
      · exact ⟨_, hone⟩
      · exact ih hrest hmem

theorem EncodesEntries.exists_of_mem {entries : List (Item × Item)} {body : List UInt8}
    {entry : Item × Item} (h : EncodesEntries entries body) (hmem : entry ∈ entries) :
    (∃ enc, Encodes entry.1 enc) ∧ ∃ enc, Encodes entry.2 enc := by
  induction entries generalizing body with
  | nil => cases hmem
  | cons head entries ih =>
    cases h with
    | cons hkey hvalue hrest =>
      rcases List.mem_cons.mp hmem with rfl | hmem
      · exact ⟨⟨_, hkey⟩, _, hvalue⟩
      · exact ih hrest hmem

/-- An item within an encoded item has an encoding. -/
theorem Encodes.exists_of_contains {D E : Item} {enc : List UInt8} (hD : Encodes D enc)
    (h : D.Contains E) : ∃ enc, Encodes E enc := by
  induction h generalizing enc with
  | self => exact ⟨enc, hD⟩
  | element hitem _ ih =>
    cases hD with
    | array _ hitems =>
      obtain ⟨one, hone⟩ := hitems.exists_of_mem hitem
      exact ih hone
  | key hentry _ ih =>
    cases hD with
    | map _ hentries =>
      obtain ⟨⟨one, hkey⟩, -⟩ := hentries.exists_of_mem hentry
      exact ih hkey
  | value hentry _ ih =>
    cases hD with
    | map _ hentries =>
      obtain ⟨-, two, hvalue⟩ := hentries.exists_of_mem hentry
      exact ih hvalue
  | inner _ ih =>
    cases hD with
    | tag _ hinner => exact ih hinner

/-- Which keys are repeated is decided by those that have an encoding. -/
theorem Encodes.repeatsKey_congr {R S : Item → Item → Prop} {D : Item} {enc : List UInt8}
    (hD : Encodes D enc)
    (hRS : ∀ {a b : Item} {enc enc' : List UInt8}, Encodes a enc → Encodes b enc' →
      (R a b ↔ S a b)) : D.RepeatsKey R ↔ D.RepeatsKey S := by
  have hkeys : ∀ {entries : List (Item × Item)} {i j : Nat} {a b : Item × Item},
      D.Contains (.map entries) → entries[i]? = some a → entries[j]? = some b →
        (R a.1 b.1 ↔ S a.1 b.1) := by
    intro entries i j a b hmap ha hb
    obtain ⟨_, henc⟩ := hD.exists_of_contains hmap
    cases henc with
    | map _ hentries =>
      obtain ⟨⟨_, hkeyA⟩, -⟩ := hentries.exists_of_mem (List.mem_of_getElem? ha)
      obtain ⟨⟨_, hkeyB⟩, -⟩ := hentries.exists_of_mem (List.mem_of_getElem? hb)
      exact hRS hkeyA hkeyB
  constructor
  · rintro ⟨entries, i, j, a, b, hmap, hne, ha, hb, h⟩
    exact ⟨entries, i, j, a, b, hmap, hne, ha, hb, (hkeys hmap ha hb).mp h⟩
  · rintro ⟨entries, i, j, a, b, hmap, hne, ha, hb, h⟩
    exact ⟨entries, i, j, a, b, hmap, hne, ha, hb, (hkeys hmap ha hb).mpr h⟩

/-! ## Writing -/

/-- A number in so many bytes, the most significant one first. -/
def bytesOf (n : Nat) : Nat → List UInt8
  | 0 => []
  | length + 1 => bytesOf (n / 256) length ++ [UInt8.ofNat n]

theorem length_bytesOf (n length : Nat) : (bytesOf n length).length = length := by
  induction length generalizing n with
  | zero => rfl
  | succ length ih => rw [bytesOf, List.length_append, ih, List.length_singleton]

theorem bigEndian_append (raw : List UInt8) (b : UInt8) :
    bigEndian (raw ++ [b]) = bigEndian raw * 256 + b.toNat := by
  unfold bigEndian
  rw [List.foldl_append]
  rfl

theorem bigEndian_bytesOf {n length : Nat} (h : n < 256 ^ length) :
    bigEndian (bytesOf n length) = n := by
  induction length generalizing n with
  | zero =>
    obtain rfl : n = 0 := Nat.lt_one_iff.mp h
    rfl
  | succ length ih =>
    rw [Nat.pow_succ] at h
    rw [bytesOf, bigEndian_append, ih (Nat.div_lt_of_lt_mul (by rwa [Nat.mul_comm] at h)),
      UInt8.toNat_ofNat']
    exact Nat.div_add_mod' n 256

/-- The shortest head of an argument. -/
def shortHead (major n : Nat) : List UInt8 :=
  let follow := fun k => UInt8.ofNat (major * 32 + 24 + k) :: bytesOf n (2 ^ k)
  if n < 24 then [UInt8.ofNat (major * 32 + n)]
  else if n < 256 ^ 1 then follow 0
  else if n < 256 ^ 2 then follow 1
  else if n < 256 ^ 4 then follow 2
  else follow 3

theorem head_shortHead (major : Nat) {n : Nat} (h : n < 256 ^ 8) :
    Head major n (shortHead major n) := by
  have hfollow : ∀ k < 4, n < 256 ^ 2 ^ k →
      Head major n (UInt8.ofNat (major * 32 + 24 + k) :: bytesOf n (2 ^ k)) := by
    intro k hk hn
    have hhead := @Head.follow major k _ hk (length_bytesOf n (2 ^ k))
    rwa [bigEndian_bytesOf hn] at hhead
  unfold shortHead
  simp only
  split_ifs with hdirect hone htwo hfour
  · exact .direct hdirect
  · exact hfollow 0 (by decide) hone
  · exact hfollow 1 (by decide) htwo
  · exact hfollow 2 (by decide) hfour
  · exact hfollow 3 (by decide) h

namespace Item

mutual

/-- The encoding with the shortest heads. Floats are kept in their precision. -/
def write : Item → List UInt8
  | .uint n => shortHead 0 n
  | .nint n => shortHead 1 n
  | .bytes bs => shortHead 2 bs.length ++ bs
  | .text s => shortHead 3 (stringBytes s).length ++ stringBytes s
  | .array items => shortHead 4 items.length ++ writeItems items
  | .map entries => shortHead 5 entries.length ++ writeEntries entries
  | .tag t item => shortHead 6 t ++ item.write
  | .simple v => if v < 24 then [UInt8.ofNat (7 * 32 + v)] else [0xF8, UInt8.ofNat v]
  | .float raw => UInt8.ofNat (7 * 32 + 24 + Nat.log2 raw.length) :: raw

def writeItems : List Item → List UInt8
  | [] => []
  | item :: items => item.write ++ writeItems items

def writeEntries : List (Item × Item) → List UInt8
  | [] => []
  | (key, value) :: entries => key.write ++ (value.write ++ writeEntries entries)

end

mutual

/-- Every argument fits in eight bytes, and every simple value and float can be written. -/
def Writable : Item → Prop
  | .uint n | .nint n => n < 256 ^ 8
  | .bytes bs => bs.length < 256 ^ 8
  | .text s => (stringBytes s).length < 256 ^ 8
  | .array items => items.length < 256 ^ 8 ∧ WritableItems items
  | .map entries => entries.length < 256 ^ 8 ∧ WritableEntries entries
  | .tag t item => t < 256 ^ 8 ∧ item.Writable
  | .simple v => v < 24 ∨ 32 ≤ v ∧ v < 256
  | .float raw => raw.length = 2 ∨ raw.length = 4 ∨ raw.length = 8

def WritableItems : List Item → Prop
  | [] => True
  | item :: items => item.Writable ∧ WritableItems items

def WritableEntries : List (Item × Item) → Prop
  | [] => True
  | (key, value) :: entries => (key.Writable ∧ value.Writable) ∧ WritableEntries entries

end

mutual

theorem write_encodes : ∀ {item : Item}, item.Writable → Encodes item item.write
  | .uint _, h => .uint (head_shortHead 0 h)
  | .nint _, h => .nint (head_shortHead 1 h)
  | .bytes _, h => .bytes (head_shortHead 2 h)
  | .text _, h => .text (head_shortHead 3 h)
  | .array _, h => .array (head_shortHead 4 h.1) (writeItems_encode h.2)
  | .map _, h => .map (head_shortHead 5 h.1) (writeEntries_encode h.2)
  | .tag _ _, h => .tag (head_shortHead 6 h.1) (write_encodes h.2)
  | .simple v, h => by
    rw [write]
    split
    · next hdirect => exact .simple hdirect
    · next hbyte =>
      obtain ⟨hlow, hhigh⟩ := h.resolve_left hbyte
      have hv : (UInt8.ofNat v).toNat = v := UInt8.toNat_ofNat_of_lt' hhigh
      have hencodes := @Encodes.simpleByte (UInt8.ofNat v) (hv.symm ▸ hlow)
      rwa [hv] at hencodes
  | .float raw, h => by
    rw [write]
    rcases h with h | h | h
    · rw [h]
      exact @Encodes.float 1 raw (by decide) (by decide) h
    · rw [h]
      exact @Encodes.float 2 raw (by decide) (by decide) h
    · rw [h]
      exact @Encodes.float 3 raw (by decide) (by decide) h

theorem writeItems_encode :
    ∀ {items : List Item}, WritableItems items → EncodesItems items (writeItems items)
  | [], _ => .nil
  | _ :: _, h => .cons (write_encodes h.1) (writeItems_encode h.2)

theorem writeEntries_encode : ∀ {entries : List (Item × Item)}, WritableEntries entries →
    EncodesEntries entries (writeEntries entries)
  | [], _ => .nil
  | _ :: _, h => .cons (write_encodes h.1.1) (write_encodes h.1.2) (writeEntries_encode h.2)

end

end Item

end Rfc8949
