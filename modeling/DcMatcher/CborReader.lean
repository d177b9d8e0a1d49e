import DcMatcher.Text
import DcMatcher.Lib.Lists
import DcMatcher.Lib.Rfc8949

/-!
# The strict CBOR reader

The reader local to `zkp_req_response.rs`: definite lengths only, no repeated map keys,
no trailing bytes, and a nesting limit.

Results:
1. `Reader.item_reads`: every encoding of an item within the nesting limit is read, or a key
   that is there twice is reported.
2. `Reader.item_sound`: what is read was an encoding, within the limit and without such a key.
-/

namespace DcMatcher

open Lists Rfc8949

/-- Deepest CBOR nesting the reader accepts. -/
def CBOR_MAX_DEPTH : Nat := 16

/-! ## The reader -/

/-- An item, as far as the response shape needs it. -/
inductive Cbor
  | uint (n : Nat)
  | nint
  | bytes (bs : List UInt8)
  | text (s : String)
  | array (items : List Cbor)
  | map (entries : List (Cbor × Cbor))
  | tag (t : Nat) (inner : Cbor)
  | bool (b : Bool)
  /-- null, undefined, floats and other simple values, as their raw bytes. -/
  | other (raw : List UInt8)

inductive CborError
  | malformed
  | indefinite
  | trailing
  | duplicateKey
deriving DecidableEq, Repr

namespace Cbor

mutual

/-- The derived equality. -/
def beq : Cbor → Cbor → Bool
  | .uint a, .uint b => a == b
  | .nint, .nint => true
  | .bytes a, .bytes b => a == b
  | .text a, .text b => a == b
  | .array a, .array b => beqItems a b
  | .map a, .map b => beqEntries a b
  | .tag t a, .tag u b => t == u && beq a b
  | .bool a, .bool b => a == b
  | .other a, .other b => a == b
  | _, _ => false

def beqItems : List Cbor → List Cbor → Bool
  | [], [] => true
  | a :: as, b :: bs => beq a b && beqItems as bs
  | _, _ => false

def beqEntries : List (Cbor × Cbor) → List (Cbor × Cbor) → Bool
  | [], [] => true
  | (k, a) :: as, (l, b) :: bs => (beq k l && beq a b) && beqEntries as bs
  | _, _ => false

end

instance : BEq Cbor := ⟨beq⟩

end Cbor

namespace Reader

/-- `Reader::take`. -/
def take (n : Nat) (rest : List UInt8) : Except CborError (List UInt8 × List UInt8) :=
  if n ≤ rest.length then .ok (rest.take n, rest.drop n) else .error .malformed

/-- `Reader::argument`: at most eight bytes, so the fold stays within 64 bits. -/
def argument (info : Nat) (rest : List UInt8) : Except CborError (Nat × List UInt8) :=
  if info ≤ 23 then .ok (info, rest)
  else if info ≤ 27 then
    match take (2 ^ (info - 24)) rest with
    | .error e => .error e
    | .ok (raw, rest) => .ok (raw.foldl (fun acc b => acc * 256 + b.toNat) 0, rest)
  else .error .malformed

/-- The items of major type 7. -/
def simpleItem (initial : UInt8) (rest : List UInt8) : Except CborError (Cbor × List UInt8) :=
  let info := initial.toNat % 32
  if info = 20 then .ok (.bool false, rest)
  else if info = 21 then .ok (.bool true, rest)
  else if 28 ≤ info then .error .malformed
  else
    let width := if 24 ≤ info then 2 ^ (info - 24) else 0
    match take width rest with
    | .error e => .error e
    | .ok (raw, rest) => .ok (.other (initial :: raw), rest)

section Loops

variable (read : List UInt8 → Except CborError (Cbor × List UInt8))

/-- The loop over the elements of an array. -/
def readItems : Nat → List UInt8 → Except CborError (List Cbor × List UInt8)
  | 0, rest => .ok ([], rest)
  | len + 1, rest =>
    match read rest with
    | .error e => .error e
    | .ok (item, rest) => (readItems len rest).map fun (items, rest) => (item :: items, rest)

/-- The loop over the entries of a map, with those read so far. -/
def readEntries : Nat → List (Cbor × Cbor) → List UInt8 →
    Except CborError (List (Cbor × Cbor) × List UInt8)
  | 0, out, rest => .ok (out, rest)
  | len + 1, out, rest =>
    match read rest with
    | .error e => .error e
    | .ok (key, rest) =>
      match read rest with
      | .error e => .error e
      | .ok (value, rest) =>
        if out.any fun entry => entry.1 == key then .error .duplicateKey
        else readEntries len (out ++ [(key, value)]) rest

/-- The part of `Reader::item` after the argument. A length that does not fit a `usize` is
beyond the input as well. -/
def content (major arg : Nat) (rest : List UInt8) : Except CborError (Cbor × List UInt8) :=
  match major with
  | 0 => .ok (.uint arg, rest)
  | 1 => .ok (.nint, rest)
  | 2 => (take arg rest).map fun (bs, rest) => (.bytes bs, rest)
  | 3 =>
    match take arg rest with
    | .error e => .error e
    | .ok (bs, rest) =>
      match ofUtf8 bs with
      | none => .error .malformed
      | some s => .ok (.text s, rest)
  | 4 =>
    if arg > rest.length then .error .malformed
    else (readItems read arg rest).map fun (items, rest) => (.array items, rest)
  | 5 =>
    if arg > rest.length then .error .malformed
    else (readEntries read arg [] rest).map fun (entries, rest) => (.map entries, rest)
  | _ => (read rest).map fun (inner, rest) => (.tag arg inner, rest)

end Loops

/-- `Reader::item`, with the levels left above the limit. -/
def item : Nat → List UInt8 → Except CborError (Cbor × List UInt8)
  | 0, _ => .error .malformed
  | _ + 1, [] => .error .malformed
  | levels + 1, initial :: rest =>
    let major := initial.toNat / 32
    let info := initial.toNat % 32
    if major = 7 then simpleItem initial rest
    -- no length, or a break without an item to end
    else if info = 31 then
      .error (if 2 ≤ major ∧ major ≤ 5 then .indefinite else .malformed)
    else
      match argument info rest with
      | .error e => .error e
      | .ok (arg, rest) => content (item levels) major arg rest

end Reader

/-- `decode_cbor`. The outermost item is at depth 0. -/
def decodeCbor (bytes : List UInt8) : Except CborError Cbor :=
  match Reader.item (CBOR_MAX_DEPTH + 1) bytes with
  | .error e => .error e
  | .ok (c, rest) => if rest.isEmpty then .ok c else .error .trailing

/-! ## Items -/

namespace Cbor

mutual

/-- How many levels an item has, itself included. -/
def levels : Cbor → Nat
  | .array items => levelsOfItems items + 1
  | .map entries => levelsOfEntries entries + 1
  | .tag _ inner => inner.levels + 1
  | .uint _ | .nint | .bytes _ | .text _ | .bool _ | .other _ => 1

/-- The most levels among the items. -/
def levelsOfItems : List Cbor → Nat
  | [] => 0
  | item :: items => max item.levels (levelsOfItems items)

def levelsOfEntries : List (Cbor × Cbor) → Nat
  | [] => 0
  | (key, value) :: entries => max (max key.levels value.levels) (levelsOfEntries entries)

end

mutual

/-- The reader sees no key twice in a map, at any level. -/
def NoRepeat : Cbor → Prop
  | .array items => NoRepeatInItems items
  | .map entries =>
    entries.Pairwise (fun a b => (a.1 == b.1) = false) ∧ NoRepeatInEntries entries
  | .tag _ inner => inner.NoRepeat
  | .uint _ | .nint | .bytes _ | .text _ | .bool _ | .other _ => True

def NoRepeatInItems : List Cbor → Prop
  | [] => True
  | item :: items => item.NoRepeat ∧ NoRepeatInItems items

def NoRepeatInEntries : List (Cbor × Cbor) → Prop
  | [] => True
  | (key, value) :: entries => (key.NoRepeat ∧ value.NoRepeat) ∧ NoRepeatInEntries entries

end

mutual

theorem beq_self : (c : Cbor) → beq c c = true
  | .uint _ | .nint | .bytes _ | .text _ | .bool _ | .other _ => by simp [beq]
  | .array items => by rw [beq, beqItems_self items]
  | .map entries => by rw [beq, beqEntries_self entries]
  | .tag t inner => by rw [beq, beq_self inner]; simp

theorem beqItems_self : (items : List Cbor) → beqItems items items = true
  | [] => rfl
  | item :: items => by rw [beqItems, beq_self item, beqItems_self items]; rfl

theorem beqEntries_self : (entries : List (Cbor × Cbor)) → beqEntries entries entries = true
  | [] => rfl
  | (key, value) :: entries => by
    rw [beqEntries, beq_self key, beq_self value, beqEntries_self entries]; rfl

end

mutual

theorem eq_of_beq : (a b : Cbor) → beq a b = true → a = b
  | .uint _, b, h | .nint, b, h | .bytes _, b, h | .text _, b, h | .bool _, b, h
  | .other _, b, h => by cases b <;> simp_all [beq]
  | .array items, b, h => by
    cases b with
    | array items' => rw [eqItems_of_beq items items' h]
    | _ => cases h
  | .map entries, b, h => by
    cases b with
    | map entries' => rw [eqEntries_of_beq entries entries' h]
    | _ => cases h
  | .tag t inner, b, h => by
    cases b with
    | tag u inner' =>
      rw [beq, Bool.and_eq_true, beq_iff_eq] at h
      rw [h.1, eq_of_beq inner inner' h.2]
    | _ => cases h

theorem eqItems_of_beq : (as bs : List Cbor) → beqItems as bs = true → as = bs
  | [], [], _ => rfl
  | [], _ :: _, h | _ :: _, [], h => by cases h
  | a :: as, b :: bs, h => by
    rw [beqItems, Bool.and_eq_true] at h
    rw [eq_of_beq a b h.1, eqItems_of_beq as bs h.2]

theorem eqEntries_of_beq : (as bs : List (Cbor × Cbor)) → beqEntries as bs = true → as = bs
  | [], [], _ => rfl
  | [], _ :: _, h | _ :: _, [], h => by cases h
  | (k, a) :: as, (l, b) :: bs, h => by
    rw [beqEntries, Bool.and_eq_true, Bool.and_eq_true] at h
    rw [eq_of_beq k l h.1.1, eq_of_beq a b h.1.2, eqEntries_of_beq as bs h.2]

end

/-- The derived equality is equality. -/
theorem beq_iff {a b : Cbor} : (a == b) = true ↔ a = b := by
  constructor
  · exact eq_of_beq a b
  · rintro rfl
    exact beq_self a

/-- The keys of a map are pairwise different. -/
theorem pairwise_keys_iff {entries : List (Cbor × Cbor)} :
    entries.Pairwise (fun a b => (a.1 == b.1) = false) ↔ (entries.map Prod.fst).Nodup := by
  rw [List.Nodup, List.pairwise_map]
  have hne : ∀ a b : Cbor × Cbor, (a.1 == b.1) = false ↔ a.1 ≠ b.1 := fun a b => by
    rw [← Bool.not_eq_true, beq_iff]
  simp only [hne]

theorem noRepeatInItems_iff {items : List Cbor} :
    NoRepeatInItems items ↔ ∀ item ∈ items, item.NoRepeat := by
  induction items with
  | nil => simp [NoRepeatInItems]
  | cons item items ih => rw [NoRepeatInItems, ih, List.forall_mem_cons]

theorem noRepeatInEntries_iff {entries : List (Cbor × Cbor)} :
    NoRepeatInEntries entries ↔ ∀ entry ∈ entries, entry.1.NoRepeat ∧ entry.2.NoRepeat := by
  induction entries with
  | nil => simp [NoRepeatInEntries]
  | cons entry entries ih => rw [NoRepeatInEntries, ih, List.forall_mem_cons]

theorem levelsOfItems_le_iff {items : List Cbor} {n : Nat} :
    levelsOfItems items ≤ n ↔ ∀ item ∈ items, item.levels ≤ n := by
  induction items with
  | nil => simp [levelsOfItems]
  | cons item items ih => rw [levelsOfItems, Nat.max_le, ih, List.forall_mem_cons]

theorem levelsOfEntries_le_iff {entries : List (Cbor × Cbor)} {n : Nat} :
    levelsOfEntries entries ≤ n ↔ ∀ entry ∈ entries, entry.1.levels ≤ n ∧ entry.2.levels ≤ n := by
  induction entries with
  | nil => simp [levelsOfEntries]
  | cons entry entries ih =>
    rw [levelsOfEntries, Nat.max_le, Nat.max_le, ih, List.forall_mem_cons]

/-! ## Encodings -/

/-- What follows the initial byte of an item of major type 7. -/
def width (info : Nat) : Nat := if 24 ≤ info then 2 ^ (info - 24) else 0

mutual

/-- The bytes encode the item, with all lengths definite. -/
inductive Encoded : Cbor → List UInt8 → Prop
  | uint {n : Nat} {head : List UInt8} : Head 0 n head → Encoded (.uint n) head
  /-- Any negative integer. -/
  | nint {n : Nat} {head : List UInt8} : Head 1 n head → Encoded .nint head
  | bytes {bs head : List UInt8} : Head 2 bs.length head → Encoded (.bytes bs) (head ++ bs)
  | text {s : String} {head : List UInt8} : Head 3 (utf8 s).length head →
      Encoded (.text s) (head ++ utf8 s)
  | array {items : List Cbor} {head body : List UInt8} : Head 4 items.length head →
      EncodedItems items body → Encoded (.array items) (head ++ body)
  | map {entries : List (Cbor × Cbor)} {head body : List UInt8} :
      Head 5 entries.length head → EncodedEntries entries body →
      Encoded (.map entries) (head ++ body)
  | tag {t : Nat} {inner : Cbor} {head body : List UInt8} : Head 6 t head →
      Encoded inner body → Encoded (.tag t inner) (head ++ body)
  | false : Encoded (.bool false) [0xF4]
  | true : Encoded (.bool true) [0xF5]
  /-- Raw bytes encode themselves: any item of major type 7 but the booleans. -/
  | other {info : Nat} {follow : List UInt8} : info < 28 → info ≠ 20 → info ≠ 21 →
      follow.length = width info →
      Encoded (.other (UInt8.ofNat (7 * 32 + info) :: follow))
        (UInt8.ofNat (7 * 32 + info) :: follow)

inductive EncodedItems : List Cbor → List UInt8 → Prop
  | nil : EncodedItems [] []
  | cons {item : Cbor} {items : List Cbor} {one rest : List UInt8} :
      Encoded item one → EncodedItems items rest → EncodedItems (item :: items) (one ++ rest)

inductive EncodedEntries : List (Cbor × Cbor) → List UInt8 → Prop
  | nil : EncodedEntries [] []
  | cons {key value : Cbor} {entries : List (Cbor × Cbor)} {one two rest : List UInt8} :
      Encoded key one → Encoded value two → EncodedEntries entries rest →
      EncodedEntries ((key, value) :: entries) (one ++ (two ++ rest))

end

/-- Every item takes at least one byte. -/
theorem Encoded.ne_nil {c : Cbor} {enc : List UInt8} (h : c.Encoded enc) : enc ≠ [] := by
  cases h with
  | uint hhead | nint hhead => exact hhead.ne_nil
  | bytes hhead | text hhead | array hhead | map hhead | tag hhead =>
    exact fun hnil => hhead.ne_nil (List.append_eq_nil_iff.mp hnil).1
  | false | true | other => exact List.cons_ne_nil _ _

theorem EncodedItems.length_le {items : List Cbor} {body : List UInt8}
    (h : EncodedItems items body) : items.length ≤ body.length := by
  induction items generalizing body with
  | nil => exact Nat.zero_le _
  | cons item items ih =>
    cases h with
    | cons hone hrest =>
      have hpos := List.length_pos_iff.mpr hone.ne_nil
      have hle := ih hrest
      simp only [List.length_cons, List.length_append]
      omega

theorem EncodedEntries.length_le {entries : List (Cbor × Cbor)} {body : List UInt8}
    (h : EncodedEntries entries body) : entries.length ≤ body.length := by
  induction entries generalizing body with
  | nil => exact Nat.zero_le _
  | cons entry entries ih =>
    cases h with
    | cons hone _ hrest =>
      have hpos := List.length_pos_iff.mpr hone.ne_nil
      have hle := ih hrest
      simp only [List.length_cons, List.length_append]
      omega

end Cbor

/-! ## Reading what was encoded -/

namespace Reader

open Cbor

theorem take_append (bs rest : List UInt8) : take bs.length (bs ++ rest) = .ok (bs, rest) := by
  rw [take, if_pos (by simp), List.take_left, List.drop_left]

theorem take_eq_ok {n : Nat} {bytes bs rest : List UInt8} (h : take n bytes = .ok (bs, rest)) :
    bytes = bs ++ rest ∧ bs.length = n := by
  unfold take at h
  split at h
  · next hle =>
    cases h
    exact ⟨(List.take_append_drop n bytes).symm, List.length_take_of_le hle⟩
  · cases h

/-- Each element takes a byte, so the length check of the reader passes. -/
theorem not_beyond {n : Nat} {body : List UInt8} (h : n ≤ body.length) (rest : List UInt8) :
    ¬ n > (body ++ rest).length := by
  rw [List.length_append]
  omega

/-- The head of an item gives its major type and its argument. -/
theorem argument_complete {major n : Nat} {head : List UInt8} (h : Head major n head)
    (hmajor : major < 7) (rest : List UInt8) :
    ∃ initial tail, head = initial :: tail ∧ initial.toNat / 32 = major ∧
      initial.toNat % 32 ≠ 31 ∧ argument (initial.toNat % 32) (tail ++ rest) = .ok (n, rest) := by
  cases h with
  | direct hn =>
    have hinitial : (UInt8.ofNat (major * 32 + n)).toNat = major * 32 + n :=
      UInt8.toNat_ofNat_of_lt' (show _ < 256 by omega)
    have hinfo : (major * 32 + n) % 32 = n := by omega
    refine ⟨_, [], rfl, ?_⟩
    rw [hinitial, hinfo]
    refine ⟨by omega, by omega, ?_⟩
    rw [argument, if_pos (by omega), List.nil_append]
  | @follow k raw hk hraw =>
    have hinitial : (UInt8.ofNat (major * 32 + 24 + k)).toNat = major * 32 + 24 + k :=
      UInt8.toNat_ofNat_of_lt' (show _ < 256 by omega)
    have hinfo : (major * 32 + 24 + k) % 32 = 24 + k := by omega
    refine ⟨_, raw, rfl, ?_⟩
    rw [hinitial, hinfo]
    refine ⟨by omega, by omega, ?_⟩
    rw [argument, if_neg (by omega), if_pos (by omega), Nat.add_sub_cancel_left, ← hraw,
      take_append]
    rfl

theorem argument_sound {initial : UInt8} {bytes rest : List UInt8} {n : Nat}
    (h : argument (initial.toNat % 32) bytes = .ok (n, rest)) :
    ∃ tail, bytes = tail ++ rest ∧ Head (initial.toNat / 32) n (initial :: tail) := by
  have hbyte := initial.toNat_lt
  unfold argument at h
  split at h
  · next hdirect =>
    cases h
    refine ⟨[], rfl, ?_⟩
    have hinitial : initial.toNat / 32 * 32 + initial.toNat % 32 = initial.toNat := by omega
    have hhead : Head (initial.toNat / 32) (initial.toNat % 32) _ := .direct (by omega)
    rwa [hinitial, UInt8.ofNat_toNat] at hhead
  · split at h
    · next hdirect hfollow =>
      cases htake : take (2 ^ (initial.toNat % 32 - 24)) bytes with
      | error e => simp [htake] at h
      | ok taken =>
        obtain ⟨raw, rest'⟩ := taken
        obtain ⟨rfl, hraw⟩ := take_eq_ok htake
        simp only [htake, Except.ok.injEq, Prod.mk.injEq] at h
        obtain ⟨rfl, rfl⟩ := h
        refine ⟨raw, rfl, ?_⟩
        have hinitial : initial.toNat / 32 * 32 + 24 + (initial.toNat % 32 - 24) =
            initial.toNat := by omega
        have hhead : Head (initial.toNat / 32) (bigEndian raw) _ := .follow (by omega) hraw
        rwa [hinitial, UInt8.ofNat_toNat] at hhead
    · cases h

/-- The reader reads every encoding of the item, or reports that it has a key twice. -/
def Reads (read : List UInt8 → Except CborError (Cbor × List UInt8)) (c : Cbor) : Prop :=
  ∀ enc rest, c.Encoded enc →
    (c.NoRepeat → read (enc ++ rest) = .ok (c, rest)) ∧
      (¬ c.NoRepeat → read (enc ++ rest) = .error .duplicateKey)

section Loops

variable {read : List UInt8 → Except CborError (Cbor × List UInt8)}

theorem readItems_step {len : Nat} {bytes bytes' : List UInt8} {c : Cbor}
    (h : read bytes = .ok (c, bytes')) : readItems read (len + 1) bytes =
      (readItems read len bytes').map fun (items, rest) => (c :: items, rest) := by
  rw [readItems, h]

theorem readItems_error {len : Nat} {bytes : List UInt8} {e : CborError}
    (h : read bytes = .error e) : readItems read (len + 1) bytes = .error e := by
  rw [readItems, h]

theorem any_key_iff {out : List (Cbor × Cbor)} {k : Cbor} :
    (out.any fun entry => entry.1 == k) = true ↔ k ∈ out.map Prod.fst := by
  rw [List.any_eq_true, List.mem_map]
  simp only [beq_iff]

theorem readEntries_step {len : Nat} {bytes bytes' bytes'' : List UInt8}
    {out : List (Cbor × Cbor)} {k v : Cbor} (hkey : read bytes = .ok (k, bytes'))
    (hvalue : read bytes' = .ok (v, bytes'')) (hnew : k ∉ out.map Prod.fst) :
    readEntries read (len + 1) out bytes =
      readEntries read len (out ++ [(k, v)]) bytes'' := by
  rw [readEntries, hkey]
  simp only [hvalue, if_neg (any_key_iff.not.mpr hnew)]

theorem readEntries_repeat {len : Nat} {bytes bytes' bytes'' : List UInt8}
    {out : List (Cbor × Cbor)} {k v : Cbor} (hkey : read bytes = .ok (k, bytes'))
    (hvalue : read bytes' = .ok (v, bytes'')) (hold : k ∈ out.map Prod.fst) :
    readEntries read (len + 1) out bytes = .error .duplicateKey := by
  rw [readEntries, hkey]
  simp only [hvalue, if_pos (any_key_iff.mpr hold)]

theorem readEntries_keyError {len : Nat} {bytes : List UInt8} {out : List (Cbor × Cbor)}
    {e : CborError} (h : read bytes = .error e) :
    readEntries read (len + 1) out bytes = .error e := by
  rw [readEntries, h]

theorem readEntries_valueError {len : Nat} {bytes bytes' : List UInt8} {out : List (Cbor × Cbor)}
    {k : Cbor} {e : CborError} (hkey : read bytes = .ok (k, bytes'))
    (hvalue : read bytes' = .error e) : readEntries read (len + 1) out bytes = .error e := by
  rw [readEntries, hkey]
  simp only [hvalue]

/-- The loop over an array reads its elements, if each of them is read. -/
theorem readItems_reads {items : List Cbor} {body : List UInt8} (h : EncodedItems items body)
    (hread : ∀ c ∈ items, Reads read c) (rest : List UInt8) :
    (NoRepeatInItems items → readItems read items.length (body ++ rest) = .ok (items, rest)) ∧
      (¬ NoRepeatInItems items →
        readItems read items.length (body ++ rest) = .error .duplicateKey) := by
  induction items generalizing body with
  | nil =>
    cases h
    exact ⟨fun _ => rfl, fun hrep => absurd trivial hrep⟩
  | cons c items ih =>
    cases h with
    | @cons _ _ one tail hone hrest =>
      obtain ⟨hok, hdup⟩ := hread c List.mem_cons_self one (tail ++ rest) hone
      obtain ⟨hoks, hdups⟩ := ih hrest fun i hi => hread i (List.mem_cons_of_mem _ hi)
      rw [List.length_cons, List.append_assoc]
      by_cases hc : c.NoRepeat
      · rw [readItems_step (hok hc)]
        refine ⟨fun hrep => ?_, fun hrep => ?_⟩
        · rw [hoks hrep.2]
          rfl
        · rw [hdups fun hitems => hrep ⟨hc, hitems⟩]
          rfl
      · exact ⟨fun hrep => absurd hrep.1 hc, fun _ => readItems_error (hdup hc)⟩

/-- So does the loop over a map, and it compares each key with those before it. -/
theorem readEntries_reads {entries : List (Cbor × Cbor)} {body : List UInt8}
    (h : EncodedEntries entries body)
    (hread : ∀ entry ∈ entries, Reads read entry.1 ∧ Reads read entry.2)
    {out : List (Cbor × Cbor)} (hout : (out.map Prod.fst).Nodup) (rest : List UInt8) :
    (((out ++ entries).map Prod.fst).Nodup ∧ NoRepeatInEntries entries →
      readEntries read entries.length out (body ++ rest) = .ok (out ++ entries, rest)) ∧
    (¬ (((out ++ entries).map Prod.fst).Nodup ∧ NoRepeatInEntries entries) →
      readEntries read entries.length out (body ++ rest) = .error .duplicateKey) := by
  induction entries generalizing body out with
  | nil =>
    cases h
    rw [List.append_nil]
    exact ⟨fun _ => rfl, fun hrep => absurd ⟨hout, trivial⟩ hrep⟩
  | cons entry entries ih =>
    cases h with
    | @cons key value _ one two tail hkey hvalue hrest =>
      obtain ⟨hreadKey, hreadValue⟩ := hread (key, value) List.mem_cons_self
      obtain ⟨hkeyOk, hkeyDup⟩ := hreadKey one (two ++ tail ++ rest) hkey
      obtain ⟨hvalueOk, hvalueDup⟩ := hreadValue two (tail ++ rest) hvalue
      rw [List.length_cons, List.append_assoc, List.append_assoc]
      rw [List.append_assoc] at hkeyOk hkeyDup
      by_cases hk : key.NoRepeat
      case neg =>
        exact ⟨fun hrep => absurd hrep.2.1.1 hk, fun _ => readEntries_keyError (hkeyDup hk)⟩
      by_cases hv : value.NoRepeat
      case neg =>
        exact ⟨fun hrep => absurd hrep.2.1.2 hv,
          fun _ => readEntries_valueError (hkeyOk hk) (hvalueDup hv)⟩
      have hsplit : out ++ (key, value) :: entries = (out ++ [(key, value)]) ++ entries := by simp
      by_cases hnew : key ∈ out.map Prod.fst
      · refine ⟨fun hrep => ?_, fun _ => readEntries_repeat (hkeyOk hk) (hvalueOk hv) hnew⟩
        have hkeys := hrep.1
        rw [List.map_append, List.nodup_append] at hkeys
        exact absurd rfl (hkeys.2.2 key hnew key List.mem_cons_self)
      · have hout' : ((out ++ [(key, value)]).map Prod.fst).Nodup := by
          rw [List.map_append, List.map_singleton, ← List.concat_eq_append]
          exact List.Nodup.concat hnew hout
        obtain ⟨hoks, hdups⟩ := ih hrest (fun e he => hread e (List.mem_cons_of_mem _ he)) hout'
        rw [readEntries_step (hkeyOk hk) (hvalueOk hv) hnew, hsplit]
        exact ⟨fun hrep => hoks ⟨hrep.1, hrep.2.2⟩,
          fun hrep => hdups fun hall => hrep ⟨hall.1, ⟨hk, hv⟩, hall.2⟩⟩

end Loops

/-- What follows a head is read by its major type. -/
theorem item_of_head {major n : Nat} {head : List UInt8} (h : Head major n head)
    (hmajor : major < 7) (levels : Nat) (body : List UInt8) :
    item (levels + 1) (head ++ body) = content (item levels) major n body := by
  obtain ⟨initial, tail, rfl, rfl, hinfo, harg⟩ := argument_complete h hmajor body
  rw [List.cons_append, item]
  simp only [if_neg (Nat.ne_of_lt hmajor), if_neg hinfo, harg]

/-- The items of major type 7 are read by their initial byte. -/
theorem item_of_simple {initial : UInt8} (h : initial.toNat / 32 = 7) (levels : Nat)
    (rest : List UInt8) : item (levels + 1) (initial :: rest) = simpleItem initial rest := by
  rw [item]
  simp only [if_pos h]

theorem simpleItem_other {info : Nat} {follow : List UInt8} (hinfo : info < 28)
    (hfalse : info ≠ 20) (htrue : info ≠ 21) (hfollow : follow.length = width info)
    (rest : List UInt8) :
    simpleItem (UInt8.ofNat (7 * 32 + info)) (follow ++ rest) =
      .ok (.other (UInt8.ofNat (7 * 32 + info) :: follow), rest) := by
  have hinitial : (UInt8.ofNat (7 * 32 + info)).toNat = 7 * 32 + info :=
    UInt8.toNat_ofNat_of_lt' (show _ < 256 by omega)
  have hmod : (7 * 32 + info) % 32 = info := by omega
  unfold simpleItem
  simp only [hinitial, hmod]
  unfold width at hfollow
  rw [if_neg hfalse, if_neg htrue, if_neg (Nat.not_le.mpr hinfo), ← hfollow, take_append]

/-- Every encoding of an item within the levels left is read, or a key that is there twice is
reported. -/
theorem item_reads {levels : Nat} {c : Cbor} (hlevels : c.levels ≤ levels) :
    Reads (item levels) c := by
  induction levels generalizing c with
  | zero => cases c <;> simp [Cbor.levels] at hlevels
  | succ levels ih =>
    intro enc rest h
    cases h with
    | uint hhead =>
      exact ⟨fun _ => item_of_head hhead (by decide) levels rest, fun hrep => absurd trivial hrep⟩
    | nint hhead =>
      exact ⟨fun _ => item_of_head hhead (by decide) levels rest, fun hrep => absurd trivial hrep⟩
    | @bytes bs head hhead =>
      refine ⟨fun _ => ?_, fun hrep => absurd trivial hrep⟩
      rw [List.append_assoc, item_of_head hhead (by decide)]
      simp only [content, take_append]
      rfl
    | @text s head hhead =>
      refine ⟨fun _ => ?_, fun hrep => absurd trivial hrep⟩
      have htext : ofUtf8 (utf8 s) = some s := ofUtf8_eq_some.mpr rfl
      rw [List.append_assoc, item_of_head hhead (by decide)]
      simp only [content, take_append, htext]
    | @array items head body hhead hitems =>
      have hroom := not_beyond hitems.length_le rest
      have hinner := levelsOfItems_le_iff.mp (Nat.le_of_succ_le_succ hlevels)
      have hread : ∀ c ∈ items, Reads (item levels) c := fun c hc => ih (hinner c hc)
      obtain ⟨hok, hdup⟩ := readItems_reads hitems hread rest
      rw [List.append_assoc, item_of_head hhead (by decide)]
      simp only [content, if_neg hroom]
      exact ⟨fun hrep => by rw [hok hrep]; rfl, fun hrep => by rw [hdup hrep]; rfl⟩
    | @map entries head body hhead hentries =>
      have hroom := not_beyond hentries.length_le rest
      have hinner := levelsOfEntries_le_iff.mp (Nat.le_of_succ_le_succ hlevels)
      have hread : ∀ e ∈ entries, Reads (item levels) e.1 ∧ Reads (item levels) e.2 :=
        fun e he => ⟨ih (hinner e he).1, ih (hinner e he).2⟩
      obtain ⟨hok, hdup⟩ := @readEntries_reads _ entries body hentries hread [] List.nodup_nil rest
      rw [List.append_assoc, item_of_head hhead (by decide)]
      simp only [content, if_neg hroom, NoRepeat, pairwise_keys_iff]
      exact ⟨fun hrep => by rw [hok hrep]; rfl, fun hrep => by rw [hdup hrep]; rfl⟩
    | @tag t inner head body hhead hinner =>
      obtain ⟨hok, hdup⟩ := ih (Nat.le_of_succ_le_succ hlevels) body rest hinner
      rw [List.append_assoc, item_of_head hhead (by decide)]
      simp only [content]
      exact ⟨fun hrep => by rw [hok hrep]; rfl, fun hrep => by rw [hdup hrep]; rfl⟩
    | false => exact ⟨fun _ => rfl, fun hrep => absurd trivial hrep⟩
    | true => exact ⟨fun _ => rfl, fun hrep => absurd trivial hrep⟩
    | @other info follow hinfo hfalse htrue hfollow =>
      have hmajor : (UInt8.ofNat (7 * 32 + info)).toNat / 32 = 7 := by
        rw [UInt8.toNat_ofNat_of_lt' (show _ < 256 by omega)]
        omega
      refine ⟨fun _ => ?_, fun hrep => absurd trivial hrep⟩
      rw [List.cons_append, item_of_simple hmajor, simpleItem_other hinfo hfalse htrue hfollow]

/-! ## What was read was encoded -/

/-- What is read was an encoding of at most so many levels, and has no key twice. -/
def Sound (read : List UInt8 → Except CborError (Cbor × List UInt8)) (levels : Nat) : Prop :=
  ∀ bytes c rest, read bytes = .ok (c, rest) →
    ∃ enc, bytes = enc ++ rest ∧ c.Encoded enc ∧ c.levels ≤ levels ∧ c.NoRepeat

section Loops

variable {read : List UInt8 → Except CborError (Cbor × List UInt8)} {levels : Nat}

/-- One round of the loop over an array. -/
theorem readItems_succ_ok {len : Nat} {bytes rest : List UInt8} {items : List Cbor}
    (h : readItems read (len + 1) bytes = .ok (items, rest)) :
    ∃ c bytes' cs, read bytes = .ok (c, bytes') ∧ readItems read len bytes' = .ok (cs, rest) ∧
      items = c :: cs := by
  rw [readItems] at h
  cases hone : read bytes with
  | error e => simp [hone] at h
  | ok one =>
    simp only [hone] at h
    obtain ⟨⟨cs, rest'⟩, hrest, hc⟩ := map_eq_ok.mp h
    cases hc
    exact ⟨one.1, one.2, cs, rfl, hrest, rfl⟩

/-- One round of the loop over a map: the key is none of those before it. -/
theorem readEntries_succ_ok {len : Nat} {bytes rest : List UInt8}
    {out entries : List (Cbor × Cbor)}
    (h : readEntries read (len + 1) out bytes = .ok (entries, rest)) :
    ∃ k v bytes' bytes'', read bytes = .ok (k, bytes') ∧ read bytes' = .ok (v, bytes'') ∧
      k ∉ out.map Prod.fst ∧
      readEntries read len (out ++ [(k, v)]) bytes'' = .ok (entries, rest) := by
  rw [readEntries] at h
  cases hkey : read bytes with
  | error e => simp [hkey] at h
  | ok one =>
    simp only [hkey] at h
    cases hvalue : read one.2 with
    | error e => simp [hvalue] at h
    | ok two =>
      simp only [hvalue] at h
      split at h
      · cases h
      · next hnew =>
        exact ⟨one.1, two.1, one.2, two.2, rfl, hvalue, any_key_iff.not.mp hnew, h⟩

theorem readItems_sound (hread : Sound read levels) {len : Nat} {bytes rest : List UInt8}
    {items : List Cbor} (h : readItems read len bytes = .ok (items, rest)) :
    ∃ body, bytes = body ++ rest ∧ EncodedItems items body ∧ levelsOfItems items ≤ levels ∧
      NoRepeatInItems items ∧ items.length = len := by
  induction len generalizing bytes items with
  | zero =>
    cases h
    exact ⟨[], rfl, .nil, Nat.zero_le _, trivial, rfl⟩
  | succ len ih =>
    obtain ⟨c, bytes', cs, hone, hrest, rfl⟩ := readItems_succ_ok h
    obtain ⟨enc, rfl, hc, hlevel, hrep⟩ := hread _ _ _ hone
    obtain ⟨body, rfl, hcs, hlevels, hreps, hlength⟩ := ih hrest
    exact ⟨enc ++ body, (List.append_assoc _ _ _).symm, .cons hc hcs,
      Nat.max_le.mpr ⟨hlevel, hlevels⟩, ⟨hrep, hreps⟩, by rw [List.length_cons, hlength]⟩

theorem readEntries_sound (hread : Sound read levels) {len : Nat} {bytes rest : List UInt8}
    {out entries : List (Cbor × Cbor)} (h : readEntries read len out bytes = .ok (entries, rest))
    (hout : (out.map Prod.fst).Nodup) :
    ∃ es body, bytes = body ++ rest ∧ EncodedEntries es body ∧ levelsOfEntries es ≤ levels ∧
      NoRepeatInEntries es ∧ es.length = len ∧ entries = out ++ es ∧
        (entries.map Prod.fst).Nodup := by
  induction len generalizing bytes out with
  | zero =>
    cases h
    exact ⟨[], [], rfl, .nil, Nat.zero_le _, trivial, rfl, (List.append_nil _).symm, hout⟩
  | succ len ih =>
    obtain ⟨k, v, bytes', bytes'', hkey, hvalue, hnew, h⟩ := readEntries_succ_ok h
    have hout' : ((out ++ [(k, v)]).map Prod.fst).Nodup := by
      rw [List.map_append, List.map_singleton, ← List.concat_eq_append]
      exact List.Nodup.concat hnew hout
    obtain ⟨es, body, rfl, hes, hlevels, hreps, hlength, rfl, hkeys⟩ := ih h hout'
    obtain ⟨kenc, rfl, hk, hklevel, hkrep⟩ := hread _ _ _ hkey
    obtain ⟨venc, rfl, hv, hvlevel, hvrep⟩ := hread _ _ _ hvalue
    refine ⟨(k, v) :: es, kenc ++ (venc ++ body), ?_, .cons hk hv hes,
      Nat.max_le.mpr ⟨Nat.max_le.mpr ⟨hklevel, hvlevel⟩, hlevels⟩, ⟨⟨hkrep, hvrep⟩, hreps⟩,
      by rw [List.length_cons, hlength], ?_, hkeys⟩
    · simp only [List.append_assoc]
    · simp only [List.append_assoc, List.cons_append, List.nil_append]

/-- After the argument. -/
theorem content_sound (hread : Sound read levels) {major arg : Nat} {body rest : List UInt8}
    {c : Cbor} (h : content read major arg body = .ok (c, rest)) (hmajor : major < 7)
    {head : List UInt8} (hhead : Head major arg head) :
    ∃ enc, head ++ body = enc ++ rest ∧ c.Encoded enc ∧ c.levels ≤ levels + 1 ∧
      c.NoRepeat := by
  have hone : 1 ≤ levels + 1 := Nat.le_add_left 1 levels
  match major, hmajor with
  | 0, _ =>
    cases h
    exact ⟨head, rfl, .uint hhead, hone, trivial⟩
  | 1, _ =>
    cases h
    exact ⟨head, rfl, .nint hhead, hone, trivial⟩
  | 2, _ =>
    obtain ⟨⟨bs, rest'⟩, htake, hc⟩ := map_eq_ok.mp h
    cases hc
    obtain ⟨rfl, rfl⟩ := take_eq_ok htake
    exact ⟨head ++ bs, (List.append_assoc _ _ _).symm, .bytes hhead, hone, trivial⟩
  | 3, _ =>
    unfold content at h
    cases htake : take arg body with
    | error e => simp [htake] at h
    | ok taken =>
      obtain ⟨bs, rest'⟩ := taken
      obtain ⟨rfl, rfl⟩ := take_eq_ok htake
      simp only [htake] at h
      cases htext : ofUtf8 bs with
      | none => simp [htext] at h
      | some s =>
        simp only [htext, Except.ok.injEq, Prod.mk.injEq] at h
        obtain ⟨rfl, rfl⟩ := h
        obtain rfl := ofUtf8_eq_some.mp htext
        exact ⟨head ++ utf8 s, (List.append_assoc _ _ _).symm, .text hhead, hone, trivial⟩
  | 4, _ =>
    unfold content at h
    simp only at h
    split at h
    · cases h
    · obtain ⟨⟨items, rest'⟩, hitems, hc⟩ := map_eq_ok.mp h
      cases hc
      obtain ⟨enc, rfl, henc, hlevels, hrep, rfl⟩ := readItems_sound hread hitems
      exact ⟨head ++ enc, (List.append_assoc _ _ _).symm, .array hhead henc,
        Nat.succ_le_succ hlevels, hrep⟩
  | 5, _ =>
    unfold content at h
    simp only at h
    split at h
    · cases h
    · obtain ⟨⟨entries, rest'⟩, hentries, hc⟩ := map_eq_ok.mp h
      cases hc
      obtain ⟨es, enc, rfl, henc, hlevels, hrep, rfl, rfl, hkeys⟩ :=
        readEntries_sound hread hentries List.nodup_nil
      exact ⟨head ++ enc, (List.append_assoc _ _ _).symm, .map hhead henc,
        Nat.succ_le_succ hlevels, pairwise_keys_iff.mpr hkeys, hrep⟩
  | 6, _ =>
    obtain ⟨⟨inner, rest'⟩, hinner, hc⟩ := map_eq_ok.mp h
    cases hc
    obtain ⟨enc, rfl, henc, hlevels, hrep⟩ := hread _ _ _ hinner
    exact ⟨head ++ enc, (List.append_assoc _ _ _).symm, .tag hhead henc,
      Nat.succ_le_succ hlevels, hrep⟩

end Loops

theorem simpleItem_sound {initial : UInt8} (hmajor : initial.toNat / 32 = 7)
    {bytes rest : List UInt8} {c : Cbor} (h : simpleItem initial bytes = .ok (c, rest)) :
    ∃ enc, initial :: bytes = enc ++ rest ∧ c.Encoded enc ∧ c.levels = 1 ∧ c.NoRepeat := by
  have hbyte : UInt8.ofNat (7 * 32 + initial.toNat % 32) = initial := by
    rw [show 7 * 32 + initial.toNat % 32 = initial.toNat by omega, UInt8.ofNat_toNat]
  unfold simpleItem at h
  simp only at h
  split at h
  · next hfalse =>
    cases h
    rw [← hbyte, hfalse]
    exact ⟨_, rfl, .false, rfl, trivial⟩
  · next hfalse =>
    split at h
    · next htrue =>
      cases h
      rw [← hbyte, htrue]
      exact ⟨_, rfl, .true, rfl, trivial⟩
    · next htrue =>
      split at h
      · cases h
      · next hinfo =>
        split at h
        · cases h
        · next raw rest' htake =>
          cases h
          obtain ⟨rfl, hraw⟩ := take_eq_ok htake
          have henc := Encoded.other (Nat.not_le.mp hinfo) hfalse htrue hraw
          rw [hbyte] at henc
          exact ⟨_, rfl, henc, rfl, trivial⟩

/-- An item is one of major type 7, or a head and what follows it. -/
theorem item_succ_ok {levels : Nat} {bytes rest : List UInt8} {c : Cbor}
    (h : item (levels + 1) bytes = .ok (c, rest)) :
    ∃ initial tail, bytes = initial :: tail ∧
      ((initial.toNat / 32 = 7 ∧ simpleItem initial tail = .ok (c, rest)) ∨
        ∃ arg body, initial.toNat / 32 < 7 ∧
          argument (initial.toNat % 32) tail = .ok (arg, body) ∧
          content (item levels) (initial.toNat / 32) arg body = .ok (c, rest)) := by
  cases bytes with
  | nil => cases h
  | cons initial tail =>
    have hbyte := initial.toNat_lt
    refine ⟨initial, tail, rfl, ?_⟩
    rw [item] at h
    split_ifs at h with hmajor hindefinite
    · exact .inl ⟨hmajor, h⟩
    · cases harg : argument (initial.toNat % 32) tail with
      | error e => simp [harg] at h
      | ok result =>
        simp only [harg] at h
        exact .inr ⟨result.1, result.2, by omega, rfl, h⟩

theorem item_sound (levels : Nat) : Sound (item levels) levels := by
  induction levels with
  | zero =>
    intro bytes c rest h
    cases h
  | succ levels ih =>
    intro bytes c rest h
    rcases item_succ_ok h with
      ⟨initial, tail, rfl, ⟨hmajor, hsimple⟩ | ⟨arg, body, hmajor, harg, hcontent⟩⟩
    · obtain ⟨enc, hbytes, henc, hlevels, hrep⟩ := simpleItem_sound hmajor hsimple
      exact ⟨enc, hbytes, henc, hlevels ▸ Nat.le_add_left 1 levels, hrep⟩
    · obtain ⟨follow, rfl, hhead⟩ := argument_sound harg
      exact content_sound ih hcontent hmajor hhead

end Reader

theorem decodeCbor_item {bytes : List UInt8} {c : Cbor} :
    decodeCbor bytes = .ok c ↔ Reader.item (CBOR_MAX_DEPTH + 1) bytes = .ok (c, []) := by
  unfold decodeCbor
  cases hitem : Reader.item (CBOR_MAX_DEPTH + 1) bytes with
  | error e => simp
  | ok result =>
    obtain ⟨c', rest⟩ := result
    cases rest <;> simp

theorem decodeCbor_noRepeat {bytes : List UInt8} {c : Cbor} (h : decodeCbor bytes = .ok c) :
    c.NoRepeat := by
  obtain ⟨enc, -, -, -, hrep⟩ := Reader.item_sound _ _ _ _ (decodeCbor_item.mp h)
  exact hrep

end DcMatcher
