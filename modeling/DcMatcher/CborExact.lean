import DcMatcher.CborReader

/-!
# What the strict CBOR reader accepts

`decode_cbor` of `zkp_req_response.rs` on the encodings of an item, on what is left of one that is
cut off, and on one with a head of indefinite length in it.

Results:
1. `Reader.item_cut`: an encoding that is cut off is malformed.
2. `Reader.item_marred`: a head of indefinite length is reported, at any level.
3. `decodeCbor_exact`: exactly the encodings are accepted.
-/

namespace DcMatcher

open Lists Rfc8949

namespace Reader

open Cbor

/-! ## 1. Cut off -/

/-- The reader refuses what is left of an encoding that is cut off. -/
def Cuts (read : List UInt8 → Except CborError (Cbor × List UInt8)) (c : Cbor) : Prop :=
  ∀ enc p, c.Encoded enc → c.NoRepeat → p <+: enc → p ≠ enc → read p = .error .malformed

theorem take_short {n : Nat} {rest : List UInt8} (h : rest.length < n) :
    take n rest = .error .malformed := by
  rw [take, if_neg (Nat.not_le.mpr h)]

theorem item_headPrefix {major n : Nat} {head p : List UInt8} (h : Head major n head)
    (hmajor : major < 7) (levels : Nat) (hp : p <+: head) (hne : p ≠ head) :
    item (levels + 1) p = .error .malformed := by
  cases p with
  | nil => rfl
  | cons initial p =>
    cases h with
    | direct hn =>
      obtain ⟨rfl, htail⟩ := List.cons_prefix_cons.mp hp
      exact absurd (by rw [List.prefix_nil.mp htail]) hne
    | @follow k raw hk hraw =>
      obtain ⟨rfl, htail⟩ := List.cons_prefix_cons.mp hp
      have hshort : p.length < 2 ^ k :=
        hraw ▸ prefix_length_lt htail fun heq => hne (heq ▸ rfl)
      have hinitial : (UInt8.ofNat (major * 32 + 24 + k)).toNat = major * 32 + 24 + k :=
        UInt8.toNat_ofNat_of_lt' (show _ < 256 by omega)
      have hdiv : (major * 32 + 24 + k) / 32 = major := by omega
      have hmod : (major * 32 + 24 + k) % 32 = 24 + k := by omega
      have hargument : argument (24 + k) p = .error .malformed := by
        rw [argument, if_neg (by omega), if_pos (by omega), Nat.add_sub_cancel_left,
          take_short hshort]
      rw [item, hinitial, hdiv, hmod]
      simp only [if_neg (Nat.ne_of_lt hmajor), if_neg (show ¬ 24 + k = 31 by omega), hargument]

theorem simpleItem_short {info : Nat} {rest : List UInt8} (hinfo : info < 28)
    (hfalse : info ≠ 20) (htrue : info ≠ 21) (hshort : rest.length < width info) :
    simpleItem (UInt8.ofNat (7 * 32 + info)) rest = .error .malformed := by
  have hinitial : (UInt8.ofNat (7 * 32 + info)).toNat = 7 * 32 + info :=
    UInt8.toNat_ofNat_of_lt' (show _ < 256 by omega)
  have hmod : (7 * 32 + info) % 32 = info := by omega
  unfold simpleItem
  simp only [hinitial, hmod]
  unfold width at hshort
  rw [if_neg hfalse, if_neg htrue, if_neg (Nat.not_le.mpr hinfo), take_short hshort]

section Loops

variable {read : List UInt8 → Except CborError (Cbor × List UInt8)}

theorem readItems_cut {items : List Cbor} {body q : List UInt8} (h : EncodedItems items body)
    (hread : ∀ c ∈ items, Reads read c ∧ Cuts read c) (hrep : NoRepeatInItems items)
    (hq : q <+: body) (hne : q ≠ body) :
    readItems read items.length q = .error .malformed := by
  induction items generalizing body q with
  | nil =>
    cases h
    exact absurd (List.prefix_nil.mp hq) hne
  | cons c items ih =>
    cases h with
    | @cons _ _ one tail hone hrest =>
      obtain ⟨hreads, hcuts⟩ := hread c List.mem_cons_self
      rcases prefix_append_cases hq hne with ⟨hq, hne⟩ | ⟨q', rfl, hq, hne⟩
      · exact readItems_error (hcuts one q hone hrep.1 hq hne)
      · have htail := ih hrest (fun i hi => hread i (List.mem_cons_of_mem _ hi)) hrep.2 hq hne
        rw [List.length_cons, readItems_step ((hreads one q' hone).1 hrep.1), htail]
        rfl

/-- A key that comes later is none of those before it. -/
theorem key_new {out entries : List (Cbor × Cbor)} {k v : Cbor}
    (h : ((out ++ (k, v) :: entries).map Prod.fst).Nodup) : k ∉ out.map Prod.fst := by
  intro hmem
  rw [List.map_append, List.nodup_append] at h
  exact h.2.2 k hmem k List.mem_cons_self rfl

theorem keys_shift {out entries : List (Cbor × Cbor)} {entry : Cbor × Cbor}
    (h : ((out ++ entry :: entries).map Prod.fst).Nodup) :
    (((out ++ [entry]) ++ entries).map Prod.fst).Nodup := by
  rwa [List.append_assoc]

theorem readEntries_cut {entries : List (Cbor × Cbor)} {body q : List UInt8}
    (h : EncodedEntries entries body)
    (hread : ∀ e ∈ entries, (Reads read e.1 ∧ Cuts read e.1) ∧ Reads read e.2 ∧ Cuts read e.2)
    (hrep : NoRepeatInEntries entries) {out : List (Cbor × Cbor)}
    (hkeys : ((out ++ entries).map Prod.fst).Nodup) (hq : q <+: body) (hne : q ≠ body) :
    readEntries read entries.length out q = .error .malformed := by
  induction entries generalizing body q out with
  | nil =>
    cases h
    exact absurd (List.prefix_nil.mp hq) hne
  | cons entry entries ih =>
    cases h with
    | @cons key value _ one two tail hkey hvalue hrest =>
      obtain ⟨⟨hkeyReads, hkeyCuts⟩, hvalueReads, hvalueCuts⟩ := hread _ List.mem_cons_self
      rcases prefix_append_cases hq hne with ⟨hq, hne⟩ | ⟨q', rfl, hq, hne⟩
      · exact readEntries_keyError (hkeyCuts one q hkey hrep.1.1 hq hne)
      have hfirst := (hkeyReads one q' hkey).1 hrep.1.1
      rcases prefix_append_cases hq hne with ⟨hq, hne⟩ | ⟨q'', rfl, hq, hne⟩
      · exact readEntries_valueError hfirst (hvalueCuts two q' hvalue hrep.1.2 hq hne)
      have hsecond := (hvalueReads two q'' hvalue).1 hrep.1.2
      rw [List.length_cons, readEntries_step hfirst hsecond (key_new hkeys)]
      exact ih hrest (fun e he => hread e (List.mem_cons_of_mem _ he)) hrep.2 (keys_shift hkeys)
        hq hne

end Loops

/-- An encoding that is cut off is malformed. -/
theorem item_cut {levels : Nat} {c : Cbor} (hlevels : c.levels ≤ levels) :
    Cuts (item levels) c := by
  induction levels generalizing c with
  | zero => cases c <;> simp [Cbor.levels] at hlevels
  | succ levels ih =>
    intro enc p h hrep hp hne
    have hboth : ∀ {c : Cbor}, c.levels ≤ levels → Reads (item levels) c ∧ Cuts (item levels) c :=
      fun hle => ⟨item_reads hle, ih hle⟩
    cases h with
    | uint hhead => exact item_headPrefix hhead (by decide) levels hp hne
    | nint hhead => exact item_headPrefix hhead (by decide) levels hp hne
    | @bytes bs head hhead =>
      rcases prefix_append_cases hp hne with ⟨hp, hne⟩ | ⟨q, rfl, hq, hne⟩
      · exact item_headPrefix hhead (by decide) levels hp hne
      · rw [item_of_head hhead (by decide)]
        simp only [content, take_short (prefix_length_lt hq hne)]
        rfl
    | @text s head hhead =>
      rcases prefix_append_cases hp hne with ⟨hp, hne⟩ | ⟨q, rfl, hq, hne⟩
      · exact item_headPrefix hhead (by decide) levels hp hne
      · rw [item_of_head hhead (by decide)]
        simp only [content, take_short (prefix_length_lt hq hne)]
    | @array items head body hhead hitems =>
      rcases prefix_append_cases hp hne with ⟨hp, hne⟩ | ⟨q, rfl, hq, hne⟩
      · exact item_headPrefix hhead (by decide) levels hp hne
      have hinner := levelsOfItems_le_iff.mp (Nat.le_of_succ_le_succ hlevels)
      have hread : ∀ c ∈ items, Reads (item levels) c ∧ Cuts (item levels) c :=
        fun c hc => hboth (hinner c hc)
      rw [item_of_head hhead (by decide)]
      simp only [content, readItems_cut hitems hread hrep hq hne]
      split <;> rfl
    | @map entries head body hhead hentries =>
      rcases prefix_append_cases hp hne with ⟨hp, hne⟩ | ⟨q, rfl, hq, hne⟩
      · exact item_headPrefix hhead (by decide) levels hp hne
      have hinner := levelsOfEntries_le_iff.mp (Nat.le_of_succ_le_succ hlevels)
      have hread : ∀ e ∈ entries, (Reads (item levels) e.1 ∧ Cuts (item levels) e.1) ∧
          Reads (item levels) e.2 ∧ Cuts (item levels) e.2 :=
        fun e he => ⟨hboth (hinner e he).1, hboth (hinner e he).2⟩
      have hkeys : (([] ++ entries).map Prod.fst).Nodup := pairwise_keys_iff.mp hrep.1
      rw [item_of_head hhead (by decide)]
      simp only [content, readEntries_cut hentries hread hrep.2 hkeys hq hne]
      split <;> rfl
    | @tag t inner head body hhead hinner =>
      rcases prefix_append_cases hp hne with ⟨hp, hne⟩ | ⟨q, rfl, hq, hne⟩
      · exact item_headPrefix hhead (by decide) levels hp hne
      rw [item_of_head hhead (by decide)]
      simp only [content, ih (Nat.le_of_succ_le_succ hlevels) body q hinner hrep hq hne]
      rfl
    | false | true =>
      cases p with
      | nil => rfl
      | cons b p =>
        obtain ⟨rfl, htail⟩ := List.cons_prefix_cons.mp hp
        exact absurd (by rw [List.prefix_nil.mp htail]) hne
    | @other info follow hinfo hfalse htrue hfollow =>
      cases p with
      | nil => rfl
      | cons b p =>
        obtain ⟨rfl, htail⟩ := List.cons_prefix_cons.mp hp
        have hmajor : (UInt8.ofNat (7 * 32 + info)).toNat / 32 = 7 := by
          rw [UInt8.toNat_ofNat_of_lt' (show _ < 256 by omega)]
          omega
        rw [item_of_simple hmajor]
        exact simpleItem_short hinfo hfalse htrue
          (hfollow ▸ prefix_length_lt htail fun heq => hne (heq ▸ rfl))

end Reader

/-! ## 2. A head of indefinite length -/

namespace Cbor

mutual

/-- In an encoding of the item, one head of a string, an array or a map is replaced by the initial
byte of its indefinite form. -/
inductive Marred : Cbor → List UInt8 → List UInt8 → Prop
  | bytes {bs head : List UInt8} : Head 2 bs.length head →
      Marred (.bytes bs) (head ++ bs) (0x5F :: bs)
  | text {s : String} {head : List UInt8} : Head 3 (utf8 s).length head →
      Marred (.text s) (head ++ utf8 s) (0x7F :: utf8 s)
  | array {items : List Cbor} {head body : List UInt8} : Head 4 items.length head →
      EncodedItems items body → Marred (.array items) (head ++ body) (0x9F :: body)
  | map {entries : List (Cbor × Cbor)} {head body : List UInt8} :
      Head 5 entries.length head → EncodedEntries entries body →
      Marred (.map entries) (head ++ body) (0xBF :: body)
  | inArray {items : List Cbor} {head body body' : List UInt8} : Head 4 items.length head →
      MarredItems items body body' → Marred (.array items) (head ++ body) (head ++ body')
  | inMap {entries : List (Cbor × Cbor)} {head body body' : List UInt8} :
      Head 5 entries.length head → MarredEntries entries body body' →
      Marred (.map entries) (head ++ body) (head ++ body')
  | inTag {t : Nat} {inner : Cbor} {head body body' : List UInt8} : Head 6 t head →
      Marred inner body body' → Marred (.tag t inner) (head ++ body) (head ++ body')

inductive MarredItems : List Cbor → List UInt8 → List UInt8 → Prop
  | here {item : Cbor} {items : List Cbor} {one one' rest : List UInt8} :
      Marred item one one' → EncodedItems items rest →
      MarredItems (item :: items) (one ++ rest) (one' ++ rest)
  | later {item : Cbor} {items : List Cbor} {one rest rest' : List UInt8} :
      Encoded item one → MarredItems items rest rest' →
      MarredItems (item :: items) (one ++ rest) (one ++ rest')

inductive MarredEntries : List (Cbor × Cbor) → List UInt8 → List UInt8 → Prop
  | key {key value : Cbor} {entries : List (Cbor × Cbor)} {one one' two rest : List UInt8} :
      Marred key one one' → Encoded value two → EncodedEntries entries rest →
      MarredEntries ((key, value) :: entries) (one ++ (two ++ rest)) (one' ++ (two ++ rest))
  | value {key value : Cbor} {entries : List (Cbor × Cbor)} {one two two' rest : List UInt8} :
      Encoded key one → Marred value two two' → EncodedEntries entries rest →
      MarredEntries ((key, value) :: entries) (one ++ (two ++ rest)) (one ++ (two' ++ rest))
  | later {key value : Cbor} {entries : List (Cbor × Cbor)} {one two rest rest' : List UInt8} :
      Encoded key one → Encoded value two → MarredEntries entries rest rest' →
      MarredEntries ((key, value) :: entries) (one ++ (two ++ rest)) (one ++ (two ++ rest'))

end

theorem Marred.ne_nil {c : Cbor} {enc bytes : List UInt8} (h : c.Marred enc bytes) :
    bytes ≠ [] := by
  cases h with
  | bytes | text | array | map => exact List.cons_ne_nil _ _
  | inArray hhead | inMap hhead | inTag hhead =>
    exact fun hnil => hhead.ne_nil (List.append_eq_nil_iff.mp hnil).1

/-- Every item still takes at least one byte. -/
theorem MarredItems.length_le {items : List Cbor} {body body' : List UInt8}
    (h : MarredItems items body body') : items.length ≤ body'.length := by
  induction items generalizing body body' with
  | nil => exact Nat.zero_le _
  | cons item items ih =>
    simp only [List.length_cons]
    cases h with
    | here hone hrest =>
      have hpos := List.length_pos_iff.mpr hone.ne_nil
      have hle := hrest.length_le
      simp only [List.length_append]
      omega
    | later hone hrest =>
      have hpos := List.length_pos_iff.mpr hone.ne_nil
      have hle := ih hrest
      simp only [List.length_append]
      omega

theorem MarredEntries.length_le {entries : List (Cbor × Cbor)} {body body' : List UInt8}
    (h : MarredEntries entries body body') : entries.length ≤ body'.length := by
  induction entries generalizing body body' with
  | nil => exact Nat.zero_le _
  | cons entry entries ih =>
    simp only [List.length_cons]
    cases h with
    | key hkey _ hrest =>
      have hpos := List.length_pos_iff.mpr hkey.ne_nil
      have hle := hrest.length_le
      simp only [List.length_append]
      omega
    | value hkey _ hrest =>
      have hpos := List.length_pos_iff.mpr hkey.ne_nil
      have hle := hrest.length_le
      simp only [List.length_append]
      omega
    | later hkey _ hrest =>
      have hpos := List.length_pos_iff.mpr hkey.ne_nil
      have hle := ih hrest
      simp only [List.length_append]
      omega

end Cbor

namespace Reader

open Cbor

/-- The reader reports a head of indefinite length in the item. -/
def Reports (read : List UInt8 → Except CborError (Cbor × List UInt8)) (c : Cbor) : Prop :=
  ∀ enc bytes rest, c.Marred enc bytes → c.NoRepeat → read (bytes ++ rest) = .error .indefinite

section Loops

variable {read : List UInt8 → Except CborError (Cbor × List UInt8)}

theorem readItems_marred {items : List Cbor} {body body' : List UInt8}
    (h : MarredItems items body body') (hread : ∀ c ∈ items, Reads read c ∧ Reports read c)
    (hrep : NoRepeatInItems items) (rest : List UInt8) :
    readItems read items.length (body' ++ rest) = .error .indefinite := by
  induction items generalizing body body' with
  | nil => cases h
  | cons c items ih =>
    obtain ⟨hreads, hreports⟩ := hread c List.mem_cons_self
    cases h with
    | here hone _ =>
      rw [List.length_cons, List.append_assoc]
      exact readItems_error (hreports _ _ _ hone hrep.1)
    | later hone htail =>
      have hrest := ih htail (fun i hi => hread i (List.mem_cons_of_mem _ hi)) hrep.2
      rw [List.length_cons, List.append_assoc, readItems_step ((hreads _ _ hone).1 hrep.1), hrest]
      rfl

theorem readEntries_marred {entries : List (Cbor × Cbor)} {body body' : List UInt8}
    (h : MarredEntries entries body body')
    (hread : ∀ e ∈ entries,
      (Reads read e.1 ∧ Reports read e.1) ∧ Reads read e.2 ∧ Reports read e.2)
    (hrep : NoRepeatInEntries entries) {out : List (Cbor × Cbor)}
    (hkeys : ((out ++ entries).map Prod.fst).Nodup) (rest : List UInt8) :
    readEntries read entries.length out (body' ++ rest) = .error .indefinite := by
  induction entries generalizing body body' out with
  | nil => cases h
  | cons entry entries ih =>
    obtain ⟨⟨hkeyReads, hkeyReports⟩, hvalueReads, hvalueReports⟩ :=
      hread _ List.mem_cons_self
    cases h with
    | key hkey _ _ =>
      rw [List.length_cons, List.append_assoc]
      exact readEntries_keyError (hkeyReports _ _ _ hkey hrep.1.1)
    | value hkey hvalue _ =>
      rw [List.length_cons, List.append_assoc, List.append_assoc]
      exact readEntries_valueError ((hkeyReads _ _ hkey).1 hrep.1.1)
        (hvalueReports _ _ _ hvalue hrep.1.2)
    | later hkey hvalue htail =>
      rw [List.length_cons, List.append_assoc, List.append_assoc,
        readEntries_step ((hkeyReads _ _ hkey).1 hrep.1.1) ((hvalueReads _ _ hvalue).1 hrep.1.2)
          (key_new hkeys)]
      exact ih htail (fun e he => hread e (List.mem_cons_of_mem _ he)) hrep.2 (keys_shift hkeys)

end Loops

/-- A head of indefinite length is reported, at any level. -/
theorem item_marred {levels : Nat} {c : Cbor} (hlevels : c.levels ≤ levels) :
    Reports (item levels) c := by
  induction levels generalizing c with
  | zero => cases c <;> simp [Cbor.levels] at hlevels
  | succ levels ih =>
    intro enc bytes rest h hrep
    have hboth : ∀ {c : Cbor}, c.levels ≤ levels →
        Reads (item levels) c ∧ Reports (item levels) c := fun hle => ⟨item_reads hle, ih hle⟩
    cases h with
    | bytes | text | array | map => rfl
    | @inArray items head body body' hhead hitems =>
      have hroom := not_beyond hitems.length_le rest
      have hinner := levelsOfItems_le_iff.mp (Nat.le_of_succ_le_succ hlevels)
      have hread : ∀ c ∈ items, Reads (item levels) c ∧ Reports (item levels) c :=
        fun c hc => hboth (hinner c hc)
      rw [List.append_assoc, item_of_head hhead (by decide)]
      simp only [content, if_neg hroom, readItems_marred hitems hread hrep]
      rfl
    | @inMap entries head body body' hhead hentries =>
      have hroom := not_beyond hentries.length_le rest
      have hinner := levelsOfEntries_le_iff.mp (Nat.le_of_succ_le_succ hlevels)
      have hread : ∀ e ∈ entries, (Reads (item levels) e.1 ∧ Reports (item levels) e.1) ∧
          Reads (item levels) e.2 ∧ Reports (item levels) e.2 :=
        fun e he => ⟨hboth (hinner e he).1, hboth (hinner e he).2⟩
      have hkeys : (([] ++ entries).map Prod.fst).Nodup := pairwise_keys_iff.mp hrep.1
      rw [List.append_assoc, item_of_head hhead (by decide)]
      simp only [content, if_neg hroom, readEntries_marred hentries hread hrep.2 hkeys]
      rfl
    | @inTag t inner head body body' hhead hinner =>
      rw [List.append_assoc, item_of_head hhead (by decide)]
      simp only [content, ih (Nat.le_of_succ_le_succ hlevels) body body' rest hinner hrep]
      rfl

end Reader

/-! ## 3. What is decoded -/

theorem decodeCbor_error {bytes : List UInt8} {e : CborError}
    (h : Reader.item (CBOR_MAX_DEPTH + 1) bytes = .error e) : decodeCbor bytes = .error e := by
  rw [decodeCbor, h]

/-- Exactly the encodings within the depth bound and without a repeated key are accepted. One
with bytes after it, one that is cut off, and one with a head of indefinite length are told
apart. -/
theorem decodeCbor_exact :
    (∀ (t : Cbor) (enc : List UInt8), t.levels ≤ CBOR_MAX_DEPTH + 1 → t.NoRepeat →
      t.Encoded enc →
        decodeCbor enc = .ok t ∧
        (∀ suffix, suffix ≠ [] → decodeCbor (enc ++ suffix) = .error .trailing) ∧
        (∀ p, p <+: enc → p ≠ enc → decodeCbor p = .error .malformed) ∧
        ∀ bytes, t.Marred enc bytes → decodeCbor bytes = .error .indefinite) ∧
    ∀ (bytes : List UInt8) (t : Cbor), decodeCbor bytes = .ok t →
      t.Encoded bytes ∧ t.levels ≤ CBOR_MAX_DEPTH + 1 ∧ t.NoRepeat := by
  refine ⟨fun t enc hlevels hrep henc => ?_, fun bytes t h => ?_⟩
  · have hread : ∀ rest, Reader.item (CBOR_MAX_DEPTH + 1) (enc ++ rest) = .ok (t, rest) :=
      fun rest => (Reader.item_reads hlevels enc rest henc).1 hrep
    refine ⟨?_, fun suffix hne => ?_, fun p hp hne => ?_, fun bytes hmarred => ?_⟩
    · have hwhole := hread []
      rw [List.append_nil] at hwhole
      exact decodeCbor_item.mpr hwhole
    · rw [decodeCbor, hread suffix]
      exact if_neg (by simpa using hne)
    · exact decodeCbor_error (Reader.item_cut hlevels enc p henc hrep hp hne)
    · have hreport := Reader.item_marred hlevels enc bytes [] hmarred hrep
      rw [List.append_nil] at hreport
      exact decodeCbor_error hreport
  · obtain ⟨enc, rfl, henc, hlevels, hrep⟩ := Reader.item_sound _ _ _ _ (decodeCbor_item.mp h)
    rw [List.append_nil]
    exact ⟨henc, hlevels, hrep⟩

/-- An array with one negative integer in it, and a byte after it. -/
theorem decodeCbor_exact_array : decodeCbor [0x81, 0x20, 0x00] = .error .trailing :=
  have hone := Cbor.EncodedItems.cons (.nint (@Head.direct 1 0 (by decide))) .nil
  (decodeCbor_exact.1 (.array [.nint]) [0x81, 0x20] (by decide) ⟨trivial, trivial⟩
    (@Cbor.Encoded.array [.nint] [0x81] [0x20] (@Head.direct 4 1 (by decide)) hone)).2.1
      [0x00] (by decide)

end DcMatcher
