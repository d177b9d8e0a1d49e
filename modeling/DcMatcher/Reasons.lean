import DcMatcher.HostDiscipline
import Mathlib.Data.List.TakeWhile

/-!
# The reasons in the picker

A verifier's reasons pass two stages: `purpose::line` drops the blank ones and joins the others,
and the host string replaces each NUL by a space. What the host receives after both.

Results:
1. `visible_iff`, `part_visible_iff`: which reasons are joined, and which of them can be seen.
2. `line_disclaimer`: the disclaimer is the parts as the host has them, with the separator between.
3. `disclaimer_iff`: when no blank reason is shown.
-/

namespace DcMatcher

open Lists

/-! ## 1. One reason -/

/-- A character that is not white space. -/
def Seen (text : String) : Prop := ∃ ch ∈ text.toList, isWhitespace ch = false

theorem mem_dropWhile_iff {p : Char → Bool} {ch : Char} {text : List Char} (h : p ch = false) :
    ch ∈ text.dropWhile p ↔ ch ∈ text := by
  induction text with
  | nil => rfl
  | cons c text ih =>
    rw [List.dropWhile_cons]
    split
    · next hc =>
      have hne : ch ≠ c := by
        rintro rfl
        rw [h] at hc
        cases hc
      rw [ih, List.mem_cons, or_iff_right hne]
    · rfl

/-- Trimming removes white space only. -/
theorem mem_trim_iff {s : String} {ch : Char} (h : isWhitespace ch = false) :
    ch ∈ (trim s).toList ↔ ch ∈ s.toList := by
  unfold trim
  rw [String.toList_ofList, List.mem_reverse, mem_dropWhile_iff h, List.mem_reverse,
    mem_dropWhile_iff h]

/-- Nothing is left of white space. -/
theorem trim_ne_empty_iff {s : String} : trim s ≠ "" ↔ Seen s := by
  constructor
  · intro hne
    by_contra hnone
    have hall : ∀ ch ∈ s.toList, isWhitespace ch = true := fun ch hch => by
      by_contra hch'
      exact hnone ⟨ch, hch, Bool.eq_false_iff.mpr hch'⟩
    refine hne ?_
    unfold trim
    rw [List.dropWhile_eq_nil_iff.mpr hall]
    rfl
  · rintro ⟨ch, hch, hspace⟩ hempty
    have hmem := (mem_trim_iff hspace).mpr hch
    rw [hempty] at hmem
    cases hmem

namespace Purpose

/-- A purpose with text: a string that is not only white space. -/
def HasText (p : Value) : Prop := ∃ s, p = .string s ∧ Seen s

/-- A purpose with text that can be seen. To be visible is to be neither white space (the Unicode
property `White_Space`) nor NUL: no other character without a glyph is asked about. -/
def Legible (p : Value) : Prop :=
  ∃ s, p = .string s ∧ ∃ ch ∈ s.toList, isWhitespace ch = false ∧ ch ≠ NUL

theorem Legible.hasText {p : Value} (h : Legible p) : HasText p := by
  obtain ⟨s, rfl, ch, hch, hspace, _⟩ := h
  exact ⟨s, rfl, ch, hch, hspace⟩

theorem visible_eq_some {p : Value} {t : String} :
    visible p = some t ↔ ∃ s, p = .string s ∧ trim s = t ∧ Seen s := by
  unfold visible
  cases p with
  | string s =>
    have hempty : (!(trim s).isEmpty) = true ↔ Seen s := by
      rw [← trim_ne_empty_iff, Bool.not_eq_true', ← Bool.not_eq_true, String.isEmpty_iff]
    show (some (trim s)).filter _ = some t ↔ _
    rw [Option.filter_eq_some_iff]
    constructor
    · rintro ⟨heq, hseen⟩
      cases heq
      exact ⟨s, rfl, rfl, hempty.mp hseen⟩
    · rintro ⟨_, ⟨⟩, rfl, hseen⟩
      exact ⟨rfl, hempty.mpr hseen⟩
  | _ => simp [Value.asStr]

theorem visible_iff {p : Value} : (∃ t, visible p = some t) ↔ HasText p := by
  simp only [visible_eq_some]
  constructor
  · rintro ⟨_, s, hs, _, hseen⟩
    exact ⟨s, hs, hseen⟩
  · rintro ⟨s, hs, hseen⟩
    exact ⟨trim s, s, hs, rfl, hseen⟩

end Purpose

/-- A character of the host string that is not white space was one before, and no NUL. -/
theorem seen_ofLossy_iff {t : String} : Seen (C8Str.ofLossy t).text ↔
    ∃ ch ∈ t.toList, isWhitespace ch = false ∧ ch ≠ NUL := by
  have htext : (C8Str.ofLossy t).text.toList = t.toList.map lossyChar := String.toList_ofList
  unfold Seen
  rw [htext]
  constructor
  · rintro ⟨_, hmem, hspace⟩
    obtain ⟨ch, hch, rfl⟩ := List.mem_map.mp hmem
    unfold lossyChar at hspace
    split at hspace
    · cases hspace
    · next hnul => exact ⟨ch, hch, hspace, hnul⟩
  · rintro ⟨ch, hch, hspace, hnul⟩
    have hsame : lossyChar ch = ch := if_neg hnul
    exact ⟨ch, List.mem_map.mpr ⟨ch, hch, hsame⟩, hspace⟩

namespace Purpose

/-- A reason that was kept is seen if it has a character that is neither white space nor NUL. -/
theorem part_visible_iff {p : Value} {t : String} (h : visible p = some t) :
    Seen (C8Str.ofLossy t).text ↔ Legible p := by
  obtain ⟨s, rfl, rfl, _⟩ := visible_eq_some.mp h
  rw [seen_ofLossy_iff]
  constructor
  · rintro ⟨ch, hch, hspace, hnul⟩
    exact ⟨s, rfl, ch, (mem_trim_iff hspace).mp hch, hspace, hnul⟩
  · rintro ⟨_, ⟨⟩, ch, hch, hspace, hnul⟩
    exact ⟨ch, (mem_trim_iff hspace).mpr hch, hspace, hnul⟩

/-- The parts of the disclaimer as the host has them, between the separators that `line`
inserts. -/
def parts (purposes : List Value) : List String :=
  (purposes.filterMap visible).map fun t => (C8Str.ofLossy t).text

end Purpose

/-! ## 2. The disclaimer -/

theorem C8Str.ofLossy_append (a b : String) :
    (C8Str.ofLossy (a ++ b)).text = (C8Str.ofLossy a).text ++ (C8Str.ofLossy b).text := by
  apply String.toList_inj.mp
  simp [C8Str.ofLossy]

/-- The separator has no NUL, so the host string has it where it was. -/
theorem ofLossy_intercalate (ts : List String) :
    (C8Str.ofLossy (" · ".intercalate ts)).text =
      " · ".intercalate (ts.map fun t => (C8Str.ofLossy t).text) := by
  induction ts with
  | nil => rfl
  | cons t ts ih =>
    by_cases hts : ts = []
    · rw [hts, List.map_singleton, String.intercalate_singleton, String.intercalate_singleton]
    · have hmap : ts.map (fun t => (C8Str.ofLossy t).text) ≠ [] := fun h =>
        hts (List.map_eq_nil_iff.mp h)
      have hsep : (C8Str.ofLossy " · ").text = " · " := C8Str.text_ofLossy (by decide)
      rw [List.map_cons, String.intercalate_cons_of_ne_nil hts,
        String.intercalate_cons_of_ne_nil hmap, C8Str.ofLossy_append, C8Str.ofLossy_append, ih,
        hsep]

/-- What is in a part is in the whole. -/
theorem mem_intercalate {sep t : String} {ts : List String} {ch : Char} (ht : t ∈ ts)
    (hch : ch ∈ t.toList) : ch ∈ (sep.intercalate ts).toList := by
  induction ts with
  | nil => cases ht
  | cons u ts ih =>
    by_cases hts : ts = []
    · rw [hts, List.mem_singleton] at ht
      rw [hts, String.intercalate_singleton, ← ht]
      exact hch
    · rw [String.intercalate_cons_of_ne_nil hts, String.toList_append, String.toList_append]
      cases List.mem_cons.mp ht with
      | inl heq =>
        rw [← heq]
        exact List.mem_append_left _ (List.mem_append_left _ hch)
      | inr ht => exact List.mem_append_right _ (ih ht)

namespace Purpose

section Line

variable {purposes : List Value}

theorem filterMap_visible_ne_nil :
    purposes.filterMap visible ≠ [] ↔ ∃ p ∈ purposes, HasText p := by
  rw [← not_iff_not, not_ne_iff, List.filterMap_eq_nil_iff]
  constructor
  · rintro hnone ⟨p, hp, htext⟩
    obtain ⟨t, ht⟩ := visible_iff.mpr htext
    rw [hnone p hp] at ht
    cases ht
  · intro hnone p hp
    cases ht : visible p with
    | none => rfl
    | some t => exact absurd ⟨p, hp, visible_iff.mp ⟨t, ht⟩⟩ hnone

/-- There is a line as soon as there is a reason with text. -/
theorem line_eq : line purposes =
    if purposes.filterMap visible = [] then none
    else some (" · ".intercalate (purposes.filterMap visible)) := by
  unfold line
  by_cases hnil : purposes.filterMap visible = []
  · rw [if_pos hnil, hnil]
    rfl
  · obtain ⟨t, ht⟩ := List.exists_mem_of_ne_nil _ hnil
    obtain ⟨p, _, hp⟩ := List.mem_filterMap.mp ht
    obtain ⟨s, _, rfl, hseen⟩ := visible_eq_some.mp hp
    obtain ⟨ch, hch, hspace⟩ := hseen
    have hmem := @mem_intercalate " · " _ _ _ ht ((mem_trim_iff hspace).mpr hch)
    have hempty : ¬ (" · ".intercalate (purposes.filterMap visible)).isEmpty = true := by
      rw [String.isEmpty_iff]
      intro h
      rw [h] at hmem
      cases hmem
    rw [if_neg hnil]
    exact if_neg hempty

/-- The disclaimer is there with a reason that has text, and is the parts with the separator
between. -/
theorem line_disclaimer :
    (((line purposes).map C8Str.ofLossy).isSome ↔ ∃ p ∈ purposes, HasText p) ∧
      ∀ d, (line purposes).map C8Str.ofLossy = some d →
        d.text = " · ".intercalate (parts purposes) := by
  rw [← filterMap_visible_ne_nil, line_eq]
  split
  · next hnil => simp [hnil]
  · next hne =>
    refine ⟨by simp [hne], ?_⟩
    rintro d ⟨⟩
    exact ofLossy_intercalate _

/-- A part is seen exactly if its reason is legible. -/
theorem seen_part_iff : (∃ part ∈ parts purposes, Seen part) ↔ ∃ p ∈ purposes, Legible p := by
  constructor
  · rintro ⟨_, hpart, hseen⟩
    obtain ⟨t, ht, rfl⟩ := List.mem_map.mp hpart
    obtain ⟨p, hp, hvisible⟩ := List.mem_filterMap.mp ht
    exact ⟨p, hp, (part_visible_iff hvisible).mp hseen⟩
  · rintro ⟨p, hp, hlegible⟩
    obtain ⟨t, ht⟩ := visible_iff.mpr hlegible.hasText
    exact ⟨_, List.mem_map.mpr ⟨t, List.mem_filterMap.mpr ⟨p, hp, ht⟩, rfl⟩,
      (part_visible_iff ht).mpr hlegible⟩

theorem parts_append (qs rs : List Value) : parts (qs ++ rs) = parts qs ++ parts rs := by
  unfold parts
  rw [List.filterMap_append, List.map_append]

theorem parts_cons {p : Value} {t : String} (h : visible p = some t) (rs : List Value) :
    parts (p :: rs) = (C8Str.ofLossy t).text :: parts rs := by
  unfold parts
  rw [List.filterMap_cons_some h, List.map_cons]

theorem parts_ne_nil : parts purposes ≠ [] ↔ ∃ p ∈ purposes, HasText p := by
  unfold parts
  rw [← filterMap_visible_ne_nil, ne_eq, List.map_eq_nil_iff]

/-- A part comes from a reason, and the parts before and after it from those before and after. -/
theorem exists_of_parts {before after : List String} {part : String}
    (h : parts purposes = before ++ part :: after) :
    ∃ qs p rs t, purposes = qs ++ p :: rs ∧ parts qs = before ∧ visible p = some t ∧
      (C8Str.ofLossy t).text = part ∧ parts rs = after := by
  obtain ⟨ts, us, hsplit, hts, hus⟩ := List.map_eq_append_iff.mp h
  obtain ⟨t, us, rfl, ht, hus⟩ := List.map_eq_cons_iff.mp hus
  obtain ⟨qs, rest, rfl, hqs, hrest⟩ := List.filterMap_eq_append_iff.mp hsplit
  obtain ⟨skipped, p, rs, rfl, hskipped, hp, hrs⟩ := List.filterMap_eq_cons_iff.mp hrest
  refine ⟨qs ++ skipped, p, rs, t, (List.append_assoc _ _ _).symm, ?_, hp, ht, ?_⟩
  · have hnone : parts skipped = [] := by
      unfold parts
      rw [List.filterMap_eq_nil_iff.mpr hskipped]
      rfl
    rw [parts_append, hnone, List.append_nil, parts, hqs, hts]
  · rw [parts, hrs, hus]

end Line

end Purpose

/-! ## 3. No blank reason -/

/-- What a consent screen needs of a disclaimer: it is there with a reason that can be read, is
not blank itself, and has no blank part between two separators that the matcher inserted. A part at
its start or its end is not between two. -/
structure NoBlankReason (purposes : List Value) (disclaimer : Option C8Str) : Prop where
  present : disclaimer.isSome ↔ ∃ p ∈ purposes, Purpose.Legible p
  seen : ∀ d, disclaimer = some d → Seen d.text
  separated : ∀ d, disclaimer = some d → d.text = " · ".intercalate (Purpose.parts purposes)
  between : disclaimer.isSome → ∀ before part after,
    Purpose.parts purposes = before ++ part :: after → before ≠ [] → after ≠ [] → Seen part

/-- The reasons that have text can be read, having a character that is neither white space nor NUL:
some reason, if there is one, and each that has one before it and one after it. -/
structure Readable (purposes : List Value) : Prop where
  any : (∃ p ∈ purposes, Purpose.HasText p) → ∃ p ∈ purposes, Purpose.Legible p
  between : ∀ qs p rs, purposes = qs ++ p :: rs → Purpose.HasText p →
    (∃ q ∈ qs, Purpose.HasText q) → (∃ r ∈ rs, Purpose.HasText r) → Purpose.Legible p

open Purpose in
theorem noBlankReason_iff (purposes : List Value) :
    NoBlankReason purposes ((line purposes).map C8Str.ofLossy) ↔ Readable purposes := by
  obtain ⟨hpresent, hparts⟩ := @line_disclaimer purposes
  constructor
  · intro h
    refine ⟨fun htext => h.present.mp (hpresent.mpr htext), ?_⟩
    rintro qs p rs rfl htext hqs hrs
    obtain ⟨t, ht⟩ := visible_iff.mpr htext
    refine (part_visible_iff ht).mp (h.between ?_ (parts qs) _ (parts rs) ?_ ?_ ?_)
    · exact hpresent.mpr ⟨p, List.mem_append_right _ List.mem_cons_self, htext⟩
    · rw [parts_append, parts_cons ht]
    · exact parts_ne_nil.mpr hqs
    · exact parts_ne_nil.mpr hrs
  · intro h
    have hlegible : ((line purposes).map C8Str.ofLossy).isSome ↔ ∃ p ∈ purposes, Legible p := by
      rw [hpresent]
      exact ⟨h.any, fun ⟨p, hp, hlegible⟩ => ⟨p, hp, hlegible.hasText⟩⟩
    refine ⟨hlegible, fun d hd => ?_, hparts, ?_⟩
    · obtain ⟨part, hpart, ch, hch, hspace⟩ :=
        seen_part_iff.mpr (hlegible.mp (Option.isSome_iff_exists.mpr ⟨d, hd⟩))
      rw [hparts d hd]
      exact ⟨ch, mem_intercalate hpart hch, hspace⟩
    · intro _ before part after hsplit hbefore hafter
      obtain ⟨qs, p, rs, t, rfl, rfl, ht, rfl, rfl⟩ := exists_of_parts hsplit
      exact (part_visible_iff ht).mpr (h.between qs p rs rfl (visible_iff.mp ⟨t, ht⟩)
        (parts_ne_nil.mp hbefore) (parts_ne_nil.mp hafter))

namespace Picker

section Offered

variable {sj : SerdeJson} {origin : String} {db : CredentialDatabase} {query : DcqlQuery}
  {context : RequestContext}

/-- Every entry of a combination has the disclaimer of its reasons. -/
theorem disclaimer_of_offered {dropped : Dropped} {numbered : Combination × Nat} {set : EntrySet}
    (hset : set ∈ offerCombination sj origin db query context dropped numbered)
    {host : Credman.SetHost} {e : Credman.EntryKey × Credman.VerificationDisplay}
    (he : e ∈ Credman.entries (set.sent.send host)) :
    e.2.disclaimer = (Purpose.line numbered.1.purposes).map C8Str.ofLossy := by
  have hdisclaimers : ∀ entry ∈ set.entries,
      entry.disclaimer = (Purpose.line numbered.1.purposes).map C8Str.ofLossy := by
    unfold offerCombination at hset
    split at hset
    · cases hset
    · intro entry hentry
      rw [(mem_emitSet hset).2, List.map_map] at hentry
      obtain ⟨found, _, rfl⟩ := List.mem_map.mp hentry
      rfl
  rw [Credman.entries_sendSet, EntrySet.slots_sent] at he
  obtain ⟨slot, hslot, he⟩ := List.mem_flatMap.mp he
  obtain ⟨entry, hentry, hsame⟩ := List.mem_map.mp (List.fst_mem_of_mem_zipIdx hslot)
  obtain ⟨sent, hsent, rfl⟩ := List.mem_map.mp he
  rw [← hsame] at hsent
  rw [List.mem_singleton.mp hsent]
  exact hdisclaimers entry hentry

/-- For every combination and its reasons, what the host is given with each entry follows the
rule exactly if the reasons that are not only white space can be read. -/
theorem disclaimer_iff {dropped : Dropped} {numbered : Combination × Nat} {set : EntrySet}
    (hset : set ∈ offerCombination sj origin db query context dropped numbered)
    {host : Credman.SetHost} {e : Credman.EntryKey × Credman.VerificationDisplay}
    (he : e ∈ Credman.entries (set.sent.send host)) :
    NoBlankReason numbered.1.purposes e.2.disclaimer ↔ Readable numbered.1.purposes := by
  rw [disclaimer_of_offered hset he]
  exact noBlankReason_iff numbered.1.purposes

end Offered

/-- A query for the family name, with a reason. -/
def reasonQuery (purpose : String) : DcqlQuery where
  credentials :=
    [{ id := "pid"
       format := SOURCE_MSO_MDOC
       multiple := false
       meta_ := [("doctype_value", .string "eu.europa.ec.eudi.pid.1")]
       trustedAuthorities := none
       requireCryptographicHolderBinding := true
       claims := [⟨none, [.key "eu.europa.ec.eudi.pid.1", .key "family_name"], none⟩]
       claimSets := none }]
  credentialSets := some [⟨[["pid"]], true, some (.string purpose)⟩]

/-- The context of a request for it. -/
def reasonContext (purpose : String) : RequestContext where
  protocol := "openid4vp-v1-unsigned"
  signed := false
  clientId := none
  expectedOrigins := none
  clientMetadata := none
  dcqlQueryRaw := .null
  dcqlQuery := some (reasonQuery purpose)

/-- A reason that can be read is shown. -/
theorem disclaimer_iff_age :
    ∃ set ∈ offerCombination (.ofValues []) "https://verifier.example" pidDatabase
        (reasonQuery "Proving your age") (reasonContext "Proving your age") (.exact 0)
        (⟨[("pid", ⟨"pid-1", []⟩)], [.string "Proving your age"]⟩, 0),
      ∃ e ∈ Credman.entries (set.sent.send ⟨2, none, by decide⟩),
        NoBlankReason [.string "Proving your age"] e.2.disclaimer := by
  refine ⟨_, List.head_mem (List.ne_nil_of_length_pos (by decide)), _,
    List.head_mem (List.ne_nil_of_length_pos (by decide)), ?_⟩
  refine (@disclaimer_iff _ _ _ _ _ _ (⟨[("pid", ⟨"pid-1", []⟩)], [.string "Proving your age"]⟩, 0)
    _ (List.head_mem _) _ _ (List.head_mem _)).mpr ⟨fun _ => ?_, ?_⟩
  · exact ⟨_, List.mem_singleton_self _, _, rfl, 'P', by decide, by decide, by decide⟩
  · rintro qs p rs hsplit _ ⟨q, hq, _⟩ _
    cases qs with
    | nil => cases hq
    | cons q' qs =>
      have hlength := congrArg List.length hsplit
      simp only [List.length_cons, List.length_append, List.length_nil] at hlength
      omega

/-- A reason of one NUL is not white space when it is tested, and a space when it is shown. -/
theorem nulReason_shown :
    ((offer (.ofValues []) "https://verifier.example" pidDatabase (reasonQuery "\x00")
        (reasonContext "\x00") .w32).flatMap fun set =>
          Credman.entries (set.sent.send ⟨2, none, by decide⟩)).map
            (fun e => e.2.disclaimer.map C8Str.text) = [some " "] ∧
      ¬ Purpose.Legible (.string "\x00") ∧ ¬ Seen " " := by
  refine ⟨by decide +kernel, ?_, ?_⟩
  · rintro ⟨_, ⟨⟩, ch, hch, _, hnul⟩
    exact hnul (List.mem_singleton.mp hch)
  · rintro ⟨ch, hch, hspace⟩
    rw [List.mem_singleton.mp hch] at hspace
    cases hspace

end Picker

end DcMatcher
