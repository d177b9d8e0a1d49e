import Mathlib.Data.List.Basic
import Mathlib.Logic.Function.Basic

/-!
# Records read by name

Nothing here names a program. A record is read from entries of a key and a value. A key names a
field of the record, or a member that is skipped, or cannot be read; a field that is there twice is
refused.

Result: `collect_eq_some`: the entries that are read, and what is read from them.
-/

namespace Records

variable {Field Key Item : Type} [DecidableEq Field] {Value : Field → Type}

/-- How the keys and the values of a record are read. -/
structure Reader (Field Key Item : Type) (Value : Field → Type) where
  /-- No field is a member that is skipped. -/
  field : Key → Option (Option Field)
  value : (f : Field) → Item → Option (Value f)
  skip : Item → Bool

/-- What is read so far of each field. -/
abbrev Members (Value : Field → Type) := (f : Field) → Option (Value f)

namespace Reader

variable (r : Reader Field Key Item Value)

/-- One entry. -/
def step (members : Members Value) (entry : Key × Item) : Option (Members Value) :=
  match r.field entry.1 with
  | none => none
  | some none => if r.skip entry.2 then some members else none
  | some (some f) =>
    if (members f).isSome then none
    else (r.value f entry.2).map fun v => Function.update members f (some v)

/-- The loop over the entries. -/
def collect (entries : List (Key × Item)) : Option (Members Value) :=
  entries.foldlM r.step fun _ => none

/-- The values of the entries that name the field. -/
def valuesOf (f : Field) (entries : List (Key × Item)) : List Item :=
  entries.filterMap fun entry => if r.field entry.1 = some (some f) then some entry.2 else none

/-- The entries are read: each key and each value is, and no field is there twice. -/
structure Fits (entries : List (Key × Item)) : Prop where
  keys : ∀ entry ∈ entries, (r.field entry.1).isSome
  skipped : ∀ entry ∈ entries, r.field entry.1 = some none → r.skip entry.2 = true
  values : ∀ f, r.valuesOf f entries = [] ∨
    ∃ item, r.valuesOf f entries = [item] ∧ (r.value f item).isSome

/-- What is read of each field. -/
def gathered (entries : List (Key × Item)) : Members Value := fun f =>
  (r.valuesOf f entries).head?.bind (r.value f)

/-! ## The loop -/

/-- What is read of one field, after what was read of it before. -/
inductive Gives {V : Type} (read : Item → Option V) : Option V → List Item → Option V → Prop
  | absent {a : Option V} : Gives read a [] a
  | once {item : Item} {v : V} : read item = some v → Gives read none [item] (some v)

theorem gives_none_iff {V : Type} {read : Item → Option V} {items : List Item} {b : Option V} :
    Gives read none items b ↔
      (items = [] ∨ ∃ item, items = [item] ∧ (read item).isSome) ∧ b = items.head?.bind read := by
  constructor
  · rintro (_ | hread)
    · exact ⟨.inl rfl, rfl⟩
    · exact ⟨.inr ⟨_, rfl, by rw [hread]; rfl⟩, by simp [hread]⟩
  · rintro ⟨rfl | ⟨item, rfl, hread⟩, rfl⟩
    · exact .absent
    · obtain ⟨v, hv⟩ := Option.isSome_iff_exists.mp hread
      simp only [List.head?_cons, Option.bind_some, hv]
      exact .once hv

theorem gives_nil_iff {V : Type} {read : Item → Option V} {a b : Option V} :
    Gives read a [] b ↔ b = a := by
  constructor
  · intro h
    cases h
    rfl
  · rintro rfl
    exact .absent

/-- After the first value of a field there is no other. -/
theorem gives_cons_iff {V : Type} {read : Item → Option V} {a b : Option V} {item : Item}
    {items : List Item} :
    Gives read a (item :: items) b ↔
      a = none ∧ ∃ v, read item = some v ∧ Gives read (some v) items b := by
  constructor
  · rintro (_ | hread)
    exact ⟨rfl, _, hread, .absent⟩
  · rintro ⟨rfl, v, hread, _ | _⟩
    exact .once hread

theorem valuesOf_cons (f : Field) (entry : Key × Item) (entries : List (Key × Item)) :
    r.valuesOf f (entry :: entries) =
      if r.field entry.1 = some (some f) then entry.2 :: r.valuesOf f entries
      else r.valuesOf f entries := by
  unfold valuesOf
  rw [List.filterMap_cons]
  split_ifs <;> rfl

/-- After an entry its field is read, and each other is as before. -/
theorem gives_update_iff {g : Field} {item : Item} {v : Value g} {before : Members Value}
    (hbefore : before g = none) (hvalue : r.value g item = some v) {f : Field}
    {items : List Item} {after : Option (Value f)} :
    Gives (r.value f) (Function.update before g (some v) f) items after ↔
      Gives (r.value f) (before f) (if g = f then item :: items else items) after := by
  by_cases hf : g = f
  · subst hf
    rw [Function.update_self, if_pos rfl, gives_cons_iff]
    simp [hbefore, hvalue]
  · rw [Function.update_of_ne (Ne.symm hf), if_neg hf]

/-- What is read of every field, from any start. -/
theorem foldlM_step {entries : List (Key × Item)} {before after : Members Value} :
    entries.foldlM r.step before = some after ↔
      (∀ entry ∈ entries, (r.field entry.1).isSome) ∧
      (∀ entry ∈ entries, r.field entry.1 = some none → r.skip entry.2 = true) ∧
      ∀ f, Gives (r.value f) (before f) (r.valuesOf f entries) (after f) := by
  induction entries generalizing before with
  | nil =>
    simp only [List.foldlM_nil, Option.pure_def, Option.some_inj, List.not_mem_nil,
      false_implies, implies_true, true_and, valuesOf, List.filterMap_nil, gives_nil_iff]
    exact ⟨fun h f => congrFun h.symm f, fun h => (funext h).symm⟩
  | cons entry entries ih =>
    rw [List.foldlM_cons, List.forall_mem_cons, List.forall_mem_cons]
    simp only [valuesOf_cons]
    cases hfield : r.field entry.1 with
    | none => simp [step, hfield]
    | some named =>
      cases named with
      | none =>
        cases hskip : r.skip entry.2 with
        | false => simp [step, hfield, hskip]
        | true => simp [step, hfield, hskip, ih]
      | some g =>
        simp only [step, hfield, Option.some_inj]
        cases hbefore : before g with
        | some v =>
          refine iff_of_false (by simp) ?_
          rintro ⟨-, -, hgives⟩
          have hgive := hgives g
          rw [if_pos rfl, hbefore, gives_cons_iff] at hgive
          cases hgive.1
        | none =>
          cases hvalue : r.value g entry.2 with
          | none =>
            refine iff_of_false (by simp) ?_
            rintro ⟨-, -, hgives⟩
            have hgive := hgives g
            rw [if_pos rfl, gives_cons_iff] at hgive
            obtain ⟨-, v, hread, -⟩ := hgive
            rw [hvalue] at hread
            cases hread
          | some v =>
            simp [ih, r.gives_update_iff hbefore hvalue]

/-- The entries that are read, and what is read from them. -/
theorem collect_eq_some {entries : List (Key × Item)} {members : Members Value} :
    r.collect entries = some members ↔ r.Fits entries ∧ members = r.gathered entries := by
  unfold collect
  rw [foldlM_step]
  simp only [gives_none_iff]
  constructor
  · rintro ⟨hkeys, hskipped, hgives⟩
    exact ⟨⟨hkeys, hskipped, fun f => (hgives f).1⟩, funext fun f => (hgives f).2⟩
  · rintro ⟨hfits, rfl⟩
    exact ⟨hfits.keys, hfits.skipped, fun f => ⟨hfits.values f, rfl⟩⟩

variable {r}

/-- What is read of a field is read of its one value. -/
theorem Fits.gathered_eq_some {entries : List (Key × Item)} (h : r.Fits entries) {f : Field}
    {v : Value f} :
    r.gathered entries f = some v ↔
      ∃ item, r.valuesOf f entries = [item] ∧ r.value f item = some v := by
  unfold gathered
  rcases h.values f with hnone | ⟨item, hitem, -⟩
  · simp [hnone]
  · simp [hitem]

theorem mem_valuesOf {entries : List (Key × Item)} {entry : Key × Item} (h : entry ∈ entries)
    {f : Field} (hfield : r.field entry.1 = some (some f)) : entry.2 ∈ r.valuesOf f entries :=
  List.mem_filterMap.mpr ⟨entry, h, if_pos hfield⟩

end Reader

end Records
