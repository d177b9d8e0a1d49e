import Mathlib.Data.List.Basic

/-!
# Readers of a binary format

Nothing here names a program. A reader takes bytes off the front of what it reads, and says at
which offset it failed. `Reads p bytes a` is its correctness on one encoding: wherever these
bytes stand and whatever follows them, `p` takes exactly them and gives `a`. A reader is `Local`
when every success is of that kind. `ReadsAll` and `Whole` are the same for a reader that goes on
to the end of what it reads.

Results:
1. `Reads.bind`, `Reads.many`, `reads_through`, `readsAll_toEnd`: encodings put side by side are
   read one after the other.
2. `Local.bind`, `Local.many`, `Local.through`, `Whole.toEnd`: what is made of local readers is
   local.
3. `many_eq_ok`, `toEnd_eq_ok`, `through_eq_ok`: what a loop reads, it reads one by one.
4. `many_map`, `toEnd_map`, `through_map`: reading and then changing is reading what is changed.
-/

namespace Readers

/-- A position, and the bytes from it to the end of what is read. -/
structure Reader where
  offset : Nat
  rest : List UInt8
deriving DecidableEq, Repr

/-- A failure, at the offset of the offending byte. -/
structure ReadError where
  offset : Nat
  message : String
deriving DecidableEq, Repr

/-- A function that reads, and moves on. -/
def Read (α : Type) : Type := Reader → Except ReadError (α × Reader)

instance : Monad Read where
  pure a := fun r => .ok (a, r)
  bind x f := fun r =>
    match x r with
    | .ok (a, r') => f a r'
    | .error e => .error e

instance : LawfulMonad Read := LawfulMonad.mk' Read
  (fun x => by
    funext r
    show (match x r with | .ok (a, r') => Except.ok (a, r') | .error e => .error e) = x r
    cases x r with
    | error e => rfl
    | ok y => rfl)
  (fun _ _ => rfl)
  (fun x f g => by
    funext r
    show (match (match x r with | .ok (a, r') => f a r' | .error e => .error e) with
        | .ok (b, r') => g b r' | .error e => .error e) =
      (match x r with
        | .ok (a, r') => (match f a r' with | .ok (b, r'') => g b r'' | .error e => .error e)
        | .error e => .error e)
    cases x r with
    | error e => rfl
    | ok y => rfl)

variable {α β σ : Type}

/-- Reads, and checks what was read: a failed check is an error at the first byte of it. -/
def checked (p : Read α) (check : α → Except String β) : Read β := fun r =>
  match p r with
  | .ok (a, r') =>
    match check a with
    | .ok b => .ok (b, r')
    | .error message => .error ⟨r.offset, message⟩
  | .error e => .error e

/-- What was read, with the bytes it took. -/
def spanned (p : Read α) : Read (α × List UInt8) := fun r =>
  match p r with
  | .ok (a, r') => .ok ((a, r.rest.take (r'.offset - r.offset)), r')
  | .error e => .error e

/-- Reads `n` times. -/
def many (p : Read α) : Nat → Read (List α)
  | 0 => pure []
  | n + 1 => do
    let a ← p
    let as ← many p n
    return a :: as

/-- The loop of `whileRest`. -/
def whileRestLoop (step : σ → Read (α × σ)) : Nat → σ → Read (List α)
  | 0, _ => fun r =>
    match r.rest with
    | [] => .ok ([], r)
    | _ :: _ => .error ⟨r.offset, "a step that takes no byte"⟩
  | fuel + 1, s => fun r =>
    match r.rest with
    | [] => .ok ([], r)
    | _ :: _ =>
      (do
        let x ← step s
        let xs ← whileRestLoop step fuel x.2
        return x.1 :: xs : Read (List α)) r

/-- Reads until nothing is left, from one state to the next. Each step takes a byte, so there
are no more steps than bytes. -/
def whileRest (step : σ → Read (α × σ)) (s : σ) : Read (List α) := fun r =>
  whileRestLoop step r.rest.length s r

/-- The loop of `through`. -/
def throughLoop (p : Read α) (stop : α → Bool) : Nat → Read (List α)
  | 0 => fun r => .error ⟨r.offset, "a step that takes no byte"⟩
  | fuel + 1 => do
    let a ← p
    if stop a then return [a]
    else
      let as ← throughLoop p stop fuel
      return a :: as

/-- Reads until nothing is left. -/
def toEnd (p : Read α) : Read (List α) :=
  whileRest (fun _ : Unit => do
    let a ← p
    return (a, ())) ()

/-- Reads up to and including the first element that stops. -/
def through (p : Read α) (stop : α → Bool) : Read (List α) := fun r =>
  throughLoop p stop (r.rest.length + 1) r

/-! ## What a reader reads -/

/-- Wherever the bytes stand, `p` takes them, and nothing after them. -/
def Reads (p : Read α) (bytes : List UInt8) (a : α) : Prop :=
  ∀ offset tail, p ⟨offset, bytes ++ tail⟩ = .ok (a, ⟨offset + bytes.length, tail⟩)

/-- What `p` succeeds on, it reads wherever it stands. -/
def Local (p : Read α) : Prop :=
  ∀ r a r', p r = .ok (a, r') →
    ∃ bytes, r = ⟨r.offset, bytes ++ r'.rest⟩ ∧ r'.offset = r.offset + bytes.length ∧
      Reads p bytes a

/-- Wherever the bytes stand, `p` takes them when nothing comes after. -/
def ReadsAll (p : Read α) (bytes : List UInt8) (a : α) : Prop :=
  ∀ offset, p ⟨offset, bytes⟩ = .ok (a, ⟨offset + bytes.length, []⟩)

/-- What `p` succeeds on, it takes to the end, wherever it stands. -/
def Whole (p : Read α) : Prop :=
  ∀ r a r', p r = .ok (a, r') → r' = ⟨r.offset + r.rest.length, []⟩ ∧ ReadsAll p r.rest a

/-- A reader that takes a byte at least. -/
def Productive (p : Read α) : Prop := ∀ offset, ∀ out, p ⟨offset, []⟩ ≠ .ok out

theorem bind_eq_ok {x : Read α} {f : α → Read β} {r : Reader} {out : β × Reader} :
    (x >>= f) r = .ok out ↔ ∃ a r', x r = .ok (a, r') ∧ f a r' = .ok out := by
  show (match x r with | .ok (a, r') => f a r' | .error e => .error e) = _ ↔ _
  cases hx : x r with
  | error e => simp
  | ok y =>
    obtain ⟨a, r'⟩ := y
    simp

theorem pure_eq_ok {a : α} {r : Reader} {out : α × Reader} :
    (pure a : Read α) r = .ok out ↔ out = (a, r) := by
  show Except.ok (a, r) = _ ↔ _
  simp [eq_comm]

theorem checked_eq_ok {p : Read α} {check : α → Except String β} {r : Reader} {b : β}
    {r' : Reader} :
    checked p check r = .ok (b, r') ↔ ∃ a, p r = .ok (a, r') ∧ check a = .ok b := by
  unfold checked
  cases hp : p r with
  | error e => simp
  | ok x =>
    obtain ⟨a, r''⟩ := x
    cases hc : check a with
    | error message => simp [hc]
    | ok c => simp [hc, and_comm]

theorem Productive.bind {p : Read α} (hp : Productive p) (f : α → Read β) :
    Productive (p >>= f) := by
  rintro offset out h
  obtain ⟨a, r', hpr, _⟩ := bind_eq_ok.mp h
  exact hp offset _ hpr

theorem Productive.checked {p : Read α} (hp : Productive p)
    (check : α → Except String β) : Productive (checked p check) := by
  rintro offset ⟨b, r'⟩ h
  obtain ⟨a, hpr, _⟩ := checked_eq_ok.mp h
  exact hp offset _ hpr

theorem Productive.spanned {p : Read α} (hp : Productive p) : Productive (spanned p) := by
  intro offset out h
  unfold Readers.spanned at h
  split at h
  · next hpr => exact hp offset _ hpr
  · cases h

section Reads

variable {p : Read α} {bytes bytes' : List UInt8} {a : α}

theorem Reads.pure (a : α) : Reads (pure a) [] a := fun _ _ => rfl

theorem Reads.bind {f : α → Read β} {b : β} (hp : Reads p bytes a) (hf : Reads (f a) bytes' b) :
    Reads (p >>= f) (bytes ++ bytes') b := by
  intro offset tail
  rw [bind_eq_ok]
  refine ⟨a, ⟨offset + bytes.length, bytes' ++ tail⟩, ?_, ?_⟩
  · rw [List.append_assoc]
    exact hp offset _
  · rw [List.length_append, ← Nat.add_assoc]
    exact hf _ tail

theorem Reads.map {f : α → β} (hp : Reads p bytes a) :
    Reads (p >>= fun x => Pure.pure (f x)) bytes (f a) := by
  have h : Reads (p >>= fun x => Pure.pure (f x)) (bytes ++ []) (f a) :=
    hp.bind (Reads.pure (f a))
  rw [List.append_nil] at h
  exact h

theorem Reads.checked {check : α → Except String β} {b : β} (hp : Reads p bytes a)
    (hc : check a = .ok b) : Reads (checked p check) bytes b :=
  fun offset tail => checked_eq_ok.mpr ⟨a, hp offset tail, hc⟩

theorem Reads.spanned (hp : Reads p bytes a) : Reads (spanned p) bytes (a, bytes) := by
  intro offset tail
  unfold Readers.spanned
  rw [hp offset tail]
  simp

/-- A reader gives one result. -/
theorem Reads.unique {a' : α} (h : Reads p bytes a) (h' : Reads p bytes a') : a = a' := by
  have heq := (h 0 []).symm.trans (h' 0 [])
  exact congrArg Prod.fst (Except.ok.inj heq)

theorem Reads.all (h : Reads p bytes a) : ReadsAll p bytes a := by
  intro offset
  have hp := h offset []
  rw [List.append_nil] at hp
  exact hp

theorem Reads.ne_nil (h : Reads p bytes a) (hpos : Productive p) : bytes ≠ [] := by
  rintro rfl
  exact hpos 0 _ (h 0 [])

/-- The elements side by side. -/
theorem Reads.many {xs : List (α × List UInt8)} (h : ∀ x ∈ xs, Reads p x.2 x.1) :
    Reads (many p xs.length) (xs.flatMap Prod.snd) (xs.map Prod.fst) := by
  induction xs with
  | nil => exact Reads.pure []
  | cons x xs ih =>
    obtain ⟨hx, hxs⟩ := List.forall_mem_cons.mp h
    exact hx.bind (ih hxs).map

end Reads

section ReadsAll

variable {p : Read α} {bytes bytes' : List UInt8} {a : α}

theorem Reads.bindAll {f : α → Read β} {b : β} (hp : Reads p bytes a)
    (hf : ReadsAll (f a) bytes' b) : ReadsAll (p >>= f) (bytes ++ bytes') b := by
  intro offset
  rw [bind_eq_ok]
  refine ⟨a, ⟨offset + bytes.length, bytes'⟩, hp offset bytes', ?_⟩
  rw [List.length_append, ← Nat.add_assoc]
  exact hf _

theorem ReadsAll.map {f : α → β} (hp : ReadsAll p bytes a) :
    ReadsAll (p >>= fun x => Pure.pure (f x)) bytes (f a) := by
  intro offset
  rw [bind_eq_ok]
  exact ⟨a, _, hp offset, rfl⟩

end ReadsAll

/-! ## Readers made of local readers -/

section Local

variable {p : Read α}

theorem Local.pure (a : α) : Local (pure a) := by
  intro r b r' h
  cases pure_eq_ok.mp h
  exact ⟨[], rfl, rfl, Reads.pure a⟩

theorem Local.bind {f : α → Read β} (hp : Local p) (hf : ∀ a, Local (f a)) :
    Local (p >>= f) := by
  intro r b r'' h
  obtain ⟨a, r', hpr, hfr⟩ := bind_eq_ok.mp h
  obtain ⟨bytes, hr, hoffset, hreads⟩ := hp r a r' hpr
  obtain ⟨bytes', hr', hoffset', hreads'⟩ := hf a r' b r'' hfr
  refine ⟨bytes ++ bytes', ?_, ?_, hreads.bind hreads'⟩
  · rw [hr, List.append_assoc]
    have hrest : r'.rest = bytes' ++ r''.rest := congrArg Reader.rest hr'
    rw [hrest]
  · rw [hoffset', hoffset, List.length_append, Nat.add_assoc]

theorem Local.map {f : α → β} (hp : Local p) : Local (p >>= fun x => Pure.pure (f x)) :=
  hp.bind fun a => Local.pure (f a)

theorem Local.checked {check : α → Except String β} (hp : Local p) :
    Local (checked p check) := by
  intro r b r' h
  obtain ⟨a, hpr, hc⟩ := checked_eq_ok.mp h
  obtain ⟨bytes, hr, hoffset, hreads⟩ := hp r a r' hpr
  exact ⟨bytes, hr, hoffset, hreads.checked hc⟩

/-- The bytes that come with a value are those it is read from. -/
theorem spanned_eq_ok (hp : Local p) {r r' : Reader} {x : α × List UInt8} :
    spanned p r = .ok (x, r') ↔
      p r = .ok (x.1, r') ∧ Reads p x.2 x.1 ∧ r.rest = x.2 ++ r'.rest := by
  unfold spanned
  cases hpr : p r with
  | error e => simp
  | ok y =>
    obtain ⟨a, r''⟩ := y
    obtain ⟨bytes, hr, hoffset, hreads⟩ := hp r a r'' hpr
    have htake : r.rest.take (r''.offset - r.offset) = bytes := by
      have hrest : r.rest = bytes ++ r''.rest := congrArg Reader.rest hr
      rw [hoffset, Nat.add_sub_cancel_left, hrest, List.take_left]
    simp only [htake]
    constructor
    · intro h
      cases h
      exact ⟨rfl, hreads, congrArg Reader.rest hr⟩
    · rintro ⟨h, -, hrest⟩
      obtain ⟨b, bs⟩ := x
      cases h
      have hsame : bytes = bs :=
        List.append_cancel_right ((congrArg Reader.rest hr).symm.trans hrest)
      rw [hsame]

theorem Reads.of_spanned (hp : Local p) {bytes : List UInt8} {x : α × List UInt8}
    (h : Reads (Readers.spanned p) bytes x) : x.2 = bytes ∧ Reads p x.2 x.1 := by
  obtain ⟨_, hreads, hrest⟩ := (spanned_eq_ok hp).mp (h 0 [])
  rw [List.append_nil, List.append_nil] at hrest
  exact ⟨hrest.symm, hreads⟩

theorem Local.spanned (hp : Local p) : Local (spanned p) := by
  intro r x r' h
  obtain ⟨hpr, hreads, _⟩ := (spanned_eq_ok hp).mp h
  obtain ⟨bytes, hr, hoffset, hreads'⟩ := hp r x.1 r' hpr
  have hrest : r.rest = x.2 ++ r'.rest := ((spanned_eq_ok hp).mp h).2.2
  have hsame : bytes = x.2 :=
    List.append_cancel_right ((congrArg Reader.rest hr).symm.trans hrest)
  subst hsame
  exact ⟨x.2, hr, hoffset, hreads.spanned⟩

/-- A reader that is chosen by the first byte. -/
theorem Local.ofHead (c : Option UInt8 → Prop) [DecidablePred c] {q : Read α} (hp : Local p)
    (hq : Local q) (hppos : Productive p) (hqpos : Productive q) :
    Local fun r => if c r.rest.head? then p r else q r := by
  have hhead : ∀ {bytes tail tail' : List UInt8}, bytes ≠ [] →
      (bytes ++ tail).head? = (bytes ++ tail').head? := fun hne => by
    rw [List.head?_append_of_ne_nil _ hne, List.head?_append_of_ne_nil _ hne]
  intro r a r' h
  by_cases hc : c r.rest.head?
  · obtain ⟨bytes, hr, hoffset, hreads⟩ := hp r a r' ((if_pos hc).symm.trans h)
    refine ⟨bytes, hr, hoffset, fun offset tail => ?_⟩
    rw [hr, hhead (hreads.ne_nil hppos)] at hc
    exact (if_pos hc).trans (hreads offset tail)
  · obtain ⟨bytes, hr, hoffset, hreads⟩ := hq r a r' ((if_neg hc).symm.trans h)
    refine ⟨bytes, hr, hoffset, fun offset tail => ?_⟩
    rw [hr, hhead (hreads.ne_nil hqpos)] at hc
    exact (if_neg hc).trans (hreads offset tail)

theorem Local.many (hp : Local p) (n : Nat) : Local (many p n) := by
  induction n with
  | zero => exact Local.pure []
  | succ n ih => exact hp.bind fun a => ih.map

/-- One by one, each from its own bytes. -/
theorem many_eq_ok (hp : Local p) {n : Nat} {r r' : Reader} {as : List α}
    (h : many p n r = .ok (as, r')) :
    ∃ xs : List (α × List UInt8), xs.length = n ∧ as = xs.map Prod.fst ∧
      (∀ x ∈ xs, Reads p x.2 x.1) ∧ r.rest = xs.flatMap Prod.snd ++ r'.rest := by
  induction n generalizing r as with
  | zero =>
    cases pure_eq_ok.mp h
    exact ⟨[], rfl, rfl, fun x hx => absurd hx List.not_mem_nil, rfl⟩
  | succ n ih =>
    obtain ⟨a, r₁, hpr, hrest⟩ := bind_eq_ok.mp h
    obtain ⟨as', r₂, hmany, hpure⟩ := bind_eq_ok.mp hrest
    cases pure_eq_ok.mp hpure
    obtain ⟨bytes, hr, _, hreads⟩ := hp r a r₁ hpr
    obtain ⟨xs, hlength, rfl, hall, htail⟩ := ih hmany
    refine ⟨(a, bytes) :: xs, congrArg Nat.succ hlength, rfl,
      List.forall_mem_cons.mpr ⟨hreads, hall⟩, ?_⟩
    rw [congrArg Reader.rest hr, List.flatMap_cons, List.append_assoc, ← htail]

end Local

/-! ## A result under another name -/

section Map

/-- Reading, and then changing what was read. -/
theorem map_run (p : Read α) (f : α → β) (r : Reader) :
    (f <$> p) r = (p r).map fun x => (f x.1, x.2) := by
  show (match p r with | .ok (a, r') => Except.ok (f a, r') | .error e => .error e) = _
  cases p r with
  | error e => rfl
  | ok x => rfl

theorem many_map (p : Read α) (f : α → β) (n : Nat) :
    many (f <$> p) n = List.map f <$> many p n := by
  induction n with
  | zero => rfl
  | succ n ih =>
    rw [many, many, ih]
    simp only [map_eq_pure_bind, bind_assoc, pure_bind, List.map_cons]

theorem checked_map {p : Read α} (f : α → β) (check : β → Except String σ) :
    checked (f <$> p) check = checked p fun a => check (f a) := by
  funext r
  unfold checked
  show (match (match p r with | .ok (a, r') => Except.ok (f a, r') | .error e => .error e) with
    | .ok (b, r') => _ | .error e => _) = _
  cases p r with
  | error e => rfl
  | ok x => rfl

theorem map_checked {p : Read α} (f : β → σ) (check : α → Except String β) :
    f <$> checked p check = checked p fun a => (check a).map f := by
  funext r
  unfold checked
  show (match (match p r with
      | .ok (a, r') =>
        (match check a with
        | .ok b => (Except.ok (b, r') : Except ReadError (β × Reader))
        | .error message => .error ⟨r.offset, message⟩)
      | .error e => .error e) with
    | .ok (b, r') => Except.ok (f b, r') | .error e => .error e) = _
  cases p r with
  | error e => rfl
  | ok x =>
    obtain ⟨a, r'⟩ := x
    cases hc : check a with
    | error message => simp [hc, Except.map]
    | ok b => simp [hc, Except.map]

theorem throughLoop_map (p : Read α) (f : α → β) (stop : β → Bool) (n : Nat) :
    throughLoop (f <$> p) stop n = List.map f <$> throughLoop p (fun a => stop (f a)) n := by
  induction n with
  | zero => rfl
  | succ n ih =>
    rw [throughLoop, throughLoop]
    simp only [ih]
    simp only [map_eq_pure_bind, bind_assoc, pure_bind]
    refine congrArg (p >>= ·) (funext fun a => ?_)
    by_cases ha : stop (f a) = true
    · rw [if_pos ha, if_pos ha, pure_bind, List.map_singleton]
    · rw [if_neg ha, if_neg ha]
      simp only [bind_assoc, pure_bind, List.map_cons]

theorem through_map (p : Read α) (f : α → β) (stop : β → Bool) :
    through (f <$> p) stop = List.map f <$> through p fun a => stop (f a) := by
  funext r
  unfold through
  rw [throughLoop_map]
  rfl

theorem whileRestLoop_map {γ : Type} (step : σ → Read (α × σ)) (f : α → γ) (n : Nat) (s : σ) :
    whileRestLoop (fun s => (fun x => (f x.1, x.2)) <$> step s) n s =
      List.map f <$> whileRestLoop step n s := by
  induction n generalizing s with
  | zero =>
    funext r
    obtain ⟨offset, rest⟩ := r
    cases rest <;> rfl
  | succ n ih =>
    funext r
    obtain ⟨offset, rest⟩ := r
    cases rest with
    | nil => rfl
    | cons b bs =>
      show (((fun x => (f x.1, x.2)) <$> step s) >>= fun x =>
          whileRestLoop (fun s => (fun x => (f x.1, x.2)) <$> step s) n x.2 >>= fun xs =>
            pure (x.1 :: xs)) _ =
        (List.map f <$> (step s >>= fun x => whileRestLoop step n x.2 >>= fun xs =>
          pure (x.1 :: xs))) _
      simp only [ih]
      simp only [map_eq_pure_bind, bind_assoc, pure_bind, List.map_cons]

theorem toEnd_map (p : Read α) (f : α → β) : toEnd (f <$> p) = List.map f <$> toEnd p := by
  have hstep : (fun _ : Unit => (f <$> p) >>= fun b => pure (b, ())) =
      fun s : Unit => (fun x : α × Unit => (f x.1, x.2)) <$> (p >>= fun a => pure (a, ())) := by
    funext _
    simp only [map_eq_pure_bind, bind_assoc, pure_bind]
  unfold toEnd whileRest
  rw [hstep]
  funext r
  rw [whileRestLoop_map]
  rfl

end Map

/-! ## Loops without a bound -/

theorem bind_congr {x : Read α} {f g : α → Read β} {r : Reader}
    (h : ∀ a r', x r = .ok (a, r') → f a r' = g a r') : (x >>= f) r = (x >>= g) r := by
  show (match x r with | .ok (a, r') => f a r' | .error e => .error e) =
    (match x r with | .ok (a, r') => g a r' | .error e => .error e)
  cases hx : x r with
  | error e => rfl
  | ok y => exact h y.1 y.2 hx

theorem bind_congr_left {x y : Read α} {f : α → Read β} {r : Reader} (h : x r = y r) :
    (x >>= f) r = (y >>= f) r := by
  show (match x r with | .ok (a, r') => f a r' | .error e => .error e) =
    (match y r with | .ok (a, r') => f a r' | .error e => .error e)
  rw [h]

theorem Local.rest_lt {p : Read α} (hp : Local p) (hpos : Productive p) {r r' : Reader} {a : α}
    (h : p r = .ok (a, r')) : r'.rest.length < r.rest.length := by
  obtain ⟨bytes, hr, _, hreads⟩ := hp r a r' h
  have hrest : r.rest = bytes ++ r'.rest := congrArg Reader.rest hr
  have hbytes := List.length_pos_iff.mpr (hreads.ne_nil hpos)
  rw [hrest, List.length_append]
  omega

section While

variable {step : σ → Read (α × σ)}
  (hstep : ∀ s r x r', step s r = .ok (x, r') → r'.rest.length < r.rest.length)

include hstep

/-- More rounds than bytes change nothing. -/
theorem whileRestLoop_fuel {n m : Nat} {s : σ} {r : Reader} (hn : r.rest.length ≤ n)
    (hm : r.rest.length ≤ m) : whileRestLoop step n s r = whileRestLoop step m s r := by
  induction n generalizing m s r with
  | zero =>
    obtain ⟨offset, rest⟩ := r
    obtain rfl : rest = [] := List.length_eq_zero_iff.mp (Nat.le_zero.mp hn)
    cases m <;> rfl
  | succ n ih =>
    obtain ⟨offset, rest⟩ := r
    cases rest with
    | nil => cases m <;> rfl
    | cons b bs =>
      cases m with
      | zero => cases hm
      | succ m =>
        show (step s >>= fun x => whileRestLoop step n x.2 >>= fun xs => pure (x.1 :: xs)) _ =
          (step s >>= fun x => whileRestLoop step m x.2 >>= fun xs => pure (x.1 :: xs)) _
        refine bind_congr fun x r' hx => bind_congr_left ?_
        have hlt : r'.rest.length < bs.length + 1 := hstep s _ x r' hx
        exact ih (Nat.le_trans (Nat.le_of_lt_succ hlt) (Nat.le_of_succ_le_succ hn))
          (Nat.le_trans (Nat.le_of_lt_succ hlt) (Nat.le_of_succ_le_succ hm))

/-- The loop, without its bound. -/
theorem whileRest_cons (s : σ) (offset : Nat) (b : UInt8) (bs : List UInt8) :
    whileRest step s ⟨offset, b :: bs⟩ =
      (do
        let x ← step s
        let xs ← whileRest step x.2
        return x.1 :: xs : Read (List α)) ⟨offset, b :: bs⟩ := by
  show (step s >>= fun x =>
      whileRestLoop step bs.length x.2 >>= fun xs => pure (x.1 :: xs)) _ =
    (step s >>= fun x => whileRest step x.2 >>= fun xs => pure (x.1 :: xs)) _
  refine bind_congr fun x r' hx => bind_congr_left ?_
  have hlt : r'.rest.length < bs.length + 1 := hstep s _ x r' hx
  exact whileRestLoop_fuel hstep (Nat.le_of_lt_succ hlt) (Nat.le_refl _)

end While

/-- What every step gives, the loop gives. -/
theorem whileRest_forall {step : σ → Read (α × σ)} {P : α → Prop}
    (hstep : ∀ s r x r', step s r = .ok (x, r') → P x.1) {s : σ} {r r' : Reader} {as : List α}
    (h : whileRest step s r = .ok (as, r')) : ∀ a ∈ as, P a := by
  have hloop : ∀ {n : Nat} {s : σ} {r r' : Reader} {as : List α},
      whileRestLoop step n s r = .ok (as, r') → ∀ a ∈ as, P a := by
    intro n
    induction n with
    | zero =>
      intro s r r' as h
      obtain ⟨offset, rest⟩ := r
      cases rest with
      | nil =>
        cases h
        exact fun a ha => absurd ha List.not_mem_nil
      | cons b bs => cases h
    | succ n ih =>
      intro s r r' as h
      obtain ⟨offset, rest⟩ := r
      cases rest with
      | nil =>
        cases h
        exact fun a ha => absurd ha List.not_mem_nil
      | cons b bs =>
        obtain ⟨x, r₁, hx, hrest⟩ := bind_eq_ok.mp h
        obtain ⟨xs, r₂, hxs, hpure⟩ := bind_eq_ok.mp hrest
        cases pure_eq_ok.mp hpure
        exact List.forall_mem_cons.mpr ⟨hstep _ _ _ _ hx, ih hxs⟩
  exact hloop h

section ToEnd

variable {p : Read α} (hp : Local p) (hpos : Productive p)

include hp hpos

theorem toEnd_cons (offset : Nat) (b : UInt8) (bs : List UInt8) :
    toEnd p ⟨offset, b :: bs⟩ =
      (do
        let a ← p
        let as ← toEnd p
        return a :: as : Read (List α)) ⟨offset, b :: bs⟩ := by
  unfold toEnd
  rw [whileRest_cons]
  · simp only [bind_assoc, pure_bind]
  · intro s r x r' h
    obtain ⟨a, r'', hpr, hpure⟩ := bind_eq_ok.mp h
    cases pure_eq_ok.mp hpure
    exact hp.rest_lt hpos hpr

/-- The elements side by side, to the end. -/
theorem readsAll_toEnd {xs : List (α × List UInt8)} (h : ∀ x ∈ xs, Reads p x.2 x.1) :
    ReadsAll (toEnd p) (xs.flatMap Prod.snd) (xs.map Prod.fst) := by
  induction xs with
  | nil => exact fun offset => rfl
  | cons x xs ih =>
    obtain ⟨hx, hxs⟩ := List.forall_mem_cons.mp h
    obtain ⟨a, bytes⟩ := x
    have hall : ReadsAll (p >>= fun a => toEnd p >>= fun as => pure (a :: as))
        (bytes ++ xs.flatMap Prod.snd) (a :: xs.map Prod.fst) := hx.bindAll (ih hxs).map
    intro offset
    cases bytes with
    | nil => exact absurd rfl (hx.ne_nil hpos)
    | cons b bs => exact (toEnd_cons hp hpos offset b _).trans (hall offset)

/-- One by one to the end, each from its own bytes. -/
theorem toEnd_eq_ok {r r' : Reader} {as : List α} (h : toEnd p r = .ok (as, r')) :
    r' = ⟨r.offset + r.rest.length, []⟩ ∧ ∃ xs : List (α × List UInt8), as = xs.map Prod.fst ∧
      (∀ x ∈ xs, Reads p x.2 x.1) ∧ r.rest = xs.flatMap Prod.snd := by
  obtain ⟨n, hn⟩ : ∃ n, r.rest.length ≤ n := ⟨_, Nat.le_refl _⟩
  induction n generalizing r as with
  | zero =>
    obtain ⟨offset, rest⟩ := r
    obtain rfl : rest = [] := List.length_eq_zero_iff.mp (Nat.le_zero.mp hn)
    cases h
    exact ⟨rfl, [], rfl, fun x hx => absurd hx List.not_mem_nil, rfl⟩
  | succ n ih =>
    obtain ⟨offset, rest⟩ := r
    cases rest with
    | nil =>
      cases h
      exact ⟨rfl, [], rfl, fun x hx => absurd hx List.not_mem_nil, rfl⟩
    | cons b bs =>
      rw [toEnd_cons hp hpos] at h
      obtain ⟨a, r₁, hpr, hrest⟩ := bind_eq_ok.mp h
      obtain ⟨as', r₂, hend, hpure⟩ := bind_eq_ok.mp hrest
      cases pure_eq_ok.mp hpure
      have hlt : r₁.rest.length < bs.length + 1 := hp.rest_lt hpos hpr
      obtain ⟨bytes, hr, hoffset, hreads⟩ := hp _ a r₁ hpr
      obtain ⟨hr₂, xs, rfl, hall, htail⟩ :=
        ih hend (Nat.le_trans (Nat.le_of_lt_succ hlt) (Nat.le_of_succ_le_succ hn))
      have hbytes : b :: bs = bytes ++ r₁.rest := congrArg Reader.rest hr
      refine ⟨?_, (a, bytes) :: xs, rfl, List.forall_mem_cons.mpr ⟨hreads, hall⟩, ?_⟩
      · rw [hr₂, hoffset]
        show Reader.mk (offset + bytes.length + r₁.rest.length) [] =
          ⟨offset + (b :: bs).length, []⟩
        rw [hbytes, List.length_append, Nat.add_assoc]
      · show b :: bs = _
        rw [hbytes, List.flatMap_cons, htail]

theorem Whole.toEnd : Whole (toEnd p) := by
  intro r as r' h
  obtain ⟨hend, xs, rfl, hall, hrest⟩ := toEnd_eq_ok hp hpos h
  rw [hrest] at hend ⊢
  exact ⟨hend, readsAll_toEnd hp hpos hall⟩

end ToEnd

theorem Local.bindWhole {p : Read α} {f : α → Read β} (hp : Local p) (hf : ∀ a, Whole (f a)) :
    Whole (p >>= f) := by
  intro r b r' h
  obtain ⟨a, r₁, hpr, hfr⟩ := bind_eq_ok.mp h
  obtain ⟨bytes, hr, hoffset, hreads⟩ := hp r a r₁ hpr
  obtain ⟨rfl, hall⟩ := hf a r₁ b r' hfr
  have hrest : r.rest = bytes ++ r₁.rest := congrArg Reader.rest hr
  rw [hrest]
  refine ⟨?_, hreads.bindAll hall⟩
  rw [hoffset, List.length_append, Nat.add_assoc]

theorem Whole.map {p : Read α} {f : α → β} (hp : Whole p) :
    Whole (p >>= fun x => Pure.pure (f x)) := by
  intro r b r' h
  obtain ⟨a, r₁, hpr, hpure⟩ := bind_eq_ok.mp h
  cases pure_eq_ok.mp hpure
  exact ⟨(hp r a _ hpr).1, (hp r a _ hpr).2.map⟩

/-! ## Up to a last element -/

/-- The last element stops, and no other. -/
def Stops (stop : α → Bool) (as : List α) : Prop :=
  ∃ init last, as = init ++ [last] ∧ (∀ a ∈ init, stop a = false) ∧ stop last = true

section Through

variable {p : Read α} {stop : α → Bool}

theorem stops_cons_iff {a : α} {as : List α} (h : stop a = false) :
    Stops stop (a :: as) ↔ Stops stop as := by
  constructor
  · rintro ⟨init, last, heq, hinit, hlast⟩
    cases init with
    | nil =>
      cases heq
      rw [h] at hlast
      cases hlast
    | cons b init =>
      obtain ⟨rfl, rfl⟩ := List.cons.inj heq
      exact ⟨init, last, rfl, fun a ha => hinit a (List.mem_cons_of_mem _ ha), hlast⟩
  · rintro ⟨init, last, rfl, hinit, hlast⟩
    exact ⟨a :: init, last, rfl, List.forall_mem_cons.mpr ⟨h, hinit⟩, hlast⟩

/-- One by one up to the last element, each from its own bytes. -/
theorem throughLoop_eq_ok (hp : Local p) {n : Nat} {r r' : Reader} {as : List α}
    (h : throughLoop p stop n r = .ok (as, r')) :
    ∃ xs : List (α × List UInt8), as = xs.map Prod.fst ∧ Stops stop as ∧
      (∀ x ∈ xs, Reads p x.2 x.1) ∧ r.rest = xs.flatMap Prod.snd ++ r'.rest := by
  induction n generalizing r as with
  | zero => cases h
  | succ n ih =>
    obtain ⟨a, r₁, hpr, hrest⟩ := bind_eq_ok.mp h
    obtain ⟨bytes, hr, _, hreads⟩ := hp r a r₁ hpr
    cases ha : stop a with
    | true =>
      rw [if_pos ha] at hrest
      cases pure_eq_ok.mp hrest
      refine ⟨[(a, bytes)], rfl, ⟨[], a, rfl, fun b hb => absurd hb List.not_mem_nil, ha⟩,
        List.forall_mem_singleton.mpr hreads, ?_⟩
      rw [congrArg Reader.rest hr, List.flatMap_singleton]
    | false =>
      rw [if_neg (by rw [ha]; exact Bool.false_ne_true)] at hrest
      obtain ⟨as', r₂, hloop, hpure⟩ := bind_eq_ok.mp hrest
      cases pure_eq_ok.mp hpure
      obtain ⟨xs, rfl, hstops, hall, htail⟩ := ih hloop
      refine ⟨(a, bytes) :: xs, rfl, (stops_cons_iff ha).mpr hstops,
        List.forall_mem_cons.mpr ⟨hreads, hall⟩, ?_⟩
      rw [congrArg Reader.rest hr, List.flatMap_cons, List.append_assoc, ← htail]

/-- The elements side by side, in any number of rounds that is enough for their bytes. -/
theorem throughLoop_reads (hpos : Productive p) {xs : List (α × List UInt8)}
    (hstops : Stops stop (xs.map Prod.fst)) (h : ∀ x ∈ xs, Reads p x.2 x.1) {n offset : Nat}
    {tail : List UInt8} (hn : (xs.flatMap Prod.snd).length ≤ n) :
    throughLoop p stop n ⟨offset, xs.flatMap Prod.snd ++ tail⟩ =
      .ok (xs.map Prod.fst, ⟨offset + (xs.flatMap Prod.snd).length, tail⟩) := by
  induction xs generalizing n offset with
  | nil =>
    obtain ⟨init, last, heq, _⟩ := hstops
    cases init <;> cases heq
  | cons x xs ih =>
    obtain ⟨hx, hxs⟩ := List.forall_mem_cons.mp h
    obtain ⟨a, bytes⟩ := x
    have hbytes := List.length_pos_iff.mpr (hx.ne_nil hpos)
    rw [List.flatMap_cons, List.length_append] at hn
    rw [List.flatMap_cons, List.length_append, List.append_assoc]
    have hread := hx offset (xs.flatMap Prod.snd ++ tail)
    cases n with
    | zero => exact absurd hn (by simp only at hbytes ⊢; omega)
    | succ n =>
      refine bind_eq_ok.mpr ⟨a, _, hread, ?_⟩
      cases ha : stop a with
      | true =>
        -- nothing can come after an element that stops
        have hlast : xs = [] := by
          obtain ⟨init, last, heq, hinit, _⟩ := hstops
          cases init with
          | nil => exact List.map_eq_nil_iff.mp (List.cons.inj heq).2
          | cons b init =>
            obtain ⟨rfl, _⟩ := List.cons.inj heq
            have hfalse := hinit a List.mem_cons_self
            rw [ha] at hfalse
            cases hfalse
        subst hlast
        rfl
      | false =>
        rw [if_neg Bool.false_ne_true]
        refine bind_eq_ok.mpr ⟨_, _, ih ((stops_cons_iff ha).mp hstops) hxs ?_, ?_⟩
        · simp only at hbytes hn
          omega
        · rw [Nat.add_assoc]
          rfl

theorem reads_through (hpos : Productive p) {xs : List (α × List UInt8)}
    (hstops : Stops stop (xs.map Prod.fst)) (h : ∀ x ∈ xs, Reads p x.2 x.1) :
    Reads (through p stop) (xs.flatMap Prod.snd) (xs.map Prod.fst) := by
  intro offset tail
  refine throughLoop_reads hpos hstops h ?_
  rw [List.length_append]
  omega

theorem through_eq_ok (hp : Local p) {r r' : Reader} {as : List α}
    (h : through p stop r = .ok (as, r')) :
    ∃ xs : List (α × List UInt8), as = xs.map Prod.fst ∧ Stops stop as ∧
      (∀ x ∈ xs, Reads p x.2 x.1) ∧ r.rest = xs.flatMap Prod.snd ++ r'.rest :=
  throughLoop_eq_ok hp h

theorem Local.through (hp : Local p) (hpos : Productive p) : Local (through p stop) := by
  intro r as r' h
  obtain ⟨xs, rfl, hstops, hall, hrest⟩ := through_eq_ok hp h
  have hreads := reads_through hpos hstops hall
  have hagain := hreads r.offset r'.rest
  rw [← hrest] at hagain
  have hr' : r' = ⟨r.offset + (xs.flatMap Prod.snd).length, r'.rest⟩ := by
    have hsame := h.symm.trans hagain
    exact congrArg Prod.snd (Except.ok.inj hsame)
  refine ⟨xs.flatMap Prod.snd, ?_, congrArg Reader.offset hr', hreads⟩
  rw [← hrest]

end Through

end Readers
