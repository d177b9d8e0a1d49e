import DcMatcher.Display
import DcMatcher.Lib.Lists

/-!
# The calling app

`GetCallingAppInfo`: the host writes the package name and the origin of the caller into two
fields of fixed width, and `android-credman/src/app.rs` reads each up to its first NUL.

Results:
1. `hostField_padded`: what is read of a field that a text was written to.
2. `fromHost_iff`: of both, with when the matcher panics.
-/

namespace DcMatcher

namespace Credman

open Lists

/-! ## The fields -/

/-- `padded`: a text in a field of the given width, cut to leave the last byte NUL. -/
def padded (width : Nat) (value : String) : List UInt8 :=
  let written := (utf8 value).take (width - 1)
  written ++ List.replicate (width - written.length) 0

/-- `CallingAppInfo`. -/
structure CallingAppInfo where
  packageName : List UInt8
  origin : List UInt8
  packageName_length : packageName.length = 256
  origin_length : origin.length = 512

theorem length_padded {width : Nat} (value : String) : (padded width value).length = width := by
  unfold padded
  rw [List.length_append, List.length_replicate, List.length_take]
  omega

/-- What the host of the tests writes. -/
def callingAppInfo (callingPackage origin : String) : CallingAppInfo where
  packageName := padded 256 callingPackage
  origin := padded 512 origin
  packageName_length := length_padded _
  origin_length := length_padded _

/-! ## What is read -/

/-- `C8String::from_vec` of the crate `c8str`: the bytes as they are, or an error if they are not
UTF-8 or have a NUL (`app.rs` relies on there being no other). -/
def C8Str.fromVec (bytes : List UInt8) : Option C8Str :=
  match ofUtf8 bytes with
  | none => none
  | some text => if h : NUL ∉ text.toList then some ⟨text, h⟩ else none

/-- The panic of a field that is not UTF-8, by its name. -/
inductive BadField
  | callingApp (name : String)
deriving DecidableEq, Repr

/-- `host_field`. -/
def hostField (field : List UInt8) (name : String) : Except BadField C8Str :=
  let text :=
    match field.findIdx? (· == 0) with
    | some nul => field.take nul
    | none => field
  match C8Str.fromVec text with
  | some text => .ok text
  | none => .error (.callingApp name)

/-- `CallingApp`. -/
structure CallingApp where
  packageName : C8Str
  origin : Option C8Str
deriving DecidableEq

/-- `CallingApp::from_host`. An empty origin is none. -/
def CallingApp.fromHost (info : CallingAppInfo) : Except BadField CallingApp := do
  let origin ← hostField info.origin "origin"
  let packageName ← hostField info.packageName "package name"
  return { packageName, origin := if origin.text.isEmpty then none else some origin }

/-! ## 1. A field that a text was written to -/

/-- A text up to its first NUL. -/
def beforeNul (value : String) : String :=
  String.ofList (value.toList.takeWhile (· ≠ NUL))

/-- The start of a text that is read of a field for that many bytes: all before the first NUL if
it fits, else exactly as many bytes. -/
def Read (most : Nat) (value text : String) : Prop :=
  text.toList <+: (beforeNul value).toList ∧
    byteLen text = min most (byteLen (beforeNul value))

/-- Only a NUL has a zero byte. -/
theorem zero_mem_utf8EncodeChar {c : Char} : 0 ∈ String.utf8EncodeChar c ↔ c = NUL := by
  constructor
  · intro h
    -- a byte of a character that has several is at least 0x80
    have hbyte : ∀ {n : Nat}, (0 : UInt8) = UInt8.ofNat n → n % 256 = 0 := fun h =>
      (UInt8.toNat_inj.mpr h).symm.trans rfl
    have hval : c.val.toNat = 0 := by
      unfold String.utf8EncodeChar at h
      simp only at h
      split_ifs at h <;> simp only [List.mem_cons, List.not_mem_nil, or_false] at h
      · have hone := hbyte h
        omega
      · rcases h with h | h <;> have hone := hbyte h <;> omega
      · rcases h with h | h | h <;> have hone := hbyte h <;> omega
      · rcases h with h | h | h | h <;> have hone := hbyte h <;> omega
    exact Char.ext (UInt32.toNat_inj.mp hval)
  · rintro rfl
    decide

theorem takeWhile_utf8 (value : String) :
    (utf8 value).takeWhile (· ≠ 0) = utf8 (beforeNul value) := by
  have hbytes : ∀ text : List Char, (text.flatMap String.utf8EncodeChar).takeWhile (· ≠ 0) =
      (text.takeWhile (· ≠ NUL)).flatMap String.utf8EncodeChar := by
    intro text
    induction text with
    | nil => rfl
    | cons c text ih =>
      rw [List.flatMap_cons]
      by_cases hnul : c = NUL
      · subst hnul
        rfl
      · have hall : ∀ b ∈ String.utf8EncodeChar c, (decide (b ≠ 0)) = true := fun b hb =>
          decide_eq_true fun hzero => hnul (zero_mem_utf8EncodeChar.mp (hzero ▸ hb))
        rw [List.takeWhile_append_of_pos hall, ih, List.takeWhile_cons_of_pos (by simpa using hnul),
          List.flatMap_cons]
  rw [beforeNul, utf8_ofList, ← hbytes, ← utf8_ofList, String.ofList_toList]

/-- What is kept of the bytes of a text is the bytes of a text exactly if no character is cut. -/
theorem utf8_eq_take_iff {text value : String} {n : Nat} :
    utf8 text = (utf8 value).take n ↔
      text.toList <+: value.toList ∧ byteLen text = min n (byteLen value) := by
  have hlist : ∀ text : String, utf8 text = text.toList.flatMap String.utf8EncodeChar := by
    intro text
    rw [← utf8_ofList, String.ofList_toList]
  constructor
  · intro h
    refine ⟨?_, ?_⟩
    · refine List.isPrefix_of_utf8Encode_append_eq_utf8Encode
        ⟨((utf8 value).drop n).toArray⟩ (ByteArray.ext (Array.toList_inj.mp ?_))
      rw [String.utf8Encode_toList, String.utf8Encode_toList, ByteArray.data_append,
        Array.toList_append]
      exact (congrArg (· ++ (utf8 value).drop n) h).trans (List.take_append_drop n _)
    · rw [byteLen, h, List.length_take, byteLen]
  · rintro ⟨⟨rest, hrest⟩, hlength⟩
    have hsplit : utf8 value = utf8 text ++ rest.flatMap String.utf8EncodeChar := by
      rw [hlist value, ← hrest, List.flatMap_append, ← hlist]
    unfold byteLen at hlength
    rw [List.take_eq_take_min, ← hlength, hsplit, List.take_left]

theorem C8Str.fromVec_eq_some {bytes : List UInt8} {text : C8Str} :
    C8Str.fromVec bytes = some text ↔ utf8 text.text = bytes := by
  unfold C8Str.fromVec
  rw [← ofUtf8_eq_some]
  cases ofUtf8 bytes with
  | none => exact ⟨fun h => (nomatch h), fun h => (nomatch h)⟩
  | some s =>
    simp only [Option.some.injEq]
    constructor
    · intro h
      split at h
      · cases h
        rfl
      · cases h
    · rintro rfl
      rw [dif_pos text.noNul]

/-- The text of a field is what stands before its first NUL. -/
theorem hostField_eq_ok {field : List UInt8} {name : String} {text : C8Str} :
    hostField field name = .ok text ↔ utf8 text.text = field.takeWhile (· ≠ 0) := by
  have hbefore : (match field.findIdx? (· == 0) with
      | some nul => field.take nul
      | none => field) = field.takeWhile (· ≠ 0) := by
    induction field with
    | nil => rfl
    | cons b field ih =>
      by_cases hzero : b = 0
      · subst hzero
        rfl
      · rw [List.findIdx?_cons, if_neg (by simpa using hzero),
          List.takeWhile_cons_of_pos (by simpa using hzero), ← ih]
        cases field.findIdx? (· == 0) <;> rfl
  unfold hostField
  simp only [hbefore]
  rw [← C8Str.fromVec_eq_some]
  cases C8Str.fromVec (field.takeWhile (· ≠ 0)) with
  | none => exact ⟨fun h => (nomatch h), fun h => (nomatch h)⟩
  | some s =>
    exact ⟨fun h => congrArg some (Except.ok.inj h),
      fun h => congrArg Except.ok (Option.some.inj h)⟩

/-- What is read of a field that a text was written to. -/
theorem hostField_padded {width : Nat} {value name : String} {text : C8Str} :
    hostField (padded width value) name = .ok text ↔ Read (width - 1) value text.text := by
  have hzeros : ∀ count : Nat, (List.replicate count (0 : UInt8)).takeWhile (· ≠ 0) = [] := by
    intro count
    cases count <;> rfl
  have hfield : (padded width value).takeWhile (· ≠ 0) =
      (utf8 (beforeNul value)).take (width - 1) := by
    unfold padded
    rw [List.takeWhile_append, hzeros, List.append_nil, ← takeWhile_utf8, List.take_takeWhile]
    split
    · next hwhole => exact ((List.takeWhile_prefix _).eq_of_length hwhole).symm
    · rfl
  rw [hostField_eq_ok, hfield, utf8_eq_take_iff]
  rfl

/-! ## 2. The caller -/

/-- The origin as the matcher passes it on: no text for none. -/
def CallingApp.originText (app : CallingApp) : String := (app.origin.map (·.text)).getD ""

theorem originText_mk (packageName o : C8Str) :
    ({ packageName, origin := if o.text.isEmpty then none else some o } :
      CallingApp).originText = o.text := by
  unfold CallingApp.originText
  by_cases hempty : o.text.isEmpty = true
  · rw [if_pos hempty, String.isEmpty_iff.mp hempty]
    rfl
  · rw [if_neg hempty]
    rfl

theorem fromHost_of_read {callingPackage origin : String} {app : CallingApp}
    (hp : Read 255 callingPackage app.packageName.text) (ho : Read 511 origin app.originText)
    (hsome : ∀ text, app.origin = some text → text.text ≠ "") :
    CallingApp.fromHost (callingAppInfo callingPackage origin) = .ok app := by
  have hp : hostField (callingAppInfo callingPackage origin).packageName "package name" =
      .ok app.packageName := hostField_padded.mpr hp
  obtain ⟨o, htext, horigin⟩ : ∃ o : C8Str, o.text = app.originText ∧
      app.origin = if o.text.isEmpty then none else some o := by
    cases happ : app.origin with
    | none =>
      refine ⟨.ofLossy "", ?_, rfl⟩
      rw [CallingApp.originText, happ]
      rfl
    | some text =>
      refine ⟨text, ?_, ?_⟩
      · rw [CallingApp.originText, happ]
        rfl
      · rw [if_neg fun hempty => hsome text happ (String.isEmpty_iff.mp hempty)]
  have ho : hostField (callingAppInfo callingPackage origin).origin "origin" = .ok o :=
    hostField_padded.mpr (htext ▸ ho)
  unfold CallingApp.fromHost
  rw [ho, hp]
  cases app
  cases horigin
  rfl

/-- The caller is read exactly if neither field ends within a character, and then it is the start
of each text up to its first NUL. An origin without text is none. -/
theorem fromHost_iff {callingPackage origin : String} {app : CallingApp} :
    CallingApp.fromHost (callingAppInfo callingPackage origin) = .ok app ↔
      Read 255 callingPackage app.packageName.text ∧ Read 511 origin app.originText ∧
        ∀ text, app.origin = some text → text.text ≠ "" := by
  refine ⟨fun h => ?_, fun ⟨hp, ho, hsome⟩ => fromHost_of_read hp ho hsome⟩
  obtain ⟨o, ho, h⟩ := bind_eq_ok.mp h
  obtain ⟨p, hp, h⟩ := bind_eq_ok.mp h
  cases h
  refine ⟨hostField_padded.mp hp, ?_, fun text htext => ?_⟩
  · rw [originText_mk]
    exact hostField_padded.mp ho
  · simp only at htext
    split at htext
    · cases htext
    · next hsome =>
      cases htext
      exact fun hempty => hsome (String.isEmpty_iff.mpr hempty)

/-- A text without a NUL that fits is read as it is. -/
theorem read_of_fits {most : Nat} {value : String} (hnul : NUL ∉ value.toList)
    (hfits : byteLen value ≤ most) {text : String} : Read most value text ↔ text = value := by
  have hbefore : beforeNul value = value := by
    unfold beforeNul
    have hall : value.toList.takeWhile (· ≠ NUL) = value.toList := by
      have happend := @List.takeWhile_append_of_pos _ (fun c => decide (c ≠ NUL)) value.toList []
        fun c hc => decide_eq_true fun h => hnul (h ▸ hc)
      rwa [List.append_nil, List.takeWhile_nil, List.append_nil] at happend
    rw [hall, String.ofList_toList]
  unfold Read
  rw [hbefore, ← utf8_eq_take_iff, List.take_of_length_le hfits]
  exact ⟨utf8_inj, fun h => h ▸ rfl⟩

end Credman

end DcMatcher
