import DcMatcher.Panics.CfgGate

/-!
# Panic sites

`check_panic_sites.py`: the tokens that start a panic site, and the lints that an attribute lowers.
-/

namespace DcMatcher.Panics

/-- What ends the check: `LexError`, or the `ValueError` of `int` on a literal's digits. -/
inductive ScanError
  | lex (e : LexError)
  | value (digits : String)
deriving DecidableEq, Repr

def PANIC_MACROS : List String :=
  ["assert", "assert_eq", "assert_ne", "assert_matches", "debug_assert", "debug_assert_eq",
    "debug_assert_ne", "debug_assert_matches"]

def PANIC_FUNCTIONS : List String := ["panic_any", "resume_unwind"]

def PANIC_LINTS : List String :=
  ["panic", "unwrap_used", "expect_used", "unreachable", "todo", "unimplemented",
    "indexing_slicing", "disallowed_methods"]

def LEVELS_BELOW_DENY : List String := ["allow", "expect", "warn"]

/-- `Method.safe_last`: the literal last argument that rules a panic out. -/
inductive SafeLast
  | none
  | nonzero
  | radix
deriving DecidableEq, Repr

/-- `METHODS`, by what rules the panic out. -/
def METHODS : List (SafeLast × List String) :=
  [(.none, ["copy_from_slice", "clone_from_slice", "swap_with_slice", "copy_within", "split_at",
      "split_at_mut", "swap_remove", "split_off", "extend_from_within", "insert_str",
      "replace_range", "select_nth_unstable", "select_nth_unstable_by",
      "select_nth_unstable_by_key", "ilog", "ilog2", "ilog10", "from_secs_f32", "from_secs_f64",
      "mul_f32", "mul_f64", "div_f32", "div_f64"]),
    (.nonzero, ["chunks", "chunks_mut", "chunks_exact", "chunks_exact_mut", "rchunks",
      "rchunks_mut", "rchunks_exact", "rchunks_exact_mut", "windows", "step_by", "div_euclid",
      "rem_euclid", "div_ceil", "div_floor", "next_multiple_of"]),
    (.radix, ["to_digit", "is_digit", "from_digit", "from_str_radix"])]

/-- `METHODS.get`. -/
def methodOf (name : String) : Option SafeLast :=
  (METHODS.find? fun group => group.2.contains name).map Prod.fst

def NOT_AN_OPERAND : List String :=
  ["as", "box", "break", "const", "continue", "dyn", "else", "enum", "extern", "fn", "for", "if",
    "impl", "in", "let", "loop", "match", "mod", "move", "mut", "pub", "ref", "return", "static",
    "struct", "trait", "type", "unsafe", "use", "where", "while", "yield"]

/-! ## Literals -/

/-- The value of a literal: its whole part and the digits after the point. -/
structure Literal where
  whole : Nat
  fraction : List Nat
deriving DecidableEq, Repr

def Literal.isZero (v : Literal) : Bool := v.whole == 0 && v.fraction.all (· == 0)

/-- Whether it is a whole number from 2 to 36. -/
def Literal.isRadix (v : Literal) : Bool :=
  v.fraction.all (· == 0) && decide (2 ≤ v.whole ∧ v.whole ≤ 36)

/-- `str.rstrip` with a set of characters. -/
def rstrip (chars : List Char) (strips : Char → Bool) : List Char :=
  (chars.reverse.dropWhile strips).reverse

def digitValue (c : Char) : Option Nat :=
  if '0' ≤ c ∧ c ≤ '9' then some (c.toNat - '0'.toNat)
  else if 'a' ≤ c ∧ c ≤ 'f' then some (c.toNat - 'a'.toNat + 10)
  else none

/-- `int(digits, base)`. -/
def intOf (digits : List Char) (base : Nat) : Except ScanError Nat :=
  digits.foldlM (fun value c =>
    match (digitValue c).filter (· < base) with
    | some digit => .ok (value * base + digit)
    | none => .error (.value (.ofList digits))) 0

/-- `float` of digits with at most one point. -/
def floatOf (body : List Char) : Option Literal :=
  let isDigit := fun c : Char => decide ('0' ≤ c ∧ c ≤ '9')
  let valueOf := fun digits : List Char =>
    digits.foldl (fun value c => value * 10 + (c.toNat - '0'.toNat)) 0
  let whole := body.takeWhile isDigit
  match body.dropWhile isDigit with
  | [] => if whole.isEmpty then none else some ⟨valueOf whole, []⟩
  | '.' :: fraction =>
    if fraction.all isDigit && !(whole.isEmpty && fraction.isEmpty) then
      some ⟨valueOf whole, fraction.map fun c => c.toNat - '0'.toNat⟩
    else none
  | _ :: _ => none

/-- The base that a prefix names. -/
def baseOf : List Char → Option Nat
  | '0' :: 'x' :: _ => some 16
  | '0' :: 'o' :: _ => some 8
  | '0' :: 'b' :: _ => some 2
  | _ => none

/-- `_literal_value`. -/
def literalValue (t : Token) : Except ScanError (Option Literal) :=
  if t.kind != .number then .ok none
  else
    let text := (t.text.toList.filter (· != '_')).map Char.toLower
    match baseOf text with
    | some base =>
      let digits := rstrip (text.drop 2) ("uisz0123456789".toList.contains ·)
      if digits.isEmpty then .ok none else (intOf digits base).map fun n => some ⟨n, []⟩
    | none =>
      let number := rstrip text ("abcdefghijklmnopqrstuvwxyz0123456789".toList.contains ·)
      let body := text.takeWhile ("0123456789.".toList.contains ·)
      .ok (floatOf (if body.isEmpty then number else body))

/-! ## Sites -/

section Sites

variable (items : List Token)

/-- `_last_argument_rules_out`. -/
def lastArgumentRulesOut (safeLast : SafeLast) (opener : Nat) : Except ScanError Bool :=
  if safeLast = .none then .ok false
  else do
    let closer ← (matchingCloser items opener).mapError .lex
    match (arguments items opener closer).getLast? with
    | none => return false
    | some (start, stop) =>
      match slice items start stop with
      | [t] =>
        match ← literalValue t with
        | none => return false
        | some value => return if safeLast = .nonzero then !value.isZero else value.isRadix
      | _ => return false

/-- The branch of `_site_at` for an identifier. -/
def siteOfIdent (t after : Token) (before : Option Token) (index : Nat) :
    Except ScanError (Option String) :=
  if PANIC_MACROS.contains t.text && after.isPunct "!" &&
      items[index + 2]?.any fun bracket => ["(", "[", "\x7b"].contains bracket.text then
    .ok (some (t.text ++ "!"))
  else if before.any (·.isIdent "fn") then .ok none
  else if PANIC_FUNCTIONS.contains t.text && after.isPunct "(" then .ok (some (t.text ++ "()"))
  else
    match methodOf t.text with
    | some safeLast =>
      if after.isPunct "(" && before.any fun dot => dot.isPunct "." || dot.isPunct "::" then
        (lastArgumentRulesOut items safeLast (index + 1)).map fun safe =>
          if safe then none else some (t.text ++ "()")
      else .ok none
    | none => .ok none

/-- The branches of `_site_at` for punctuation. -/
def siteOfPunct (t : Token) (before after : Option Token) (index : Nat) : Option String :=
  let divisor := ((items.drop (index + 1)).dropWhile fun u => u.isPunct "=" || u.isPunct "-").head?
  if (t.text == "/" || t.text == "%") && divisor.all (·.kind != .number) then
    some (t.text ++ " by a value that is not a literal")
  else if t.text == "[" && after.any (·.isPunct "&") && before.any fun operand =>
      ([Kind.ident, .number, .string].contains operand.kind &&
          !NOT_AN_OPERAND.contains operand.text) ||
        (operand.kind == .punct && [")", "]", "?"].contains operand.text) then
    some "index by reference"
  else none

/-- `_site_at`. -/
def siteAt (index : Nat) : Except ScanError (Option String) :=
  let before := if index = 0 then none else items[index - 1]?
  match items[index]?, items[index + 1]? with
  | none, _ => .ok none
  | some t, after =>
    match t.kind, after with
    | .ident, some after => siteOfIdent items t after before index
    | .punct, after => .ok (siteOfPunct items t before after index)
    | _, _ => .ok none

/-! ## Lints -/

/-- The lints that a level names, with their path. -/
def lintsNamed (parts : List (Nat × Nat)) : List String :=
  parts.filterMap fun part =>
    if (slice items part.1 (part.2 - 1)).map (·.text) = ["clippy", "::"] then
      items[part.2 - 1]?.map (·.text)
    else none

/-- `_lowered_panic_lints`, calls nested at most `fuel` deep. -/
def loweredWithin : Nat → Nat → Nat → Except ScanError String
  | 0, _, _ => .ok ""
  | fuel + 1, start, stop =>
    match items[start]? with
    | none => .ok ""
    | some head =>
      if stop - start < 3 || !items[start + 1]?.any (·.isPunct "(") then .ok ""
      else
        let parts := arguments items (start + 1) (stop - 1)
        match head.isIdent "cfg_attr", parts with
        | true, predicate :: attributes => do
          let gated ← (predicateImpliesTest items predicate.1 predicate.2).mapError .lex
          if gated then return ""
          else
            let lowered ← attributes.mapM fun part => loweredWithin fuel part.1 part.2
            return String.join lowered
        | _, _ =>
          if !LEVELS_BELOW_DENY.contains head.text then .ok ""
          else
            let named := ((lintsNamed items parts).filter (PANIC_LINTS.contains ·)).dedup.mergeSort
            .ok (if named.isEmpty then ""
              else head.text ++ "(clippy::" ++ ", clippy::".intercalate named ++ ")")

/-- `_lowered_panic_lints`. A call starts beyond the one it is made in. -/
def loweredPanicLints (start stop : Nat) : Except ScanError String :=
  loweredWithin items items.length start stop

end Sites

example : siteAt [⟨.ident, "a", 1⟩, ⟨.punct, "/", 1⟩, ⟨.ident, "b", 1⟩] 1 =
    .ok (some "/ by a value that is not a literal") := by
  decide

end DcMatcher.Panics
