import DcMatcher.Dcql.Query

/-!
# Selecting credentials and enumerating combinations

`siros-dcql/src/eval.rs` and `eval/products.rs`. Counting is in `usize`, whose width
is the target's: 32 bits in the picker, 64 in a wallet library. A `usize` that only
measures memory (a length, a capacity) is a `Nat`.
-/

namespace DcMatcher

open Lists

/-! ## Machine words -/

/-- The width of `usize`. -/
inductive PointerWidth
  | w32
  | w64
deriving DecidableEq, Repr

/-- `usize::MAX`. -/
def PointerWidth.usizeMax : PointerWidth → Nat
  | .w32 => 2 ^ 32 - 1
  | .w64 => 2 ^ 64 - 1

/-- A `usize`. -/
abbrev Usize (w : PointerWidth) := Fin (w.usizeMax + 1)

/-- `usize::checked_mul`. -/
def checkedMul (w : PointerWidth) (a b : Nat) : Option Nat :=
  if a * b ≤ w.usizeMax then some (a * b) else none

/-- `usize::checked_add`. -/
def checkedAdd (w : PointerWidth) (a b : Nat) : Option Nat :=
  if a + b ≤ w.usizeMax then some (a + b) else none

theorem PointerWidth.usizeMax_pos (w : PointerWidth) : 0 < w.usizeMax := by
  cases w <;> decide

/-- Every `usize` holds the limit that callers give. -/
theorem PointerWidth.limit_lt (w : PointerWidth) : 32 < w.usizeMax + 1 := by
  cases w <;> decide

/-! ## Credentials and claims -/

/-- The trait `Credential`: what DCQL asks of a credential the wallet holds. -/
class Credential (C : Type) where
  id : C → String
  format : C → String
  claim : C → List PathComponent → Except PathError (List Value)
  hasCryptographicHolderBinding : C → Bool

/-- The trait `Policy`: whether a credential meets a query's format, metadata and
deployment-specific constraints. -/
abbrev Policy (C : Type) := CredentialQuery → C → Bool

/-- A claim the wallet would disclose for a match. -/
structure SelectedClaim where
  claimId : Option String
  path : List PathComponent
deriving DecidableEq, Repr

/-- One credential that satisfies one credential query. -/
structure Candidate where
  credentialId : String
  claims : List SelectedClaim
deriving DecidableEq, Repr

/-- The candidates for one credential query. -/
structure QueryMatch where
  queryId : String
  candidates : List Candidate
  multiple : Bool

def QueryMatch.isSatisfied (m : QueryMatch) : Bool := !m.candidates.isEmpty

/-- A member of a combination: the query it answers, and with what. -/
abbrev Member := String × Candidate

/-- One way to satisfy the whole request. -/
structure Combination where
  members : List Member
  purposes : List Value

/-- How many combinations were not built. -/
inductive Dropped
  | exact (n : Nat)
  | atLeast (n : Nat)
deriving DecidableEq, Repr

namespace Dropped

def count : Dropped → Nat
  | .exact n => n
  | .atLeast n => n

def isExact : Dropped → Bool
  | .exact _ => true
  | .atLeast _ => false

/-- `Dropped::add`. -/
def add (w : PointerWidth) (self other : Dropped) : Dropped :=
  match checkedAdd w self.count other.count with
  | some total => if self.isExact && other.isExact then .exact total else .atLeast total
  | none => .atLeast w.usizeMax

end Dropped

structure Combinations where
  combinations : List Combination
  dropped : Dropped

/-- The outcome of evaluating a query. -/
structure QueryResult where
  queryMatches : List QueryMatch
  satisfiable : Bool
  credentialSets : Option (List CredentialSetQuery)

/-- `QueryResult::query`. -/
def QueryResult.query (r : QueryResult) (id : String) : Option QueryMatch :=
  r.queryMatches.find? fun m => m.queryId == id

/-! ## Evaluation -/

section Execute

variable {C : Type} [Credential C]

/-- `resolve`: one claims query against one credential. A claim whose value is not an
expected one counts as absent. -/
def resolveClaim (claim : ClaimsQuery) (c : C) : Option SelectedClaim :=
  match Credential.claim c claim.path with
  | .error _ => none
  | .ok found =>
    if found.isEmpty then none
    else if claim.values.all fun expected => found.any fun v => expected.any fun e => e == v then
      some { claimId := claim.id, path := claim.path }
    else none

/-- `select_claims`. -/
def selectClaims (query : CredentialQuery) (c : C) : Option (List SelectedClaim) :=
  match query.claims.isEmpty, query.claimSets with
  -- a choice among claims that were never listed is refused
  | true, some _ => none
  | true, none => some []
  | false, none => collect (fun claim => resolveClaim claim c) query.claims
  | false, some sets =>
    sets.findSome? fun set =>
      collect (fun id => (query.claim id).bind fun claim => resolveClaim claim c) set

/-- The last step of the filter chain in `execute`. -/
def candidateOf (cq : CredentialQuery) (c : C) : Option Candidate :=
  (selectClaims cq c).map fun claims => { credentialId := Credential.id c, claims }

/-- The candidates `execute` gives one credential query. -/
def queryMatch (wallet : List C) (policy : Policy C) (cq : CredentialQuery) : QueryMatch where
  queryId := cq.id
  multiple := cq.multiple
  candidates :=
    ((wallet.filter fun c =>
        !cq.requireCryptographicHolderBinding || Credential.hasCryptographicHolderBinding c).filter
      (policy cq)).filterMap (candidateOf cq)

/-- Whether every required set has an option whose queries are all satisfied. -/
def requiredSetsMet (found : List QueryMatch) : Option (List CredentialSetQuery) → Bool
  | none => found.all QueryMatch.isSatisfied
  | some sets =>
    (sets.filter (·.required)).all fun set =>
      set.options.any fun option =>
        option.all fun id => found.any fun m => m.queryId == id && m.isSatisfied

/-- `execute`. -/
def execute (query : DcqlQuery) (wallet : List C) (policy : Policy C) : QueryResult :=
  let found := query.credentials.map (queryMatch wallet policy)
  -- every check below holds of an empty query
  if query.credentials.isEmpty then
    { queryMatches := found, satisfiable := false, credentialSets := query.credentialSets }
  else
    { queryMatches := found
      satisfiable :=
        requiredSetsMet found query.credentialSets && found.any QueryMatch.isSatisfied
      credentialSets := query.credentialSets }

end Execute

/-! ## Products of one option -/

/-- How one query answers each combination of an option. -/
inductive Dial
  | every (id : String) (candidates : List Candidate)
  | one (id : String) (first : Candidate) (rest : List Candidate) (current : Candidate)
      (upcoming : List Candidate)

namespace Dial

/-- `Dial::of`. -/
def of (id : String) (query : QueryMatch) : Option Dial :=
  match query.candidates with
  | [] => none
  | first :: rest =>
    if query.multiple then some (.every id query.candidates)
    else some (.one id first rest first rest)

def width : Dial → Nat
  | .every _ _ => 1
  | .one _ _ rest _ _ => rest.length + 1

/-- What `Dial::read` appends. -/
def read : Dial → List Member
  | .every id candidates => candidates.map fun candidate => (id, candidate)
  | .one id _ _ current _ => [(id, current)]

/-- `Dial::turn`, with the dial after it. -/
def turn : Dial → Dial × Bool
  | .every id candidates => (.every id candidates, true)
  | .one id first rest _ (next :: upcoming) => (.one id first rest next upcoming, false)
  | .one id first rest _ [] => (.one id first rest first rest, true)

end Dial

/-- The loop that turns the dials after a combination was read. -/
def turnDials : List Dial → List Dial
  | [] => []
  | dial :: dials =>
    if dial.turn.2 then dial.turn.1 :: turnDials dials else dial.turn.1 :: dials

/-- The loop that reads and turns the dials, `take` times. -/
def spinDials : Nat → List Dial → List (List Member)
  | 0, _ => []
  | take + 1, dials => dials.flatMap Dial.read :: spinDials take (turnDials dials)

/-- The body of the loop that multiplies the widths, on `(total, overflowed)`. -/
def multiplyWidth (w : PointerWidth) (state : Nat × Bool) (dial : Dial) : Nat × Bool :=
  match checkedMul w state.1 dial.width with
  | some product => (product, state.2)
  | none => (w.usizeMax, true)

/-- The product of the widths, and whether it ran out of `usize` on the way. -/
def totalWidth (w : PointerWidth) (dials : List Dial) : Nat × Bool :=
  dials.foldl (multiplyWidth w) (1, false)

/-- `candidate_products`. -/
def candidateProducts (w : PointerWidth) (r : QueryResult) (option : List String)
    (budget : Nat) : List (List Member) × Dropped :=
  match collect (fun id => (r.query id).bind (Dial.of id)) option with
  -- a dangling id, or a query without candidates
  | none => ([], .exact 0)
  | some dials =>
    let (total, overflowed) := totalWidth w dials
    let take := min total budget
    let remaining := total - take
    (spinDials take dials, if overflowed then .atLeast remaining else .exact remaining)

/-! ## Combinations -/

/-- A required group: why it is asked for, and the options that can be answered. -/
abbrev Group := Option Value × List (List String)

/-- The required groups of `combinations`. -/
def QueryResult.groups (r : QueryResult) : List Group :=
  match r.credentialSets with
  | none => [(none, [r.queryMatches.map (·.queryId)])]
  | some sets =>
    (sets.filter (·.required)).map fun set =>
      (set.purpose, set.options.filter fun option =>
        option.all fun id => (r.query id).any QueryMatch.isSatisfied)

/-- The combination so far, and the members of one more option. -/
def Combination.extend (sofar : Combination) (purpose : Option Value)
    (members : List Member) : Combination where
  members := sofar.members ++ members
  purposes := sofar.purposes ++ purpose.toList

/-- The body of the loop over options, on `(next, dropped)`. -/
def extendOption (w : PointerWidth) (r : QueryResult) (limit : Nat) (purpose : Option Value)
    (sofar : Combination) (state : List Combination × Dropped) (option : List String) :
    List Combination × Dropped :=
  let budget := limit - state.1.length
  let (products, skipped) := candidateProducts w r option budget
  (state.1 ++ products.map (sofar.extend purpose), state.2.add w skipped)

/-- The body of the loop over groups, on `(out, dropped)`. -/
def extendGroup (w : PointerWidth) (r : QueryResult) (limit : Nat)
    (state : List Combination × Dropped) (group : Group) : List Combination × Dropped :=
  state.1.foldl
    (fun state sofar => group.2.foldl (extendOption w r limit group.1 sofar) state)
    ([], state.2)

/-- The loop over groups, which stops once no combination is left. -/
def extendGroups (w : PointerWidth) (r : QueryResult) (limit : Nat) :
    List Group → List Combination × Dropped → List Combination × Dropped
  | [], state => state
  | group :: groups, state =>
    let state := extendGroup w r limit state group
    if state.1.isEmpty then state else extendGroups w r limit groups state

/-- What the loop over groups starts from: one combination, without members. -/
def startState : List Combination × Dropped := ([{ members := [], purposes := [] }], .exact 0)

/-- `QueryResult::combinations`. -/
def QueryResult.combinations (w : PointerWidth) (r : QueryResult) (limit : Usize w) :
    Combinations :=
  if !r.satisfiable then { combinations := [], dropped := .exact 0 }
  -- every set is optional: there is nothing to enumerate
  else if r.groups.isEmpty then { combinations := [], dropped := .exact 0 }
  else
    let (out, dropped) := extendGroups w r limit.val r.groups startState
    { combinations := out, dropped }

/-! ## Credentials without claims

Enough of a wallet to count combinations on. -/

structure PlainCredential where
  id : String
  format : String

instance : Credential PlainCredential where
  id := PlainCredential.id
  format := PlainCredential.format
  claim _ _ := .error .malformed
  hasCryptographicHolderBinding _ := true

/-- A policy that looks at the format only. -/
def formatPolicy (C : Type) [Credential C] : Policy C := fun cq c =>
  Credential.format c == cq.format

/-- A query for a format, with everything else left at its default. -/
def CredentialQuery.plain (id format : String) : CredentialQuery where
  id := id
  format := format
  multiple := false
  meta_ := []
  trustedAuthorities := none
  requireCryptographicHolderBinding := true
  claims := []
  claimSets := none

/-- A required set without a purpose. -/
def CredentialSetQuery.plain (options : List (List String)) : CredentialSetQuery where
  options := options
  required := true
  purpose := none

end DcMatcher
