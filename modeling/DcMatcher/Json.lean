import DcMatcher.Lib.KeyOrder
import DcMatcher.Text
import Mathlib.Data.String.Basic

/-!
# JSON values

`serde_json::Value` as the sources use it, and the JSON reader and writer as
parameters. A text is first a `Document`, the events the reader hands to a visitor;
each visitor builds its own value from them. `Value` keeps one member of each name,
the last one, as `serde_json::Map` does.

Result: `SerdeJson.fromSlice_ordered`: the objects of a value that was read are in key order,
at every depth.
-/

namespace DcMatcher

/-! ## Numbers -/

/-- A finite `f64`, by its bits. -/
structure F64 where
  bits : UInt64
deriving DecidableEq, Repr

/-- Plus or minus zero. -/
def F64.isZero (f : F64) : Bool := f.bits &&& 0x7FFFFFFFFFFFFFFF == 0

/-- `f64::eq` on finite values: the two zeros are equal. -/
instance : BEq F64 := ⟨fun a b => a.bits == b.bits || (a.isZero && b.isZero)⟩

/-- `serde_json::Number`. -/
inductive Number
  | posInt (n : UInt64)
  | negInt (n : Int64)
  | float (f : F64)
deriving DecidableEq, BEq, Repr

/-- `Number::is_i64` or `Number::is_u64`. -/
def Number.isInteger : Number → Bool
  | .posInt _ => true
  | .negInt _ => true
  | .float _ => false

/-- `Number::as_u64`. -/
def Number.asU64 : Number → Option UInt64
  | .posInt n => some n
  | _ => none

/-! ## Values -/

/-- `serde_json::Value`. The members of an object are in key order, as in the
`BTreeMap` behind `serde_json::Map`. -/
inductive Value
  | null
  | bool (b : Bool)
  | number (n : Number)
  | string (s : String)
  | array (items : List Value)
  | object (members : List (String × Value))
deriving Repr

instance : Inhabited Value := ⟨.null⟩

/-- `serde_json::Map`. -/
abbrev Map := List (String × Value)

namespace Map

/-- `Map::get`. -/
def get (m : Map) (key : String) : Option Value :=
  (m.find? fun member => member.1 == key).map Prod.snd

/-- `Map::contains_key`. -/
def containsKey (m : Map) (key : String) : Bool := (m.get key).isSome

/-- `Map::insert`, at the key's place in the order. -/
def insert : Map → String → Value → Map
  | [], key, v => [(key, v)]
  | (k, w) :: m, key, v =>
    if k = key then (key, v) :: m
    else if key < k then (key, v) :: (k, w) :: m
    else (k, w) :: insert m key v

/-- `Map::remove`. -/
def remove (m : Map) (key : String) : Map := m.filter fun member => member.1 ≠ key

/-- The map that `json!` or a derived writer builds, member by member. -/
def ofList (members : List (String × Value)) : Map :=
  members.foldl (fun m member => m.insert member.1 member.2) []

/-- An insertion is that of a map in key order. -/
theorem insert_eq (m : Map) (key : String) (v : Value) :
    m.insert key v = KeyOrder.insert m key v := by
  induction m with
  | nil => rfl
  | cons head m ih =>
    obtain ⟨k, w⟩ := head
    rw [insert, KeyOrder.insert, ih]

theorem ofList_eq (members : List (String × Value)) :
    ofList members = KeyOrder.insertAll [] members := by
  unfold ofList KeyOrder.insertAll
  simp only [insert_eq]

theorem remove_eq_without (m : Map) (key : String) : m.remove key = KeyOrder.without m [key] := by
  unfold remove KeyOrder.without
  simp

theorem get_insert (m : Map) (k : String) (v : Value) (key : String) :
    (m.insert k v).get key = if k = key then some v else m.get key := by
  rw [insert_eq]
  exact KeyOrder.get_insert m k v key

end Map

namespace Value

/-- `Value::get` with a member name. -/
def get (v : Value) (key : String) : Option Value :=
  match v with
  | .object m => Map.get m key
  | _ => none

/-- `Value::as_str`. -/
def asStr : Value → Option String
  | .string s => some s
  | _ => none

/-- `Value::as_array`. -/
def asArray : Value → Option (List Value)
  | .array items => some items
  | _ => none

/-- `Value::as_object`. -/
def asObject : Value → Option Map
  | .object m => some m
  | _ => none

/-- `Value::as_bool`. -/
def asBool : Value → Option Bool
  | .bool b => some b
  | _ => none

/-- `Value::as_u64`. -/
def asU64 : Value → Option UInt64
  | .number n => n.asU64
  | _ => none

theorem asStr_eq_some {v : Option Value} {s : String} :
    v.bind asStr = some s ↔ v = some (.string s) := by
  cases v with
  | none => simp
  | some v => cases v <;> simp [asStr]

@[simp] theorem get_object (m : Map) (key : String) : (object m).get key = m.get key := rfl

/-- The object `json!` builds. -/
def ofMembers (members : List (String × Value)) : Value := .object (Map.ofList members)

mutual

/-- `Value`'s derived equality, on numbers by `f64::eq`. -/
def beq : Value → Value → Bool
  | .null, .null => true
  | .bool a, .bool b => a == b
  | .number a, .number b => a == b
  | .string a, .string b => a == b
  | .array a, .array b => beqItems a b
  | .object a, .object b => beqMembers a b
  | _, _ => false

def beqItems : List Value → List Value → Bool
  | [], [] => true
  | a :: as, b :: bs => beq a b && beqItems as bs
  | _, _ => false

def beqMembers : List (String × Value) → List (String × Value) → Bool
  | [], [] => true
  | (k, a) :: as, (l, b) :: bs => k == l && beq a b && beqMembers as bs
  | _, _ => false

end

instance : BEq Value := ⟨beq⟩

end Value

/-! ## Reading and writing -/

/-- What a JSON text says: the events of `Deserializer::deserialize_any`, with
repeated members still there. -/
inductive Document
  | null
  | bool (b : Bool)
  | number (n : Number)
  | string (s : String)
  | array (items : List Document)
  | object (members : List (String × Document))

mutual

/-- `Value`'s visitor. -/
def Value.ofDocument : Document → Value
  | .null => .null
  | .bool b => .bool b
  | .number n => .number n
  | .string s => .string s
  | .array items => .array (Value.ofItems items)
  | .object members => .object (Value.insertAll [] members)

def Value.ofItems : List Document → List Value
  | [] => []
  | d :: ds => Value.ofDocument d :: Value.ofItems ds

/-- A repeated member replaces the earlier one. -/
def Value.insertAll (m : Map) : List (String × Document) → Map
  | [] => m
  | (key, d) :: ds => Value.insertAll (m.insert key (Value.ofDocument d)) ds

end

/-- `serde_json`, as far as it is called: its reader, its compact writer, and the
texts of its errors. -/
structure SerdeJson where
  /-- The events of a text, if it is JSON. -/
  events : List UInt8 → Option Document
  /-- `serde_json::to_string`, and `Value`'s `Display`. -/
  write : Value → String
  /-- `Number`'s `Display` on a float. -/
  floatText : F64 → String
  /-- What `from_slice` reports for a text it refuses. -/
  readError : List UInt8 → String
  /-- What `from_value::<DcqlQuery>` reports for a value it refuses. -/
  dcqlError : Value → String

namespace SerdeJson

variable (sj : SerdeJson)

/-- `serde_json::from_slice::<Value>`. -/
def fromSlice (bytes : List UInt8) : Option Value := (sj.events bytes).map Value.ofDocument

/-- `serde_json::from_str::<Value>`. -/
def fromStr (text : String) : Option Value := sj.fromSlice (utf8 text)

/-- `Number`'s `Display`. -/
def numberText : Number → String
  | .posInt n => toString n.toNat
  | .negInt n => toString n.toInt
  | .float f => sj.floatText f

end SerdeJson

/-! ## Key order -/

/-- Every object within is in key order. -/
inductive Value.Ordered : Value → Prop
  | null : Value.null.Ordered
  | bool (b : Bool) : (Value.bool b).Ordered
  | number (n : Number) : (Value.number n).Ordered
  | string (s : String) : (Value.string s).Ordered
  | array {items : List Value} : (∀ v ∈ items, v.Ordered) → (Value.array items).Ordered
  | object {members : List (String × Value)} : KeyOrder.Ordered members →
      (∀ member ∈ members, member.2.Ordered) → (Value.object members).Ordered

theorem Value.Ordered.insert {m : Map} {key : String} {v : Value} (hm : (Value.object m).Ordered)
    (hv : v.Ordered) : (Value.object (m.insert key v)).Ordered := by
  cases hm with
  | object hkeys hmembers =>
    rw [Map.insert_eq]
    refine .object (hkeys.insert key v) fun member hmember => ?_
    rcases KeyOrder.mem_insert hmember with rfl | hmember
    · exact hv
    · exact hmembers member hmember

mutual

theorem Value.ofDocument_ordered : ∀ d : Document, (Value.ofDocument d).Ordered
  | .null => .null
  | .bool b => .bool b
  | .number n => .number n
  | .string s => .string s
  | .array items => .array (Value.ofItems_ordered items)
  | .object members =>
    Value.insertAll_ordered members [] (.object KeyOrder.ordered_nil fun _ h => by cases h)

theorem Value.ofItems_ordered : ∀ ds : List Document, ∀ v ∈ Value.ofItems ds, v.Ordered
  | [], _, h => by cases h
  | d :: ds, v, h => by
    rcases List.mem_cons.mp h with rfl | h
    · exact Value.ofDocument_ordered d
    · exact Value.ofItems_ordered ds v h

theorem Value.insertAll_ordered : ∀ (ds : List (String × Document)) (m : Map),
    (Value.object m).Ordered → (Value.object (Value.insertAll m ds)).Ordered
  | [], _, hm => hm
  | (_, d) :: ds, _, hm =>
    Value.insertAll_ordered ds _ (hm.insert (Value.ofDocument_ordered d))

end

/-- What was read is in key order at every depth. -/
theorem SerdeJson.fromSlice_ordered {sj : SerdeJson} {bytes : List UInt8} {v : Value}
    (h : sj.fromSlice bytes = some v) : v.Ordered := by
  unfold fromSlice at h
  obtain ⟨d, _, rfl⟩ := Option.map_eq_some_iff.mp h
  exact Value.ofDocument_ordered d

/-- A member of an object in key order is in key order. -/
theorem Value.Ordered.of_get {v w : Value} {key : String} (hv : v.Ordered)
    (h : v.get key = some w) : w.Ordered := by
  cases hv with
  | object _ hmembers =>
    obtain ⟨member, hfind, rfl⟩ := Option.map_eq_some_iff.mp h
    exact hmembers member (List.mem_of_find?_eq_some hfind)
  | _ => cases h

/-! ## A few texts

Enough of `serde_json` to run the matcher on given values. -/

mutual

/-- The compact text of a value whose strings need no escapes and whose numbers are whole. -/
def Value.compact : Value → String
  | .null => "null"
  | .bool b => if b then "true" else "false"
  | .number (.posInt n) => toString n.toNat
  | .number (.negInt n) => toString n.toInt
  | .number (.float _) => "0.0"
  | .string s => "\"" ++ s ++ "\""
  | .array items => "[" ++ ",".intercalate (Value.compactItems items) ++ "]"
  | .object members => "\x7b" ++ ",".intercalate (Value.compactMembers members) ++ "\x7d"

def Value.compactItems : List Value → List String
  | [] => []
  | v :: vs => v.compact :: compactItems vs

def Value.compactMembers : List (String × Value) → List String
  | [] => []
  | (k, v) :: ms => ("\"" ++ k ++ "\":" ++ v.compact) :: compactMembers ms

end

mutual

/-- The events of a value's compact text. -/
def Value.toDocument : Value → Document
  | .null => .null
  | .bool b => .bool b
  | .number n => .number n
  | .string s => .string s
  | .array items => .array (Value.toDocuments items)
  | .object members => .object (Value.toMembers members)

def Value.toDocuments : List Value → List Document
  | [] => []
  | v :: vs => v.toDocument :: toDocuments vs

def Value.toMembers : List (String × Value) → List (String × Document)
  | [] => []
  | (k, v) :: ms => (k, v.toDocument) :: toMembers ms

end

/-- A reader for the compact texts of the given values, and for no others. -/
def SerdeJson.ofValues (values : List Value) : SerdeJson where
  events bytes := (values.find? fun v => utf8 v.compact == bytes).map Value.toDocument
  write := Value.compact
  floatText _ := "0.0"
  readError _ := "expected value at line 1 column 1"
  dcqlError _ := "invalid type"

end DcMatcher
