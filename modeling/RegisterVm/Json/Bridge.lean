import RegisterVm.Json.Text
import RegisterVm.Machine.Store

/-!
JSON values and the values of a store. An array becomes a table with keys 1, 2, ..., an object a
table with string keys. Back, a table whose live keys are exactly 1 to n becomes an array and any
other table an object.
-/

namespace RegisterVm

inductive JsonFailure where
  | cycle
  | function
  | thread
  | number (n : Float)
  | key (typeName : String)
  deriving Inhabited

def JsonFailure.message : JsonFailure → String
  | cycle => "Circular reference detected in table"
  | function => "Cannot serialize Lua function to JSON"
  | thread => "Cannot serialize Lua thread to JSON"
  | number n => "Invalid number: " ++ Number.text n
  | key typeName => "Cannot use " ++ typeName ++ " as a JSON object key"

namespace Table

/-- The live keys are exactly 1 to n, or there are none. -/
def isSequence (t : Table) : Bool :=
  let keys := t.pairs.map fun e => e.1.asInteger?
  keys.all (fun key => match key with
    | some i => 1 ≤ i
    | none => false)
    && keys.foldl (fun high key => max high (key.getD 0)) 0 == (keys.length : Int)

/-- The values at `index` and at the keys after it, up to the first that is nil and `fuel` of them
at most. -/
def valuesFrom (t : Table) : Nat → Nat → List Value
  | 0, _ => []
  | fuel + 1, index =>
    let value := t.getInteger index
    if value.isNil then [] else value :: t.valuesFrom fuel (index + 1)

def sequence (t : Table) : List Value :=
  t.items.toList ++ t.valuesFrom t.entries.size (t.items.size + 1)

end Table

namespace Json

def ofNumber (n : Float) : Except JsonFailure Json :=
  match Number.toInteger? n with
  | some i => .ok (.number (.integer i))
  | none => if n.isNaN || n.isInf then .error (.number n) else .ok (.number (.float n))

def memberName : Value → Except JsonFailure String
  | .string s => .ok s
  | .number n => .ok (Number.text n)
  | other => .error (.key other.typeName)

/-- Adds the members for pairs of a table; of two pairs with one name the later one stays. -/
def addMembers (convert : Value → Except JsonFailure Json) :
    List (String × Json) → List (Value × Value) → Except JsonFailure (List (String × Json))
  | members, [] => .ok members
  | members, (key, value) :: rest => do
    let name ← memberName key
    let json ← convert value
    addMembers convert (insertMember name json members) rest

def items (convert : Value → Except JsonFailure Json) : List Value → Except JsonFailure (List Json)
  | [] => .ok []
  | value :: rest => do
    let first ← convert value
    let others ← items convert rest
    return first :: others

def ofValueOn (s : Store) : Nat → List TableRef → Value → Except JsonFailure Json
  | 0, _, _ => .error .cycle
  | fuel + 1, path, value =>
    match value with
    | .nil => .ok .null
    | .boolean b => .ok (.boolean b)
    | .number n => ofNumber n
    | .string s => .ok (.string s)
    | .table ref =>
      if path.contains ref then .error .cycle
      else
        let t := s.table ref
        let convert := ofValueOn s fuel (ref :: path)
        if t.isSequence then (items convert t.sequence).map .array
        else (addMembers convert [] t.pairs).map .object
    | .closure _ | .native _ => .error .function
    | .thread _ => .error .thread

/-- The JSON form of a value. No path is longer than there are tables. -/
def ofValue (s : Store) (value : Value) : Except JsonFailure Json :=
  ofValueOn s (s.tables.size + 2) [] value

def numberValue : JsonNumber → Value
  | .integer i => .integer i
  | .float n => .number n

mutual

def toValue (s : Store) : Json → Value × Store
  | .null => (.nil, s)
  | .boolean b => (.boolean b, s)
  | .number n => (numberValue n, s)
  | .string text => (.string text, s)
  | .array items =>
    let (t, s) := fillItems s .empty 1 items
    let (ref, s) := s.newTable t
    (.table ref, s)
  | .object members =>
    let (t, s) := fillMembers s .empty members
    let (ref, s) := s.newTable t
    (.table ref, s)

def fillItems (s : Store) (t : Table) (index : Int) : List Json → Table × Store
  | [] => (t, s)
  | item :: rest =>
    let (value, s) := toValue s item
    fillItems s (t.setInteger index value) (index + 1) rest

def fillMembers (s : Store) (t : Table) : List (String × Json) → Table × Store
  | [] => (t, s)
  | (name, item) :: rest =>
    let (value, s) := toValue s item
    fillMembers s (t.setString name value) rest

end

def valueOfText (s : Store) (text : String) (format : Format := .standard) :
    Except String (Value × Store) :=
  match format.read text with
  | .ok j => .ok (toValue s j)
  | .error e => .error ("Failed to parse JSON: " ++ e)

def textOfValue (s : Store) (value : Value) (indented : Bool) (format : Format := .standard) :
    Except String String :=
  match ofValue s value with
  | .ok j => (format.write indented j).mapError ("Failed to serialize to JSON: " ++ ·)
  | .error e => .error e.message

end Json

end RegisterVm
