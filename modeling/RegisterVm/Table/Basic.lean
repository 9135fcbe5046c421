import RegisterVm.Value

/-!
Tables. The values of keys 1, 2, ... stand in a row of items; every other key has an entry, in
the order of first insertion. Assigning the key that follows the row appends to it and draws in
the entries that continue it. Assigning nil leaves a hole, and nothing shrinks.
-/

namespace RegisterVm

abbrev Entry := Value × Value

structure Table where
  items : Array Value
  entries : Array Entry
  metatable : Option TableRef
  deriving Inhabited

inductive TableError where
  | nilKey
  | nanKey
  | position
  | unknownKey
  deriving DecidableEq, Repr

def TableError.message : TableError → String
  | nilKey => "table index is nil"
  | nanKey => "table index is NaN"
  | position => "position out of bounds"
  | unknownKey => "invalid key to 'next'"

def swapRemove (entries : Array Entry) (index : Nat) : Array Entry :=
  match entries.back? with
  | some last => (entries.setIfInBounds index last).pop
  | none => entries

namespace Table

def empty : Table := ⟨#[], #[], none⟩

def length (t : Table) : Nat := t.items.size

def isEmpty (t : Table) : Bool := t.items.isEmpty && t.entries.all fun e => e.2.isNil

def indexKey (n : Nat) : Value := .integer n

def findEntry? (entries : Array Entry) (key : Value) : Option Nat :=
  entries.findIdx? fun e => e.1.same key

def getEntry (t : Table) (key : Value) : Value :=
  match t.entries.find? fun e => e.1.same key with
  | some e => e.2
  | none => .nil

def get (t : Table) (key : Value) : Value :=
  match key.position? with
  | some n => if n ≤ t.items.size then t.items.getD (n - 1) .nil else t.getEntry key
  | none => t.getEntry key

def getInteger (t : Table) (i : Int) : Value :=
  if 1 ≤ i && i ≤ t.items.size then t.items.getD (i - 1).toNat .nil
  else t.getEntry (.integer i)

def getString (t : Table) (s : String) : Value := t.getEntry (.string s)

def contains (t : Table) (key : Value) : Bool := !(t.get key).isNil

/-- Draws the entries that continue the row into it, at most `fuel` of them. A hole ends the
sweep and is dropped, so that the key after the row never has an entry. -/
def absorb : Nat → Array Value → Array Entry → Array Value × Array Entry
  | 0, items, entries => (items, entries)
  | fuel + 1, items, entries =>
    match findEntry? entries (indexKey (items.size + 1)) with
    | none => (items, entries)
    | some index =>
      let value := (entries.getD index (.nil, .nil)).2
      let entries := swapRemove entries index
      if value.isNil then (items, entries) else absorb fuel (items.push value) entries

def settle (t : Table) (items : Array Value) : Table :=
  let (items, entries) := absorb t.entries.size items t.entries
  { t with items, entries }

def setEntry (t : Table) (key value : Value) : Table :=
  match findEntry? t.entries key with
  | some index => { t with entries := t.entries.modify index fun e => (e.1, value) }
  | none => if value.isNil then t else { t with entries := t.entries.push (key, value) }

def assign (t : Table) (key value : Value) : Table :=
  match key.position? with
  | some n =>
    if n ≤ t.items.size then { t with items := t.items.setIfInBounds (n - 1) value }
    else if n == t.items.size + 1 then
      if value.isNil then t else t.settle (t.items.push value)
    else t.setEntry key value
  | none => t.setEntry key value

def keyError? : Value → Option TableError
  | .nil => some .nilKey
  | .number n => if n.isNaN then some .nanKey else none
  | _ => none

def set (t : Table) (key value : Value) : Except TableError Table :=
  match keyError? key with
  | some e => .error e
  | none => .ok (t.assign key value)

def setInteger (t : Table) (i : Int) (value : Value) : Table := t.assign (.integer i) value

def setString (t : Table) (s : String) (value : Value) : Table := t.assign (.string s) value

def insert (t : Table) (position : Nat) (value : Value) : Except TableError Table :=
  if position < 1 || t.items.size + 1 < position then .error .position
  else .ok (t.settle (t.items.insertIdxIfInBounds (position - 1) value))

/-- Removes a position of the row, moving the items above it down by one. One past the row there
is nothing to remove. -/
def remove (t : Table) (position : Nat) : Except TableError (Value × Table) :=
  if (t.items.size == 0 && position ≤ 1) || position == t.items.size + 1 then .ok (.nil, t)
  else if position < 1 || t.items.size < position then .error .position
  else
    .ok (t.items.getD (position - 1) .nil, t.settle (t.items.eraseIdxIfInBounds (position - 1)))

def withMetatable (t : Table) (metatable : Option TableRef) : Table := { t with metatable }

def ofValues (values : Array Value) : Table :=
  (values.foldl (fun (state : Table × Int) value =>
    (state.1.setInteger state.2 value, state.2 + 1)) (empty, 1)).1

end Table

end RegisterVm
