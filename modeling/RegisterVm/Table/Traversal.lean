import RegisterVm.Table.Basic

/-!
Walking a table: items in ascending order, then entries in the order in which they are stored.
Holes are passed over.
-/

namespace RegisterVm.Table

def nextItem (t : Table) : Nat → Nat → Option (Value × Value)
  | 0, _ => none
  | fuel + 1, start =>
    match t.items[start]? with
    | none => none
    | some value =>
      if value.isNil then nextItem t fuel (start + 1)
      else some (indexKey (start + 1), value)

def nextEntry (t : Table) : Nat → Nat → Option (Value × Value)
  | 0, _ => none
  | fuel + 1, start =>
    match t.entries[start]? with
    | none => none
    | some e => if e.2.isNil then nextEntry t fuel (start + 1) else some e

def nextFromEntry (t : Table) (start : Nat) : Option (Value × Value) :=
  t.nextEntry (t.entries.size - start) start

def nextFromItem (t : Table) (start : Nat) : Option (Value × Value) :=
  match t.nextItem (t.items.size - start) start with
  | some pair => some pair
  | none => t.nextFromEntry 0

/-- The pair after `key`, or the first one after nil. Any other key has to be in the table. -/
def next (t : Table) (key : Value) : Except TableError (Option (Value × Value)) :=
  let fromEntry :=
    match findEntry? t.entries key with
    | some index => .ok (t.nextFromEntry (index + 1))
    | none => .error .unknownKey
  match key with
  | .nil => .ok (t.nextFromItem 0)
  | key =>
    match key.position? with
    | some n => if n ≤ t.items.size then .ok (t.nextFromItem n) else fromEntry
    | none => fromEntry

def pairs (t : Table) : List (Value × Value) :=
  (t.items.toList.mapIdx fun i value => (indexKey (i + 1), value)).filter (fun e => !e.2.isNil)
    ++ t.entries.toList.filter fun e => !e.2.isNil

end RegisterVm.Table
