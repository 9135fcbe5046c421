import RegisterVm.Machine.Store

/-!
The addresses that texts show for objects. The surroundings settle the address of an object when it
is shown first, and it is shown at that address from then on.
-/

namespace RegisterVm

mutual

def Prototype.mentions (object : Value) : Prototype → Bool
  | ⟨_, constants, ⟨children⟩, _, _, _, _, _, _, _, _, _⟩ =>
    constants.any (fun k => k.value.same object) || mentionsAny object children

def Prototype.mentionsAny (object : Value) : List Prototype → Bool
  | [] => false
  | p :: rest => Prototype.mentions object p || mentionsAny object rest

end

def Table.mentions (t : Table) (object : Value) : Bool :=
  t.items.any (·.same object)
    || t.entries.any (fun e => e.1.same object || e.2.same object)
    || (t.metatable.map Value.table).any (·.same object)

def Thread.mentions (th : Thread) (object : Value) : Bool :=
  th.stack.any (·.same object) || th.frames.any (fun f => f.callee.same object)
    || (Value.table th.globals).same object

def Cell.mentions (object : Value) : Cell → Bool
  | .closed value => value.same object
  | .slot _ _ => false

namespace Store

def isActive (s : Store) : Value → Bool
  | .thread ref => (s.thread ref).isMain || (s.thread ref).held
  | _ => false

def mentions (s : Store) (object : Value) : Bool :=
  s.isActive object
    || s.threads.any (·.mentions object)
    || s.cells.any (Cell.mentions object)
    || s.closures.any (fun c => Prototype.mentions object c.prototype)
    || s.natives.any (fun n => n.bound.any (·.same object))
    || s.tables.any (·.mentions object)

def population (s : Store) : Value → Nat
  | .table _ => s.tables.size
  | .closure _ => s.closures.size
  | .native _ => s.natives.size
  | .thread _ => s.threads.size
  | _ => 0

def address (s : Store) (v : Value) : UInt64 :=
  match s.shown.find? fun e => e.object.same v with
  | some e => e.address
  | none => s.surroundings.address s.shown s.mentions v

/-- Shows an object's address, which it keeps from then on. -/
def showAddress (s : Store) (v : Value) : String × Store :=
  if v.object?.isNone then ("", s)
  else
    let address := s.address v
    (Value.addressText address, { s with
      shown := ⟨v, address, s.population v⟩ :: s.shown.filter fun e => !e.object.same v })

def texts (s : Store) : List Value → List String
  | [] => []
  | v :: rest =>
    let (address, s) := s.showAddress v
    v.textAt address :: texts s rest

end Store

end RegisterVm
