import RegisterVm.Machine.Store

/-!
Reading and writing fields through metatables. A table that lacks a key passes the access on to
the value in its metatable's `__index` or `__newindex` field: a function is to be called, anything
else takes the place of the table. A chain of 2000 links is taken for a loop.
-/

namespace RegisterVm

def maxChain : Nat := 2000

inductive Access (α : Type) where
  | done (result : α)
  | call (handler receiver : Value)
  | fail (message : String)
  deriving Inhabited

def indexFailure (v : Value) : String := "attempt to index a " ++ v.typeName ++ " value"

namespace Store

def readChain (s : Store) (key : Value) : Nat → Value → Access Value
  | 0, _ => .fail "'__index' chain too long; possible loop"
  | fuel + 1, object =>
    match object with
    | .table ref =>
      let value := (s.table ref).get key
      if !value.isNil then .done value
      else
        match s.handler? object "__index" with
        | none => .done .nil
        | some handler =>
          if handler.isFunction then .call handler object else readChain s key fuel handler
    | other => .fail (indexFailure other)

def writeChain (s : Store) (key : Value) : Nat → Value → Access TableRef
  | 0, _ => .fail "'__newindex' chain too long; possible loop"
  | fuel + 1, object =>
    match object with
    | .table ref =>
      if (s.table ref).contains key then .done ref
      else
        match s.handler? object "__newindex" with
        | none => .done ref
        | some handler =>
          if handler.isFunction then .call handler object else writeChain s key fuel handler
    | other => .fail (indexFailure other)

/-- Reads a field. A raw hit, and a miss in a table without a metatable, need no chain. -/
def readField (s : Store) (object key : Value) : Access Value :=
  match object with
  | .table ref =>
    let t := s.table ref
    let value := t.get key
    if !value.isNil || t.metatable.isNone then .done value else s.readChain key maxChain object
  | _ => s.readChain key maxChain object

/-- Finds the table that a field is to be written to. A table without a metatable is the one. -/
def fieldOwner (s : Store) (object key : Value) : Access TableRef :=
  match object with
  | .table ref =>
    if (s.table ref).metatable.isNone then .done ref else s.writeChain key maxChain object
  | _ => s.writeChain key maxChain object

end Store

def Store.setRaw (s : Store) (ref : TableRef) (key value : Value) : Store :=
  s.modifyTable ref fun t => t.assign key value

end RegisterVm
