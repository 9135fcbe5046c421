import RegisterVm.Machine.Native

/-!
Functions on tables as sequences: insertion, removal, concatenation, packing and unpacking.
-/

namespace RegisterVm.Sequence

def maxUnpack : Int := 1048576

def insert (t : ThreadRef) : Action NativeOutcome := do
  let ref ← checkTable t 1
  let size ← look fun s => (s.table ref).length
  match ← argumentCount t with
  | 2 =>
    let value ← checkAny t 2
    modify fun s => s.modifyTable ref fun x => x.setInteger (size + 1) value
    return .returns 0
  | 3 =>
    let position ← checkInteger t 2
    if position < 1 || (size : Int) + 1 < position then badArgument t 2 "position out of bounds"
    else
      let value ← checkAny t 3
      match ← look fun s => (s.table ref).insert position.toNat value with
      | .ok x =>
        modify fun s => s.modifyTable ref fun _ => x
        return .returns 0
      | .error e => badArgument t 2 e.message
  | _ => argumentError t "wrong number of arguments to 'insert'"

def remove (t : ThreadRef) : Action NativeOutcome := do
  let ref ← checkTable t 1
  let size ← look fun s => (s.table ref).length
  let position ← checkOptionalInteger t 2 size
  if position != (size : Int) && (position < 1 || (size : Int) + 1 < position) then
    badArgument t 2 "position out of bounds"
  else if position == (size : Int) + 1 || size == 0 then
    let value ← look fun s => (s.table ref).getInteger position
    modify fun s => s.modifyTable ref fun x => x.setInteger position .nil
    returnOne t value
  else
    match ← look fun s => (s.table ref).remove position.toNat with
    | .ok (value, x) =>
      modify fun s => s.modifyTable ref fun _ => x
      returnOne t value
    | .error e => badArgument t 2 e.message

structure ConcatFault where
  index : Int
  typeName : String

def concatFrom (x : Table) (separator : String) : Nat → Int → String → Except ConcatFault String
  | 0, _, line => .ok line
  | count + 1, index, line =>
    let value := x.getInteger index
    match value.concatText? with
    | none => .error ⟨index, value.typeName⟩
    | some s =>
      let line := line ++ s
      concatFrom x separator count (index + 1) (if count == 0 then line else line ++ separator)

def span (first last : Int) : Nat := (last - first + 1).toNat

def checkLast (t : ThreadRef) (ref : TableRef) (index : Nat) : Action Int := do
  match ← optional? t index with
  | none => look fun s => ((s.table ref).length : Int)
  | some _ => checkInteger t index

def concat (t : ThreadRef) : Action NativeOutcome := do
  let ref ← checkTable t 1
  let separator ← match ← optional? t 2 with
    | none => pure ""
    | some _ => checkString t 2
  let first ← checkOptionalInteger t 3 1
  let last ← checkLast t ref 4
  match ← look fun s => concatFrom (s.table ref) separator (span first last) first "" with
  | .ok line => returnOne t (.string line)
  | .error fault =>
    raiseText t ("invalid value (at index " ++ toString fault.index ++ ") in table for 'concat' ("
      ++ fault.typeName ++ ")")

def unpack (t : ThreadRef) : Action NativeOutcome := do
  let ref ← checkTable t 1
  let first ← checkOptionalInteger t 2 1
  let last ← checkLast t ref 3
  if last < first then return .returns 0
  else if maxUnpack ≤ last - first + 1 then raiseText t "too many results to unpack"
  else
    let count := span first last
    let values ← look fun s =>
      let x := s.table ref
      (List.range count).map fun (i : Nat) => x.getInteger (first + i)
    pushAll t values
    return .returns count

def pack (t : ThreadRef) : Action NativeOutcome := do
  let values ← arguments t
  let x := (Table.ofValues values).setString "n" (.integer values.size)
  let ref ← modifyGet fun s => s.newTable x
  returnOne t (.table ref)

end RegisterVm.Sequence
