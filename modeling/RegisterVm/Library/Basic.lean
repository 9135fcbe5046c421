import RegisterVm.Machine.Native
import RegisterVm.Number.Numeral

/-!
The basic functions: errors, raw access, metatables, traversal, conversion and output.
-/

namespace RegisterVm.Basic

inductive Rendering where
  | text (s : String)
  | handler (callee : Value)

def rendering (v : Value) : Action Rendering := do
  match ← look fun s => s.handler? v "__tostring" with
  | some handler => return .handler handler
  | none =>
    let address ← modifyGet fun s => s.showAddress v
    match ← look fun s => s.handler? v "__name" with
    | some (.string name) => return .text (name ++ ": " ++ address)
    | _ => return .text (v.textAt address)

def renderedText (t : ThreadRef) (results : Array Value) : Action String := do
  match (results.getD 0 .nil).concatText? with
  | some s => return s
  | none => raiseText t "'__tostring' must return a string"

def tostring (t : ThreadRef) : Action NativeOutcome := do
  let v ← checkAny t 1
  match ← rendering v with
  | .text s => returnOne t (.string s)
  | .handler callee => return .calls callee #[v] false .tostring

def printFrom (line : String) (isFirst : Bool) : List Value → Action NativeOutcome
  | [] => do
    modify fun s => s.write (line ++ "\n")
    return .returns 0
  | v :: rest => do
    let line := if isFirst then line else line ++ "\t"
    match ← rendering v with
    | .text s => printFrom (line ++ s) false rest
    | .handler callee => return .calls callee #[v] false (.print line rest)

def print (t : ThreadRef) : Action NativeOutcome := do printFrom "" true (← arguments t).toList

def type (t : ThreadRef) : Action NativeOutcome := do
  returnOne t (.string (← checkAny t 1).typeName)

def assert (t : ThreadRef) : Action NativeOutcome := do
  let v ← checkAny t 1
  if v.isTruthy then return .returns (← argumentCount t)
  else
    match ← argument? t 2 with
    | some message => throw (.user message)
    | none => raiseText t "assertion failed!"

def error (t : ThreadRef) : Action NativeOutcome := do
  let v := (← argument? t 1).getD .nil
  let level ← checkOptionalInteger t 2 1
  match v with
  | .string message =>
    if 0 < level then
      throw (.user (.string ((← look fun s => s.place t level.toNat) ++ message)))
    else throw (.user v)
  | _ => throw (.user v)

def ofNumber? : Option Float → Value
  | some n => .number n
  | none => .nil

def tonumber (t : ThreadRef) : Action NativeOutcome := do
  match ← optional? t 2 with
  | none => returnOne t (ofNumber? (← checkAny t 1).toNumber?)
  | some _ =>
    let base ← checkInteger t 2
    if base < 2 || 36 < base then badArgument t 2 "base out of range"
    else
      match ← argument? t 1 with
      | some (.string s) => returnOne t (ofNumber? (Number.ofTextInBase? base.toNat s))
      | _ => badArgument t 1 "string expected"

def selected? (count : Nat) (index : Int) : Option Nat :=
  if index < 0 then if count < index.natAbs then none else some index.natAbs
  else if index == 0 then none
  else some (count - min (index.toNat - 1) count)

def select (t : ThreadRef) : Action NativeOutcome := do
  let selector ← checkAny t 1
  let count := (← argumentCount t) - 1
  if selector.same (.string "#") then returnOne t (.integer count)
  else
    match selected? count (← checkInteger t 1) with
    | some n => return .returns n
    | none => badArgument t 1 "index out of range"

def newNative (name : String) (function : Builtin) (bound : Array Value) : Action Value :=
  modifyGet fun s =>
    let (ref, s) := s.newNative ⟨name, .builtin function, bound⟩
    (.native ref, s)

def ipairs (t : ThreadRef) : Action NativeOutcome := do
  let target ← checkAny t 1
  push t (← newNative "ipairs_aux" .ipairsStep #[])
  push t target
  push t (.integer 0)
  return .returns 3

def successor (i : Int) : Int := Number.signedOf (Number.wordOf (i + 1))

def ipairsStep (t : ThreadRef) : Action NativeOutcome := do
  let ref ← checkTable t 1
  let i := successor (← checkInteger t 2)
  let value ← look fun s => (s.table ref).getInteger i
  if value.isNil then returnOne t .nil
  else
    push t (.integer i)
    push t value
    return .returns 2

def pairs (t : ThreadRef) : Action NativeOutcome := do
  let target ← checkAny t 1
  match ← look fun s => s.handler? target "__pairs" with
  | some handler => return .calls handler #[target] false .pairs
  | none =>
    if !target.isTable then badArgument t 1 ("table expected, got " ++ target.typeName)
    else
      push t (← newNative "next" .next #[])
      push t target
      push t .nil
      return .returns 3

def pairsResults (t : ThreadRef) (results : Array Value) : Action NativeOutcome := do
  pushAll t [results.getD 0 .nil, results.getD 1 .nil, results.getD 2 .nil]
  return .returns 3

def next (t : ThreadRef) : Action NativeOutcome := do
  let ref ← checkTable t 1
  let key := (← argument? t 2).getD .nil
  match ← look fun s => (s.table ref).next key with
  | .ok (some (key, value)) =>
    push t key
    push t value
    return .returns 2
  | .ok none => returnOne t .nil
  | .error e => raiseText t e.message

def pcall (t : ThreadRef) : Action NativeOutcome := do
  let _ ← checkAny t 1
  let base ← lookThread t fun th => (th.frame?.map Frame.base).getD 0
  return .protects base ((← argumentCount t) - 1) .protectedCall

def pcallResults (t : ThreadRef) (success : Bool) : Action NativeOutcome := do
  let base ← lookThread t fun th => (th.frame?.map Frame.base).getD 0
  let count ← lookThread t fun th => th.top - base
  modifyThread t fun th =>
    let values := (List.range count).map fun i => th.get (base + i)
    (th.putAll base (.boolean success :: values)).withTop (base + 1 + count)
  return .returns (count + 1)

def getmetatable (t : ThreadRef) : Action NativeOutcome := do
  let v ← checkAny t 1
  let result ← look fun s =>
    match s.metatable? v with
    | some ref =>
      let guard := (s.table ref).getString "__metatable"
      if guard.isNil then Value.table ref else guard
    | none => .nil
  returnOne t result

def isProtected (s : Store) (ref : TableRef) : Bool := (s.handler? (.table ref) "__metatable").isSome

def setmetatable (t : ThreadRef) : Action NativeOutcome := do
  let ref ← checkTable t 1
  let metatable ← match ← argument? t 2 with
    | some .nil => pure none
    | some (.table metatable) => pure (some metatable)
    | _ => badArgument t 2 "nil or table expected"
  if ← look fun s => isProtected s ref then raiseText t "cannot change a protected metatable"
  else
    modify fun s => s.modifyTable ref fun x => x.withMetatable metatable
    returnOne t (.table ref)

def rawequal (t : ThreadRef) : Action NativeOutcome := do
  let left ← checkAny t 1
  let right ← checkAny t 2
  returnOne t (.boolean (left.same right))

def rawget (t : ThreadRef) : Action NativeOutcome := do
  let ref ← checkTable t 1
  let key ← checkAny t 2
  returnOne t (← look fun s => (s.table ref).get key)

def rawset (t : ThreadRef) : Action NativeOutcome := do
  let ref ← checkTable t 1
  let key ← checkAny t 2
  let value ← checkAny t 3
  match Table.keyError? key with
  | some e => raiseText t e.message
  | none =>
    modify fun s => s.modifyTable ref fun x => x.assign key value
    returnOne t (.table ref)

def rawlen (t : ThreadRef) : Action NativeOutcome := do
  match ← argument? t 1 with
  | some (.table ref) => returnOne t (.integer (← look fun s => (s.table ref).length))
  | some (.string s) => returnOne t (.integer s.utf8ByteSize)
  | _ => badArgument t 1 "table or string expected"

end RegisterVm.Basic
