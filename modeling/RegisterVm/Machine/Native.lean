import RegisterVm.Machine.Call

/-!
What native functions can do: look at their arguments, check them, push results, and ask the
machine for a call. A native function that asks for a call goes on when the call has ended, from
what it left to remember.
-/

namespace RegisterVm

inductive Pending where
  | pairs
  | tostring
  | print (line : String) (rest : List Value)
  | protectedCall
  | resumed
  | wrapped
  | host (name : String)
  deriving Inhabited

/-- How a native function leaves off. -/
inductive NativeOutcome where
  | returns (count : Nat)
  /-- It wants a value called; with `restoring`, a failure leaves the stack as it was. -/
  | calls (callee : Value) (arguments : Array Value) (restoring : Bool) (next : Pending)
  | protects (slot arguments : Nat) (next : Pending)
  | resumes (thread : ThreadRef) (arguments : Array Value) (next : Pending)
  deriving Inhabited

abbrev CallResult := Except Error (Array Value)

def argument? (t : ThreadRef) (index : Nat) : Action (Option Value) :=
  lookThread t fun th => th.argument? index

def argumentCount (t : ThreadRef) : Action Nat := lookThread t fun th => th.argumentCount

def arguments (t : ThreadRef) : Action (Array Value) := lookThread t fun th => th.arguments

def push (t : ThreadRef) (value : Value) : Action Unit := do
  let top ← lookThread t fun th => th.top
  reserve t (top + 1)
  modifyThread t fun th => (th.put top value).withTop (top + 1)

def pushAll (t : ThreadRef) : List Value → Action Unit
  | [] => return
  | value :: rest => do
    push t value
    pushAll t rest

def returnOne (t : ThreadRef) (value : Value) : Action NativeOutcome := do
  push t value
  return .returns 1

def setArgument (t : ThreadRef) (index : Nat) (value : Value) : Action Unit := do
  match ← lookThread t fun th => th.frame?.map Frame.base with
  | some base => if 0 < index then putSlotOf t (base + index - 1) value
  | none => return

def currentNative? (t : ThreadRef) : Action (Option NativeFunction) := look fun s =>
  match (s.thread t).frame?.map Frame.callee with
  | some (.native ref) => some (s.native ref)
  | _ => none

def boundValue (t : ThreadRef) (index : Nat) : Action Value := do
  match ← currentNative? t with
  | some native => return native.bound.getD index .nil
  | none => return .nil

def badArgument {α : Type} (t : ThreadRef) (index : Nat) (why : String) : Action α := do
  let name := match ← currentNative? t with
    | some native => native.name
    | none => "?"
  argumentError t ("bad argument #" ++ toString index ++ " to '" ++ name ++ "' (" ++ why ++ ")")

def kindName : Option Value → String
  | some v => v.typeName
  | none => "no value"

def expected {α : Type} (t : ThreadRef) (index : Nat) (what : String) : Action α := do
  badArgument t index (what ++ " expected, got " ++ kindName (← argument? t index))

def checkAny (t : ThreadRef) (index : Nat) : Action Value := do
  match ← argument? t index with
  | some v => return v
  | none => badArgument t index "value expected"

def checkTable (t : ThreadRef) (index : Nat) : Action TableRef := do
  match ← argument? t index with
  | some (.table ref) => return ref
  | _ => expected t index "table"

def checkNumber (t : ThreadRef) (index : Nat) : Action Float := do
  match (← argument? t index).bind Value.toNumber? with
  | some n => return n
  | none => expected t index "number"

def checkInteger (t : ThreadRef) (index : Nat) : Action Int := do
  match Number.toInteger? (← checkNumber t index) with
  | some i => return i
  | none => badArgument t index "number has no integer representation"

def checkString (t : ThreadRef) (index : Nat) : Action String := do
  match (← argument? t index).bind Value.concatText? with
  | some s => return s
  | none => expected t index "string"

def optional? (t : ThreadRef) (index : Nat) : Action (Option Value) := do
  match ← argument? t index with
  | some .nil => return none
  | other => return other

def checkOptionalInteger (t : ThreadRef) (index : Nat) (fallback : Int) : Action Int := do
  match ← optional? t index with
  | none => return fallback
  | some _ => checkInteger t index

/-- Suspends the running coroutine, which hands out the arguments of its innermost call. -/
def yieldArguments (t : ThreadRef) : Action NativeOutcome := do
  if ← lookThread t fun th => th.isMain then
    raiseText t "attempt to yield from outside a coroutine"
  else if ← lookThread t fun th => !(th.frame?.map Frame.yieldable).getD false then
    raiseText t "attempt to yield across a C-call boundary"
  else
    modifyThread t fun th => { th with yielded := th.arguments, yielding := true }
    return .returns 0

/-- Functions that a host adds to the library: what each does on being called, and how it goes on
after a call that it asked for. -/
structure Host where
  enter : String → ThreadRef → Action NativeOutcome
  resume : String → ThreadRef → CallResult → Action NativeOutcome

def Host.bare : Host where
  enter := fun _ _ => invalid "unknown host function"
  resume := fun _ _ _ => invalid "unknown host function"

end RegisterVm
