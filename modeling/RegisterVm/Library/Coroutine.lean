import RegisterVm.Library.Basic

/-!
Coroutines for scripts: making them, resuming them, yielding from them and asking for their
state.
-/

namespace RegisterVm.Coroutine

def checkFunction (t : ThreadRef) (index : Nat) : Action Value := do
  match ← argument? t index with
  | some v => if v.isFunction then return v else expected t index "function"
  | none => expected t index "function"

def checkThread (t : ThreadRef) (index : Nat) : Action ThreadRef := do
  match ← argument? t index with
  | some (.thread ref) => return ref
  | _ => expected t index "coroutine"

def runningRefusal : String := "cannot resume non-suspended coroutine"

def deadRefusal : String := "cannot resume dead coroutine"

/-- Why thread `current` may not resume a coroutine; nothing if it may. -/
def refusal? (s : Store) (current co : ThreadRef) : Option String :=
  let th := s.thread co
  if current == co || th.held then some runningRefusal
  else
    match th.status with
    | .fresh | .suspended => none
    | .running => some runningRefusal
    | .dead => some deadRefusal

def newCoroutine (t : ThreadRef) (entry : Value) : Action Value :=
  modifyGet fun s =>
    let globals := (s.thread t).globals
    let limits := (s.thread t).limits
    let (ref, s) := s.newCoroutine globals limits entry
    (.thread ref, s)

def create (t : ThreadRef) : Action NativeOutcome := do
  let entry ← checkFunction t 1
  returnOne t (← newCoroutine t entry)

def failed (t : ThreadRef) (value : Value) : Action NativeOutcome := do
  push t (.boolean false)
  push t value
  return .returns 2

def resume (t : ThreadRef) : Action NativeOutcome := do
  let co ← checkThread t 1
  match ← look fun s => refusal? s t co with
  | some message => failed t (.string message)
  | none =>
    let values ← arguments t
    return .resumes co (values.extract 1 values.size) .resumed

def resumeResults (t : ThreadRef) : CallResult → Action NativeOutcome
  | .ok values => do
    push t (.boolean true)
    pushAll t values.toList
    return .returns (values.size + 1)
  | .error e => if e.isCatchable then failed t e.value else throw e

def statusName (s : Store) (current co : ThreadRef) : String :=
  let th := s.thread co
  if current == co then "running"
  else if th.held then "normal"
  else
    match th.status with
    | .fresh | .suspended => "suspended"
    | .running => "normal"
    | .dead => "dead"

def status (t : ThreadRef) : Action NativeOutcome := do
  let co ← checkThread t 1
  returnOne t (.string (← look fun s => statusName s t co))

def running (t : ThreadRef) : Action NativeOutcome := do
  push t (.thread t)
  push t (.boolean (← lookThread t fun th => th.isMain))
  return .returns 2

def wrap (t : ThreadRef) : Action NativeOutcome := do
  let entry ← checkFunction t 1
  let co ← newCoroutine t entry
  returnOne t (← Basic.newNative "wrap" .wrapped #[co])

def wrapped (t : ThreadRef) : Action NativeOutcome := do
  match ← boundValue t 0 with
  | .thread co =>
    match ← look fun s => refusal? s t co with
    | some message => raiseText t message
    | none => return .resumes co (← arguments t) .wrapped
  | _ => invalid "wrapped coroutine lost its thread"

def wrappedResults (t : ThreadRef) : CallResult → Action NativeOutcome
  | .ok values => do
    pushAll t values.toList
    return .returns values.size
  | .error e => if e.isCatchable then throw (.user e.value) else throw e

def isyieldable (t : ThreadRef) : Action NativeOutcome := do
  returnOne t (.boolean (← lookThread t fun th => th.isYieldable))

end RegisterVm.Coroutine
