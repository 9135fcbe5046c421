import RegisterVm.Machine.Step
import RegisterVm.Prototype.Encoding

/-!
The machine as a host uses it: a main thread and a table of globals over one store. Every call
from the host runs the machine until nothing is in progress, or until its steps are used up.
-/

namespace RegisterVm

inductive Outcome where
  | returned (values : Array Value)
  | failed (e : Error)
  | unfinished
  deriving Inhabited

namespace Machine

def outcome (m : Machine) : Outcome :=
  match m.isFinished, m.control with
  | true, .done values => .returned values
  | true, .fail e => .failed e
  | _, _ => .unfinished

end Machine

/-- What runs of a host share: its functions, and how many steps a run may take. -/
structure Engine where
  host : Host
  steps : Nat

def Engine.standard : Engine := ⟨.bare, 1000000000000⟩

namespace Engine

def finish (engine : Engine) (m : Machine) : Outcome × Store :=
  let m := m.run engine.host engine.steps
  (m.outcome, m.store)

def setHeld (s : Store) (t : ThreadRef) (held : Bool) : Store :=
  s.modifyThread t fun th => { th with held }

def runHeld (engine : Engine) (s : Store) (t : ThreadRef) (start : Store → Machine) :
    Outcome × Store :=
  let (outcome, s) := engine.finish (start (setHeld s t true))
  (outcome, setHeld s t false)

def callSlot (engine : Engine) (s : Store) (t : ThreadRef) (slot arguments : Nat)
    (wanted : Option Nat) : Outcome × Store :=
  engine.runHeld s t fun s => Machine.beginCall s [] t slot arguments wanted

def guardSlot (engine : Engine) (s : Store) (t : ThreadRef) (slot arguments : Nat) :
    Outcome × Store :=
  engine.runHeld s t fun s => Machine.beginGuardedCall s [] t slot arguments

def callValue (engine : Engine) (s : Store) (t : ThreadRef) (callee : Value)
    (values : Array Value) : Outcome × Store :=
  engine.runHeld s t fun s => Machine.beginValueCall s [] t callee values

def callRestoring (engine : Engine) (s : Store) (t : ThreadRef) (callee : Value)
    (values : Array Value) : Outcome × Store :=
  engine.runHeld s t fun s => Machine.beginRestoringCall s [] t callee values

def resume (engine : Engine) (s : Store) (t : ThreadRef) (values : Array Value) :
    Outcome × Store :=
  engine.finish (Machine.beginResumption s [] t values)

end Engine

structure Vm where
  store : Store
  main : ThreadRef
  globals : TableRef
  limits : Limits
  deriving Inhabited

inductive Protected where
  | returned (values : Array Value)
  | raised (value : Value)
  | failed (e : Error)
  | unfinished
  deriving Inhabited

namespace Vm

def new (limits : Limits) (surroundings : Surroundings := .standard) : Vm :=
  let (globals, s) := (Store.empty surroundings).newTable .empty
  let (main, s) := s.newThread (.new true globals limits)
  ⟨s, main, globals, limits⟩

/-- Makes a closure of a prototype. Its first captured variable holds the globals, the others
start as nil. -/
def load (vm : Vm) (p : Prototype) : Value × Vm :=
  let (first, s) := vm.store.newCell (.closed (.table vm.globals))
  let (cells, s) := (List.range (p.captures.size - 1)).foldl (fun (cells, s) _ =>
    let (ref, s) := s.newCell (.closed .nil)
    (cells.push ref, s)) (#[first], s)
  let (ref, s) := s.newClosure ⟨p, cells⟩
  (.closure ref, { vm with store := s })

def loadBinary (vm : Vm) (bytes : List UInt8) : Except Error (Value × Vm) :=
  match Prototype.decode bytes with
  | .ok p => .ok (vm.load p)
  | .error e => .error (.invalid ("malformed binary chunk: " ++ e.message))

def call (engine : Engine) (vm : Vm) (callee : Value) (values : Array Value) : Outcome × Vm :=
  if (vm.store.thread vm.main).held then
    (.failed (.invalid "main thread is already running"), vm)
  else
    let (outcome, s) := engine.callRestoring vm.store vm.main callee values
    (outcome, { vm with store := s })

def execute (engine : Engine) (vm : Vm) (p : Prototype) : Outcome × Vm :=
  let (callee, vm) := vm.load p
  vm.call engine callee #[]

def pcall (engine : Engine) (vm : Vm) (callee : Value) (values : Array Value) :
    Protected × Vm :=
  match vm.call engine callee values with
  | (.returned values, vm) => (.returned values, vm)
  | (.failed e, vm) => (if e.isCatchable then .raised e.value else .failed e, vm)
  | (.unfinished, vm) => (.unfinished, vm)

def resume (engine : Engine) (vm : Vm) (co : Value) (values : Array Value) : Outcome × Vm :=
  match co with
  | .thread t =>
    if (vm.store.thread t).held then (.failed (.invalid Coroutine.runningRefusal), vm)
    else
      let (outcome, s) := engine.resume vm.store t values
      (outcome, { vm with store := s })
  | other => (.failed (.invalid ("cannot resume a " ++ other.typeName ++ " value")), vm)

def getGlobal (vm : Vm) (name : String) : Value := (vm.store.table vm.globals).getString name

def setGlobal (vm : Vm) (name : String) (value : Value) : Vm :=
  { vm with store := vm.store.modifyTable vm.globals fun t => t.setString name value }

def newTable (vm : Vm) (t : Table) : Value × Vm :=
  let (ref, s) := vm.store.newTable t
  (.table ref, { vm with store := s })

def newNative (vm : Vm) (n : NativeFunction) : Value × Vm :=
  let (ref, s) := vm.store.newNative n
  (.native ref, { vm with store := s })

def newThread (vm : Vm) (entry : Value) : Value × Vm :=
  let (ref, s) := vm.store.newCoroutine vm.globals vm.limits entry
  (.thread ref, { vm with store := s })

end Vm

end RegisterVm
