import RegisterVm.Machine.Error
import RegisterVm.Machine.Surroundings
import RegisterVm.Machine.Thread
import RegisterVm.Prototype.Basic
import RegisterVm.Table.Traversal

/-!
The store holds every object that values refer to, and what the program has written. Objects are
never moved or reused, so a reference names the same object for good.
-/

namespace RegisterVm

/-- A captured variable: a slot of a thread's stack while the variable is live there, its own
value afterwards. -/
inductive Cell where
  | slot (thread : ThreadRef) (index : Nat)
  | closed (value : Value)
  deriving Inhabited

structure Closure where
  prototype : Prototype
  cells : Array CellRef
  deriving Inhabited

inductive Builtin where
  | assert | error | getmetatable | ipairs | next | pairs | pcall | print | rawequal | rawget
  | rawlen | rawset | select | setmetatable | tonumber | tostring | type
  | ipairsStep
  | create | resume | yield | status | running | wrap | isyieldable
  | wrapped
  | insert | remove | tableConcat | unpack | pack
  | abs | acos | asin | atan | ceil | cos | deg | exp | floor | fmod | log | max | min | modf
  | rad | random | randomseed | sin | sqrt | tan | tointeger | mathType | ult
  deriving DecidableEq, Repr, Inhabited

inductive NativeBody where
  | builtin (function : Builtin)
  | host (name : String)
  deriving DecidableEq, Repr, Inhabited

structure NativeFunction where
  name : String
  body : NativeBody
  bound : Array Value
  deriving Inhabited

structure Store where
  tables : Array Table
  cells : Array Cell
  closures : Array Closure
  natives : Array NativeFunction
  threads : Array Thread
  output : String
  surroundings : Surroundings
  generator : Generator
  reseeded : Nat
  shown : List Sighting
  deriving Inhabited

/-- Runs against a store; a failure keeps what was done before it. -/
abbrev Action := EStateM Error Store

namespace Store

def empty (surroundings : Surroundings := .standard) : Store :=
  ⟨#[], #[], #[], #[], #[], "", surroundings, surroundings.entropy 0, 1, []⟩

def table (s : Store) (ref : TableRef) : Table := s.tables.getD ref .empty

def closure (s : Store) (ref : ClosureRef) : Closure := s.closures.getD ref ⟨.empty, #[]⟩

def native (s : Store) (ref : NativeRef) : NativeFunction :=
  s.natives.getD ref ⟨"?", .host "?", #[]⟩

def thread (s : Store) (ref : ThreadRef) : Thread := s.threads.getD ref default

def modifyTable (s : Store) (ref : TableRef) (f : Table → Table) : Store :=
  { s with tables := s.tables.modify ref f }

def modifyThread (s : Store) (ref : ThreadRef) (f : Thread → Thread) : Store :=
  { s with threads := s.threads.modify ref f }

def newTable (s : Store) (t : Table) : TableRef × Store :=
  (s.tables.size, { s with tables := s.tables.push t })

def newCell (s : Store) (c : Cell) : CellRef × Store :=
  (s.cells.size, { s with cells := s.cells.push c })

def newClosure (s : Store) (c : Closure) : ClosureRef × Store :=
  (s.closures.size, { s with closures := s.closures.push c })

def newNative (s : Store) (n : NativeFunction) : NativeRef × Store :=
  (s.natives.size, { s with natives := s.natives.push n })

def newThread (s : Store) (th : Thread) : ThreadRef × Store :=
  (s.threads.size, { s with threads := s.threads.push th })

def newCoroutine (s : Store) (globals : TableRef) (limits : Limits) (entry : Value) :
    ThreadRef × Store :=
  s.newThread (((Thread.new false globals limits).put 0 entry).withTop 1)

def write (s : Store) (text : String) : Store := { s with output := s.output ++ text }

def metatable? (s : Store) : Value → Option TableRef
  | .table ref => (s.table ref).metatable
  | _ => none

def handler? (s : Store) (v : Value) (event : String) : Option Value :=
  match s.metatable? v with
  | some events =>
    let handler := (s.table events).getString event
    if handler.isNil then none else some handler
  | none => none

/-- The place of the instruction that a script frame is executing, as `source:line: `. -/
def framePlace (s : Store) (f : Frame) : String :=
  match f.callee with
  | .closure ref =>
    let p := (s.closure ref).prototype
    let source := p.sourceText.toList
    let source := match source with
      | '@' :: rest | '=' :: rest => rest
      | source => source
    match p.lines[f.pc - 1]? with
    | some line => String.ofList source ++ ":" ++ toString line.toNat ++ ": "
    | none => String.ofList source ++ ": "
  | _ => ""

def place (s : Store) (ref : ThreadRef) (level : Nat) : String :=
  match (s.thread ref).frames[level]? with
  | some f => s.framePlace f
  | none => ""

end Store

/-- Reads the store. What is read is computed at once, so that no later step holds on to the store
as it was. -/
@[noinline] def look {α : Type} (f : Store → α) : Action α := fun s => .ok (f s) s

def typeError {α : Type} (t : ThreadRef) (message : String) : Action α := do
  throw (.type ((← look fun s => s.place t 0) ++ message))

def overflowError {α : Type} (t : ThreadRef) : Action α := do
  throw (.overflow ((← look fun s => s.place t 0) ++ "stack overflow"))

def raiseText {α : Type} (t : ThreadRef) (message : String) : Action α := do
  throw (.user (.string ((← look fun s => s.place t 1) ++ message)))

def argumentError {α : Type} (t : ThreadRef) (message : String) : Action α := do
  throw (.argument ((← look fun s => s.place t 1) ++ message))

def invalid {α : Type} (message : String) : Action α := throw (.invalid message)

def modifyThread (t : ThreadRef) (f : Thread → Thread) : Action Unit :=
  modify fun s => s.modifyThread t f

def lookThread {α : Type} (t : ThreadRef) (f : Thread → α) : Action α :=
  look fun s => f (s.thread t)

def getSlot (t : ThreadRef) (index : Nat) : Action Value := lookThread t fun th => th.get index

def putSlotOf (t : ThreadRef) (index : Nat) (value : Value) : Action Unit :=
  modifyThread t fun th => th.put index value

def reserve (t : ThreadRef) (needed : Nat) : Action Unit := do
  if ← lookThread t fun th => th.fits needed then modifyThread t fun th => th.reserve needed
  else overflowError t

end RegisterVm
