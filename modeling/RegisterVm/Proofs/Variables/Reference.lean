import RegisterVm.Machine.Cell

/-!
Captured variables, twice. A session runs operations on the slots and cells of a new thread; the
reference model gives each captured slot one mutable cell that the register and every handle share.
-/

namespace RegisterVm.Capture

inductive Operation where
  | setSlot (index : Nat) (value : Value)
  | getSlot (index : Nat)
  | capture (index : Nat)
  | getCell (handle : Nat)
  | setCell (handle : Nat) (value : Value)
  | close (level : Nat)
  | drop

/-- What an operation answers. A captured cell is named by the first handle that has it; `gone` is
the answer of an operation on a dropped thread or on a handle that was never given out. -/
inductive Reply where
  | done
  | gone
  | value (v : Value)
  | cell (first : Nat)

structure Session where
  store : Store
  thread : ThreadRef
  handles : List CellRef
  alive : Bool

namespace Session

def start (s : Store) (isMain : Bool) (globals : TableRef) (limits : Limits) : Session :=
  let (thread, store) := s.newThread (Thread.new isMain globals limits)
  ⟨store, thread, [], true⟩

def step (session : Session) : Operation → Session × Reply
  | .setSlot index value =>
    if session.alive then
      ({ session with
          store := session.store.modifyThread session.thread fun th => th.put index value }, .done)
    else (session, .gone)
  | .getSlot index =>
    if session.alive then (session, .value ((session.store.thread session.thread).get index))
    else (session, .gone)
  | .capture index =>
    if session.alive then
      let (ref, store) := session.store.captureSlot session.thread index
      let handles := session.handles ++ [ref]
      ({ session with store, handles }, .cell (handles.idxOf ref))
    else (session, .gone)
  | .getCell handle =>
    match session.handles[handle]? with
    | some ref => (session, .value (session.store.readCell ref))
    | none => (session, .gone)
  | .setCell handle value =>
    match session.handles[handle]? with
    | some ref => ({ session with store := session.store.writeCell ref value }, .done)
    | none => (session, .gone)
  | .close level =>
    if session.alive then
      ({ session with store := session.store.closeCells session.thread level }, .done)
    else (session, .gone)
  | .drop =>
    if session.alive then
      ({ session with store := session.store.dropThread session.thread, alive := false }, .done)
    else (session, .gone)

def replies (session : Session) : List Operation → List Reply
  | [] => []
  | operation :: rest => (session.step operation).2 :: (session.step operation).1.replies rest

end Session

/-- The reference model. A captured slot has a cell, which then holds its value. -/
structure Variables where
  slots : Nat → Value
  captured : Nat → Option Nat
  cells : Nat → Value
  count : Nat
  handles : List Nat
  alive : Bool

namespace Variables

def start : Variables := ⟨fun _ => .nil, fun _ => none, fun _ => .nil, 0, [], true⟩

def read (vars : Variables) (index : Nat) : Value :=
  match vars.captured index with
  | some cell => vars.cells cell
  | none => vars.slots index

def setCell (vars : Variables) (cell : Nat) (value : Value) : Variables :=
  { vars with cells := fun c => if c = cell then value else vars.cells c }

def write (vars : Variables) (index : Nat) (value : Value) : Variables :=
  match vars.captured index with
  | some cell => vars.setCell cell value
  | none => { vars with slots := fun i => if i = index then value else vars.slots i }

def capture (vars : Variables) (index : Nat) : Nat × Variables :=
  match vars.captured index with
  | some cell => (cell, vars)
  | none =>
    (vars.count, { vars with
      captured := fun i => if i = index then some vars.count else vars.captured i
      cells := fun c => if c = vars.count then vars.slots index else vars.cells c
      count := vars.count + 1 })

def detach (vars : Variables) (level : Nat) : Variables :=
  { vars with
    slots := fun i => if level ≤ i then vars.read i else vars.slots i
    captured := fun i => if level ≤ i then none else vars.captured i }

def step (vars : Variables) : Operation → Variables × Reply
  | .setSlot index value => if vars.alive then (vars.write index value, .done) else (vars, .gone)
  | .getSlot index => if vars.alive then (vars, .value (vars.read index)) else (vars, .gone)
  | .capture index =>
    if vars.alive then
      let (cell, after) := vars.capture index
      let handles := vars.handles ++ [cell]
      ({ after with handles }, .cell (handles.idxOf cell))
    else (vars, .gone)
  | .getCell handle =>
    match vars.handles[handle]? with
    | some cell => (vars, .value (vars.cells cell))
    | none => (vars, .gone)
  | .setCell handle value =>
    match vars.handles[handle]? with
    | some cell => (vars.setCell cell value, .done)
    | none => (vars, .gone)
  | .close level => if vars.alive then (vars.detach level, .done) else (vars, .gone)
  | .drop => if vars.alive then ({ vars.detach 0 with alive := false }, .done) else (vars, .gone)

def run (vars : Variables) (operations : List Operation) : Variables :=
  operations.foldl (fun vars operation => (vars.step operation).1) vars

def replies (vars : Variables) : List Operation → List Reply
  | [] => []
  | operation :: rest => (vars.step operation).2 :: (vars.step operation).1.replies rest

end Variables

def Operation.detaches (index : Nat) : Operation → Prop
  | .close level => level ≤ index
  | .drop => True
  | _ => False

end RegisterVm.Capture
