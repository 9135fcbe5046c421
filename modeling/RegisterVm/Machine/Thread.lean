import RegisterVm.Machine.Frame

/-!
One thread of execution: a stack of value slots, the frames of the active calls, and the cells of
captured variables that still live in a slot. Slots beyond the stack read as nil.
-/

namespace RegisterVm

structure Limits where
  maxStack : Nat
  maxDepth : Nat
  deriving DecidableEq, Repr, Inhabited

def Limits.standard : Limits := ⟨1000000, 200⟩

def initialSlots : Nat := 40

def scratchSlots : Nat := 5

def nativeSlots : Nat := 20

inductive ThreadStatus where
  | fresh
  | running
  | suspended
  | dead
  deriving DecidableEq, Repr, Inhabited

structure Thread where
  stack : Array Value
  top : Nat
  frames : List Frame
  openCells : List (Nat × CellRef)
  status : ThreadStatus
  yielded : Array Value
  yielding : Bool
  /-- Calls in progress that no yield may leave. -/
  pinned : Nat
  isMain : Bool
  /-- The host or another thread is running this one. -/
  held : Bool
  globals : TableRef
  limits : Limits
  deriving Inhabited

def putSlot (stack : Array Value) (index : Nat) (value : Value) : Array Value :=
  if index < stack.size then stack.setIfInBounds index value
  else (stack ++ Array.replicate (index - stack.size) Value.nil).push value

def clearSlots (stack : Array Value) (start : Nat) : Nat → Array Value
  | 0 => stack
  | n + 1 => clearSlots (stack.setIfInBounds start .nil) (start + 1) n

def copySlots (stack : Array Value) (source target : Nat) : Nat → Array Value
  | 0 => stack
  | n + 1 =>
    copySlots (stack.setIfInBounds target (stack.getD source .nil)) (source + 1) (target + 1) n

def growTo (stack : Array Value) (size : Nat) : Array Value :=
  if size ≤ stack.size then stack else stack ++ Array.replicate (size - stack.size) Value.nil

namespace Thread

def new (isMain : Bool) (globals : TableRef) (limits : Limits) : Thread :=
  { stack := Array.replicate initialSlots .nil, top := 0, frames := [], openCells := [],
    status := if isMain then .running else .fresh, yielded := #[], yielding := false, pinned := 0,
    isMain, held := false, globals, limits }

def depth (th : Thread) : Nat := th.frames.length

def frame? (th : Thread) : Option Frame := th.frames.head?

/-- A yield issued now would be accepted. -/
def isYieldable (th : Thread) : Bool := !th.isMain && th.pinned == 0

def get (th : Thread) (index : Nat) : Value := th.stack.getD index .nil

def put (th : Thread) (index : Nat) (value : Value) : Thread :=
  { th with stack := putSlot th.stack index value }

def slots (th : Thread) (start stop : Nat) : Array Value := th.stack.extract start stop

def withTop (th : Thread) (top : Nat) : Thread := { th with top }

def clear (th : Thread) (start stop : Nat) : Thread :=
  { th with stack := clearSlots th.stack start (min stop th.stack.size - start) }

def moveSlots (th : Thread) (source target n : Nat) : Thread :=
  if n == 0 || source == target then th
  else { th with stack := copySlots (growTo th.stack (max source target + n)) source target n }

def putAll (th : Thread) (index : Nat) : List Value → Thread
  | [] => th
  | value :: rest => (th.put index value).putAll (index + 1) rest

def fits (th : Thread) (needed : Nat) : Bool := needed ≤ th.limits.maxStack

def reserve (th : Thread) (needed : Nat) : Thread :=
  if needed ≤ th.stack.size then th
  else
    let size := min (max (th.stack.size + th.stack.size / 2) needed) th.limits.maxStack
    { th with stack := growTo th.stack size }

def pushFrame (th : Thread) (f : Frame) : Thread := { th with frames := f :: th.frames }

def setPc (th : Thread) (pc : Nat) : Thread :=
  match th.frames with
  | f :: rest => { th with frames := { f with pc } :: rest }
  | [] => th

def markTail (th : Thread) : Thread :=
  match th.frames with
  | f :: rest => { th with frames := { f with isTail := true } :: rest }
  | [] => th

def keepFrames (frames : List Frame) (depth : Nat) : List Frame :=
  frames.drop (frames.length - depth)

/-- Ends the innermost call, whose `n` results start at `source`. The caller gets as many as it
wants, nil for those that are missing; slots that the call vacates are cleared. -/
def finish (th : Thread) (source n : Nat) : Thread :=
  match th.frames with
  | [] => th
  | f :: rest =>
    let wanted := f.wanted.getD n
    let copied := min n wanted
    let th := { th with frames := rest }
    let th := th.moveSlots source f.target copied
    let th := th.clear (f.target + copied) (f.target + wanted)
    let th := th.clear (max (f.target + wanted) f.slot) (max th.top f.top)
    match f.wanted, rest with
    | some _, caller :: _ =>
      match caller.kind with
      | .script => th.withTop caller.top
      | .native => th.withTop (f.target + wanted)
    | _, _ => th.withTop (f.target + wanted)

def argumentCount (th : Thread) : Nat :=
  match th.frame? with
  | some f => f.top - f.base
  | none => 0

def arguments (th : Thread) : Array Value :=
  match th.frame? with
  | some f => th.slots f.base f.top
  | none => #[]

def argument? (th : Thread) (index : Nat) : Option Value :=
  match th.frame? with
  | some f => if index == 0 || f.top < f.base + index then none else some (th.get (f.base + index - 1))
  | none => none

end Thread

end RegisterVm
