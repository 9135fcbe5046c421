import RegisterVm.Machine.Cell

/-!
Entering and leaving calls. Entering a script closure pushes a frame and leaves the rest to the
machine; entering a native function pushes a frame and says which function is to run.
-/

namespace RegisterVm

inductive Entered where
  | script
  | native (body : NativeBody)
  deriving Repr

/-- Where the arguments of a script call come to lie: register 0, and how many arguments beyond
the parameters stay below it. -/
structure ArgumentPlan where
  base : Nat
  extras : Nat
  firstFree : Nat
  deriving DecidableEq, Repr

/-- The parameters of a variadic function move above its extra arguments. -/
def argumentPlan (p : Prototype) (slot arguments : Nat) : ArgumentPlan :=
  if p.isVararg && p.parameters < arguments then
    ⟨slot + 1 + arguments, arguments - p.parameters, slot + 1 + arguments + p.parameters⟩
  else ⟨slot + 1, 0, slot + 1 + min arguments p.parameters⟩

namespace Thread

def arrange (th : Thread) (p : Prototype) (slot arguments : Nat) : Thread :=
  let plan := argumentPlan p slot arguments
  let th :=
    if 0 < plan.extras then
      (th.moveSlots (slot + 1) plan.base p.parameters).clear (slot + 1) (slot + 1 + p.parameters)
    else if p.parameters < arguments then
      th.clear (slot + 1 + p.parameters) (slot + 1 + arguments)
    else th
  th.clear plan.firstFree (max (plan.base + p.frameSize) th.top)

def enterScript (th : Thread) (p : Prototype) (callee : Value) (slot arguments target : Nat)
    (wanted : Option Nat) : Thread :=
  let plan := argumentPlan p slot arguments
  let yieldable := th.isYieldable
  let top := plan.base + p.frameSize
  ((th.arrange p slot arguments).pushFrame
    { callee, kind := .script, slot, base := plan.base, top, pc := 0, extras := plan.extras,
      wanted, target, isTail := false, yieldable }).withTop top

def enterNative (th : Thread) (callee : Value) (slot arguments target : Nat)
    (wanted : Option Nat) : Thread :=
  (th.pushFrame { Frame.native callee slot arguments with
    wanted, target, yieldable := th.isYieldable }).withTop (slot + 1 + arguments)

end Thread

def enterCall (t : ThreadRef) (slot arguments target : Nat) (wanted : Option Nat) :
    Action Entered := do
  if ← lookThread t fun th => decide (th.limits.maxDepth ≤ th.depth) then overflowError t
  else
    match ← getSlot t slot with
    | .closure ref =>
      let p ← look fun s => (s.closure ref).prototype
      reserve t ((argumentPlan p slot arguments).base + p.frameSize + scratchSlots)
      modifyThread t fun th => th.enterScript p (.closure ref) slot arguments target wanted
      return .script
    | .native ref =>
      let body ← look fun s => (s.native ref).body
      reserve t (slot + 1 + arguments + nativeSlots)
      modifyThread t fun th => th.enterNative (.native ref) slot arguments target wanted
      return .native body
    | other => typeError t ("attempt to call a " ++ other.typeName ++ " value")

def layOut (t : ThreadRef) (callee : Value) (arguments : Array Value) : Action Nat := do
  let slot ← lookThread t fun th => th.top
  reserve t (slot + 1 + arguments.size)
  modifyThread t fun th =>
    (th.putAll slot (callee :: arguments.toList)).withTop (slot + 1 + arguments.size)
  return slot

def finishNative (t : ThreadRef) (count : Nat) : Action Unit :=
  modifyThread t fun th =>
    if th.yielding then th
    else
      let n := min count th.top
      th.finish (th.top - n) n

/-- Drops the frames above `depth` and the values from `level` up, after closing the cells that
live there. -/
def Store.unwind (s : Store) (t : ThreadRef) (level depth : Nat) : Store :=
  let th := s.thread t
  let dropped := th.frames.take (th.frames.length - depth)
  let high := dropped.foldl (fun high f => max high f.top) th.top
  (s.closeCells t level).modifyThread t fun th =>
    ({ th with frames := Thread.keepFrames th.frames depth, yielding := false }.clear level
      high).withTop level

end RegisterVm
