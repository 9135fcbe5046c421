import RegisterVm.Value

/-!
The record of one active call. A frame owns the stack slots from its base up to its top; extra
arguments of a variadic function lie just below the base.
-/

namespace RegisterVm

inductive FrameKind where
  | script
  | native
  deriving DecidableEq, Repr, Inhabited

structure Frame where
  callee : Value
  kind : FrameKind
  slot : Nat
  base : Nat
  top : Nat
  pc : Nat
  extras : Nat
  /-- How many results the caller takes; all of them when absent. -/
  wanted : Option Nat
  /-- The slot where the first result is delivered. -/
  target : Nat
  isTail : Bool
  yieldable : Bool
  deriving Inhabited

namespace Frame

def script (callee : Value) (slot base top : Nat) : Frame :=
  ⟨callee, .script, slot, base, top, 0, 0, none, slot, false, false⟩

def native (callee : Value) (slot arguments : Nat) : Frame :=
  ⟨callee, .native, slot, slot + 1, slot + 1 + arguments, 0, 0, none, slot, false, false⟩

/-- The status word: script, native, tail and yieldable frames are bits 0 to 3. -/
def status (f : Frame) : Nat :=
  (match f.kind with
    | .script => 1
    | .native => 2)
  + (if f.isTail then 4 else 0) + (if f.yieldable then 8 else 0)

end Frame

end RegisterVm
