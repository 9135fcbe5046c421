import RegisterVm.Prototype.Basic

/-!
Assembling a prototype instruction by instruction. The builder shares equal constants, records
the current source line with each instruction, and on finishing appends a return if the code does
not end in one and sizes the register window to what the code touches.
-/

namespace RegisterVm

structure Builder where
  prototype : Prototype
  line : UInt32
  windowGiven : Bool
  deriving Inhabited

def Constant.same (x y : Constant) : Bool := x.value.same y.value

namespace Builder

def new (source : String) : Builder := ⟨⟨#[], #[], #[], #[], 0, false, 0, some source, #[], #[], 0, 0⟩, 1, false⟩

def parameters (b : Builder) (n : Nat) : Builder :=
  { b with prototype := { b.prototype with parameters := n } }

def vararg (b : Builder) : Builder :=
  { b with prototype := { b.prototype with isVararg := true } }

def window (b : Builder) (n : Nat) : Builder :=
  { b with prototype := { b.prototype with window := n }, windowGiven := true }

def lines (b : Builder) (first last : UInt32) : Builder :=
  { b with prototype := { b.prototype with firstLine := first, lastLine := last } }

def atLine (b : Builder) (line : UInt32) : Builder := { b with line }

def constant (b : Builder) (k : Constant) : Nat × Builder :=
  match b.prototype.constants.findIdx? (·.same k) with
  | some index => (index, b)
  | none =>
    (b.prototype.constants.size,
      { b with prototype := { b.prototype with constants := b.prototype.constants.push k } })

def operand (b : Builder) (k : Constant) : Nat × Builder :=
  let (index, b) := b.constant k
  (Instruction.constantOperand index, b)

def pc (b : Builder) : Nat := b.prototype.code.size

def emit (b : Builder) (i : Instruction) : Builder :=
  { b with prototype := { b.prototype with
      code := b.prototype.code.push i, lines := b.prototype.lines.push b.line } }

/-- Loads a constant into a register, through an extra word if its index needs more than Bx. -/
def loadConstant (b : Builder) (register : Nat) (k : Constant) : Builder :=
  let (index, b) := b.constant k
  if index ≤ Instruction.maxBx then b.emit (.abx .loadK register index)
  else (b.emit (.abx .loadKX register 0)).emit (.ofAx .extraArg index)

def patchJump (b : Builder) (pc target : Nat) : Builder :=
  { b with prototype := { b.prototype with
      code := b.prototype.code.modify pc fun i => i.setSbx ((target : Int) - (pc + 1)) } }

def capture (b : Builder) (c : Capture) : Builder :=
  { b with prototype := { b.prototype with captures := b.prototype.captures.push c } }

def child (b : Builder) (p : Prototype) : Builder :=
  { b with prototype := { b.prototype with children := b.prototype.children.push p } }

def localRange (b : Builder) (l : LocalRange) : Builder :=
  { b with prototype := { b.prototype with locals := b.prototype.locals.push l } }

end Builder

namespace Instruction

def pastOperand (operand : Nat) : Nat := if isConstant operand then 0 else operand + 1

def pastTarget (i : Instruction) (op : Opcode) : Nat :=
  match op with
  | .jump | .extraArg | .setTabCell => 0
  | .loadNil => i.a + i.b + 1
  | .selfCall => i.a + 2
  | .call => i.a + max (max i.b i.c) 1
  | .tailCall | .ret | .vararg | .setList => i.a + max i.b 1
  | .forLoop | .forPrep => i.a + 4
  | .iterCall => i.a + 3 + max i.c 1
  | .iterLoop => i.a + 2
  | _ => i.a + 1

def pastSource (i : Instruction) (op : Opcode) : Nat :=
  match op with
  | .move | .neg | .logicalNot | .length | .bitNot | .testSet => i.b + 1
  | .concat => i.c + 1
  | .getTable | .selfCall => max (i.b + 1) (pastOperand i.c)
  | .getTabCell => pastOperand i.c
  | _ => if op.usesConstants then max (pastOperand i.b) (pastOperand i.c) else 0

def registers (i : Instruction) : Nat :=
  match i.opcode? with
  | some op => max (i.pastTarget op) (i.pastSource op)
  | none => 0

end Instruction

namespace Prototype

/-- The window that covers the parameters and every register the code names, two at least. -/
def computedWindow (p : Prototype) : Nat :=
  p.code.foldl (fun size i => max size i.registers) (max p.parameters 2)

def endsInReturn (p : Prototype) : Bool := p.code.back?.bind Instruction.opcode? == some .ret

end Prototype

namespace Builder

def build (b : Builder) : Prototype :=
  let b := if b.prototype.endsInReturn then b else b.emit (.abc .ret 0 1 0)
  if b.windowGiven then b.prototype
  else { b.prototype with window := b.prototype.computedWindow }

end Builder

end RegisterVm
