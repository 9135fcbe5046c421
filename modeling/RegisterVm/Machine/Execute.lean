import RegisterVm.Machine.Call
import RegisterVm.Machine.Index
import RegisterVm.Machine.Operators

/-!
Executing one instruction of a script frame. Register `i` is the slot `base + i`. An instruction
that has to call something only enters the call; what it leaves of the frame is picked up when the
call has ended.
-/

namespace RegisterVm

/-- How an instruction leaves its frame. -/
inductive Flow where
  | next (pc : Int)
  | entered (callee : Entered)
  | returned

/-- The part of a frame that its instructions refer to, at the instruction behind the current
one. -/
structure Context where
  thread : ThreadRef
  frame : Frame
  closure : Closure
  pc : Nat

def itemsPerFlush : Nat := 50

namespace Context

def prototype (x : Context) : Prototype := x.closure.prototype

def slot (x : Context) (register : Nat) : Nat := x.frame.base + register

def register (x : Context) (i : Nat) : Action Value := getSlot x.thread (x.slot i)

def setRegister (x : Context) (i : Nat) (value : Value) : Action Flow := do
  putSlotOf x.thread (x.slot i) value
  return .next x.pc

def operand (x : Context) (operand : Nat) : Action Value :=
  if Instruction.isConstant operand then
    return x.prototype.constant (Instruction.operandIndex operand)
  else x.register operand

def skipIf (x : Context) (skips : Bool) : Flow := .next (if skips then x.pc + 1 else x.pc)

def jump (x : Context) (offset : Int) : Flow := .next (x.pc + offset)

def cell (x : Context) (index : Nat) : Action CellRef :=
  match x.closure.cells[index]? with
  | some ref => return ref
  | none => invalid ("no upvalue " ++ toString index)

def readCell (x : Context) (index : Nat) : Action Value := do
  let ref ← x.cell index
  look fun s => s.readCell ref

def extraWord (x : Context) (user : String) : Action Nat :=
  match x.prototype.code[x.pc]? with
  | some i => return i.ax
  | none => invalid (user ++ " without EXTRAARG")

def enterHandler (x : Context) (handler : Value) (values : List Value) (target : Option Nat) :
    Action Flow := do
  let slot ← lookThread x.thread fun th => max x.frame.top th.top
  reserve x.thread (slot + 1 + values.length)
  modifyThread x.thread fun th =>
    (th.putAll slot (handler :: values)).withTop (slot + 1 + values.length)
  let entered ← match target with
    | some target => enterCall x.thread slot values.length target (some 1)
    | none => enterCall x.thread slot values.length slot (some 0)
  return .entered entered

def getField (x : Context) (object key : Value) (register : Nat) : Action Flow := do
  match ← look fun s => s.readField object key with
  | .done value => x.setRegister register value
  | .call handler receiver => x.enterHandler handler [receiver, key] (some (x.slot register))
  | .fail message => typeError x.thread message

def setField (x : Context) (object key value : Value) : Action Flow := do
  match ← look fun s => s.fieldOwner object key with
  | .done ref =>
    match Table.keyError? key with
    | some e => typeError x.thread e.message
    | none =>
      modify fun s => s.setRaw ref key value
      return .next x.pc
  | .call handler receiver => x.enterHandler handler [receiver, key, value] none
  | .fail message => typeError x.thread message

def operatorHandler (x : Context) (op : Opcode) (left right : Value) (register : Nat) :
    Action Flow := do
  let handler? ← look fun s =>
    (eventName? op).bind fun event => (s.handler? left event).or (s.handler? right event)
  match handler? with
  | some handler => x.enterHandler handler [left, right] (some (x.slot register))
  | none => typeError x.thread (operandFailure op left right)

def binary (x : Context) (op : Opcode) (i : Instruction) : Action Flow := do
  let left ← x.operand i.b
  let right ← x.operand i.c
  match binary? op left right with
  | some value => x.setRegister i.a value
  | none => x.operatorHandler op left right i.a

def unary (x : Context) (op : Opcode) (i : Instruction) : Action Flow := do
  let operand ← x.register i.b
  match unary? op operand with
  | some value => x.setRegister i.a value
  | none => x.operatorHandler op operand operand i.a

def length (x : Context) (i : Instruction) : Action Flow := do
  match ← x.register i.b with
  | .string s => x.setRegister i.a (.integer s.utf8ByteSize)
  | .table ref => x.setRegister i.a (.integer (← look fun s => (s.table ref).length))
  | other => typeError x.thread ("attempt to get length of a " ++ other.typeName ++ " value")

def concatFrom (x : Context) : Nat → Nat → String → Action String
  | 0, _, line => return line
  | count + 1, first, line => do
    let value ← x.register first
    match value.concatText? with
    | some s => concatFrom x count (first + 1) (line ++ s)
    | none => typeError x.thread ("attempt to concatenate a " ++ value.typeName ++ " value")

def compare (x : Context) (i : Instruction) (relation : Value → Value → Option Bool) :
    Action Flow := do
  let left ← x.operand i.b
  let right ← x.operand i.c
  match relation left right with
  | some holds => return x.skipIf (holds != (i.a != 0))
  | none => typeError x.thread (compareFailure left right)

/-- A count operand: one less than it says, or up to the top of the stack if it is zero. -/
def countAbove (x : Context) (operand first : Nat) : Action Nat :=
  if operand != 0 then return operand - 1 else lookThread x.thread fun th => th.top - first

def call (x : Context) (a b : Nat) (wanted : Option Nat) : Action Flow := do
  let slot := x.slot a
  let arguments ← x.countAbove b (slot + 1)
  modifyThread x.thread fun th => th.withTop (slot + 1 + arguments)
  return .entered (← enterCall x.thread slot arguments slot wanted)

def vacate (th : Thread) (slot arguments : Nat) : Thread :=
  match th.frames with
  | [] => th
  | f :: rest =>
    let high := max (slot + 1 + arguments) f.top
    let th := { th with frames := rest, top := slot + 1 + arguments }
    ((th.moveSlots slot f.slot (arguments + 1)).clear (f.slot + 1 + arguments) high).withTop
      (f.slot + 1 + arguments)

/-- A script callee takes the place of the frame. Anything else is called like any function, and
the return that follows hands its results on. -/
def tailCall (x : Context) (a b : Nat) : Action Flow := do
  match ← x.register a with
  | .closure _ =>
    let slot := x.slot a
    let arguments ← x.countAbove b (slot + 1)
    closeCells x.thread x.frame.base
    if ← lookThread x.thread fun th => th.frames.isEmpty then
      invalid "tail call without an active frame"
    else
      modifyThread x.thread fun th => vacate th slot arguments
      let entered ← enterCall x.thread x.frame.slot arguments x.frame.target x.frame.wanted
      modifyThread x.thread Thread.markTail
      return .entered entered
  | _ => x.call a b none

def ret (x : Context) (a b : Nat) : Action Flow := do
  let source := x.slot a
  let count ← x.countAbove b source
  closeCells x.thread x.frame.base
  modifyThread x.thread fun th => th.finish source count
  return .returned

def forLoop (x : Context) (i : Instruction) : Action Flow := do
  match ← x.register i.a, ← x.register (i.a + 1), ← x.register (i.a + 2) with
  | .number index, .number limit, .number step =>
    let index := index + step
    let continues : Bool := if step > 0.0 then index ≤ limit else limit ≤ index
    if continues then
      let _ ← x.setRegister i.a (.number index)
      let _ ← x.setRegister (i.a + 3) (.number index)
      return x.jump i.sbx
    else return .next x.pc
  | _, _, _ => typeError x.thread "'for' loop state is not numeric"

def loopNumber (x : Context) (register : Nat) (what : String) : Action Float := do
  match (← x.register register).toNumber? with
  | some n => return n
  | none => typeError x.thread ("'for' " ++ what ++ " must be a number")

def forPrep (x : Context) (i : Instruction) : Action Flow := do
  let start ← x.loopNumber i.a "initial value"
  let limit ← x.loopNumber (i.a + 1) "limit"
  let step ← x.loopNumber (i.a + 2) "step"
  let _ ← x.setRegister i.a (.number (start - step))
  let _ ← x.setRegister (i.a + 1) (.number limit)
  let _ ← x.setRegister (i.a + 2) (.number step)
  return x.jump i.sbx

def iterCall (x : Context) (i : Instruction) : Action Flow := do
  let slot := x.slot (i.a + 3)
  reserve x.thread (slot + 3)
  modifyThread x.thread fun th =>
    let source := x.slot i.a
    (th.putAll slot [th.get source, th.get (source + 1), th.get (source + 2)]).withTop (slot + 3)
  return .entered (← enterCall x.thread slot 2 slot (some i.c))

def storeItems (th : Thread) (source : Nat) (key : Nat) : Nat → Table → Table
  | 0, t => t
  | count + 1, t =>
    storeItems th (source + 1) (key + 1) count (t.setInteger key (th.get source))

def setList (x : Context) (i : Instruction) : Action Flow := do
  let source := x.slot i.a
  let count ← if i.b != 0 then pure i.b else lookThread x.thread fun th => th.top - (source + 1)
  let block ← if i.c != 0 then pure i.c else x.extraWord "SETLIST"
  match ← getSlot x.thread source with
  | .table ref =>
    let th ← lookThread x.thread fun th => th
    modify fun s => s.modifyTable ref fun t =>
      storeItems th (source + 1) ((block - 1) * itemsPerFlush + 1) count t
    modifyThread x.thread fun th => th.withTop x.frame.top
    return .next (if i.c != 0 then x.pc else x.pc + 1)
  | other => typeError x.thread (indexFailure other)

/-- The cells of a new closure: captured registers of this frame share the cell of their slot,
the others are cells of this frame's own closure. -/
def captureCells (x : Context) : List Capture → Array CellRef → Action (Array CellRef)
  | [], cells => return cells
  | c :: rest, cells => do
    let ref ←
      if c.fromRegister then
        modifyGet fun s => s.captureSlot x.thread (x.slot c.index.toNat)
      else
        match x.closure.cells[c.index.toNat]? with
        | some ref => pure ref
        | none => invalid ("no upvalue " ++ toString c.index.toNat ++ " in enclosing function")
    captureCells x rest (cells.push ref)

def makeClosure (x : Context) (i : Instruction) : Action Flow := do
  match x.prototype.children[i.bx]? with
  | none => invalid ("no prototype " ++ toString i.bx ++ " in function")
  | some prototype =>
    let cells ← x.captureCells prototype.captures.toList #[]
    let ref ← modifyGet fun s => s.newClosure ⟨prototype, cells⟩
    x.setRegister i.a (.closure ref)

def vararg (x : Context) (i : Instruction) : Action Flow := do
  let target := x.slot i.a
  let extras := x.frame.extras
  let count ←
    if i.b != 0 then pure (i.b - 1)
    else
      reserve x.thread (target + extras)
      modifyThread x.thread fun th => th.withTop (target + extras)
      pure extras
  modifyThread x.thread fun th =>
    th.putAll target ((List.range count).map fun k =>
      if k < extras then th.get (x.frame.base - extras + k) else .nil)
  return .next x.pc

def execute (x : Context) (op : Opcode) (i : Instruction) : Action Flow := do
  match op with
  | .move => x.setRegister i.a (← x.register i.b)
  | .loadK => x.setRegister i.a (x.prototype.constant i.bx)
  | .loadKX =>
    let index ← x.extraWord "LOADKX"
    let _ ← x.setRegister i.a (x.prototype.constant index)
    return .next (x.pc + 1)
  | .loadBool =>
    let _ ← x.setRegister i.a (.boolean (i.b != 0))
    return x.skipIf (i.c != 0)
  | .loadNil =>
    modifyThread x.thread fun th => th.clear (x.slot i.a) (x.slot i.a + i.b + 1)
    return .next x.pc
  | .getCell => x.setRegister i.a (← x.readCell i.b)
  | .getTabCell =>
    let object ← x.readCell i.b
    x.getField object (← x.operand i.c) i.a
  | .getTable =>
    let object ← x.register i.b
    x.getField object (← x.operand i.c) i.a
  | .setTabCell =>
    let object ← x.readCell i.a
    let key ← x.operand i.b
    x.setField object key (← x.operand i.c)
  | .setCell =>
    let value ← x.register i.a
    let ref ← x.cell i.b
    modify fun s => s.writeCell ref value
    return .next x.pc
  | .setTable =>
    let object ← x.register i.a
    let key ← x.operand i.b
    x.setField object key (← x.operand i.c)
  | .newTable =>
    let ref ← modifyGet fun s => s.newTable .empty
    x.setRegister i.a (.table ref)
  | .selfCall =>
    let object ← x.register i.b
    let key ← x.operand i.c
    let _ ← x.setRegister (i.a + 1) object
    x.getField object key i.a
  | .add | .sub | .mul | .mod | .pow | .div | .intDiv | .bitAnd | .bitOr | .bitXor | .shiftLeft
  | .shiftRight => x.binary op i
  | .neg | .bitNot => x.unary op i
  | .logicalNot => x.setRegister i.a (.boolean !(← x.register i.b).isTruthy)
  | .length => x.length i
  | .concat => x.setRegister i.a (.string (← x.concatFrom (i.c + 1 - i.b) i.b ""))
  | .jump =>
    if i.a != 0 then closeCells x.thread (x.slot i.a - 1)
    return x.jump i.sbx
  | .eq => x.compare i fun left right => some (left.same right)
  | .lt => x.compare i lessThan?
  | .le => x.compare i lessEqual?
  | .test => return x.skipIf ((← x.register i.a).isTruthy != (i.c != 0))
  | .testSet =>
    let value ← x.register i.b
    if value.isTruthy != (i.c != 0) then return x.skipIf true else x.setRegister i.a value
  | .call => x.call i.a i.b (if i.c == 0 then none else some (i.c - 1))
  | .tailCall => x.tailCall i.a i.b
  | .ret => x.ret i.a i.b
  | .forLoop => x.forLoop i
  | .forPrep => x.forPrep i
  | .iterCall => x.iterCall i
  | .iterLoop =>
    let control ← x.register (i.a + 1)
    if control.isNil then return .next x.pc
    else
      let _ ← x.setRegister i.a control
      return x.jump i.sbx
  | .setList => x.setList i
  | .closure => x.makeClosure i
  | .vararg => x.vararg i
  | .extraArg => invalid "EXTRAARG executed as an instruction"

end Context

end RegisterVm
