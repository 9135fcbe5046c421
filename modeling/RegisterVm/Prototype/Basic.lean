import RegisterVm.Instruction.Word
import RegisterVm.Value

/-!
Function prototypes: the immutable code of one function with its constants, the prototypes nested
in it, the variables it captures, and debug records.
-/

namespace RegisterVm

inductive Constant where
  | nil
  | boolean (b : Bool)
  | number (bits : UInt64)
  | string (s : String)
  | table (ref : TableRef)
  | closure (ref : ClosureRef)
  | native (ref : NativeRef)
  | thread (ref : ThreadRef)
  deriving DecidableEq, Repr, Inhabited

namespace Constant

def value : Constant → Value
  | .nil => .nil
  | .boolean b => .boolean b
  | .number bits => .number (Float.ofBits bits)
  | .string s => .string s
  | .table ref => .table ref
  | .closure ref => .closure ref
  | .native ref => .native ref
  | .thread ref => .thread ref

def ofValue : Value → Constant
  | .nil => .nil
  | .boolean b => .boolean b
  | .number n => .number n.toBits
  | .string s => .string s
  | .table ref => .table ref
  | .closure ref => .closure ref
  | .native ref => .native ref
  | .thread ref => .thread ref

end Constant

structure Capture where
  name : String
  fromRegister : Bool
  index : UInt32
  deriving DecidableEq, Repr, Inhabited

structure LocalRange where
  name : String
  startPc : UInt32
  endPc : UInt32
  deriving DecidableEq, Repr, Inhabited

structure Prototype where
  code : Array Instruction
  constants : Array Constant
  children : Array Prototype
  captures : Array Capture
  parameters : Nat
  isVararg : Bool
  window : Nat
  source : Option String
  lines : Array UInt32
  locals : Array LocalRange
  firstLine : UInt32
  lastLine : UInt32
  deriving Inhabited

namespace Prototype

def empty : Prototype := ⟨#[], #[], #[], #[], 0, false, 0, none, #[], #[], 0, 0⟩

def sourceText (p : Prototype) : String := p.source.getD "?"

def constant (p : Prototype) (index : Nat) : Value :=
  match p.constants[index]? with
  | some k => k.value
  | none => .nil

def frameSize (p : Prototype) : Nat := max p.window p.parameters

end Prototype

end RegisterVm
