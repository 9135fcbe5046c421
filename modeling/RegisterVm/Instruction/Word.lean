import RegisterVm.Instruction.Opcode

/-!
Instruction words. The opcode takes the low 6 bits, A the next 8, then C and B take 9 each. C and
B together are Bx, stored for signed jumps with an excess of 131071; A and Bx together are Ax.
Operands wider than their field lose their high bits.
-/

namespace RegisterVm

structure Instruction where
  word : UInt32
  deriving DecidableEq, Repr, Inhabited

namespace Instruction

def signedExcess : Int := 131071

def maxBx : Nat := 262143

def constantBit : Nat := 256

def opcode? (i : Instruction) : Option Opcode := Opcode.ofNumber? (i.word &&& 63).toNat

def a (i : Instruction) : Nat := ((i.word >>> 6) &&& 255).toNat

def b (i : Instruction) : Nat := (i.word >>> 23).toNat

def c (i : Instruction) : Nat := ((i.word >>> 14) &&& 511).toNat

def bx (i : Instruction) : Nat := (i.word >>> 14).toNat

def sbx (i : Instruction) : Int := (i.bx : Int) - signedExcess

def ax (i : Instruction) : Nat := (i.word >>> 6).toNat

def abc (op : Opcode) (a b c : Nat) : Instruction :=
  ⟨(op.number + a % 256 * 64 + c % 512 * 16384 + b % 512 * 8388608).toUInt32⟩

def abx (op : Opcode) (a bx : Nat) : Instruction :=
  ⟨(op.number + a % 256 * 64 + bx % 262144 * 16384).toUInt32⟩

def asbx (op : Opcode) (a : Nat) (sbx : Int) : Instruction :=
  abx op a ((sbx + signedExcess) % 262144).toNat

def ofAx (op : Opcode) (ax : Nat) : Instruction :=
  ⟨(op.number + ax % 67108864 * 64).toUInt32⟩

def replace (i : Instruction) (mask position : UInt32) (value : Nat) : Instruction :=
  ⟨(i.word &&& ~~~mask) ||| ((value.toUInt32 <<< position) &&& mask)⟩

def setA (i : Instruction) (value : Nat) : Instruction := i.replace 0x3fc0 6 value

def setB (i : Instruction) (value : Nat) : Instruction := i.replace 0xff800000 23 value

def setC (i : Instruction) (value : Nat) : Instruction := i.replace 0x7fc000 14 value

def setBx (i : Instruction) (value : Nat) : Instruction := i.replace 0xffffc000 14 value

def setSbx (i : Instruction) (value : Int) : Instruction :=
  i.setBx ((value + signedExcess) % 262144).toNat

def isConstant (operand : Nat) : Bool := operand &&& constantBit != 0

def operandIndex (operand : Nat) : Nat :=
  if isConstant operand then operand - constantBit else operand

def constantOperand (k : Nat) : Nat := k ||| constantBit

end Instruction

end RegisterVm
