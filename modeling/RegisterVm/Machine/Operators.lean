import RegisterVm.Value
import RegisterVm.Instruction.Opcode

/-!
The primitive operators on values: arithmetic on doubles, bit operations on 64-bit words, raw
ordering, and the event that a metatable answers for an operator that has no primitive meaning.
-/

namespace RegisterVm

def arithmetic? (op : Opcode) (x y : Float) : Option Float :=
  match op with
  | .add => some (x + y)
  | .sub => some (x - y)
  | .mul => some (x * y)
  | .div => some (x / y)
  | .mod => some (Number.modulo x y)
  | .pow => some (x.pow y)
  | .intDiv => some (x / y).floor
  | .neg => some (-x)
  | _ => none

def bitwise? (op : Opcode) (x y : Int) : Option UInt64 :=
  match op with
  | .bitAnd => some (Number.wordOf x &&& Number.wordOf y)
  | .bitOr => some (Number.wordOf x ||| Number.wordOf y)
  | .bitXor => some (Number.wordOf x ^^^ Number.wordOf y)
  | .shiftLeft => some (Number.shift (Number.wordOf x) y)
  | .shiftRight => some (Number.shift (Number.wordOf x) (-y))
  | .bitNot => some (~~~Number.wordOf x)
  | _ => none

def isBitwise : Opcode → Bool
  | .bitAnd | .bitOr | .bitXor | .shiftLeft | .shiftRight | .bitNot => true
  | _ => false

def wordNumber (w : UInt64) : Value := .integer (Number.signedOf w)

def binary? (op : Opcode) (left right : Value) : Option Value :=
  if isBitwise op then
    match left.toInteger?, right.toInteger? with
    | some x, some y => (bitwise? op x y).map wordNumber
    | _, _ => none
  else
    match left.toNumber?, right.toNumber? with
    | some x, some y => (arithmetic? op x y).map Value.number
    | _, _ => none

def unary? (op : Opcode) (operand : Value) : Option Value :=
  match op with
  | .bitNot => operand.toInteger?.map fun x => wordNumber (~~~Number.wordOf x)
  | _ => operand.toNumber?.map fun x => .number (-x)

/-- Numbers compare with numbers and strings with strings; nothing else is ordered. -/
def lessThan? : Value → Value → Option Bool
  | .number x, .number y => some (x < y)
  | .string x, .string y => some (x < y)
  | _, _ => none

def lessEqual? : Value → Value → Option Bool
  | .number x, .number y => some (x ≤ y)
  | .string x, .string y => some (!(y < x))
  | _, _ => none

def compareFailure (left right : Value) : String :=
  if left.typeName == right.typeName then
    "attempt to compare two " ++ left.typeName ++ " values"
  else "attempt to compare " ++ left.typeName ++ " with " ++ right.typeName

def eventName? : Opcode → Option String
  | .add => some "__add"
  | .sub => some "__sub"
  | .mul => some "__mul"
  | .mod => some "__mod"
  | .pow => some "__pow"
  | .div => some "__div"
  | .intDiv => some "__idiv"
  | .bitAnd => some "__band"
  | .bitOr => some "__bor"
  | .bitXor => some "__bxor"
  | .shiftLeft => some "__shl"
  | .shiftRight => some "__shr"
  | .neg => some "__unm"
  | .bitNot => some "__bnot"
  | _ => none

def operandFailure (op : Opcode) (left right : Value) : String :=
  if isBitwise op && left.toNumber?.isSome && right.toNumber?.isSome then
    "number has no integer representation"
  else
    let what :=
      if isBitwise op then "perform bitwise operation on" else "perform arithmetic on"
    if op == .neg || op == .bitNot then
      "attempt to " ++ what ++ " a " ++ left.typeName ++ " value"
    else "attempt to " ++ what ++ " a " ++ left.typeName ++ " and a " ++ right.typeName

end RegisterVm
