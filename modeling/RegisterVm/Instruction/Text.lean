import RegisterVm.Instruction.Word

/-!
One instruction as a line of text: the name in a column of nine and the operands it uses.
Constants are shown as negative numbers counted from minus one.
-/

namespace RegisterVm

def padRight (width : Nat) (s : String) : String :=
  s ++ String.ofList (List.replicate (width - s.length) ' ')

def wordText (n : Nat) : String :=
  let digits := Nat.toDigits 16 n
  "0x" ++ String.ofList (List.replicate (8 - digits.length) '0' ++ digits)

namespace Instruction

def operandText (op : Opcode) (operand : Nat) : String :=
  if op.usesConstants && isConstant operand then
    toString (-(operandIndex operand : Int) - 1)
  else toString operand

def operandTexts (i : Instruction) (op : Opcode) : List String :=
  match op.layout with
  | .abc =>
    match op with
    | .move | .loadNil | .getCell | .setCell | .neg | .bitNot | .logicalNot | .length | .ret
    | .vararg => [toString i.a, toString i.b]
    | .test | .iterCall => [toString i.a, toString i.c]
    | _ => [toString i.a, operandText op i.b, operandText op i.c]
  | .abx => [toString i.a, toString i.bx]
  | .asbx => [toString i.a, toString i.sbx]
  | .ax => [toString i.ax]

def text (i : Instruction) : String :=
  match i.opcode? with
  | none => "<invalid " ++ wordText i.word.toNat ++ ">"
  | some op => padRight 9 op.name ++ " " ++ " ".intercalate (i.operandTexts op)

end Instruction

end RegisterVm
