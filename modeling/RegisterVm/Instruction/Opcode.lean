/-!
The operations of the machine, numbered in the order of declaration, and the operand layout of
each.
-/

namespace RegisterVm

/-- In the comments `R` is a register, `K` a constant and `RK` either, as the operand says. -/
inductive Opcode where
  | move          -- R(A) := R(B)
  | loadK         -- R(A) := K(Bx)
  | loadKX        -- R(A) := K(extra)
  | loadBool      -- R(A) := B ≠ 0; if C ≠ 0 skip one
  | loadNil       -- R(A), ..., R(A+B) := nil
  | getCell       -- R(A) := cell B
  | getTabCell    -- R(A) := (cell B)[RK(C)]
  | getTable      -- R(A) := R(B)[RK(C)]
  | setTabCell    -- (cell A)[RK(B)] := RK(C)
  | setCell       -- cell B := R(A)
  | setTable      -- R(A)[RK(B)] := RK(C)
  | newTable      -- R(A) := {}
  | selfCall      -- R(A+1) := R(B); R(A) := R(B)[RK(C)]
  | add           -- R(A) := RK(B) + RK(C)
  | sub
  | mul
  | mod
  | pow
  | div
  | intDiv
  | bitAnd
  | bitOr
  | bitXor
  | shiftLeft
  | shiftRight
  | neg           -- R(A) := -R(B)
  | bitNot
  | logicalNot
  | length
  | concat        -- R(A) := R(B) .. ... .. R(C)
  | jump          -- pc += sBx; if A ≠ 0 close cells from R(A-1) up
  | eq            -- if (RK(B) = RK(C)) ≠ (A ≠ 0) skip one
  | lt
  | le
  | test          -- if R(A) is not as C says skip one
  | testSet       -- if R(B) is as C says R(A) := R(B) else skip one
  | call          -- R(A), ..., R(A+C-2) := R(A)(R(A+1), ..., R(A+B-1))
  | tailCall      -- return R(A)(R(A+1), ..., R(A+B-1))
  | ret           -- return R(A), ..., R(A+B-2)
  | forLoop       -- R(A) += R(A+2); if in range R(A+3) := R(A) and pc += sBx
  | forPrep       -- R(A) -= R(A+2); pc += sBx
  | iterCall      -- R(A+3), ..., R(A+2+C) := R(A)(R(A+1), R(A+2))
  | iterLoop      -- if R(A+1) is not nil R(A) := R(A+1) and pc += sBx
  | setList       -- R(A)[(C-1)*50+i] := R(A+i) for i from 1 to B
  | closure       -- R(A) := closure of prototype Bx
  | vararg        -- R(A), ..., R(A+B-2) := extra arguments
  | extraArg      -- operand of the instruction before
  deriving DecidableEq, Repr, Inhabited

namespace Opcode

inductive Layout where
  | abc
  | abx
  | asbx
  | ax
  deriving DecidableEq, Repr

def all : Array Opcode := #[
  move, loadK, loadKX, loadBool, loadNil, getCell, getTabCell, getTable, setTabCell, setCell,
  setTable, newTable, selfCall, add, sub, mul, mod, pow, div, intDiv, bitAnd, bitOr, bitXor,
  shiftLeft, shiftRight, neg, bitNot, logicalNot, length, concat, jump, eq, lt, le, test, testSet,
  call, tailCall, ret, forLoop, forPrep, iterCall, iterLoop, setList, closure, vararg, extraArg]

def number (op : Opcode) : Nat := op.ctorIdx

def ofNumber? (n : Nat) : Option Opcode := all[n]?

def layout : Opcode → Layout
  | loadK | loadKX | closure => .abx
  | jump | forLoop | forPrep | iterLoop => .asbx
  | extraArg => .ax
  | _ => .abc

def usesConstants : Opcode → Bool
  | getTabCell | getTable | setTabCell | setTable | selfCall | add | sub | mul | mod | pow | div
  | intDiv | bitAnd | bitOr | bitXor | shiftLeft | shiftRight | eq | lt | le => true
  | _ => false

def usesTop : Opcode → Bool
  | call | tailCall | ret | setList => true
  | _ => false

def name : Opcode → String
  | move => "MOVE" | loadK => "LOADK" | loadKX => "LOADKX" | loadBool => "LOADBOOL"
  | loadNil => "LOADNIL" | getCell => "GETUPVAL" | getTabCell => "GETTABUP"
  | getTable => "GETTABLE" | setTabCell => "SETTABUP" | setCell => "SETUPVAL"
  | setTable => "SETTABLE" | newTable => "NEWTABLE" | selfCall => "SELF" | add => "ADD"
  | sub => "SUB" | mul => "MUL" | mod => "MOD" | pow => "POW" | div => "DIV" | intDiv => "IDIV"
  | bitAnd => "BAND" | bitOr => "BOR" | bitXor => "BXOR" | shiftLeft => "SHL"
  | shiftRight => "SHR" | neg => "UNM" | bitNot => "BNOT" | logicalNot => "NOT"
  | length => "LEN" | concat => "CONCAT" | jump => "JMP" | eq => "EQ" | lt => "LT" | le => "LE"
  | test => "TEST" | testSet => "TESTSET" | call => "CALL" | tailCall => "TAILCALL"
  | ret => "RETURN" | forLoop => "FORLOOP" | forPrep => "FORPREP" | iterCall => "TFORCALL"
  | iterLoop => "TFORLOOP" | setList => "SETLIST" | closure => "CLOSURE" | vararg => "VARARG"
  | extraArg => "EXTRAARG"

def ofName? (text : String) : Option Opcode := all.find? fun op => op.name == text

theorem ofNumber?_number (op : Opcode) : ofNumber? op.number = some op := by cases op <;> rfl

end Opcode

end RegisterVm
