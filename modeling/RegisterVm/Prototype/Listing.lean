import RegisterVm.Prototype.Basic
import RegisterVm.Instruction.Text

/-!
The readable listing of a prototype and, indented below it, of those nested in it. Instructions
are numbered from one, as are the ends of local ranges and the targets of jumps.
-/

namespace RegisterVm.Prototype

def padLeft (width : Nat) (s : String) : String :=
  String.ofList (List.replicate (width - s.length) ' ') ++ s

def constantNote (p : Prototype) (index : Nat) : String :=
  match p.constants[index]? with
  | some k => k.value.quotedText
  | none => "?"

def captureNote (p : Prototype) (index : Nat) : String :=
  match p.captures[index]? with
  | some c => c.name
  | none => "?"

def operandNote (p : Prototype) (operand : Nat) : String :=
  if Instruction.isConstant operand then p.constantNote (Instruction.operandIndex operand) else "-"

def note? (p : Prototype) (pc : Nat) (i : Instruction) : Option String :=
  match i.opcode? with
  | none => none
  | some op =>
    match op with
    | .loadK => some (p.constantNote i.bx)
    | .getCell | .setCell => some (p.captureNote i.b)
    | .getTabCell => some (p.captureNote i.b ++ " " ++ p.operandNote i.c)
    | .setTabCell =>
      some (p.captureNote i.a ++ " " ++ p.operandNote i.b ++ " " ++ p.operandNote i.c)
    | .closure => some ("PROTO[" ++ toString i.bx ++ "]")
    | op =>
      if op.layout == .asbx then some ("to " ++ toString ((pc : Int) + 2 + i.sbx))
      else if op.usesConstants then
        let notes := ([i.b, i.c].filter Instruction.isConstant).map p.operandNote
        if notes.isEmpty then none else some (" ".intercalate notes)
      else none

def instructionLine (p : Prototype) (pc : Nat) (i : Instruction) : String :=
  let line := match p.lines[pc]? with
    | some line => toString line.toNat
    | none => "-"
  let note := match p.note? pc i with
    | some note => "\t; " ++ note
    | none => ""
  padLeft 4 (toString (pc + 1)) ++ " [" ++ line ++ "] " ++ i.text ++ note

def section? (title : String) (items : List String) : List String :=
  if items.isEmpty then []
  else (title ++ " (" ++ toString items.length ++ "):")
    :: items.mapIdx fun i item => "  " ++ toString i ++ " " ++ item

def localLine (l : LocalRange) : String :=
  l.name ++ " " ++ toString (l.startPc + 1).toNat ++ "-" ++ toString (l.endPc + 1).toNat

def captureLine (c : Capture) : String :=
  c.name ++ (if c.fromRegister then " local " else " upvalue ") ++ toString c.index.toNat

def header (p : Prototype) (name : String) : List String :=
  ["=== " ++ name ++ " <" ++ p.sourceText ++ ":" ++ toString p.firstLine.toNat ++ ","
      ++ toString p.lastLine.toNat ++ "> ===",
    "params: " ++ toString p.parameters ++ (if p.isVararg then "+" else "") ++ ", max_stack: "
      ++ toString p.window ++ ", upvalues: " ++ toString p.captures.size ++ ", constants: "
      ++ toString p.constants.size ++ ", functions: " ++ toString p.children.size]

def ownLines (p : Prototype) (name : String) : List String :=
  p.header name
    ++ p.code.toList.mapIdx (fun pc i => p.instructionLine pc i)
    ++ section? "constants" (p.constants.toList.map fun k => "= " ++ k.value.quotedText)
    ++ section? "locals" (p.locals.toList.map localLine)
    ++ section? "upvalues" (p.captures.toList.map captureLine)

def childName (index : Nat) : String := "function <PROTO[" ++ toString index ++ "]>"

mutual

def linesAt (indent name : String) : Prototype → List String
  | ⟨code, constants, ⟨children⟩, captures, parameters, isVararg, window, source, lines, locals,
      firstLine, lastLine⟩ =>
    let p : Prototype := ⟨code, constants, ⟨children⟩, captures, parameters, isVararg, window,
      source, lines, locals, firstLine, lastLine⟩
    (p.ownLines name).map (indent ++ ·) ++ childLines ("  " ++ indent) 0 children

def childLines (indent : String) (index : Nat) : List Prototype → List String
  | [] => []
  | p :: rest => linesAt indent (childName index) p ++ childLines indent (index + 1) rest

end

def listing (p : Prototype) : String :=
  String.join ((linesAt "" "main" p).map (· ++ "\n"))

end RegisterVm.Prototype
