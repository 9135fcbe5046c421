import RegisterVm.Machine.Execute
import RegisterVm.Proofs.Erasure.Natives

/-!
Instructions without debug records. All but one are blind and read nothing of their function that
is erased. The one that makes a closure puts the erased child where the child would be.
-/

namespace RegisterVm

namespace Context

variable {x : Context}

section Operands

theorem blind_register (i : Nat) : Blind (x.register i) := .getSlot

theorem blind_setRegister (i : Nat) (value : Value) : Blind (x.setRegister i value) :=
  Blind.modifyThread.bind fun _ => .pure

theorem blind_operand (operand : Nat) : Blind (x.operand operand) :=
  Blind.pure.ite (blind_register _)

theorem blind_cell (index : Nat) : Blind (x.cell index) := by
  simp only [cell]
  split
  · exact .pure
  · exact .invalid

theorem blind_readCell (index : Nat) : Blind (x.readCell index) :=
  (blind_cell index).bind fun _ => .look fun _ => rfl

theorem blind_extraWord (user : String) : Blind (x.extraWord user) := by
  simp only [extraWord]
  split
  · exact .pure
  · exact .invalid

theorem blind_countAbove (operand first : Nat) : Blind (x.countAbove operand first) :=
  Blind.pure.ite .lookThread

theorem blind_loopNumber (register : Nat) (what : String) : Blind (x.loopNumber register what) := by
  refine (blind_register register).bind fun value => ?_
  split
  · exact .pure
  · exact .typeError

end Operands

theorem blind_enter (slot arguments target : Nat) (wanted : Option Nat) :
    Blind (do return Flow.entered (← enterCall x.thread slot arguments target wanted)) :=
  Blind.enterCall.bind fun _ => .pure

theorem blind_enterHandler (handler : Value) (values : List Value) (target : Option Nat) :
    Blind (x.enterHandler handler values target) := by
  refine Blind.lookThread.bind fun slot => Blind.reserve.bind fun _ => ?_
  refine Blind.modifyThread.bind fun _ => ?_
  split
  · exact blind_enter _ _ _ _
  · exact blind_enter _ _ _ _

theorem blind_getField (object key : Value) (register : Nat) :
    Blind (x.getField object key register) := by
  refine (Blind.look fun s => s.readField_erase object key).bind fun lookup => ?_
  split
  · exact blind_setRegister _ _
  · exact blind_enterHandler _ _ _
  · exact .typeError

theorem blind_setField (object key value : Value) : Blind (x.setField object key value) := by
  refine (Blind.look fun s => s.fieldOwner_erase object key).bind fun lookup => ?_
  split
  · split
    · exact .typeError
    · exact .modify_bind .pure fun _ => rfl
  · exact blind_enterHandler _ _ _
  · exact .typeError

theorem blind_operatorHandler (op : Opcode) (left right : Value) (register : Nat) :
    Blind (x.operatorHandler op left right register) := by
  refine (Blind.look fun _ => rfl).bind fun handler => ?_
  split
  · exact blind_enterHandler _ _ _
  · exact .typeError

theorem blind_binary (op : Opcode) (i : Instruction) : Blind (x.binary op i) := by
  refine (blind_operand i.b).bind fun left => (blind_operand i.c).bind fun right => ?_
  split
  · exact blind_setRegister _ _
  · exact blind_operatorHandler _ _ _ _

theorem blind_unary (op : Opcode) (i : Instruction) : Blind (x.unary op i) := by
  refine (blind_register i.b).bind fun operand => ?_
  split
  · exact blind_setRegister _ _
  · exact blind_operatorHandler _ _ _ _

theorem blind_length (i : Instruction) : Blind (x.length i) := by
  refine (blind_register i.b).bind fun operand => ?_
  split
  · exact blind_setRegister _ _
  · exact (Blind.look fun _ => rfl).bind fun _ => blind_setRegister _ _
  · exact .typeError

theorem blind_concatFrom (count first : Nat) (line : String) :
    Blind (x.concatFrom count first line) := by
  induction count generalizing first line with
  | zero => exact .pure
  | succ count ih =>
      refine (blind_register first).bind fun value => ?_
      split
      · exact ih _ _
      · exact .typeError

theorem blind_compare (i : Instruction) (relation : Value → Value → Option Bool) :
    Blind (x.compare i relation) := by
  refine (blind_operand i.b).bind fun left => (blind_operand i.c).bind fun right => ?_
  split
  · exact .pure
  · exact .typeError

theorem blind_call (a b : Nat) (wanted : Option Nat) : Blind (x.call a b wanted) :=
  (blind_countAbove _ _).bind fun _ => Blind.modifyThread.bind fun _ => blind_enter _ _ _ _

theorem blind_tailCall (a b : Nat) : Blind (x.tailCall a b) := by
  refine (blind_register a).bind fun callee => ?_
  split
  · refine (blind_countAbove _ _).bind fun arguments => Blind.closeCells.bind fun _ => ?_
    refine Blind.lookThread.bind fun _ => .ite .invalid ?_
    refine Blind.modifyThread.bind fun _ => Blind.enterCall.bind fun entered => ?_
    exact Blind.modifyThread.bind fun _ => .pure
  · exact blind_call _ _ _

theorem blind_ret (a b : Nat) : Blind (x.ret a b) :=
  (blind_countAbove _ _).bind fun _ => Blind.closeCells.bind fun _ =>
    Blind.modifyThread.bind fun _ => .pure

theorem blind_forLoop (i : Instruction) : Blind (x.forLoop i) := by
  refine (blind_register i.a).bind fun index => ?_
  refine (blind_register (i.a + 1)).bind fun limit => ?_
  refine (blind_register (i.a + 2)).bind fun step => ?_
  split
  · refine Blind.ite ?_ .pure
    exact (blind_setRegister _ _).bind fun _ => (blind_setRegister _ _).bind fun _ => .pure
  · exact .typeError

theorem blind_forPrep (i : Instruction) : Blind (x.forPrep i) := by
  refine (blind_loopNumber _ _).bind fun start => (blind_loopNumber _ _).bind fun limit => ?_
  refine (blind_loopNumber _ _).bind fun step => (blind_setRegister _ _).bind fun _ => ?_
  exact (blind_setRegister _ _).bind fun _ => (blind_setRegister _ _).bind fun _ => .pure

theorem blind_iterCall (i : Instruction) : Blind (x.iterCall i) :=
  Blind.reserve.bind fun _ => Blind.modifyThread.bind fun _ => blind_enter _ _ _ _

theorem blind_setList (i : Instruction) : Blind (x.setList i) := by
  unfold setList
  extract_lets source store
  have stored : ∀ count, Blind (store count) := by
    intro count
    simp -zeta only [store]
    extract_lets flush
    have flushed : ∀ block, Blind (flush block) := by
      refine fun block => Blind.getSlot.bind fun target => ?_
      split
      · refine Blind.lookThread.bind fun th => .modify_bind ?_ fun _ => rfl
        exact Blind.modifyThread.bind fun _ => .pure
      · exact .typeError
    exact Blind.ite (Blind.pure.bind flushed) ((blind_extraWord _).bind flushed)
  exact Blind.ite (Blind.pure.bind stored) (Blind.lookThread.bind stored)

theorem blind_vararg (i : Instruction) : Blind (x.vararg i) := by
  unfold vararg
  extract_lets target extras copy
  have copied : ∀ count, Blind (copy count) := fun _ => Blind.modifyThread.bind fun _ => .pure
  refine Blind.ite (Blind.pure.bind copied) (Blind.reserve.bind fun _ => ?_)
  exact Blind.modifyThread.bind fun _ => Blind.pure.bind copied

theorem blind_captureCells (captures : List Capture) (cells : Array CellRef) :
    Blind (x.captureCells captures cells) := by
  induction captures generalizing cells with
  | nil => exact .pure
  | cons c rest ih =>
      simp only [captureCells]
      split
      · exact (Blind.modifyGet fun s => s.captureSlot_erase _ _).bind fun _ => ih _
      · split
        · exact Blind.pure.bind fun _ => ih _
        · exact Blind.invalid.bind fun _ => ih _

theorem blind_execute {op : Opcode} (other : op ≠ .closure) (i : Instruction) :
    Blind (x.execute op i) := by
  cases op with
  | move => exact (blind_register _).bind fun _ => blind_setRegister _ _
  | loadK => exact blind_setRegister _ _
  | loadKX =>
      exact (blind_extraWord _).bind fun _ => (blind_setRegister _ _).bind fun _ => .pure
  | loadBool => exact (blind_setRegister _ _).bind fun _ => .pure
  | loadNil => exact Blind.modifyThread.bind fun _ => .pure
  | getCell => exact (blind_readCell _).bind fun _ => blind_setRegister _ _
  | getTabCell =>
      exact (blind_readCell _).bind fun _ => (blind_operand _).bind fun _ => blind_getField _ _ _
  | getTable =>
      exact (blind_register _).bind fun _ => (blind_operand _).bind fun _ => blind_getField _ _ _
  | setTabCell =>
      exact (blind_readCell _).bind fun _ => (blind_operand _).bind fun _ =>
        (blind_operand _).bind fun _ => blind_setField _ _ _
  | setCell =>
      refine (blind_register _).bind fun value => (blind_cell _).bind fun ref => ?_
      exact .modify_bind .pure fun s => s.writeCell_erase ref value
  | setTable =>
      exact (blind_register _).bind fun _ => (blind_operand _).bind fun _ =>
        (blind_operand _).bind fun _ => blind_setField _ _ _
  | newTable => exact (Blind.modifyGet fun _ => rfl).bind fun _ => blind_setRegister _ _
  | selfCall =>
      exact (blind_register _).bind fun _ => (blind_operand _).bind fun _ =>
        (blind_setRegister _ _).bind fun _ => blind_getField _ _ _
  | add | sub | mul | mod | pow | div | intDiv | bitAnd | bitOr | bitXor | shiftLeft | shiftRight =>
      exact blind_binary _ i
  | neg | bitNot => exact blind_unary _ i
  | logicalNot => exact (blind_register _).bind fun _ => blind_setRegister _ _
  | length => exact blind_length i
  | concat => exact (blind_concatFrom _ _ _).bind fun _ => blind_setRegister _ _
  | jump =>
      simp only [execute]
      split
      · exact Blind.closeCells.bind fun _ => .pure
      · exact .pure
  | eq => exact blind_compare i fun left right => some (left.same right)
  | lt => exact blind_compare i lessThan?
  | le => exact blind_compare i lessEqual?
  | test => exact (blind_register _).bind fun _ => .pure
  | testSet => exact (blind_register _).bind fun _ => Blind.pure.ite (blind_setRegister _ _)
  | call => exact blind_call _ _ _
  | tailCall => exact blind_tailCall _ _
  | ret => exact blind_ret _ _
  | forLoop => exact blind_forLoop i
  | forPrep => exact blind_forPrep i
  | iterCall => exact blind_iterCall i
  | iterLoop =>
      refine (blind_register _).bind fun control => Blind.pure.ite ?_
      exact (blind_setRegister _ _).bind fun _ => .pure
  | setList => exact blind_setList i
  | closure => exact absurd rfl other
  | vararg => exact blind_vararg i
  | extraArg => exact .invalid

def erase (x : Context) : Context := { x with closure := x.closure.erase }

theorem concatFrom_erase (count first : Nat) (line : String) :
    x.erase.concatFrom count first line = x.concatFrom count first line := by
  induction count generalizing first line with
  | zero => rfl
  | succ count ih =>
      simp only [concatFrom, ih]
      rfl

theorem captureCells_erase (captures : List Capture) (cells : Array CellRef) :
    x.erase.captureCells (captures.map fun c => { c with name := "" }) cells =
      x.captureCells captures cells := by
  induction captures generalizing cells with
  | nil => rfl
  | cons c rest ih =>
      simp only [List.map_cons, captureCells, ih]
      rfl

theorem execute_erase {op : Opcode} (other : op ≠ .closure) (i : Instruction) :
    x.erase.execute op i = x.execute op i := by
  cases op with
  | closure => exact absurd rfl other
  | concat =>
      simp only [execute, concatFrom_erase]
      rfl
  | _ =>
      rw [erase, Closure.erase, Prototype.erase_eq]
      rfl

theorem imitated_makeClosure (i : Instruction) :
    Imitated (x.makeClosure i) (x.erase.makeClosure i) := by
  simp only [makeClosure, show x.erase.prototype = x.prototype.erase from rfl,
    Prototype.children_erase]
  cases x.prototype.children[i.bx]? with
  | none => exact Blind.invalid
  | some p =>
      have captures : p.erase.captures.toList =
          p.captures.toList.map fun c => { c with name := "" } := by
        rw [Prototype.erase_eq, Array.toList_map]
      simp only [Option.map_some, captures, captureCells_erase]
      refine Imitated.bind (blind_captureCells _ _) fun cells => ?_
      refine Imitated.bind (.modifyGet fun s => s.newClosure_erase ⟨p, cells⟩) fun ref => ?_
      exact blind_setRegister _ _

theorem imitated_execute (op : Opcode) (i : Instruction) :
    Imitated (x.execute op i) (x.erase.execute op i) := by
  by_cases makes : op = .closure
  · subst makes
    exact imitated_makeClosure i
  · rw [execute_erase makes]
    exact blind_execute makes i

end Context

end RegisterVm
