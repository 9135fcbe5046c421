import RegisterVm.Proofs.Flow.Stores
import RegisterVm.Proofs.Machine.Instructions

/-!
Where instructions go on. Behind an instruction comes the next one, unless it jumps, skips or takes up
the word behind it; and none but a return leaves its frame anywhere else.
-/

namespace RegisterVm

def Instruction.targets (i : Instruction) (op : Opcode) (next : Int) : List Int :=
  match op with
  | .jump | .forLoop | .forPrep | .iterLoop => [next + i.sbx]
  | .eq | .lt | .le | .test | .testSet | .loadKX => [next + 1]
  | .loadBool => if i.c != 0 then [next + 1] else []
  | .setList => if i.c != 0 then [] else [next + 1]
  | _ => []

namespace Context

variable {x : Context} {start : Store}

def Heads (x : Context) (targets : List Int) (flow : Flow) : Prop :=
  ∀ pc, flow = .next pc → pc = x.pc ∨ pc ∈ targets

theorem heads_next (targets : List Int) : x.Heads targets (.next x.pc) := by
  rintro _ ⟨⟩
  exact .inl rfl

theorem heads_target {targets : List Int} {pc : Int} (target : pc ∈ targets) :
    x.Heads targets (.next pc) := by
  rintro _ ⟨⟩
  exact .inr target

theorem heads_entered (targets : List Int) (callee : Entered) :
    x.Heads targets (.entered callee) := nofun

theorem heads_skipIf (skips : Bool) : x.Heads [(x.pc : Int) + 1] (x.skipIf skips) := by
  cases skips with
  | false => exact heads_next _
  | true => exact heads_target (List.mem_singleton.2 rfl)

theorem heads_jump (offset : Int) : x.Heads [(x.pc : Int) + offset] (x.jump offset) :=
  heads_target (List.mem_singleton.2 rfl)

section Operands

theorem sure_register (i : Nat) : Sure start (x.register i) Any := by
  simp only [register, getSlot]
  exact .lookThread

theorem sure_operand (i : Nat) : Sure start (x.operand i) Any :=
  Sure.ite .pure_any (sure_register _)

theorem sure_cell (index : Nat) : Sure start (x.cell index) Any := by
  simp only [cell]
  split
  · exact .pure_any
  · exact .invalid (by simp)

theorem sure_readCell (index : Nat) : Sure start (x.readCell index) Any :=
  (sure_cell index).any_bind fun _ => .look

theorem sure_extraWord {user : String} (named : user.toList.head? = some 'L' ∨
    user.toList.head? = some 'S') : Sure start (x.extraWord user) Any := by
  simp only [extraWord]
  split
  · exact .pure_any
  · refine .invalid ?_
    rw [String.toList_append, List.head?_append]
    rcases named with named | named <;> simp [named]

theorem sure_countAbove (operand first : Nat) :
    Sure start (x.countAbove operand first) Any :=
  Sure.ite .pure_any .lookThread

theorem sure_concatFrom (count first : Nat) (line : String) :
    Sure start (x.concatFrom count first line) Any := by
  induction count generalizing first line with
  | zero => exact .pure_any
  | succ count ih =>
      refine (sure_register first).any_bind fun value => ?_
      split
      · exact ih _ _
      · exact .typeError

theorem sure_loopNumber (register : Nat) (what : String) :
    Sure start (x.loopNumber register what) Any := by
  refine (sure_register register).any_bind fun value => ?_
  split
  · exact .pure_any
  · exact .typeError

end Operands

variable {targets : List Int}

theorem sure_setRegister (i : Nat) (value : Value) :
    Sure start (x.setRegister i value) (x.Heads targets) :=
  (Sure.modifyThread fun _ => .of_eq (by rfl)).any_bind fun _ => .pure (heads_next _)

theorem sure_assign (i : Nat) (value : Value) : Sure start (x.setRegister i value) Any :=
  (Sure.modifyThread fun _ => .of_eq (by rfl)).any_bind fun _ => .pure_any

theorem sure_enter (slot arguments target : Nat) (wanted : Option Nat) :
    Sure start (do return .entered (← enterCall x.thread slot arguments target wanted))
      (x.Heads targets) :=
  (Sure.enterCall slot arguments target wanted).any_bind fun _ => .pure (heads_entered _ _)

theorem sure_enterHandler (handler : Value) (values : List Value) (target : Option Nat) :
    Sure start (x.enterHandler handler values target) (x.Heads targets) := by
  refine Sure.lookThread.any_bind fun slot => Sure.reserve.any_bind fun _ => ?_
  refine (Sure.modifyThread fun th => .of_eq (by simp)).any_bind fun _ => ?_
  split
  · exact sure_enter _ _ _ _
  · exact sure_enter _ _ _ _

theorem sure_getField (object key : Value) (register : Nat) :
    Sure start (x.getField object key register) (x.Heads targets) := by
  refine Sure.look.any_bind fun lookup => ?_
  split
  · exact sure_setRegister _ _
  · exact sure_enterHandler _ _ _
  · exact .typeError

theorem sure_setField (object key value : Value) :
    Sure start (x.setField object key value) (x.Heads targets) := by
  refine Sure.look.any_bind fun lookup => ?_
  split
  · split
    · exact .typeError
    · exact (Sure.modify fun _ upholds => upholds.heap (by rfl) (by rfl)).any_bind fun _ =>
        .pure (heads_next _)
  · exact sure_enterHandler _ _ _
  · exact .typeError

theorem sure_operatorHandler (op : Opcode) (left right : Value) (register : Nat) :
    Sure start (x.operatorHandler op left right register) (x.Heads targets) := by
  refine Sure.look.any_bind fun handler => ?_
  split
  · exact sure_enterHandler _ _ _
  · exact .typeError

theorem sure_binary (op : Opcode) (i : Instruction) :
    Sure start (x.binary op i) (x.Heads targets) := by
  refine (sure_operand i.b).any_bind fun left => (sure_operand i.c).any_bind fun right => ?_
  split
  · exact sure_setRegister _ _
  · exact sure_operatorHandler _ _ _ _

theorem sure_unary (op : Opcode) (i : Instruction) :
    Sure start (x.unary op i) (x.Heads targets) := by
  refine (sure_register i.b).any_bind fun operand => ?_
  split
  · exact sure_setRegister _ _
  · exact sure_operatorHandler _ _ _ _

theorem sure_length (i : Instruction) : Sure start (x.length i) (x.Heads targets) := by
  refine (sure_register i.b).any_bind fun operand => ?_
  split
  · exact sure_setRegister _ _
  · exact Sure.look.any_bind fun _ => sure_setRegister _ _
  · exact .typeError

theorem sure_compare (i : Instruction) (relation : Value → Value → Option Bool) :
    Sure start (x.compare i relation) (x.Heads [(x.pc : Int) + 1]) := by
  refine (sure_operand i.b).any_bind fun left => (sure_operand i.c).any_bind fun right => ?_
  split
  · exact .pure (heads_skipIf _)
  · exact .typeError

theorem sure_call (a b : Nat) (wanted : Option Nat) :
    Sure start (x.call a b wanted) (x.Heads targets) := by
  refine (sure_countAbove _ _).any_bind fun arguments => ?_
  exact (Sure.modifyThread fun _ => .of_eq (by rfl)).any_bind fun _ => sure_enter _ _ _ _

theorem stays_vacate (th : Thread) (slot arguments : Nat) : th.Stays (vacate th slot arguments) := by
  cases head : th.frames with
  | nil => exact .of_eq (by simp only [vacate, head])
  | cons f rest =>
      refine .of_suffix ?_
      rw [(vacate_cons head slot arguments).2.1, head]
      exact List.suffix_cons f rest

theorem sure_tailCall (a b : Nat) : Sure start (x.tailCall a b) (x.Heads targets) := by
  refine (sure_register a).any_bind fun callee => ?_
  split
  · refine (sure_countAbove _ _).any_bind fun arguments => ?_
    refine (Sure.modify fun _ upholds => upholds.closeCells _ _).any_bind fun _ => ?_
    refine Sure.lookThread.any_bind fun _ => .ite (.invalid (by simp)) ?_
    refine (Sure.modifyThread fun th => stays_vacate th _ _).any_bind fun _ => ?_
    refine (Sure.enterCall _ _ _ _).any_bind fun entered => ?_
    exact (Sure.modifyThread Thread.stays_markTail).any_bind fun _ => .pure (heads_entered _ _)
  · exact sure_call _ _ _

theorem sure_forLoop (i : Instruction) :
    Sure start (x.forLoop i) (x.Heads [(x.pc : Int) + i.sbx]) := by
  refine (sure_register i.a).any_bind fun index => ?_
  refine (sure_register (i.a + 1)).any_bind fun limit => ?_
  refine (sure_register (i.a + 2)).any_bind fun step => ?_
  split
  · extract_lets index continues
    refine Sure.ite ?_ (.pure (heads_next _))
    refine (sure_assign _ _).any_bind fun _ => ?_
    exact (sure_assign _ _).any_bind fun _ => .pure (heads_jump _)
  · exact .typeError

theorem sure_forPrep (i : Instruction) :
    Sure start (x.forPrep i) (x.Heads [(x.pc : Int) + i.sbx]) := by
  refine (sure_loopNumber _ _).any_bind fun start => ?_
  refine (sure_loopNumber _ _).any_bind fun limit => ?_
  refine (sure_loopNumber _ _).any_bind fun step => ?_
  refine (sure_assign _ _).any_bind fun _ => (sure_assign _ _).any_bind fun _ => ?_
  exact (sure_assign _ _).any_bind fun _ => .pure (heads_jump _)

theorem sure_iterCall (i : Instruction) : Sure start (x.iterCall i) (x.Heads targets) := by
  refine Sure.reserve.any_bind fun _ => ?_
  exact (Sure.modifyThread fun th => .of_eq (by simp)).any_bind fun _ => sure_enter _ _ _ _

theorem sure_flush (source count block : Nat) {pc : Int}
    (heads : x.Heads targets (.next pc)) :
    Sure start
      (do
        match ← getSlot x.thread source with
        | .table ref =>
          let th ← lookThread x.thread fun th => th
          modify fun s => s.modifyTable ref fun t =>
            storeItems th (source + 1) ((block - 1) * itemsPerFlush + 1) count t
          modifyThread x.thread fun th => th.withTop x.frame.top
          return .next pc
        | other => typeError x.thread (indexFailure other)) (x.Heads targets) := by
  refine Sure.lookThread.any_bind fun items => ?_
  split
  · refine Sure.lookThread.any_bind fun th => ?_
    refine (Sure.modify fun _ upholds => upholds.heap (by rfl) (by rfl)).any_bind fun _ => ?_
    exact (Sure.modifyThread fun _ => .of_eq (by rfl)).any_bind fun _ => .pure heads
  · exact .typeError

theorem sure_setList (i : Instruction) :
    Sure start (x.setList i) (x.Heads (i.targets .setList x.pc)) := by
  have heads : x.Heads (i.targets .setList x.pc)
      (.next (if i.c != 0 then x.pc else x.pc + 1)) := by
    simp only [Instruction.targets]
    split
    · exact heads_next _
    · exact heads_target (List.mem_singleton.2 rfl)
  refine Sure.ite (Sure.pure_any.any_bind fun count => ?_)
      (Sure.lookThread.any_bind fun count => ?_) <;>
    exact Sure.ite (Sure.pure_any.any_bind fun block => sure_flush _ _ _ heads)
      ((sure_extraWord (.inr (by decide))).any_bind fun block => sure_flush _ _ _ heads)

theorem sure_captureCells (captures : List Capture) (cells : Array CellRef) :
    Sure start (x.captureCells captures cells) Any := by
  induction captures generalizing cells with
  | nil => exact .pure_any
  | cons c rest ih =>
      simp only [captureCells]
      split
      · exact (Sure.modifyGet fun _ upholds => upholds.captureSlot _ _).any_bind fun _ => ih _
      · split
        · exact Sure.pure_any.any_bind fun ref => ih _
        · exact Sure.any_bind (.invalid (by simp)) fun ref => ih _

theorem sure_makeClosure (i : Instruction) :
    Sure start (x.makeClosure i) (x.Heads targets) := by
  simp only [makeClosure]
  split
  · exact .invalid (by simp)
  · refine (sure_captureCells _ _).any_bind fun cells => ?_
    refine (Sure.modifyGet fun _ upholds => upholds.newClosure _).any_bind fun ref => ?_
    exact sure_setRegister _ _

theorem sure_vararg (i : Instruction) : Sure start (x.vararg i) (x.Heads targets) := by
  have copy : ∀ values : Thread → List Value, Sure start
      (do
        modifyThread x.thread fun th => th.putAll (x.slot i.a) (values th)
        return .next x.pc) (x.Heads targets) := fun values =>
    (Sure.modifyThread fun th => .of_eq (by simp)).any_bind fun _ => .pure (heads_next _)
  refine Sure.ite (Sure.pure_any.any_bind fun _ => copy _) ?_
  refine Sure.reserve.any_bind fun _ => ?_
  exact (Sure.modifyThread fun _ => .of_eq (by rfl)).any_bind fun _ =>
    Sure.pure_any.any_bind fun _ => copy _

theorem sure_loadKX (i : Instruction) :
    Sure start (x.execute .loadKX i) (x.Heads [(x.pc : Int) + 1]) := by
  refine (sure_extraWord (.inl (by decide))).any_bind fun index => ?_
  exact (sure_assign _ _).any_bind fun _ => .pure (heads_target (List.mem_singleton.2 rfl))

theorem sure_loadBool (i : Instruction) :
    Sure start (x.execute .loadBool i) (x.Heads (i.targets .loadBool x.pc)) := by
  refine (sure_assign _ _).any_bind fun _ => .pure ?_
  simp only [skipIf, Instruction.targets]
  split
  · exact heads_target (List.mem_singleton.2 rfl)
  · exact heads_next _

theorem sure_jump (i : Instruction) :
    Sure start (x.execute .jump i) (x.Heads [(x.pc : Int) + i.sbx]) := by
  simp only [execute]
  split
  · exact (Sure.modify fun _ upholds => upholds.closeCells _ _).any_bind fun _ =>
      .pure (heads_jump _)
  · exact .pure (heads_jump _)

theorem sure_testSet (i : Instruction) :
    Sure start (x.execute .testSet i) (x.Heads [(x.pc : Int) + 1]) := by
  refine (sure_register _).any_bind fun value => ?_
  exact Sure.ite (.pure (heads_skipIf true)) (sure_setRegister _ _)

theorem sure_iterLoop (i : Instruction) :
    Sure start (x.execute .iterLoop i) (x.Heads [(x.pc : Int) + i.sbx]) := by
  refine (sure_register _).any_bind fun control => ?_
  refine Sure.ite (.pure (heads_next _)) ?_
  exact (sure_assign _ _).any_bind fun _ => .pure (heads_jump _)

theorem sure_setCell (i : Instruction) :
    Sure start (x.execute .setCell i) (x.Heads targets) := by
  refine (sure_register _).any_bind fun value => (sure_cell _).any_bind fun ref => ?_
  exact (Sure.modify fun _ upholds => upholds.writeCell _ _).any_bind fun _ =>
    .pure (heads_next _)

/-- An instruction that is no return leaves every frame on its code, and goes on behind itself or at
one of its targets. -/
theorem sure_execute (op : Opcode) (i : Instruction) (goes : op ≠ .ret) :
    Sure start (x.execute op i) (x.Heads (i.targets op x.pc)) := by
  cases op with
  | ret => exact absurd rfl goes
  | move => exact (sure_register _).any_bind fun _ => sure_setRegister _ _
  | loadK => exact sure_setRegister _ _
  | loadKX => exact sure_loadKX i
  | loadBool => exact sure_loadBool i
  | loadNil =>
      exact (Sure.modifyThread fun _ => .of_eq (by rfl)).any_bind fun _ => .pure (heads_next _)
  | getCell => exact (sure_readCell _).any_bind fun _ => sure_setRegister _ _
  | getTabCell =>
      exact (sure_readCell _).any_bind fun _ => (sure_operand _).any_bind fun _ =>
        sure_getField _ _ _
  | getTable =>
      exact (sure_register _).any_bind fun _ => (sure_operand _).any_bind fun _ =>
        sure_getField _ _ _
  | setTabCell =>
      exact (sure_readCell _).any_bind fun _ => (sure_operand _).any_bind fun _ =>
        (sure_operand _).any_bind fun _ => sure_setField _ _ _
  | setCell => exact sure_setCell i
  | setTable =>
      exact (sure_register _).any_bind fun _ => (sure_operand _).any_bind fun _ =>
        (sure_operand _).any_bind fun _ => sure_setField _ _ _
  | newTable =>
      exact (Sure.modifyGet fun _ upholds => upholds.heap (by rfl) (by rfl)).any_bind fun _ =>
        sure_setRegister _ _
  | selfCall =>
      exact (sure_register _).any_bind fun _ => (sure_operand _).any_bind fun _ =>
        (sure_assign _ _).any_bind fun _ => sure_getField _ _ _
  | add | sub | mul | mod | pow | div | intDiv | bitAnd | bitOr | bitXor | shiftLeft
  | shiftRight => exact sure_binary _ i
  | neg | bitNot => exact sure_unary _ i
  | logicalNot => exact (sure_register _).any_bind fun _ => sure_setRegister _ _
  | length => exact sure_length i
  | concat => exact (sure_concatFrom _ _ _).any_bind fun _ => sure_setRegister _ _
  | jump => exact sure_jump i
  | eq => exact sure_compare i fun left right => some (left.same right)
  | lt => exact sure_compare i lessThan?
  | le => exact sure_compare i lessEqual?
  | test => exact (sure_register _).any_bind fun _ => .pure (heads_skipIf _)
  | testSet => exact sure_testSet i
  | call => exact sure_call _ _ _
  | tailCall => exact sure_tailCall _ _
  | forLoop => exact sure_forLoop i
  | forPrep => exact sure_forPrep i
  | iterCall => exact sure_iterCall i
  | iterLoop => exact sure_iterLoop i
  | setList => exact sure_setList i
  | closure => exact sure_makeClosure i
  | vararg => exact sure_vararg i
  | extraArg => exact .invalid (by decide)

end Context

end RegisterVm
