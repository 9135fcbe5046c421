import RegisterVm.Proofs.Call.Extras
import RegisterVm.Proofs.Registers.Paired

/-!
The registers that an instruction touches. Run from two stores that differ in another register only,
it ends in the same way: the other register is not read, stays as it was while the frame goes on,
and gets no result of a call.
-/

namespace RegisterVm

namespace Instruction

def Names (operand r : Nat) : Prop := isConstant operand = false ∧ r = operand

/-- The registers that an instruction reads or writes, results of its call included, so far as its
operands tell. -/
def Touches (i : Instruction) (op : Opcode) (r : Nat) : Prop :=
  match op with
  | .jump | .extraArg => False
  | .loadK | .loadKX | .loadBool | .getCell | .setCell | .newTable | .test | .closure => r = i.a
  | .move | .neg | .bitNot | .logicalNot | .length | .testSet => r = i.a ∨ r = i.b
  | .loadNil => i.a ≤ r ∧ r ≤ i.a + i.b
  | .getTabCell => r = i.a ∨ Names i.c r
  | .getTable => r = i.a ∨ r = i.b ∨ Names i.c r
  | .setTabCell | .eq | .lt | .le => Names i.b r ∨ Names i.c r
  | .setTable | .add | .sub | .mul | .mod | .pow | .div | .intDiv | .bitAnd | .bitOr | .bitXor
  | .shiftLeft | .shiftRight => r = i.a ∨ Names i.b r ∨ Names i.c r
  | .selfCall => r = i.a ∨ r = i.a + 1 ∨ r = i.b ∨ Names i.c r
  | .concat => r = i.a ∨ (i.b ≤ r ∧ r ≤ i.c)
  -- The callee with its arguments, and the results in their place.
  | .call => i.a ≤ r ∧ r < i.a + max (max i.b 1) (i.c - 1)
  | .tailCall => i.a ≤ r ∧ r < i.a + max i.b 1
  | .ret | .vararg => i.a ≤ r ∧ r < i.a + (i.b - 1)
  | .forLoop => i.a ≤ r ∧ r ≤ i.a + 3
  | .forPrep => i.a ≤ r ∧ r ≤ i.a + 2
  -- The three registers of the loop, their copies for the call, and its results.
  | .iterCall => i.a ≤ r ∧ r < i.a + 3 + max 3 i.c
  | .iterLoop => r = i.a ∨ r = i.a + 1
  | .setList => i.a ≤ r ∧ r ≤ i.a + i.b

def Counted (i : Instruction) (op : Opcode) : Prop :=
  match op with
  | .call | .tailCall | .ret | .vararg | .setList => i.b ≠ 0
  | _ => True

end Instruction

namespace Context

variable {x : Context} {r : Nat} {v v' : Value}

structure Differ (x : Context) (r : Nat) (v v' : Value) (s s' : Store) : Prop where
  agree : s.Agree x.thread (· = x.slot r) s'
  left : (s.thread x.thread).get (x.slot r) = v
  right : (s'.thread x.thread).get (x.slot r) = v'

structure Forks (x : Context) (r : Nat) (v v' : Value) (s s' : Store) : Prop
    extends x.Differ r v v' s s' where
  live : ∃ below, x.Live below s
  linked : s.Linked
  uncaptured : s.Uncaptured x.thread (· = x.slot r)

def Parts (x : Context) (r : Nat) (v v' : Value) : Flow → Store → Store → Prop
  | .next _, s, s' => x.Differ r v v' s s'
  | .entered _, s, s' => s.Agree x.thread (· = x.slot r) s' ∧
      ∀ f, (s.thread x.thread).frame? = some f → f.isTail = false →
        ∀ count, f.wanted = some count → ¬(f.target ≤ x.slot r ∧ x.slot r < f.target + count)
  | .returned, s, s' => s.Agree x.thread (· = x.slot r) s'

/-- The instruction neither reads nor writes register `r`: whatever it holds, the instruction does
the same, and leaves the register as it was as long as the frame goes on. -/
def Spares (x : Context) (op : Opcode) (i : Instruction) (r : Nat) : Prop :=
  ∀ v v', Paired x.thread (· = x.slot r) (x.Forks r v v') (x.execute op i) (x.Parts r v v')

/-- The action does the same whatever register `r` holds. -/
abbrev Apart (x : Context) (r : Nat) {α : Type} (before : Store → Store → Prop) (action : Action α)
    (after : α → Store → Store → Prop) : Prop :=
  Paired x.thread (· = x.slot r) before action after

theorem slot_ne {i : Nat} (other : i ≠ r) : x.slot i ≠ x.slot r := by
  simp only [slot]
  omega

section Reading

variable {before : Store → Store → Prop}
  (agree : ∀ s s', before s s' → s.Agree x.thread (· = x.slot r) s')

include agree

theorem apart_register {i : Nat} (other : i ≠ r) :
    x.Apart r before (x.register i) fun _ => before :=
  Paired.lookThread (f := fun th => th.get (x.slot i)) fun s s' related =>
    (agree s s' related).thread.slots _ (slot_ne other)

theorem apart_operand {operand : Nat} (unnamed : ¬Instruction.Names operand r) :
    x.Apart r before (x.operand operand) fun _ => before := by
  simp only [Context.operand]
  split
  · exact .pure fun _ _ => id
  · rename_i register
    refine apart_register agree fun same => unnamed ⟨?_, same.symm⟩
    simpa using register

theorem apart_cell (index : Nat) : x.Apart r before (x.cell index) fun _ => before := by
  simp only [cell]
  split
  · exact .pure fun _ _ => id
  · exact .invalid agree

theorem apart_extraWord (user : String) : x.Apart r before (x.extraWord user) fun _ => before := by
  simp only [extraWord]
  split
  · exact .pure fun _ _ => id
  · exact .invalid agree

theorem apart_concatFrom {count first : Nat} (outside : ¬(first ≤ r ∧ r < first + count))
    (line : String) : x.Apart r before (x.concatFrom count first line) fun _ => before := by
  induction count generalizing first line with
  | zero => exact .pure fun _ _ => id
  | succ count ih =>
      refine (apart_register agree (by omega)).bind fun value => ?_
      split
      · exact ih (by omega) _
      · exact .typeError agree

theorem apart_loopNumber {i : Nat} (other : i ≠ r) (what : String) :
    x.Apart r before (x.loopNumber i what) fun _ => before := by
  refine (apart_register agree other).bind fun value => ?_
  split
  · exact .pure fun _ _ => id
  · exact .typeError agree

theorem apart_compare {i : Instruction} (left : ¬Instruction.Names i.b r)
    (right : ¬Instruction.Names i.c r) (relation : Value → Value → Option Bool)
    {after : Flow → Store → Store → Prop} (done : ∀ pc s s', before s s' → after (.next pc) s s') :
    x.Apart r before (x.compare i relation) after := by
  refine (apart_operand agree left).bind fun left => ?_
  refine (apart_operand agree right).bind fun right => ?_
  split
  · exact .pure fun s s' related => done _ s s' related
  · exact .typeError agree

end Reading

theorem Differ.agreeing (s s' : Store) (differ : x.Differ r v v' s s') :
    s.Agree x.thread (· = x.slot r) s' := differ.agree

theorem Forks.agreeing (s s' : Store) (forks : x.Forks r v v' s s') :
    s.Agree x.thread (· = x.slot r) s' := forks.agree

theorem Forks.differing (s s' : Store) (forks : x.Forks r v v' s s') : x.Differ r v v' s s' :=
  forks.toDiffer

theorem apart_readCell (index : Nat) :
    x.Apart r (x.Forks r v v') (x.readCell index) fun _ => x.Forks r v v' := by
  refine (apart_cell Forks.agreeing index).bind fun ref => ?_
  exact .look fun s s' forks => forks.agree.readCell forks.uncaptured ref

namespace Differ

variable {s s' : Store}

theorem kept (differ : x.Differ r v v' s s') {q q' : Store}
    (agree : q.Agree x.thread (· = x.slot r) q')
    (left : (q.thread x.thread).get (x.slot r) = (s.thread x.thread).get (x.slot r))
    (right : (q'.thread x.thread).get (x.slot r) = (s'.thread x.thread).get (x.slot r)) :
    x.Differ r v v' q q' :=
  ⟨agree, left.trans differ.left, right.trans differ.right⟩

theorem modifyThread (differ : x.Differ r v v' s s') {f : Thread → Thread}
    (step : ∀ th th', th.Agree (· = x.slot r) th' → (f th).Agree (· = x.slot r) (f th'))
    (kept : ∀ th, (f th).get (x.slot r) = th.get (x.slot r)) :
    x.Differ r v v' (s.modifyThread x.thread f) (s'.modifyThread x.thread f) := by
  have same (s : Store) :=
    s.field_modifyThread (fun th => th.get (x.slot r)) x.thread x.thread f kept
  exact differ.kept (differ.agree.modifyThread (step _ _ differ.agree.thread)) (same s) (same s')

theorem heap (differ : x.Differ r v v' s s') {f : Store → Store}
    (threads : ∀ s : Store, (f s).threads = s.threads)
    (blind : ∀ (s : Store) threads, f { s with threads } = { f s with threads }) :
    x.Differ r v v' (f s) (f s') := by
  have same (s : Store) : (f s).thread x.thread = s.thread x.thread := by
    rw [Store.thread, threads, Store.thread]
  exact differ.kept (differ.agree.heap threads blind) (by rw [same]) (by rw [same])

end Differ

theorem apart_put {i : Nat} (other : i ≠ r) (value : Value) :
    x.Apart r (x.Differ r v v') (putSlotOf x.thread (x.slot i) value) fun _ => x.Differ r v v' := by
  refine .modifyThread fun s s' differ => differ.modifyThread
    (fun th th' agree => (agree.put _ _).mono fun _ => And.left) fun th => ?_
  rw [Thread.get_put, if_neg (slot_ne other).symm]

theorem apart_assign {i : Nat} (other : i ≠ r) (value : Value) :
    x.Apart r (x.Differ r v v') (x.setRegister i value) fun _ => x.Differ r v v' :=
  (apart_put other value).bind fun _ => .pure fun _ _ => id

theorem apart_setRegister {i : Nat} (other : i ≠ r) (value : Value) :
    x.Apart r (x.Differ r v v') (x.setRegister i value) (x.Parts r v v') :=
  (apart_put other value).bind fun _ => .pure fun _ _ => id

section Calls

theorem apart_enter {d : Nat → Prop} {slot arguments target : Nat} {wanted : Option Nat}
    (narrow : ∀ index, d index → index = x.slot r)
    (unread : ∀ index, slot ≤ index → index ≤ slot + arguments → ¬d index)
    (elsewhere : ∀ count, wanted = some count →
      ¬(target ≤ x.slot r ∧ x.slot r < target + count)) :
    x.Apart r (Store.Agree x.thread d)
      (do return Flow.entered (← enterCall x.thread slot arguments target wanted))
      (x.Parts r v v') := by
  refine (Paired.enterCall target wanted narrow unread).bind fun entered => .pure ?_
  rintro s s' ⟨agree, delivers⟩
  refine ⟨agree.mono narrow, fun f head _ count wants => ?_⟩
  obtain ⟨place, same⟩ := delivers f head
  rw [place]
  exact elsewhere count (same.symm.trans wants)

theorem apart_enterHandler (handler : Value) (values : List Value) {target : Option Nat}
    (elsewhere : ∀ place, target = some place → place ≠ x.slot r) :
    x.Apart r (x.Differ r v v') (x.enterHandler handler values target) (x.Parts r v v') := by
  refine .strengthen ?_ Differ.agreeing
  refine (Paired.lookThread fun s s' agree => ?_).bind fun slot => ?_
  · exact congrArg (max _) agree.thread.top
  refine (Paired.reserve (fun _ _ => id) fun s s' agree =>
    agree.modifyThread (agree.thread.reserve _)).bind fun _ => ?_
  refine (Paired.modifyThread fun s s' agree => agree.modifyThread
    ((agree.thread.putAll slot (handler :: values)).withTop (slot + 1 + values.length))).bind
      fun _ => ?_
  -- The handler and its arguments have been written to where they are read.
  have unread (index : Nat) (lower : slot ≤ index) (upper : index ≤ slot + values.length) :
      ¬Thread.Outside (· = x.slot r) slot (handler :: values).length index := by
    rintro ⟨-, outside⟩
    rw [List.length_cons] at outside
    omega
  split
  · rename_i place
    refine apart_enter (fun _ => And.left) unread fun count wants => ?_
    obtain rfl := Option.some.inj wants
    have := elsewhere place rfl
    omega
  · refine apart_enter (fun _ => And.left) unread fun count wants => ?_
    obtain rfl := Option.some.inj wants
    omega

theorem elsewhere_register {register : Nat} (other : register ≠ r) (place : Nat)
    (same : some (x.slot register) = some place) : place ≠ x.slot r := by
  obtain rfl := Option.some.inj same
  exact slot_ne other

theorem apart_getField (object key : Value) {register : Nat} (other : register ≠ r) :
    x.Apart r (x.Differ r v v') (x.getField object key register) (x.Parts r v v') := by
  refine (Paired.look fun s s' differ => differ.agree.readField object key).bind fun access => ?_
  split
  · exact apart_setRegister other _
  · exact apart_enterHandler _ _ (elsewhere_register other)
  · exact .typeError Differ.agreeing

theorem apart_setField (object key value : Value) :
    x.Apart r (x.Differ r v v') (x.setField object key value) (x.Parts r v v') := by
  refine (Paired.look fun s s' differ => differ.agree.fieldOwner object key).bind
    fun access => ?_
  split
  · split
    · exact .typeError Differ.agreeing
    · rename_i ref _ _
      refine (Paired.modify fun s s' differ => ?_).bind fun _ => .pure fun _ _ => id
      exact differ.heap (f := fun s => s.setRaw ref key value) (fun _ => rfl) fun _ _ => rfl
  · exact apart_enterHandler _ _ nofun
  · exact .typeError Differ.agreeing

theorem apart_operatorHandler (op : Opcode) (left right : Value) {register : Nat}
    (other : register ≠ r) :
    x.Apart r (x.Differ r v v') (x.operatorHandler op left right register) (x.Parts r v v') := by
  refine (Paired.look fun s s' differ => ?_).bind fun handler => ?_
  · exact differ.agree.field (f := fun s =>
      (eventName? op).bind fun event => (s.handler? left event).or (s.handler? right event))
        fun _ => rfl
  split
  · exact apart_enterHandler _ _ (elsewhere_register other)
  · exact .typeError Differ.agreeing

end Calls

section Instructions

variable {i : Instruction}

theorem apart_binary (op : Opcode) (target : i.a ≠ r) (left : ¬Instruction.Names i.b r)
    (right : ¬Instruction.Names i.c r) :
    x.Apart r (x.Differ r v v') (x.binary op i) (x.Parts r v v') := by
  refine (apart_operand Differ.agreeing left).bind fun left => ?_
  refine (apart_operand Differ.agreeing right).bind fun right => ?_
  split
  · exact apart_setRegister target _
  · exact apart_operatorHandler _ _ _ target

theorem apart_unary (op : Opcode) (target : i.a ≠ r) (source : i.b ≠ r) :
    x.Apart r (x.Differ r v v') (x.unary op i) (x.Parts r v v') := by
  refine (apart_register Differ.agreeing source).bind fun operand => ?_
  split
  · exact apart_setRegister target _
  · exact apart_operatorHandler _ _ _ target

theorem apart_length (target : i.a ≠ r) (source : i.b ≠ r) :
    x.Apart r (x.Differ r v v') (x.length i) (x.Parts r v v') := by
  refine (apart_register Differ.agreeing source).bind fun operand => ?_
  split
  · exact apart_setRegister target _
  · rename_i ref
    refine (Paired.look fun s s' differ => ?_).bind fun _ => apart_setRegister target _
    exact differ.agree.field (f := fun s => (s.table ref).length) fun _ => rfl
  · exact .typeError Differ.agreeing

theorem countAbove_counted {operand : Nat} (counted : operand ≠ 0) (first : Nat) :
    x.countAbove operand first = pure (operand - 1) := by
  have given : (operand != 0) = true := by simpa using counted
  rw [countAbove, given]
  rfl

theorem apart_call {a b : Nat} {wanted : Option Nat} (counted : b ≠ 0)
    (outside : ¬(a ≤ r ∧ r < a + b))
    (elsewhere : ∀ count, wanted = some count → ¬(a ≤ r ∧ r < a + count)) :
    x.Apart r (x.Differ r v v') (x.call a b wanted) (x.Parts r v v') := by
  simp only [call, countAbove_counted counted, pure_bind]
  refine (Paired.modifyThread fun s s' (differ : x.Differ r v v' s s') =>
    differ.agree.modifyThread (differ.agree.thread.withTop _)).bind fun _ => ?_
  refine apart_enter (fun _ => id) (fun index lower upper same => ?_) fun count wants => ?_
  · simp only [slot] at lower upper same
    omega
  · have := elsewhere count wants
    simp only [slot]
    omega

theorem agree_vacate {d : Nat → Prop} {th th' : Thread} (agree : th.Agree d th') {f : Frame}
    {below : List Frame} (head : th.frames = f :: below) {slot arguments : Nat}
    (unread : ∀ index, slot ≤ index → index < slot + (arguments + 1) → ¬d index) :
    (vacate th slot arguments).Agree (Thread.Outside d f.slot (arguments + 1))
      (vacate th' slot arguments) := by
  have dropped : ({ th with frames := below, top := slot + 1 + arguments } : Thread).Agree d
      { th' with frames := below, top := slot + 1 + arguments } :=
    agree.update (f := fun th => { th with frames := below, top := slot + 1 + arguments })
      (fun _ => rfl) fun _ _ => rfl
  simp only [vacate, agree.frames, head]
  exact ((dropped.moveSlots f.slot unread).clear _ _ rfl).withTop _

theorem frame_markTail {th : Thread} {f : Frame} (head : th.markTail.frame? = some f) :
    f.isTail = true := by
  cases frames : th.frames with
  | nil =>
      simp only [Thread.markTail, frames, Thread.frame?] at head
      contradiction
  | cons g below =>
      simp only [Thread.markTail, frames, Thread.frame?, List.head?_cons] at head
      obtain rfl := Option.some.inj head
      rfl

theorem apart_closeCells (level : Nat) :
    x.Apart r (x.Forks r v v') (closeCells x.thread level) fun _ s s' =>
      x.Differ r v v' s s' ∧ ∃ below, x.Live below s := by
  have same (s : Store) : ((s.closeCells x.thread level).thread x.thread).get (x.slot r) =
      (s.thread x.thread).get (x.slot r) := by
    obtain ⟨_, thread⟩ := s.alike_closeCells x.thread x.thread level
    rw [thread]
    rfl
  refine .modify fun s s' forks => ⟨forks.toDiffer.kept ?_ (same s) (same s'), ?_⟩
  · exact forks.agree.closeCells (forks.linked.listed _) forks.uncaptured level
  · obtain ⟨below, valid, pc, head⟩ := forks.live
    refine ⟨below, ?_, pc, ?_⟩
    · rwa [Store.threadCount_closeCells]
    · rwa [Store.frames_closeCells]

theorem apart_tailCall {a b : Nat} (counted : b ≠ 0) (outside : ¬(a ≤ r ∧ r < a + b)) :
    x.Apart r (x.Forks r v v') (x.tailCall a b) (x.Parts r v v') := by
  refine (apart_register Forks.agreeing (by omega)).bind fun callee => ?_
  split
  · simp only [countAbove_counted counted, pure_bind]
    refine (apart_closeCells _).bind fun _ => ?_
    have base (s s' : Store) (closed : x.Differ r v v' s s' ∧ ∃ below, x.Live below s) :=
      closed.1.agree
    refine (Paired.lookThread fun s s' closed => ?_).bind fun idle => .ite (.invalid base) ?_
    · exact congrArg List.isEmpty (base s s' closed).thread.frames
    -- The move may write the register. What is entered then reads only what has been moved.
    have vacates : x.Apart r (fun s s' => x.Differ r v v' s s' ∧ ∃ below, x.Live below s)
        (modifyThread x.thread fun th => vacate th (x.slot a) (b - 1)) fun _ =>
          Store.Agree x.thread (Thread.Outside (· = x.slot r) x.frame.slot (b - 1 + 1)) := by
      refine .modifyThread ?_
      rintro s s' ⟨differ, below, -, pc, head⟩
      refine differ.agree.modifyThread (agree_vacate differ.agree.thread head ?_)
      intro index lower upper same
      simp only [slot] at lower upper same
      omega
    refine vacates.bind fun _ => ?_
    refine (Paired.enterCall _ _ (fun _ => And.left) ?_).bind fun entered => ?_
    · rintro index lower upper ⟨-, apart⟩
      omega
    refine (Paired.modifyThread fun s s' entered => ?_).bind fun _ => .pure fun _ _ => id
    refine ⟨entered.1.modifyThread (entered.1.thread.markTail.mono fun _ => And.left), ?_⟩
    intro f head unmarked
    have marked : f.isTail = true :=
      s.head_modifyThread (p := fun f => f.isTail = true) (fun _ _ => frame_markTail) f head
    rw [marked] at unmarked
    contradiction
  · refine .strengthen (apart_call counted outside ?_) Forks.differing
    intro count wants
    contradiction

theorem apart_ret {a b : Nat} (counted : b ≠ 0) (outside : ¬(a ≤ r ∧ r < a + (b - 1))) :
    x.Apart r (x.Forks r v v') (x.ret a b) (x.Parts r v v') := by
  simp only [ret, countAbove_counted counted, pure_bind]
  refine (apart_closeCells _).bind fun _ => ?_
  refine (Paired.modifyThread fun s s' closed => ?_).bind fun _ => .pure fun _ _ => id
  refine closed.1.agree.modifyThread (closed.1.agree.thread.finish fun index lower upper same => ?_)
  simp only [slot] at lower upper same
  omega

theorem apart_forLoop (outside : ¬(i.a ≤ r ∧ r ≤ i.a + 3)) :
    x.Apart r (x.Differ r v v') (x.forLoop i) (x.Parts r v v') := by
  refine (apart_register Differ.agreeing (by omega)).bind fun index => ?_
  refine (apart_register Differ.agreeing (by omega)).bind fun limit => ?_
  refine (apart_register Differ.agreeing (by omega)).bind fun step => ?_
  split
  · refine .ite ?_ (.pure fun _ _ => id)
    refine (apart_assign (by omega) _).bind fun _ => (apart_assign (by omega) _).bind fun _ => ?_
    exact .pure fun _ _ => id
  · exact .typeError Differ.agreeing

theorem apart_forPrep (outside : ¬(i.a ≤ r ∧ r ≤ i.a + 2)) :
    x.Apart r (x.Differ r v v') (x.forPrep i) (x.Parts r v v') := by
  refine (apart_loopNumber Differ.agreeing (by omega) _).bind fun start => ?_
  refine (apart_loopNumber Differ.agreeing (by omega) _).bind fun limit => ?_
  refine (apart_loopNumber Differ.agreeing (by omega) _).bind fun step => ?_
  refine (apart_assign (by omega) _).bind fun _ => (apart_assign (by omega) _).bind fun _ => ?_
  exact (apart_assign (by omega) _).bind fun _ => .pure fun _ _ => id

theorem apart_iterCall (outside : ¬(i.a ≤ r ∧ r < i.a + 3 + max 3 i.c)) :
    x.Apart r (x.Differ r v v') (x.iterCall i) (x.Parts r v v') := by
  refine .strengthen ?_ Differ.agreeing
  refine (Paired.reserve (fun _ _ => id) fun s s' agree =>
    agree.modifyThread (agree.thread.reserve _)).bind fun _ => ?_
  have copies : x.Apart r (Store.Agree x.thread (· = x.slot r))
      (modifyThread x.thread fun th =>
        let source := x.slot i.a
        (th.putAll (x.slot (i.a + 3)) [th.get source, th.get (source + 1),
          th.get (source + 2)]).withTop (x.slot (i.a + 3) + 3)) fun _ =>
        Store.Agree x.thread (Thread.Outside (· = x.slot r) (x.slot (i.a + 3)) 3) := by
    refine .modifyThread fun s s' agree => agree.modifyThread ?_
    have same (k : Nat) (within : k ≤ 2) :
        (s'.thread x.thread).get (x.slot i.a + k) = (s.thread x.thread).get (x.slot i.a + k) := by
      refine agree.thread.slots _ ?_
      simp only [slot]
      omega
    have first : (s'.thread x.thread).get (x.slot i.a) = (s.thread x.thread).get (x.slot i.a) :=
      same 0 (by omega)
    dsimp only
    rw [first, same 1 (by omega), same 2 (by omega)]
    exact (agree.thread.putAll _ [_, _, _]).withTop _
  refine copies.bind fun _ => apart_enter (fun _ => And.left) ?_ fun count wants => ?_
  · rintro index lower upper ⟨-, apart⟩
    omega
  · obtain rfl := Option.some.inj wants
    simp only [slot]
    omega

theorem storeItems_congr {th th' : Thread} {source count : Nat}
    (same : ∀ index, source ≤ index → index < source + count → th'.get index = th.get index)
    (key : Nat) (t : Table) :
    storeItems th' source key count t = storeItems th source key count t := by
  induction count generalizing source key t with
  | zero => rfl
  | succ count ih =>
      rw [storeItems, storeItems, same source (Nat.le_refl _) (by omega)]
      exact ih (fun index lower upper => same index (by omega) (by omega)) _ _

theorem apart_flush {source count : Nat}
    (outside : ¬(source ≤ x.slot r ∧ x.slot r ≤ source + count)) (block : Nat) (pc : Int) :
    x.Apart r (x.Differ r v v')
      (do
        match ← getSlot x.thread source with
        | .table ref =>
          let th ← lookThread x.thread fun th => th
          modify fun s => s.modifyTable ref fun t =>
            storeItems th (source + 1) ((block - 1) * itemsPerFlush + 1) count t
          modifyThread x.thread fun th => th.withTop x.frame.top
          return .next pc
        | other => typeError x.thread (indexFailure other)) (x.Parts r v v') := by
  refine (Paired.lookThread fun s s' differ => ?_).bind fun target => ?_
  · exact differ.agree.thread.slots source (by omega)
  split
  · rename_i ref
    have stores : x.Apart r (x.Differ r v v')
        (modify fun s => s.modifyTable ref fun t =>
          storeItems (s.thread x.thread) (source + 1) ((block - 1) * itemsPerFlush + 1) count t)
        fun _ => x.Differ r v v' := by
      refine .modify fun s s' differ => ?_
      have same (index : Nat) (lower : source + 1 ≤ index) (upper : index < source + 1 + count) :
          (s'.thread x.thread).get index = (s.thread x.thread).get index :=
        differ.agree.thread.slots index (by omega)
      have items (t : Table) := storeItems_congr same ((block - 1) * itemsPerFlush + 1) t
      simp only [items]
      exact differ.heap (f := fun s' => s'.modifyTable ref fun t =>
        storeItems (s.thread x.thread) (source + 1) ((block - 1) * itemsPerFlush + 1) count t)
          (fun _ => rfl) fun _ _ => rfl
    have goes : x.Apart r (x.Differ r v v')
        (do
          modifyThread x.thread fun th => th.withTop x.frame.top
          return Flow.next pc) (x.Parts r v v') := by
      refine (Paired.modifyThread fun s s' differ => ?_).bind fun _ => .pure fun _ _ => id
      exact differ.modifyThread (fun _ _ agree => agree.withTop _) fun _ => rfl
    exact stores.bind fun _ => goes
  · exact .typeError Differ.agreeing

theorem apart_setList (counted : i.b ≠ 0) (outside : ¬(i.a ≤ r ∧ r ≤ i.a + i.b)) :
    x.Apart r (x.Differ r v v') (x.setList i) (x.Parts r v v') := by
  have given : (i.b != 0) = true := by simpa using counted
  have unread : ¬(x.slot i.a ≤ x.slot r ∧ x.slot r ≤ x.slot i.a + i.b) := by
    simp only [slot]
    omega
  simp only [setList, given, if_true, pure_bind]
  refine .ite (apart_flush unread _ _) ?_
  exact (apart_extraWord Differ.agreeing _).bind fun block => apart_flush unread block _

theorem apart_captureCells (captures : List Capture) (cells : Array CellRef) :
    x.Apart r (x.Differ r v v') (x.captureCells captures cells) fun _ => x.Differ r v v' := by
  have same (s : Store) (index : Nat) :
      ((s.captureSlot x.thread index).2.thread x.thread).get (x.slot r) =
        (s.thread x.thread).get (x.slot r) := by
    obtain ⟨_, thread⟩ := s.thread_captureSlot x.thread index x.thread
    rw [thread]
    rfl
  induction captures generalizing cells with
  | nil => exact .pure fun _ _ => id
  | cons c rest ih =>
      simp only [captureCells]
      split
      · refine (Paired.modifyGet fun s s' differ => ?_).bind fun _ => ih _
        obtain ⟨ref, agree⟩ := differ.agree.captureSlot (x.slot c.index.toNat)
        exact ⟨ref, differ.kept agree (same s _) (same s' _)⟩
      · split
        · exact (Paired.pure fun _ _ => id).bind fun _ => ih _
        · exact (Paired.invalid Differ.agreeing).bind fun _ => ih _

theorem apart_makeClosure (target : i.a ≠ r) :
    x.Apart r (x.Differ r v v') (x.makeClosure i) (x.Parts r v v') := by
  simp only [makeClosure]
  split
  · exact .invalid Differ.agreeing
  · rename_i p _
    refine (apart_captureCells _ _).bind fun cells => ?_
    refine (Paired.modifyGet fun s s' differ => ?_).bind fun ref => apart_setRegister target _
    refine ⟨differ.agree.field (f := fun s => s.closures.size) fun _ => rfl, ?_⟩
    exact differ.heap (f := fun s => (s.newClosure ⟨p, cells⟩).2) (fun _ => rfl) fun _ _ => rfl

theorem apart_vararg (extras : x.frame.extras ≤ x.frame.base) (counted : i.b ≠ 0)
    (outside : ¬(i.a ≤ r ∧ r < i.a + (i.b - 1))) :
    x.Apart r (x.Differ r v v') (x.vararg i) (x.Parts r v v') := by
  have spreads (th th' : Thread) (agree : th.Agree (· = x.slot r) th') :
      (x.spread (x.slot i.a) (i.spreads x.frame.extras) th).Agree (· = x.slot r)
        (x.spread (x.slot i.a) (i.spreads x.frame.extras) th') := by
    have below (k : Nat) (extra : k < x.frame.extras) :
        th'.get (x.frame.base - x.frame.extras + k) =
          th.get (x.frame.base - x.frame.extras + k) := by
      refine agree.slots _ ?_
      simp only [slot]
      omega
    have same : (List.range (i.spreads x.frame.extras)).map (fun k =>
          if k < x.frame.extras then th'.get (x.frame.base - x.frame.extras + k) else .nil) =
        (List.range (i.spreads x.frame.extras)).map fun k =>
          if k < x.frame.extras then th.get (x.frame.base - x.frame.extras + k) else .nil := by
      refine List.map_congr_left fun k _ => ?_
      split
      · exact below k (by assumption)
      · rfl
    rw [spread, spread, same]
    exact (agree.putAll _ _).mono fun _ => And.left
  rw [vararg_eq]
  simp only [if_neg counted]
  refine Paired.bind (.modifyThread fun s s' differ => ?_) fun _ => .pure fun _ _ => id
  refine differ.modifyThread spreads fun th => ?_
  rw [get_spread, Instruction.spreads, if_neg counted, if_neg]
  simp only [slot]
  omega

theorem apart_jump (i : Instruction) :
    x.Apart r (x.Forks r v v') (x.execute .jump i) (x.Parts r v v') := by
  simp only [execute]
  split
  · exact (apart_closeCells _).bind fun _ => .pure fun _ _ closed => closed.1
  · exact .pure Forks.differing

theorem apart_setCell (source : i.a ≠ r) :
    x.Apart r (x.Forks r v v') (x.execute .setCell i) (x.Parts r v v') := by
  refine (apart_register Forks.agreeing source).bind fun value => ?_
  refine (apart_cell Forks.agreeing i.b).bind fun ref => ?_
  refine Paired.bind (.modify fun s s' forks => ?_) fun _ => .pure fun _ _ => id
  have uncaptured : s'.Uncaptured x.thread (· = x.slot r) := by
    simpa only [Store.Uncaptured, forks.agree.cells] using forks.uncaptured
  exact forks.toDiffer.kept (forks.agree.writeCell ref value)
    (forks.uncaptured.get_writeCell rfl ref value) (uncaptured.get_writeCell rfl ref value)

/-- An instruction spares the registers that it does not touch. -/
theorem execute_spares (op : Opcode) (i : Instruction) (counted : i.Counted op)
    (untouched : ¬i.Touches op r) (extras : x.frame.extras ≤ x.frame.base) :
    x.Spares op i r := by
  intro v v'
  have going {α : Type} {action : Action α} {after : α → Store → Store → Prop}
      (apart : x.Apart r (x.Differ r v v') action after) :
      x.Apart r (x.Forks r v v') action after := apart.strengthen Forks.differing
  cases op with
  | move =>
      obtain ⟨target, source⟩ := not_or.1 untouched
      exact (apart_register Forks.agreeing (Ne.symm source)).bind fun _ =>
        going (apart_setRegister (Ne.symm target) _)
  | loadK => exact going (apart_setRegister (Ne.symm untouched) _)
  | loadKX =>
      refine (apart_extraWord Forks.agreeing _).bind fun _ => ?_
      exact going ((apart_assign (Ne.symm untouched) _).bind fun _ => .pure fun _ _ => id)
  | loadBool => exact going ((apart_assign (Ne.symm untouched) _).bind fun _ => .pure fun _ _ => id)
  | loadNil =>
      refine going ((Paired.modifyThread fun s s' differ => ?_).bind fun _ => .pure fun _ _ => id)
      refine differ.modifyThread (fun _ _ agree => agree.clear _ _ rfl) fun th => ?_
      simp only [Instruction.Touches] at untouched
      rw [Thread.get_clear, if_neg]
      simp only [slot]
      omega
  | getCell =>
      exact (apart_readCell _).bind fun _ => going (apart_setRegister (Ne.symm untouched) _)
  | getTabCell =>
      obtain ⟨target, key⟩ := not_or.1 untouched
      refine (apart_readCell _).bind fun object => ?_
      refine (apart_operand Forks.agreeing key).bind fun key => ?_
      exact going (apart_getField _ _ (Ne.symm target))
  | getTable =>
      obtain ⟨target, rest⟩ := not_or.1 untouched
      obtain ⟨source, key⟩ := not_or.1 rest
      refine (apart_register Forks.agreeing (Ne.symm source)).bind fun object => ?_
      refine (apart_operand Forks.agreeing key).bind fun key => ?_
      exact going (apart_getField _ _ (Ne.symm target))
  | setTabCell =>
      obtain ⟨key, value⟩ := not_or.1 untouched
      refine (apart_readCell _).bind fun object => ?_
      refine (apart_operand Forks.agreeing key).bind fun key => ?_
      exact (apart_operand Forks.agreeing value).bind fun value => going (apart_setField _ _ _)
  | setCell => exact apart_setCell (Ne.symm untouched)
  | setTable =>
      obtain ⟨object, rest⟩ := not_or.1 untouched
      obtain ⟨key, value⟩ := not_or.1 rest
      refine (apart_register Forks.agreeing (Ne.symm object)).bind fun object => ?_
      refine (apart_operand Forks.agreeing key).bind fun key => ?_
      exact (apart_operand Forks.agreeing value).bind fun value => going (apart_setField _ _ _)
  | newTable =>
      refine going ((Paired.modifyGet fun s s' differ => ?_).bind fun ref =>
        apart_setRegister (Ne.symm untouched) _)
      refine ⟨differ.agree.field (f := fun s => s.tables.size) fun _ => rfl, ?_⟩
      exact differ.heap (f := fun s => (s.newTable .empty).2) (fun _ => rfl) fun _ _ => rfl
  | selfCall =>
      obtain ⟨target, rest⟩ := not_or.1 untouched
      obtain ⟨next, rest⟩ := not_or.1 rest
      obtain ⟨source, key⟩ := not_or.1 rest
      refine (apart_register Forks.agreeing (Ne.symm source)).bind fun object => ?_
      refine (apart_operand Forks.agreeing key).bind fun key => going ?_
      exact (apart_assign (Ne.symm next) _).bind fun _ => apart_getField _ _ (Ne.symm target)
  | add | sub | mul | mod | pow | div | intDiv | bitAnd | bitOr | bitXor | shiftLeft
  | shiftRight =>
      obtain ⟨target, rest⟩ := not_or.1 untouched
      obtain ⟨left, right⟩ := not_or.1 rest
      exact going (apart_binary _ (Ne.symm target) left right)
  | neg | bitNot =>
      obtain ⟨target, source⟩ := not_or.1 untouched
      exact going (apart_unary _ (Ne.symm target) (Ne.symm source))
  | logicalNot =>
      obtain ⟨target, source⟩ := not_or.1 untouched
      exact (apart_register Forks.agreeing (Ne.symm source)).bind fun _ =>
        going (apart_setRegister (Ne.symm target) _)
  | length =>
      obtain ⟨target, source⟩ := not_or.1 untouched
      exact going (apart_length (Ne.symm target) (Ne.symm source))
  | concat =>
      obtain ⟨target, range⟩ := not_or.1 untouched
      refine (apart_concatFrom Forks.agreeing (by omega) _).bind fun _ => ?_
      exact going (apart_setRegister (Ne.symm target) _)
  | jump => exact apart_jump i
  | eq | lt | le =>
      obtain ⟨left, right⟩ := not_or.1 untouched
      simp only [execute]
      exact apart_compare Forks.agreeing left right _ fun _ => Forks.differing
  | test =>
      exact (apart_register Forks.agreeing (Ne.symm untouched)).bind fun _ => .pure Forks.differing
  | testSet =>
      obtain ⟨target, source⟩ := not_or.1 untouched
      refine (apart_register Forks.agreeing (Ne.symm source)).bind fun _ => .ite ?_ ?_
      · exact .pure Forks.differing
      · exact going (apart_setRegister (Ne.symm target) _)
  | call =>
      simp only [Instruction.Touches, Instruction.Counted] at untouched counted
      refine going (apart_call counted (by omega) fun count wants => ?_)
      split at wants
      · contradiction
      · obtain rfl := Option.some.inj wants
        omega
  | tailCall =>
      simp only [Instruction.Touches, Instruction.Counted] at untouched counted
      exact apart_tailCall counted (by omega)
  | ret => exact apart_ret counted untouched
  | forLoop => exact going (apart_forLoop untouched)
  | forPrep => exact going (apart_forPrep untouched)
  | iterCall => exact going (apart_iterCall untouched)
  | iterLoop =>
      obtain ⟨target, control⟩ := not_or.1 untouched
      refine (apart_register Forks.agreeing (Ne.symm control)).bind fun _ => .ite ?_ ?_
      · exact .pure Forks.differing
      · exact going ((apart_assign (Ne.symm target) _).bind fun _ => .pure fun _ _ => id)
  | setList => exact going (apart_setList counted untouched)
  | closure => exact going (apart_makeClosure (Ne.symm untouched))
  | vararg => exact going (apart_vararg extras counted untouched)
  | extraArg => exact .invalid Forks.agreeing

end Instructions

end Context

end RegisterVm
