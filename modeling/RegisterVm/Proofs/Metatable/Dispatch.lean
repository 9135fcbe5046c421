import RegisterVm.Proofs.Call.Arguments
import RegisterVm.Proofs.Call.Returning
import RegisterVm.Proofs.Limits.Stores
import RegisterVm.Proofs.Metatable.Fields
import RegisterVm.Proofs.Metatable.Handlers

/-!
Instructions that come to a handler: accesses to fields, and operators without a primitive meaning
for their operands. The handler runs above everything that the interrupted frame uses. When it has
ended, the frame goes on at its next instruction, with its registers as they were but for the
destination.
-/

namespace RegisterVm

inductive Event where
  | read (object key : Value)
  | write (object key value : Value)
  | binary (op : Opcode) (left right : Value)
  | unary (op : Opcode) (operand : Value)

/-- Which handler an event comes to, and what the handler is called on. -/
inductive Event.Calls (s : Store) : Event → Value → List Value → Prop where
  | read {object key handler receiver : Value}
      (ends : s.ChainEnds "__index" key maxChain object (.call handler receiver)) :
      Calls s (.read object key) handler [receiver, key]
  | write {object key value handler receiver : Value}
      (ends : s.ChainEnds "__newindex" key maxChain object (.call handler receiver)) :
      Calls s (.write object key value) handler [receiver, key, value]
  | left {op : Opcode} {left right handler : Value} {event : String}
      (plain : binary? op left right = none) (named : eventName? op = some event)
      (own : s.handler? left event = some handler) :
      Calls s (.binary op left right) handler [left, right]
  | right {op : Opcode} {left right handler : Value} {event : String}
      (plain : binary? op left right = none) (named : eventName? op = some event)
      (bare : s.handler? left event = none) (other : s.handler? right event = some handler) :
      Calls s (.binary op left right) handler [left, right]
  | unary {op : Opcode} {operand handler : Value} {event : String}
      (plain : unary? op operand = none) (named : eventName? op = some event)
      (own : s.handler? operand event = some handler) :
      Calls s (.unary op operand) handler [operand, operand]

namespace Context

variable {x : Context} {s : Store} {event : Event}

def event? (x : Context) (s : Store) (op : Opcode) (i : Instruction) : Option Event :=
  match op with
  | .getTabCell =>
    x.closure.cells[i.b]?.map fun ref => .read (s.readCell ref) (x.operandIn s i.c)
  | .getTable | .selfCall => some (.read (x.registerIn s i.b) (x.operandIn s i.c))
  | .setTabCell =>
    x.closure.cells[i.a]?.map fun ref =>
      .write (s.readCell ref) (x.operandIn s i.b) (x.operandIn s i.c)
  | .setTable => some (.write (x.registerIn s i.a) (x.operandIn s i.b) (x.operandIn s i.c))
  | .add | .sub | .mul | .mod | .pow | .div | .intDiv | .bitAnd | .bitOr | .bitXor | .shiftLeft
  | .shiftRight => some (.binary op (x.operandIn s i.b) (x.operandIn s i.c))
  | .neg | .bitNot => some (.unary op (x.registerIn s i.b))
  | _ => none

def destination? (x : Context) (op : Opcode) (i : Instruction) : Option Nat :=
  match op with
  | .setTabCell | .setTable => none
  | _ => some (x.slot i.a)

/-- What the instruction has done before it comes to a handler: a method call keeps the object. -/
def prepared (x : Context) (s : Store) (op : Opcode) (i : Instruction) : Store :=
  match op with
  | .selfCall => s.modifyThread x.thread fun th => th.put (x.slot (i.a + 1)) (x.registerIn s i.b)
  | _ => s

def Resolves (x : Context) (event : Event) (target : Option Nat) (action : Action Flow)
    (s : Store) : Prop :=
  (∃ handler arguments, event.Calls s handler arguments ∧
    action s = x.enterHandler handler arguments target s) ∨
  ∀ callee s', action s ≠ .ok (.entered callee) s'

theorem getField_resolves (x : Context) (s : Store) (object key : Value) (register : Nat) :
    x.Resolves (.read object key) (some (x.slot register)) (x.getField object key register) s := by
  have reads := x.getField_eq_follow s object key register
  have ends := s.follow_ends "__index" key maxChain object
  generalize s.follow "__index" key maxChain object = a at reads ends
  cases a with
  | done ref => exact .inr fun callee s' entered => by cases reads.symm.trans entered
  | call handler receiver => exact .inl ⟨handler, _, .read ends, reads⟩
  | fail message => exact .inr fun callee s' entered => by cases reads.symm.trans entered

theorem setField_resolves (x : Context) (s : Store) (object key value : Value) :
    x.Resolves (.write object key value) none (x.setField object key value) s := by
  have writes := x.setField_eq_follow s object key value
  have ends := s.follow_ends "__newindex" key maxChain object
  generalize s.follow "__newindex" key maxChain object = a at writes ends
  cases a with
  | done ref =>
      refine .inr fun callee s' entered => ?_
      cases accepted : Table.keyError? key <;> rw [accepted] at writes <;>
        cases writes.symm.trans entered
  | call handler receiver => exact .inl ⟨handler, _, .write ends, writes⟩
  | fail message => exact .inr fun callee s' entered => by cases writes.symm.trans entered

theorem operatorHandler_resolves (x : Context) (s : Store) (op : Opcode) (left right : Value)
    (register : Nat)
    (calls : ∀ name handler, eventName? op = some name →
      (s.handler? left name).or (s.handler? right name) = some handler →
        event.Calls s handler [left, right]) :
    x.Resolves event (some (x.slot register)) (x.operatorHandler op left right register) s := by
  cases found : (eventName? op).bind fun name =>
      (s.handler? left name).or (s.handler? right name) with
  | some handler =>
      obtain ⟨name, named, own⟩ := Option.bind_eq_some_iff.1 found
      refine .inl ⟨handler, _, calls name handler named own, ?_⟩
      simp only [operatorHandler, bind, EStateM.bind, look, found]
  | none =>
      refine .inr fun callee s' entered => ?_
      simp only [operatorHandler, bind, EStateM.bind, look, found] at entered
      cases entered

theorem binary_resolves (x : Context) (s : Store) (op : Opcode) (i : Instruction) :
    x.Resolves (.binary op (x.operandIn s i.b) (x.operandIn s i.c)) (some (x.slot i.a))
      (x.binary op i) s := by
  have first := x.operand_eq s i.b
  have second := x.operand_eq s i.c
  generalize x.operandIn s i.b = left at first ⊢
  generalize x.operandIn s i.c = right at second ⊢
  cases plain : binary? op left right with
  | some value =>
      refine .inr fun callee s' entered => ?_
      simp only [binary, Bind.bind, EStateM.bind, first, second, plain] at entered
      cases entered
  | none =>
      have falls : x.binary op i s = x.operatorHandler op left right i.a s := by
        simp only [binary, Bind.bind, EStateM.bind, first, second, plain]
      rw [Resolves, falls]
      refine operatorHandler_resolves x s op left right i.a fun name handler named found => ?_
      cases own : s.handler? left name with
      | some first =>
          rw [own, Option.some_or] at found
          exact .left plain named (own.trans found)
      | none =>
          rw [own, Option.none_or] at found
          exact .right plain named own found

theorem unary_resolves (x : Context) (s : Store) (op : Opcode) (i : Instruction) :
    x.Resolves (.unary op (x.registerIn s i.b)) (some (x.slot i.a)) (x.unary op i) s := by
  have reads : x.register i.b s = .ok (x.registerIn s i.b) s := rfl
  generalize x.registerIn s i.b = operand at reads
  cases plain : unary? op operand with
  | some value =>
      refine .inr fun callee s' entered => ?_
      simp only [unary, Bind.bind, EStateM.bind, reads, plain] at entered
      cases entered
  | none =>
      have falls : x.unary op i s = x.operatorHandler op operand operand i.a s := by
        simp only [unary, Bind.bind, EStateM.bind, reads, plain]
      rw [Resolves, falls]
      refine operatorHandler_resolves x s op operand operand i.a fun name handler named found => ?_
      rw [Option.or_self] at found
      exact .unary plain named found

theorem chainEnds_modifyThread {t : ThreadRef} {f : Thread → Thread} {name : String}
    {key object : Value} {limit : Nat} {a : Access TableRef} :
    (s.modifyThread t f).ChainEnds name key limit object a ↔
      s.ChainEnds name key limit object a := by
  have same : (s.modifyThread t f).follow name key limit object =
      s.follow name key limit object := by
    induction limit generalizing object with
    | zero => rfl
    | succ limit ih =>
        cases object with
        | table ref =>
            simp only [Store.follow, ih]
            rfl
        | _ => rfl
  rw [Store.chainEnds_iff, Store.chainEnds_iff, same]

theorem calls_modifyThread {t : ThreadRef} {f : Thread → Thread} {handler : Value}
    {arguments : List Value} (calls : event.Calls (s.modifyThread t f) handler arguments) :
    event.Calls s handler arguments := by
  cases calls with
  | read ends => exact .read (chainEnds_modifyThread.1 ends)
  | write ends => exact .write (chainEnds_modifyThread.1 ends)
  | left plain named own => exact .left plain named own
  | right plain named bare other => exact .right plain named bare other
  | unary plain named own => exact .unary plain named own

/-- An instruction about an event enters the event's handler, if it calls anything. -/
theorem execute_resolves {op : Opcode} {i : Instruction} (about : x.event? s op i = some event) :
    (∃ handler arguments, event.Calls s handler arguments ∧
      x.execute op i s =
        x.enterHandler handler arguments (x.destination? op i) (x.prepared s op i)) ∨
    ∀ callee s', x.execute op i s ≠ .ok (.entered callee) s' := by
  have unprepared : ∀ {handler arguments}, event.Calls (x.prepared s op i) handler arguments →
      event.Calls s handler arguments := by
    intro handler arguments calls
    cases op with
    | selfCall => exact calls_modifyThread calls
    | _ => exact calls
  suffices ∃ action, x.Resolves event (x.destination? op i) action (x.prepared s op i) ∧
      x.execute op i s = action (x.prepared s op i) by
    obtain ⟨action, resolves, acts⟩ := this
    rw [Resolves, ← acts] at resolves
    exact resolves.imp_left fun ⟨handler, arguments, calls, enters⟩ =>
      ⟨handler, arguments, unprepared calls, enters⟩
  have cell : ∀ {index ref}, x.closure.cells[index]? = some ref →
      x.readCell index s = .ok (s.readCell ref) s := by
    intro index ref found
    simp only [readCell, Context.cell, found]
    rfl
  cases op with
  | getTabCell =>
      obtain ⟨ref, found, rfl⟩ := Option.map_eq_some_iff.1 about
      refine ⟨_, x.getField_resolves s _ _ _, ?_⟩
      simp only [execute, Bind.bind, EStateM.bind, cell found, operand_eq]
      rfl
  | getTable =>
      cases about
      refine ⟨_, x.getField_resolves s _ _ _, ?_⟩
      simp only [execute, Bind.bind, EStateM.bind, operand_eq]
      rfl
  | setTabCell =>
      obtain ⟨ref, found, rfl⟩ := Option.map_eq_some_iff.1 about
      refine ⟨_, x.setField_resolves s _ _ _, ?_⟩
      simp only [execute, Bind.bind, EStateM.bind, cell found, operand_eq]
      rfl
  | setTable =>
      cases about
      refine ⟨_, x.setField_resolves s _ _ _, ?_⟩
      simp only [execute, Bind.bind, EStateM.bind, operand_eq]
      rfl
  | selfCall =>
      cases about
      refine ⟨_, x.getField_resolves _ _ _ _, ?_⟩
      simp only [execute, Bind.bind, EStateM.bind, operand_eq]
      rfl
  | add | sub | mul | mod | pow | div | intDiv | bitAnd | bitOr | bitXor | shiftLeft
  | shiftRight =>
      cases about
      exact ⟨_, x.binary_resolves s _ i, rfl⟩
  | neg | bitNot =>
      cases about
      exact ⟨_, x.unary_resolves s _ i, rfl⟩
  | _ => cases about

def interruption (x : Context) (below : List Frame) (op : Opcode) (i : Instruction) :
    Interruption where
  thread := x.thread
  place := x.frame.top
  target := (x.destination? op i).getD x.frame.top
  wanted := (x.destination? op i).elim 0 fun _ => 1
  caller := { x.frame with pc := x.pc }
  below := below

/-- What a slot holds when the handler begins, the instruction having begun in store `s`. -/
def left (x : Context) (s : Store) (op : Opcode) (i : Instruction) (index : Nat) : Value :=
  if op = .selfCall ∧ index = x.slot (i.a + 1) then x.registerIn s i.b
  else (s.thread x.thread).get index

theorem get_prepared (x : Context) (op : Opcode) (i : Instruction)
    (valid : x.thread < s.threads.size) (index : Nat) :
    ((x.prepared s op i).thread x.thread).get index = x.left s op i index := by
  cases op with
  | selfCall =>
      rw [prepared, Store.thread_modifyThread_self _ _ valid, Thread.get_put]
      simp only [left, true_and]
  | _ => rfl

theorem prepared_fields (x : Context) (s : Store) (op : Opcode) (i : Instruction) :
    (x.prepared s op i).closures = s.closures ∧ (x.prepared s op i).natives = s.natives ∧
      (x.prepared s op i).threads.size = s.threads.size ∧
      ((x.prepared s op i).thread x.thread).frames = (s.thread x.thread).frames ∧
      ((x.prepared s op i).thread x.thread).top = (s.thread x.thread).top := by
  cases op with
  | selfCall =>
      refine ⟨rfl, rfl, Store.threadCount_modifyThread _ _ _, ?_, ?_⟩
      · exact Store.field_modifyThread Thread.frames s x.thread x.thread _ fun _ => by simp
      · exact Store.field_modifyThread Thread.top s x.thread x.thread _ fun _ => by simp
  | _ => exact ⟨rfl, rfl, rfl, rfl, rfl⟩

end Context

namespace Machine

variable {m : Machine} {x : Context} {below : List Frame} {op : Opcode} {i : Instruction}
  {event : Event} {path : Nat → Machine} {n : Nat}

theorem readCell_advanced (m : Machine) (x : Context) (ref : CellRef) :
    (m.advanced x).readCell ref = m.store.readCell ref := by
  simp only [Store.readCell, get_advanced, show (m.advanced x).cells = m.store.cells from rfl]

theorem event_advanced (m : Machine) (x : Context) (op : Opcode) (i : Instruction) :
    x.event? (m.advanced x) op i = x.event? m.store op i := by
  simp only [Context.event?, registerIn_advanced, operandIn_advanced, readCell_advanced]

theorem Executes.shallow (executes : m.Executes x below op i) (stays : op ≠ .tailCall)
    (other : op ≠ .setCell)
    (nothing : ∀ callee s', x.execute op i (m.advanced x) ≠ .ok (.entered callee) s') :
    ((m.step .bare).store.thread x.thread).frames.length ≤ below.length + 1 := by
  have live : x.Live below (m.advanced x) := ⟨executes.moves.valid, x.pc, executes.frames⟩
  have leads : Leads (x.execute op i) (m.advanced x) (x.Went below (m.advanced x) False)
      (x.Fell below (m.advanced x)) :=
    Context.leads_execute live op i other fun tail => absurd tail stays
  have length : ∀ {s' : Store}, Within x.thread x.frame.floor (m.advanced x) s' →
      (s'.thread x.thread).frames.length ≤ below.length + 1 := by
    intro s' within
    rw [within.frames, executes.frames, List.length_cons]
  rw [executes.step]
  refine perform_elim (p := fun m => (m.store.thread x.thread).frames.length ≤ below.length + 1)
    (leads.and (leads_self _ _)) ?_ ?_
  · rintro flow s' ⟨went, acts⟩
    cases went with
    | next pc within =>
        simp only [follow, goTo]
        split
        · split
          · exact length within
          · refine Nat.le_trans (Nat.le_of_eq ?_) (length within)
            refine Store.field_modifyThread (fun th => th.frames.length) s' x.thread x.thread _
              fun th => ?_
            simp only [Thread.setPc]
            split
            · rename_i frames
              rw [frames]
              rfl
            · rfl
        · exact length within
    | entered => exact absurd acts (nothing _ _)
    | replaced _ _ _ _ _ _ _ _ calls => exact calls.elim
    | returned popped => exact Nat.le_succ_of_le (Nat.le_of_eq (congrArg List.length popped.frames))
  · rintro e s' ⟨fell, -⟩
    cases fell with
    | stayed within => exact length within
    | vacated _ frames => exact Nat.le_succ_of_le (Nat.le_of_eq (congrArg List.length frames))

theorem Executes.pushes (executes : m.Executes x below op i)
    (about : x.event? m.store op i = some event) (top : (m.store.thread x.thread).top = x.frame.top)
    (deep : below.length + 1 < ((m.step .bare).store.thread x.thread).frames.length) :
    ∃ handler arguments callee h s', event.Calls m.store handler arguments ∧
      m.step .bare = ⟨s', m.activities, callee.control x.thread⟩ ∧
      x.Pushed (x.prepared (m.advanced x) op i) x.frame.top (x.destination? op i) handler arguments
        callee h s' := by
  by_cases entered : ∃ callee s', x.execute op i (m.advanced x) = .ok (.entered callee) s'
  · obtain ⟨callee, s', entered⟩ := entered
    obtain ⟨handler, arguments, calls, enters⟩ :=
      (Context.execute_resolves ((event_advanced m x op i).trans about)).resolve_right
        fun nothing => nothing callee s' entered
    obtain ⟨-, -, count, -, same⟩ := x.prepared_fields (m.advanced x) op i
    have pushed := x.leads_enterHandler_pushed handler arguments (x.destination? op i)
      (count ▸ executes.moves.valid)
    rw [Context.handlerSlot, same, executes.moves.top, top, Nat.max_self, Leads, ← enters,
      entered] at pushed
    obtain ⟨callee, h, ⟨⟩, pushed⟩ := pushed
    refine ⟨handler, arguments, callee, h, s', Context.calls_modifyThread calls, ?_, pushed⟩
    simp only [executes.step, perform, entered]
    cases callee <;> rfl
  · refine absurd deep (Nat.not_lt.2 (executes.shallow ?_ ?_ fun callee s' acts =>
      entered ⟨callee, s', acts⟩)) <;> rintro rfl <;> cases about

theorem handling_of_pushed (healthy : m.Healthy) (executes : m.Executes x below op i)
    {handler : Value} {arguments : List Value} {callee : Entered} {h : Frame} {s' : Store}
    (steps : m.step .bare = ⟨s', m.activities, callee.control x.thread⟩)
    (pushed : x.Pushed (x.prepared (m.advanced x) op i) x.frame.top (x.destination? op i) handler
      arguments callee h s') :
    (s'.thread x.thread).frames = h :: { x.frame with pc := x.pc } :: below ∧
      (x.interruption below op i).Handling (m.step .bare) := by
  obtain ⟨-, -, -, same, -⟩ := x.prepared_fields (m.advanced x) op i
  have frames : (s'.thread x.thread).frames = h :: { x.frame with pc := x.pc } :: below := by
    rw [pushed.pushed.frames, same, executes.frames]
  have formed : h.Formed := by
    refine pushed.fresh.formed ?_
    rw [Frame.Delivers, pushed.fresh.target, pushed.fresh.slot, pushed.wanted]
    cases x.destination? op i with
    | some target => exact .inr rfl
    | none => exact .inl (Nat.le_refl _)
  have serves : (x.interruption below op i).Handler h :=
    ⟨pushed.fresh.slot, pushed.fresh.target, pushed.wanted, formed⟩
  have next := healthy.step.healthy
  obtain ⟨floor, rest, activities, inside⟩ := executes.activities
  rw [steps, activities] at next ⊢
  refine ⟨frames, ?_⟩
  have valid : x.thread < s'.threads.size := Store.lt_of_frames frames
  cases callee with
  | script =>
      have held : (s'.thread x.thread).held = true := next.worker_held rfl valid
      exact .script serves pushed.fresh.kind (Nat.lt_succ_of_le inside)
        (.intro [] (Interruption.holds_top next.linked held frames _) trivial)
  | native body => exact .enters serves pushed.fresh.kind (Nat.lt_succ_of_le inside) frames

/-- The instruction's handler, called on `arguments`, has given `results`, and the frame goes on. -/
structure Dispatched (m : Machine) (x : Context) (below : List Frame) (op : Opcode)
    (i : Instruction) (path : Nat → Machine) (n : Nat) (handler : Value)
    (arguments results : List Value) : Prop where
  begins : ∃ callee h, ((path 0).store.thread x.thread).frames =
      h :: { x.frame with pc := x.pc } :: below ∧ h.callee = handler ∧
    (path 0).control = callee.control x.thread ∧
    m.store.Starts ((path 0).store.thread x.thread) h arguments handler callee
  gives : (x.interruption below op i).Gives (path n) (path (n + 1)) results
  frames : ((path (n + 1)).store.thread x.thread).frames = { x.frame with pc := x.pc } :: below
  top : ((path (n + 1)).store.thread x.thread).top = x.frame.top
  /-- The next instruction is executed at once, or when the script has heard of the end. -/
  goes : ∃ m', (m' = path (n + 1) ∨ m' = (path (n + 1)).step .bare) ∧
    m'.store = (path (n + 1)).store ∧ m'.control = .run ∧
    ∃ floor rest, m'.activities = .script x.thread floor :: rest ∧ floor ≤ below.length
  destination : ∀ slot ∈ x.destination? op i,
    ((path (n + 1)).store.thread x.thread).get slot = results.headD .nil
  registers : ∀ index, index < x.frame.top → x.destination? op i ≠ some index →
    Stored x.thread index path (n + 1) (x.left m.store op i index)
      (((path (n + 1)).store.thread x.thread).get index)

/-- An instruction that comes to a handler leaves its frame as it was but for the destination, which
takes the handler's first result, and the variables that are assigned to meanwhile. -/
theorem handler_transparent {limits : Limits} (reachable : m.Reachable limits)
    (executes : m.Executes x below op i) (about : x.event? m.store op i = some event)
    (top : (m.store.thread x.thread).top = x.frame.top) (steps : path 0 = m.step .bare)
    (back : ComesBack x.thread ({ x.frame with pc := x.pc } :: below) path n) :
    ∃ handler arguments results, handler.isFunction = true ∧
      event.Calls m.store handler arguments ∧
      Dispatched m x below op i path n handler arguments results := by
  have healthy := reachable.healthy
  have deep := back.deep 0 (Nat.zero_le n)
  rw [steps] at deep
  obtain ⟨handler, arguments, callee, h, s', calls, begins, pushed⟩ :=
    executes.pushes about top deep
  obtain ⟨frames, handling⟩ := handling_of_pushed healthy executes begins pushed
  rw [← steps] at handling
  have script : x.frame.kind = .script := by
    obtain ⟨mine, tidy⟩ := healthy.tidy x.thread
    obtain ⟨ref, callee, -⟩ := executes.closure
    have typed := (tidy.frames x.frame (executes.head ▸ .head _)).typed
    simpa only [Frame.Typed, callee] using typed
  obtain ⟨results, finished⟩ :=
    handling.finishes script (by rw [steps]; exact healthy.step.healthy) back
  have served := finished.served
  have closures := (x.prepared_fields (m.advanced x) op i).1
  have natives := (x.prepared_fields (m.advanced x) op i).2.1
  have first : (path 0).store = s' := by rw [steps, begins]
  refine ⟨handler, arguments, results, pushed.starts.isFunction, calls, ?_, finished.gives,
    served.frames, served.top, ?_, ?_, ?_⟩
  · refine ⟨callee, h, first ▸ frames, pushed.function, by rw [steps, begins], ?_⟩
    rw [first]
    exact pushed.starts.congr closures natives
  · obtain ⟨m', after, store, control, floor, rest, activities, inside⟩ := finished.goes.runs
    exact ⟨m', after, store, control, floor, rest, activities, Nat.le_of_lt_succ inside⟩
  · intro slot destination
    have taken := served.taken 0
    simp only [Context.interruption, Option.mem_def.1 destination] at taken
    rw [← show results.getD 0 .nil = results.headD .nil by cases results <;> rfl]
    exact taken Nat.one_pos
  · intro index low other
    have kept := finished.kept index low ?_
    · have begun : ((path 0).store.thread x.thread).get index = x.left m.store op i index := by
        have confined := pushed.pushed.confined.own.slots index low
        rw [first, confined, x.get_prepared op i executes.moves.valid]
        simp only [Context.left, registerIn_advanced, get_advanced]
      rwa [show (x.interruption below op i).thread = x.thread from rfl, begun] at kept
    · simp only [Context.interruption]
      cases destination : x.destination? op i with
      | none => simp
      | some slot =>
          rw [destination] at other
          simp only [Option.getD_some, Option.elim_some]
          intro inside
          exact other (congrArg some (by omega))

def addingPrototype : Prototype :=
  { Prototype.empty with
    code := #[.abc .add 2 0 1, .abc .ret 2 2 0]
    parameters := 2
    window := 3 }

def addingTable : Table := ⟨#[], #[(.string "__add", .closure 1)], some 1⟩

def adding : Machine :=
  beginRestoringCall (Engine.setHeld
    ((((Vm.new .standard).store.newClosure ⟨addingPrototype, #[]⟩).2.newClosure
      ⟨answeringPrototype, #[]⟩).2.newTable addingTable).2 0 true) [] 0 (.closure 0)
    #[.boolean true, .table 1]

def addingContext : Context := ⟨0, Frame.script (.closure 0) 0 1 4, ⟨addingPrototype, #[]⟩, 1⟩

theorem handler_transparent_adding :
    adding.Reachable .standard ∧ adding.Executes addingContext [] .add (.abc .add 2 0 1) ∧
      addingContext.event? adding.store .add (.abc .add 2 0 1) =
        some (.binary .add (.boolean true) (.table 1)) ∧
      (adding.store.thread 0).top = addingContext.frame.top ∧
      ComesBack 0 [{ addingContext.frame with pc := 1 }] ((adding.step .bare).after .bare) 1 ∧
      ∃ handler arguments results, handler.isFunction = true ∧
        Event.Calls adding.store (.binary .add (.boolean true) (.table 1)) handler arguments ∧
        Dispatched adding addingContext [] .add (.abc .add 2 0 1) ((adding.step .bare).after .bare) 1
          handler arguments results := by
  have made : Reachable .standard
      ⟨((((Vm.new .standard).store.newClosure ⟨addingPrototype, #[]⟩).2.newClosure
        ⟨answeringPrototype, #[]⟩).2.newTable addingTable).2, [], .done #[]⟩ :=
    .single (.heap rfl rfl)
  have reachable : adding.Reachable .standard := made.tail (.call rfl rfl _ _)
  have executes : adding.Executes addingContext [] .add (.abc .add 2 0 1) :=
    ⟨⟨0, _, rfl, Nat.le_refl 0⟩, rfl, rfl, ⟨0, rfl, rfl⟩, rfl, rfl, rfl⟩
  have about : addingContext.event? adding.store .add (.abc .add 2 0 1) =
      some (.binary .add (.boolean true) (.table 1)) := rfl
  have ends : ((adding.step .bare).after .bare 2).control = .run := rfl
  have back : ComesBack 0 [{ addingContext.frame with pc := 1 }] ((adding.step .bare).after .bare) 1 :=
    ⟨⟨fun k _ => .step _, by decide +kernel⟩, .step _, rfl, fun e => ends ▸ nofun⟩
  exact ⟨reachable, executes, about, rfl, back,
    handler_transparent reachable executes about rfl rfl back⟩

end Machine

end RegisterVm
