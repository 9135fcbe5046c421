import RegisterVm.Machine.Step
import RegisterVm.Proofs.Machine.Instructions

/-!
What one step of a script frame does to the store and what is to be done next.
-/

namespace RegisterVm

def Store.Shut (t : ThreadRef) (level : Nat) (s s' : Store) : Prop :=
  ∀ ref owner index, s'.cells[ref]? = some (.slot owner index) →
    s.cells[ref]? = some (.slot owner index) ∧
      (owner = t → (index, ref) ∈ (s.thread t).openCells → index < level)

def Store.assignment? (s : Store) (t : ThreadRef) (f : Frame) : Option (CellRef × Value) :=
  match f.callee with
  | .closure ref =>
    match (s.closure ref).prototype.code[f.pc]? with
    | some i =>
      if i.opcode? = some .setCell then
        (s.closure ref).cells[i.b]?.map fun cell => (cell, (s.thread t).get (f.base + i.a))
      else none
    | none => none
  | _ => none

def Machine.assignment? (m : Machine) : Option (CellRef × Value) :=
  match m with
  | ⟨s, .script t floor :: _, .run⟩ =>
    match (s.thread t).frames with
    | f :: below => if below.length < floor then none else s.assignment? t f
    | [] => none
  | _ => none

def Store.tailCalls (s : Store) (t : ThreadRef) (f : Frame) : Prop :=
  ∃ ref i callee, f.callee = .closure ref ∧
    (s.closure ref).prototype.code[f.pc]? = some i ∧ i.opcode? = some .tailCall ∧
    (s.thread t).get (f.base + i.a) = .closure callee

def Store.returns (s : Store) (f : Frame) : Prop :=
  ∃ ref i, f.callee = .closure ref ∧ (s.closure ref).prototype.code[f.pc]? = some i ∧
    i.opcode? = some .ret

def Entered.control (t : ThreadRef) : Entered → Control
  | .script => .run
  | .native body => .enter t body

inductive Ran (t : ThreadRef) (f : Frame) (below : List Frame) (s : Store)
    (activities : List Activity) : Machine → Prop where
  | stayed {s' : Store} {control : Control} (pc : Nat) (confined : s.Confined t f.floor s')
      (frames : (s'.thread t).frames = { f with pc } :: below)
      (top : (s'.thread t).top = (s.thread t).top ∨ f.floor ≤ (s'.thread t).top)
      (goes : control = .run ∨ ∃ e, control = .fail e) :
      Ran t f below s activities ⟨s', activities, control⟩
  | assigned {s' : Store} {control : Control} (pc : Nat) {cell : CellRef} {value : Value}
      (assigns : s.assignment? t f = some (cell, value))
      (written : s' = (s.modifyThread t fun th => th.setPc pc).writeCell cell value)
      (goes : control = .run ∨ ∃ e, control = .fail e) :
      Ran t f below s activities ⟨s', activities, control⟩
  | entered {s' : Store} {callee : Entered} {place destination : Nat} (pc : Nat) (g : Frame)
      (fresh : g.Fresh (s.thread t).isYieldable place destination callee)
      (above : f.floor ≤ place) (deliver : f.floor ≤ destination)
      (confined : s.Confined t f.floor s') (cells : s'.cells = s.cells)
      (frames : (s'.thread t).frames = g :: { f with pc } :: below)
      (top : (s'.thread t).top = g.top) (room : (s'.thread t).Holds g)
      (delivers : g.Delivers) (shallow : (s'.thread t).Shallow) :
      Ran t f below s activities ⟨s', activities, callee.control t⟩
  | replaced {s' : Store} {callee : Entered} (g : Frame)
      (fresh : g.Fresh (s.thread t).isYieldable f.slot f.target callee)
      (confined : s.Confined t f.slot s') (frames : (s'.thread t).frames = g :: below)
      (top : (s'.thread t).top = g.top) (shut : s.Shut t f.base s') (wanted : g.wanted = f.wanted)
      (room : (s'.thread t).Holds g) (calls : s.tailCalls t f) :
      Ran t f below s activities ⟨s', activities, callee.control t⟩
  | returned {s' : Store} (popped : s.Popped t f.reach below s') (shut : s.Shut t f.base s')
      (returns : s.returns f) :
      Ran t f below s activities ⟨s', activities, .run⟩
  | vacated {s' : Store} (e : Error) (confined : s.Confined t f.slot s')
      (frames : (s'.thread t).frames = below) (top : f.slot ≤ (s'.thread t).top)
      (shut : s.Shut t f.base s') : Ran t f below s activities ⟨s', activities, .fail e⟩

theorem Store.shut_closeCells (s : Store) (t : ThreadRef) (level : Nat) :
    s.Shut t level (s.closeCells t level) := fun _ _ _ found => open_closeCells found

theorem Store.Shut.congr {t : ThreadRef} {level : Nat} {s s₁ s₂ s' : Store}
    (shut : s.Shut t level s₁) (cells : s'.cells = s₁.cells) (before : s.cells = s₂.cells)
    (lists : (s.thread t).openCells = (s₂.thread t).openCells) : s₂.Shut t level s' := by
  intro ref owner index found
  rw [cells] at found
  have closed := shut ref owner index found
  rwa [before, lists] at closed

namespace Context

def operandIn (x : Context) (s : Store) (operand : Nat) : Value :=
  if Instruction.isConstant operand then
    x.prototype.constant (Instruction.operandIndex operand)
  else (s.thread x.thread).get (x.slot operand)

def registerIn (x : Context) (s : Store) (i : Nat) : Value := (s.thread x.thread).get (x.slot i)

theorem operand_eq (x : Context) (s : Store) (operand : Nat) :
    x.operand operand s = .ok (x.operandIn s operand) s := by
  simp only [Context.operand, operandIn]
  split <;> rfl

end Context

namespace Machine

def advanced (m : Machine) (x : Context) : Store :=
  m.store.modifyThread x.thread fun th => th.setPc x.pc

theorem get_advanced (m : Machine) (x : Context) (t : ThreadRef) (index : Nat) :
    ((m.advanced x).thread t).get index = (m.store.thread t).get index := by
  refine Store.field_modifyThread (fun th => th.get index) m.store x.thread t _ fun th => ?_
  simp only [Thread.setPc]
  split <;> rfl

theorem registerIn_advanced (m : Machine) (x : Context) (i : Nat) :
    x.registerIn (m.advanced x) i = x.registerIn m.store i := get_advanced m x x.thread _

theorem operandIn_advanced (m : Machine) (x : Context) (operand : Nat) :
    x.operandIn (m.advanced x) operand = x.operandIn m.store operand := by
  simp only [Context.operandIn, get_advanced]

end Machine

namespace Thread

theorem setPc_cons {th : Thread} {f : Frame} {below : List Frame} (head : th.frames = f :: below)
    (pc : Nat) : th.setPc pc = { th with frames := { f with pc } :: below } := by
  simp only [setPc, head]

theorem reworked_setPc {low : Nat} (th : Thread) (pc : Nat) : Reworked low th (th.setPc pc) := by
  simp only [setPc]
  split
  · exact ⟨rfl, fun _ _ => rfl⟩
  · exact .refl low th

end Thread

namespace Machine

theorem perform_elim {α : Type} {s : Store} {activities : List Activity} {action : Action α}
    {k : Store → α → Machine} {ok : α → Store → Prop} {failed : Store → Prop}
    {p : Machine → Prop} (leads : Leads action s ok failed)
    (goes : ∀ a s', ok a s' → p (k s' a))
    (fails : ∀ e s', failed s' → p ⟨s', activities, .fail e⟩) :
    p (perform s activities action k) := by
  simp only [Leads] at leads
  simp only [perform]
  cases result : action s with
  | ok a s' =>
      rw [result] at leads
      exact goes a s' leads
  | error e s' =>
      rw [result] at leads
      exact fails e s' leads

variable {t : ThreadRef} {f : Frame} {below : List Frame} {s : Store}

theorem thread_setPc (valid : t < s.threads.size) (head : (s.thread t).frames = f :: below)
    (pc : Nat) : ((s.modifyThread t fun th => th.setPc pc).thread t) =
      { s.thread t with frames := { f with pc } :: below } := by
  rw [Store.thread_modifyThread_self _ _ valid, Thread.setPc_cons head]

theorem thread_assigned (valid : t < s.threads.size) (head : (s.thread t).frames = f :: below)
    (pc : Nat) (cell : CellRef) (value : Value) :
    ∃ stack, (((s.modifyThread t fun th => th.setPc pc).writeCell cell value).thread t) =
      { s.thread t with stack, frames := { f with pc } :: below } := by
  obtain ⟨stack, thread⟩ :=
    Store.thread_writeCell (s.modifyThread t fun th => th.setPc pc) cell value t
  exact ⟨stack, by rw [thread, thread_setPc valid head]⟩

theorem goTo_stayed (start : Store) (activities : List Activity) (codeSize current pc : Nat)
    (next : Int) (valid : t < s.threads.size) (confined : start.Confined t f.floor s)
    (frames : (s.thread t).frames = { f with pc } :: below)
    (top : (s.thread t).top = (start.thread t).top ∨ f.floor ≤ (s.thread t).top) :
    Ran t f below start activities (goTo s activities t codeSize current next) := by
  simp only [goTo]
  split
  · split
    · exact .stayed pc confined frames top (.inl rfl)
    · refine .stayed next.toNat ?_ ?_ ?_ (.inl rfl)
      · exact confined.trans (Store.confined_reworked (Thread.reworked_setPc _ _))
      · rw [thread_setPc valid frames]
      · rw [thread_setPc valid frames]
        exact top
  · exact .stayed pc confined frames top (.inr ⟨_, rfl⟩)

theorem runInstruction_ran (activities : List Activity) {ref : ClosureRef}
    (valid : t < s.threads.size) (head : (s.thread t).frames = f :: below)
    (callee : f.callee = .closure ref) :
    Ran t f below s activities (runInstruction s activities t f (s.closure ref)) := by
  simp only [runInstruction]
  split
  · exact .stayed f.pc (.refl s) head (.inl rfl) (.inr ⟨_, rfl⟩)
  · rename_i i code
    have thread := thread_setPc valid head (f.pc + 1)
    have advance : ∀ low, s.Confined t low (s.modifyThread t fun th => th.setPc (f.pc + 1)) :=
      fun low => Store.confined_reworked (Thread.reworked_setPc _ _)
    split
    · refine .stayed (f.pc + 1) (advance _) ?_ ?_ (.inr ⟨_, rfl⟩) <;> rw [thread]
      exact .inl rfl
    · rename_i op opcode
      by_cases assigns : op = .setCell
      · subst assigns
        simp only [perform, Context.execute_setCell]
        cases named : (s.closure ref).cells[i.b]? with
        | none =>
            refine .stayed (f.pc + 1) (advance _) ?_ ?_ (.inr ⟨_, rfl⟩) <;> rw [thread]
            exact .inl rfl
        | some cell =>
            have assigned : s.assignment? t f =
                some (cell, (s.thread t).get (f.base + i.a)) := by
              simp only [Store.assignment?, callee, code, opcode, if_true, named, Option.map_some]
            have value : ((s.modifyThread t fun th => th.setPc (f.pc + 1)).thread t).get
                (f.base + i.a) = (s.thread t).get (f.base + i.a) := by
              rw [thread]
              rfl
            simp only [Context.slot, value, goTo]
            split
            · rw [if_pos (by simp)]
              exact .assigned (f.pc + 1) assigned rfl (.inl rfl)
            · exact .assigned (f.pc + 1) assigned rfl (.inr ⟨_, rfl⟩)
      · have live : Context.Live ⟨t, f, s.closure ref, f.pc + 1⟩ below
            (s.modifyThread t fun th => th.setPc (f.pc + 1)) :=
          ⟨by simpa using valid, f.pc + 1, by rw [thread]⟩
        have remains : Leads (Context.execute ⟨t, f, s.closure ref, f.pc + 1⟩ op i)
            (s.modifyThread t fun th => th.setPc (f.pc + 1))
            (fun flow _ => flow = .returned → op = .ret) (fun _ => True) := by
          by_cases returns : op = .ret
          · exact Keeps.always.leads trivial |>.mono (fun _ _ _ _ => returns) fun _ _ => trivial
          · exact (Context.leads_remains op i returns _).mono
              (fun _ _ remains ended => absurd ended remains) fun _ _ => trivial
        have calls : op = .tailCall → ∀ callee, ((s.modifyThread t fun th =>
            th.setPc (f.pc + 1)).thread t).get (f.base + i.a) = .closure callee →
            s.tailCalls t f := by
          rintro rfl target value
          rw [thread] at value
          exact ⟨ref, i, target, callee, code, opcode, value⟩
        refine perform_elim ((Context.leads_execute live op i assigns calls).and remains) ?_ ?_
        · rintro flow s' ⟨went, only⟩
          cases went with
          | next pc within =>
              refine goTo_stayed s activities _ _ (f.pc + 1) pc ?_
                ((advance _).trans within.confined) ?_ ?_
              · exact Nat.lt_of_lt_of_le live.valid within.confined.grown
              · rw [within.frames, thread]
              · have top := within.top
                rwa [thread] at top
          | @entered _ callee _ _ g fresh above deliver delivers pushed =>
              have ran : Ran t f below s activities ⟨s', activities, callee.control t⟩ := by
                refine .entered (f.pc + 1) g ?_ above deliver ((advance _).trans pushed.confined)
                  pushed.cells ?_ pushed.top pushed.room delivers pushed.shallow
                · rwa [(advance 0).own.isYieldable] at fresh
                · rw [pushed.frames, thread]
              cases callee <;> exact ran
          | @replaced _ callee g fresh confined frames top cells wanted room calls =>
              have ran : Ran t f below s activities ⟨s', activities, callee.control t⟩ := by
                refine .replaced g ?_ ((advance _).trans confined) frames top ?_ wanted room calls
                · rwa [(advance 0).own.isYieldable] at fresh
                · exact (Store.shut_closeCells _ _ _).congr cells rfl (by rw [thread])
              cases callee <;> exact ran
          | returned popped cells =>
              refine .returned (popped.after (advance _)) ?_ ⟨ref, i, callee, code, ?_⟩
              · exact (Store.shut_closeCells _ _ _).congr cells rfl (by rw [thread])
              · rw [opcode, only rfl]
        · rintro e s' ⟨fell, -⟩
          cases fell with
          | stayed within =>
              refine .stayed (f.pc + 1) ((advance _).trans within.confined) ?_ ?_ (.inr ⟨_, rfl⟩)
              · rw [within.frames, thread]
              · have top := within.top
                rwa [thread] at top
          | vacated confined frames top cells =>
              refine .vacated e ((advance _).trans confined) frames top ?_
              exact (Store.shut_closeCells _ _ _).congr cells rfl (by rw [thread])

inductive Turn (s : Store) (rest : List Activity) (t : ThreadRef) (floor : Nat) :
    Machine → Prop where
  | spent (short : (s.thread t).frames.length ≤ floor) : Turn s rest t floor ⟨s, rest, .done #[]⟩
  | runs {f : Frame} {below : List Frame} {ref : ClosureRef}
      (head : (s.thread t).frames = f :: below) (inside : floor ≤ below.length)
      (callee : f.callee = .closure ref) :
      Turn s rest t floor (runInstruction s (.script t floor :: rest) t f (s.closure ref))
  | astray {f : Frame} {below : List Frame} (head : (s.thread t).frames = f :: below)
      (inside : floor ≤ below.length) (e : Error) : Turn s rest t floor ⟨s, rest, .fail e⟩

theorem runScript_turn (s : Store) (rest : List Activity) (t : ThreadRef) (floor : Nat) :
    Turn s rest t floor (runScript s rest t floor) := by
  cases head : (s.thread t).frames with
  | nil =>
      have short : (s.thread t).frames.length ≤ floor := by simp [head]
      simp only [runScript, if_pos short]
      exact .spent short
  | cons f below =>
      simp only [runScript, head, List.length_cons]
      split
      · rename_i short
        exact .spent (by rwa [head])
      · rename_i long
        have inside : floor ≤ below.length := by omega
        split
        · rename_i ref callee
          exact .runs head inside callee
        · exact .astray head inside _

theorem runScript_eq (rest : List Activity) {floor : Nat} {ref : ClosureRef}
    (head : (s.thread t).frames = f :: below) (inside : floor ≤ below.length)
    (callee : f.callee = .closure ref) : runScript s rest t floor =
      runInstruction s (.script t floor :: rest) t f (s.closure ref) := by
  have running : ¬below.length + 1 ≤ floor := by omega
  simp only [runScript, head, List.length_cons, if_neg running, callee]

/-- What the machine does next is to run an instruction of frame `f` of thread `t`, a frame of
`closure`. -/
structure Fetches (m : Machine) (t : ThreadRef) (f : Frame) (closure : Closure) : Prop where
  runs : m.control = .run
  head : ∃ floor rest below, m.activities = .script t floor :: rest ∧
    (m.store.thread t).frames = f :: below ∧ floor ≤ below.length
  callee : ∃ ref, f.callee = .closure ref ∧ m.store.closure ref = closure

namespace Fetches

variable {m : Machine} {closure : Closure} {i : Instruction} {op : Opcode} {s' : Store} {pc : Int}

theorem step_eq (fetches : m.Fetches t f closure) (host : Host) :
    m.step host = runInstruction m.store m.activities t f closure := by
  obtain ⟨runs, ⟨floor, rest, below, activities, head, inside⟩, ref, callee, rfl⟩ := fetches
  obtain ⟨s, _, _⟩ := m
  subst runs activities
  exact runScript_eq rest head inside callee

/-- An instruction that keeps its frame decides where the frame goes on. -/
theorem step_next (fetches : m.Fetches t f closure) (host : Host)
    (code : closure.prototype.code[f.pc]? = some i) (opcode : i.opcode? = some op)
    (executes : Context.execute ⟨t, f, closure, f.pc + 1⟩ op i
      (m.store.modifyThread t fun th => th.setPc (f.pc + 1)) = .ok (.next pc) s') :
    m.step host = goTo s' m.activities t closure.prototype.code.size (f.pc + 1) pc := by
  rw [fetches.step_eq]
  simp only [runInstruction, code, opcode, perform, executes]

end Fetches

theorem cells_goTo (s : Store) (activities : List Activity) (t : ThreadRef)
    (codeSize current : Nat) (pc : Int) :
    (goTo s activities t codeSize current pc).store.cells = s.cells := by
  simp only [goTo]
  split
  · split <;> rfl
  · rfl

theorem runInstruction_tailCall (activities : List Activity) {ref : ClosureRef}
    (valid : t < s.threads.size) (head : (s.thread t).frames = f :: below)
    (callee : f.callee = .closure ref) (calls : s.tailCalls t f) :
    s.Shut t f.base (runInstruction s activities t f (s.closure ref)).store := by
  obtain ⟨ref', i, target, closure, code, opcode, value⟩ := calls
  obtain rfl : ref = ref' := by simpa [callee] using closure
  have thread := thread_setPc valid head (f.pc + 1)
  have live : Context.Live ⟨t, f, s.closure ref, f.pc + 1⟩ below
      (s.modifyThread t fun th => th.setPc (f.pc + 1)) :=
    ⟨by simpa using valid, f.pc + 1, by rw [thread]⟩
  have called : ((s.modifyThread t fun th => th.setPc (f.pc + 1)).thread t).get (f.base + i.a) =
      .closure target := by
    rw [thread]
    exact value
  have shut : ∀ {s' : Store}, s'.cells =
      ((s.modifyThread t fun th => th.setPc (f.pc + 1)).closeCells t f.base).cells →
      s.Shut t f.base s' :=
    fun cells => (Store.shut_closeCells _ _ _).congr cells rfl (by rw [thread])
  simp only [runInstruction, code, opcode]
  have leads := Context.leads_tailCall_closure live i.a i.b called trivial
  refine perform_elim (p := fun m => s.Shut t f.base m.store) leads ?_ ?_
  · rintro flow s' ⟨-, cells⟩
    rcases flow with pc | callee | _
    · exact shut ((cells_goTo _ _ _ _ _ _).trans cells)
    · cases callee <;> exact shut cells
    · exact shut cells
  · rintro e s' ⟨-, cells⟩
    exact shut cells

end Machine

end RegisterVm
