import RegisterVm.Proofs.Call.Entry

/-!
A tail call of a closure. The callee finds what an ordinary call would have handed to it, in the
place of the frame that has called it, and what was captured in that frame is closed.
-/

namespace RegisterVm

def Thread.countAbove (th : Thread) (operand first : Nat) : Nat :=
  if operand = 0 then th.top - first else operand - 1

/-- A function finds the same in frame `g` on thread `th` as in frame `h` on thread `th'`. -/
structure Frame.Alike (g : Frame) (th : Thread) (h : Frame) (th' : Thread) : Prop where
  callee : g.callee = h.callee
  function : th.get g.slot = th'.get h.slot
  pc : g.pc = h.pc
  window : g.top - g.base = h.top - h.base
  registers : ∀ i, i < g.top - g.base → th.get (g.base + i) = th'.get (h.base + i)
  extras : g.extras = h.extras
  beyond : ∀ k, k < g.extras →
    th.get (g.base - g.extras + k) = th'.get (h.base - h.extras + k)

theorem Frame.Receives.alike {g h : Frame} {p : Prototype} {arguments : List Value}
    {th th' : Thread} (first : g.Receives p arguments th) (second : h.Receives p arguments th')
    (callee : g.callee = h.callee) : g.Alike th h th' := by
  have sizes : g.top - g.base = p.frameSize ∧ h.top - h.base = p.frameSize := by
    rw [first.size, second.size]
    omega
  have extras := first.extras.trans second.extras.symm
  refine ⟨callee, ?_, first.start.trans second.start.symm, sizes.1.trans sizes.2.symm, ?_, extras,
    ?_⟩
  · rw [first.callee, second.callee, callee]
  · intro i inside
    rw [sizes.1] at inside
    rw [first.registers i inside, second.registers i inside]
  · intro k extra
    rw [first.beyond k extra, second.beyond k (extras ▸ extra)]

theorem Frame.Receives.marked {g : Frame} {p : Prototype} {arguments : List Value} {th : Thread}
    (receives : g.Receives p arguments th) :
    ({ g with isTail := true } : Frame).Receives p arguments th :=
  ⟨receives.start, receives.size, receives.base, receives.extras, receives.callee,
    receives.registers, receives.beyond⟩

theorem Frame.Receives.congr {g : Frame} {p : Prototype} {arguments : List Value} {th th' : Thread}
    (receives : g.Receives p arguments th) (same : ∀ index, th'.get index = th.get index) :
    g.Receives p arguments th' := by
  refine ⟨receives.start, receives.size, receives.base, receives.extras, ?_, ?_, ?_⟩ <;>
    simp only [same]
  · exact receives.callee
  · exact receives.registers
  · exact receives.beyond

theorem Thread.Admits.mono {th th' : Thread} {p : Prototype} {slot slot' arguments : Nat}
    (admits : th.Admits p slot arguments) (fewer : th'.frames.length ≤ th.frames.length)
    (limits : th'.limits = th.limits) (down : slot' ≤ slot) : th'.Admits p slot' arguments := by
  obtain ⟨shallow, fits⟩ := admits
  have lower : (argumentPlan p slot' arguments).base ≤ (argumentPlan p slot arguments).base := by
    simp only [argumentPlan]
    split <;> simp only <;> omega
  refine ⟨?_, ?_⟩ <;> rw [limits]
  · omega
  · omega

namespace Context

theorem countAbove_ok (x : Context) (operand first : Nat) (s : Store) :
    x.countAbove operand first s = .ok ((s.thread x.thread).countAbove operand first) s := by
  simp only [countAbove, Thread.countAbove]
  by_cases all : operand = 0
  · subst all
    rfl
  · have given : (operand != 0) = true := by simpa using all
    rw [if_neg all, given]
    rfl

section Vacate

variable {th : Thread} {f : Frame} {below : List Frame} {slot : Nat}

theorem get_vacate (head : th.frames = f :: below) (down : f.slot ≤ slot) {arguments k : Nat}
    (moved : k ≤ arguments) :
    (vacate th slot arguments).get (f.slot + k) = th.get (slot + k) := by
  simp only [vacate, head, Thread.get_withTop]
  rw [Thread.get_clear_below _ (by omega), Thread.get_moveSlots _ (.inl down), if_pos (by omega),
    Nat.add_sub_cancel_left]
  rfl

theorem limits_vacate (slot arguments : Nat) : (vacate th slot arguments).limits = th.limits := by
  cases head : th.frames with
  | nil => simp only [vacate, head]
  | cons f below =>
      have reworked := (vacate_cons head slot arguments).1
      rw [reworked.fields]

theorem values_vacate (head : th.frames = f :: below) (down : f.slot ≤ slot) (arguments : Nat) :
    (vacate th slot arguments).values (f.slot + 1) arguments =
      th.values (slot + 1) arguments := by
  simp only [Thread.values]
  apply List.map_congr_left
  intro k inside
  have bound := List.mem_range.1 inside
  have moved : (vacate th slot arguments).get (f.slot + (k + 1)) = th.get (slot + (k + 1)) :=
    get_vacate head down (by omega)
  rwa [Nat.add_comm k, ← Nat.add_assoc, ← Nat.add_assoc] at moved

end Vacate

variable {x : Context} {s : Store} {ref : ClosureRef} {a b : Nat} {below : List Frame}

theorem call_eq (x : Context) (a b : Nat) (wanted : Option Nat) (s : Store) :
    x.call a b wanted s = (do
      let entered ← enterCall x.thread (x.slot a)
        ((s.thread x.thread).countAbove b (x.slot a + 1)) (x.slot a) wanted
      return .entered entered : Action Flow) (s.modifyThread x.thread fun th =>
        th.withTop (x.slot a + 1 + (s.thread x.thread).countAbove b (x.slot a + 1))) := by
  simp only [call, bind, EStateM.bind, countAbove_ok]
  rfl

theorem call_receives (wanted : Option Nat) (valid : x.thread < s.threads.size)
    (callee : (s.thread x.thread).get (x.slot a) = .closure ref)
    (admits : (s.thread x.thread).Admits (s.closure ref).prototype (x.slot a)
      ((s.thread x.thread).countAbove b (x.slot a + 1))) :
    ∃ s' h, x.call a b wanted s = .ok (.entered .script) s' ∧
      (s'.thread x.thread).frames = h :: (s.thread x.thread).frames ∧
      h.callee = .closure ref ∧
      h.Receives (s.closure ref).prototype ((s.thread x.thread).values (x.slot a + 1)
        ((s.thread x.thread).countAbove b (x.slot a + 1))) (s'.thread x.thread) := by
  generalize count : (s.thread x.thread).countAbove b (x.slot a + 1) = arguments at admits ⊢
  have topped : ((s.modifyThread x.thread fun th =>
      th.withTop (x.slot a + 1 + arguments)).thread x.thread) =
        (s.thread x.thread).withTop (x.slot a + 1 + arguments) :=
    Store.thread_modifyThread_self _ _ valid
  have closures : (s.modifyThread x.thread fun th =>
      th.withTop (x.slot a + 1 + arguments)).closure ref = s.closure ref := rfl
  have entering := x.call_eq a b wanted s
  rw [count] at entering
  have exists' : x.thread < (s.modifyThread x.thread fun th =>
      th.withTop (x.slot a + 1 + arguments)).threads.size := by simpa using valid
  generalize (s.modifyThread x.thread fun th =>
    th.withTop (x.slot a + 1 + arguments)) = s₁ at topped closures entering exists'
  have callee' : (s₁.thread x.thread).get (x.slot a) = .closure ref := by
    rw [topped]
    exact callee
  obtain ⟨s', entered, -, -, frames, receives⟩ := enterCall_receives arguments (x.slot a) wanted
    exists' callee' (by
      rw [topped, closures]
      exact admits.mono (Nat.le_refl _) rfl (Nat.le_refl _))
  rw [topped, closures] at frames receives
  refine ⟨s', _, ?_, frames, rfl, receives⟩
  simp only [entering, bind, EStateM.bind, entered]
  rfl

structure Vacated (x : Context) (a arguments : Nat) (below : List Frame) (s s' : Store) : Prop where
  valid : x.thread < s'.threads.size
  frames : (s'.thread x.thread).frames = below
  function : (s'.thread x.thread).get x.frame.slot = (s.thread x.thread).get (x.slot a)
  values : (s'.thread x.thread).values (x.frame.slot + 1) arguments =
    (s.thread x.thread).values (x.slot a + 1) arguments
  limits : (s'.thread x.thread).limits = (s.thread x.thread).limits
  closures : s'.closures = s.closures
  cells : s'.cells = (s.closeCells x.thread x.frame.base).cells

theorem tailCall_vacates (live : x.Live below s) (down : x.frame.slot ≤ x.slot a)
    (callee : (s.thread x.thread).get (x.slot a) = .closure ref) {arguments : Nat}
    (count : (s.thread x.thread).countAbove b (x.slot a + 1) = arguments) :
    ∃ s', x.Vacated a arguments below s s' ∧ x.tailCall a b s = (do
      let entered ← enterCall x.thread x.frame.slot arguments x.frame.target x.frame.wanted
      modifyThread x.thread Thread.markTail
      return .entered entered : Action Flow) s' := by
  obtain ⟨pc, head⟩ := live.head
  -- The cells of the frame are closed first, and nothing else changes with that.
  have closed := Store.thread_closeCells s x.thread x.thread x.frame.base
  rw [if_pos rfl] at closed
  have valid : x.thread < (s.closeCells x.thread x.frame.base).threads.size := by
    rw [Store.threadCount_closeCells]
    exact live.valid
  have same : ∀ index, ((s.closeCells x.thread x.frame.base).thread x.thread).get index =
      (s.thread x.thread).get index := by
    intro index
    rw [closed]
    rfl
  have limits : ((s.closeCells x.thread x.frame.base).thread x.thread).limits =
      (s.thread x.thread).limits := by rw [closed]
  have inner : ((s.closeCells x.thread x.frame.base).thread x.thread).frames =
      { x.frame with pc } :: below := by rw [closed]; exact head
  have vacated := Store.thread_modifyThread_self _ (fun th => vacate th (x.slot a) arguments) valid
  refine ⟨(s.closeCells x.thread x.frame.base).modifyThread x.thread fun th =>
    vacate th (x.slot a) arguments,
    ⟨by simpa using valid, ?_, ?_, ?_, ?_, Store.closures_closeCells s _ _, rfl⟩, ?_⟩
  · rw [vacated]
    exact (vacate_cons inner (x.slot a) arguments).2.1
  · rw [vacated, ← same]
    exact get_vacate inner down (Nat.zero_le arguments)
  · rw [vacated, ← Thread.values_congr same]
    exact values_vacate inner down arguments
  · rw [vacated, limits_vacate, limits]
  · have closes : closeCells x.thread x.frame.base s =
        .ok () (s.closeCells x.thread x.frame.base) := rfl
    simp only [tailCall, register, getSlot, lookThread, look, bind, EStateM.bind, callee,
      countAbove_ok, count, closes, inner, List.isEmpty_cons, Bool.false_eq_true, if_false]
    rfl

structure TookOver (x : Context) (below : List Frame) (s s' : Store) (g : Frame) : Prop where
  frames : (s'.thread x.thread).frames = g :: below
  slot : g.slot = x.frame.slot
  target : g.target = x.frame.target
  wanted : g.wanted = x.frame.wanted
  isTail : g.isTail = true
  cells : s'.cells = (s.closeCells x.thread x.frame.base).cells

theorem tailCall_receives (live : x.Live below s) (down : x.frame.slot ≤ x.slot a)
    (callee : (s.thread x.thread).get (x.slot a) = .closure ref)
    (admits : (s.thread x.thread).Admits (s.closure ref).prototype (x.slot a)
      ((s.thread x.thread).countAbove b (x.slot a + 1))) :
    ∃ s' g, x.tailCall a b s = .ok (.entered .script) s' ∧ x.TookOver below s s' g ∧
      g.callee = .closure ref ∧
      g.Receives (s.closure ref).prototype ((s.thread x.thread).values (x.slot a + 1)
        ((s.thread x.thread).countAbove b (x.slot a + 1))) (s'.thread x.thread) := by
  generalize count : (s.thread x.thread).countAbove b (x.slot a + 1) = arguments at admits ⊢
  obtain ⟨s₁, vacated, moves⟩ := tailCall_vacates live down callee count
  have closure : s₁.closure ref = s.closure ref := by
    rw [Store.closure, vacated.closures, Store.closure]
  have shallower : (s₁.thread x.thread).frames.length ≤ (s.thread x.thread).frames.length := by
    obtain ⟨pc, head⟩ := live.head
    rw [vacated.frames, head]
    exact Nat.le_succ _
  obtain ⟨s', entered, cells, valid, frames, receives⟩ := enterCall_receives
    arguments x.frame.target x.frame.wanted vacated.valid (vacated.function.trans callee)
    (closure ▸ admits.mono shallower vacated.limits down)
  rw [closure] at frames receives
  rw [vacated.frames] at frames
  rw [vacated.values] at receives
  generalize framed : (s₁.thread x.thread).scriptFrame (s.closure ref).prototype (.closure ref)
    x.frame.slot arguments x.frame.target x.frame.wanted = g at frames receives
  have marked : (s'.modifyThread x.thread Thread.markTail).thread x.thread =
      { s'.thread x.thread with frames := { g with isTail := true } :: below } := by
    rw [Store.thread_modifyThread_self _ _ valid]
    simp only [Thread.markTail, frames]
  refine ⟨s'.modifyThread x.thread Thread.markTail, { g with isTail := true }, ?_, ?_, ?_, ?_⟩
  · simp only [moves, bind, EStateM.bind, entered]
    rfl
  · refine ⟨by rw [marked], ?_, ?_, ?_, rfl, cells.trans vacated.cells⟩ <;> rw [← framed] <;> rfl
  · rw [← framed]
    rfl
  · refine receives.marked.congr fun index => ?_
    rw [marked]
    rfl

theorem leads_tailCall_depth (live : x.Live below s) (down : x.frame.slot ≤ x.slot a)
    (callee : (s.thread x.thread).get (x.slot a) = .closure ref) :
    Leads (x.tailCall a b) s
      (fun flow s' => (∃ entered, flow = .entered entered) ∧
        (s'.thread x.thread).frames.length = below.length + 1)
      (fun s' => (s'.thread x.thread).frames.length ≤ below.length + 1) := by
  obtain ⟨s₁, vacated, moves⟩ := tailCall_vacates (b := b) live down callee rfl
  rw [Leads, moves]
  change Leads _ s₁ _ _
  refine ((leads_enterCall _ _ _ vacated.valid (Nat.zero_le _)).mono (fun _ _ entered => entered)
    ?_).bind ?_
  · rintro s' rfl
    rw [vacated.frames]
    exact Nat.le_succ _
  · rintro entered s' ⟨g, -, -, pushed⟩
    refine .modifyThread_bind (.pure ⟨⟨entered, rfl⟩, ?_⟩)
    have valid := Nat.lt_of_lt_of_le vacated.valid pushed.confined.grown
    have frames := pushed.frames
    rw [Store.thread_modifyThread_self _ _ valid, Thread.markTail, frames, vacated.frames]
    rfl

end Context

structure AtTailCall (m : Machine) (t : ThreadRef) (f : Frame) (below : List Frame)
    (i : Instruction) (callee : ClosureRef) (floor : Nat) (rest : List Activity) : Prop where
  activities : m.activities = .script t floor :: rest
  control : m.control = .run
  head : (m.store.thread t).frames = f :: below
  inside : floor ≤ below.length
  code : ∃ ref, f.callee = .closure ref ∧ (m.store.closure ref).prototype.code[f.pc]? = some i
  opcode : i.opcode? = some .tailCall
  closure : (m.store.thread t).get (f.base + i.a) = .closure callee

structure Instruction.CallsLike (j i : Instruction) : Prop where
  opcode : j.opcode? = some .call
  a : j.a = i.a
  b : j.b = i.b

/-- Frame `g` has taken the place of frame `f` when machine `m` has become `m'`. -/
structure TakesPlace (m m' : Machine) (t : ThreadRef) (f g : Frame) (below : List Frame) :
    Prop where
  activities : m'.activities = m.activities
  control : m'.control = .run
  frames : (m'.store.thread t).frames = g :: below
  slot : g.slot = f.slot
  target : g.target = f.target
  wanted : g.wanted = f.wanted
  isTail : g.isTail = true
  closed : ∀ (ref : CellRef) (index : Nat), m.store.cells[ref]? = some (.slot t index) →
    f.base ≤ index → m'.store.cells[ref]? = some (.closed ((m.store.thread t).get index))
  kept : ∀ ref : CellRef, (∀ index, m.store.cells[ref]? = some (.slot t index) → index < f.base) →
    m'.store.cells[ref]? = m.store.cells[ref]?

/-- Frame `h` stands above frame `f`, which waits for it, in machine `m'`. -/
structure StandsAbove (m m' : Machine) (t : ThreadRef) (f h : Frame) (below : List Frame) :
    Prop where
  activities : m'.activities = m.activities
  control : m'.control = .run
  frames : (m'.store.thread t).frames = h :: { f with pc := f.pc + 1 } :: below

structure Deep (t : ThreadRef) (below : List Frame) (path : Nat → Machine) (n : Nat) : Prop where
  next : ∀ k, k < n → Machine.Next (path k) (path (k + 1))
  deep : ∀ k, k ≤ n → below.length < ((path k).store.thread t).frames.length

structure Frame.EndsLike (f g : Frame) : Prop where
  slot : g.slot = f.slot
  target : g.target = f.target
  wanted : g.wanted = f.wanted

structure Store.MovesOn (t : ThreadRef) (s s' : Store) : Prop where
  valid : t < s'.threads.size
  slots : ∀ index, (s'.thread t).get index = (s.thread t).get index
  top : (s'.thread t).top = (s.thread t).top
  depth : (s'.thread t).frames.length = (s.thread t).frames.length
  limits : (s'.thread t).limits = (s.thread t).limits
  listed : s.Linked → s'.Listed t ∧ (s'.thread t).openCells = (s.thread t).openCells

namespace Store

variable {s s' : Store} {t : ThreadRef} {f : Frame} {below : List Frame} {slot arguments : Nat}
  {p : Prototype}

theorem movesOn_setPc (head : (s.thread t).frames = f :: below) (pc : Nat) :
    s.MovesOn t (s.modifyThread t fun th => th.setPc pc) := by
  have valid := lt_of_frames head
  have thread := Machine.thread_setPc valid head pc
  refine ⟨by simpa using valid, fun index => ?_, ?_, ?_, ?_, fun linked => ⟨?_, ?_⟩⟩
  · rw [thread]
    rfl
  · rw [thread]
  · rw [thread, head]
    rfl
  · rw [thread]
  · have advanced : s.Confined t 0 (s.modifyThread t fun th => th.setPc pc) :=
      confined_reworked (Thread.reworked_setPc _ _)
    exact (advanced.linked linked).listed t
  · rw [thread]

theorem MovesOn.countAbove (moves : s.MovesOn t s') (operand first : Nat) :
    (s'.thread t).countAbove operand first = (s.thread t).countAbove operand first := by
  rw [Thread.countAbove, Thread.countAbove, moves.top]

theorem MovesOn.admits (moves : s.MovesOn t s') (admits : (s.thread t).Admits p slot arguments) :
    (s'.thread t).Admits p slot arguments :=
  admits.mono (Nat.le_of_eq moves.depth) moves.limits (Nat.le_refl _)

end Store

namespace Machine

variable {m : Machine} {t : ThreadRef} {f : Frame} {below : List Frame} {i j : Instruction}
  {callee : ClosureRef} {floor : Nat} {rest : List Activity}

def calledWith (m : Machine) (t : ThreadRef) (f : Frame) (i : Instruction) : List Value :=
  (m.store.thread t).values (f.base + i.a + 1)
    ((m.store.thread t).countAbove i.b (f.base + i.a + 1))

def Admitted (m : Machine) (t : ThreadRef) (f : Frame) (i : Instruction) (p : Prototype) : Prop :=
  (m.store.thread t).Admits p (f.base + i.a)
    ((m.store.thread t).countAbove i.b (f.base + i.a + 1))

theorem step_tailCall (linked : m.store.Linked) (owned : f.slot < f.base)
    (calls : AtTailCall m t f below i callee floor rest)
    (admitted : m.Admitted t f i (m.store.closure callee).prototype) :
    ∃ g, TakesPlace m (m.step .bare) t f g below ∧ g.callee = .closure callee ∧
      g.Receives (m.store.closure callee).prototype (m.calledWith t f i)
        ((m.step .bare).store.thread t) := by
  obtain ⟨s, activities, control⟩ := m
  obtain ⟨rfl, rfl, head, inside, ⟨ref, function, code⟩, opcode, closure⟩ := calls
  have moves := Store.movesOn_setPc head (f.pc + 1)
  have live : Context.Live ⟨t, f, s.closure ref, f.pc + 1⟩ below
      (s.modifyThread t fun th => th.setPc (f.pc + 1)) :=
    ⟨moves.valid, f.pc + 1, by rw [thread_setPc (Store.lt_of_frames head) head]⟩
  obtain ⟨s', g, ran, took, called, receives⟩ := Context.tailCall_receives (a := i.a) (b := i.b)
    live (show f.slot ≤ f.base + i.a by omega) ((moves.slots _).trans closure)
    (moves.countAbove _ _ ▸ moves.admits admitted)
  have step : Machine.step .bare ⟨s, .script t floor :: rest, .run⟩ =
      ⟨s', .script t floor :: rest, .run⟩ := by
    simp only [Machine.step, runScript_eq rest head inside function, runInstruction, code, opcode,
      perform, Context.execute, ran]
  obtain ⟨listed, lists⟩ := moves.listed linked
  rw [step]
  refine ⟨g, ⟨rfl, rfl, took.frames, took.slot, took.target, took.wanted, took.isTail, ?_, ?_⟩,
    called, ?_⟩
  · intro ref index found above
    rw [took.cells, ← moves.slots]
    exact Store.cells_closeCells_closed listed (lists ▸ linked.complete ref t index found) above
  · intro ref others
    rw [took.cells]
    refine Store.cells_closeCells_other fun index member => others index ?_
    exact (linked.listed t).openCell index ref (lists ▸ member)
  · rw [Thread.values_congr moves.slots, moves.countAbove] at receives
    exact receives

theorem runInstruction_call {instead : Closure} (alike : j.CallsLike i)
    (head : (m.store.thread t).frames = f :: below)
    (code : instead.prototype.code[f.pc]? = some j)
    (closure : (m.store.thread t).get (f.base + i.a) = .closure callee)
    (admitted : m.Admitted t f i (m.store.closure callee).prototype) :
    ∃ h, StandsAbove m (runInstruction m.store m.activities t f instead) t f h below ∧
      h.callee = .closure callee ∧
      h.Receives (m.store.closure callee).prototype (m.calledWith t f i)
        ((runInstruction m.store m.activities t f instead).store.thread t) := by
  obtain ⟨s, activities, control⟩ := m
  obtain ⟨opcode, a, b⟩ := alike
  have moves := Store.movesOn_setPc head (f.pc + 1)
  obtain ⟨s', h, ran, frames, called, receives⟩ := Context.call_receives
    (x := ⟨t, f, instead, f.pc + 1⟩) (a := i.a) (b := i.b)
    (if j.c == 0 then none else some (j.c - 1)) moves.valid ((moves.slots _).trans closure)
    (moves.countAbove _ _ ▸ moves.admits admitted)
  have step : runInstruction s activities t f instead = ⟨s', activities, .run⟩ := by
    simp only [runInstruction, code, opcode, perform, Context.execute, a, b, ran]
  rw [step]
  refine ⟨h, ⟨rfl, rfl, ?_⟩, called, ?_⟩
  · exact frames.trans (by rw [thread_setPc (Store.lt_of_frames head) head])
  · rw [Thread.values_congr moves.slots, moves.countAbove] at receives
    exact receives

theorem TailCalls.depth (healthy : m.Healthy) (calls : m.TailCalls t f below) :
    ((m.step .bare).store.thread t).frames.length ≤ below.length + 1 := by
  obtain ⟨s, activities, control⟩ := m
  obtain ⟨floor, rest, pc, rfl, rfl, inside, head, ref, i, callee, function, code, opcode,
    closure⟩ := calls
  have down : f.slot ≤ f.base + i.a := by
    obtain ⟨mine, tidy⟩ := healthy.tidy t
    have formed : Frame.Formed { f with pc } := tidy.frames _ (head ▸ .head _)
    have base : f.slot < f.base := formed.owned.base
    omega
  have moves := Store.movesOn_setPc head (pc + 1)
  have live : Context.Live ⟨t, { f with pc }, s.closure ref, pc + 1⟩ below
      (s.modifyThread t fun th => th.setPc (pc + 1)) :=
    ⟨moves.valid, pc + 1, by rw [thread_setPc (Store.lt_of_frames head) head]⟩
  have leads := Context.leads_tailCall_depth (a := i.a) (b := i.b) live down
    ((moves.slots _).trans closure)
  simp only [Machine.step, runScript_eq rest head inside function, runInstruction, code, opcode]
  refine perform_elim (p := fun m => (m.store.thread t).frames.length ≤ below.length + 1) leads ?_
    fun _ _ shorter => shorter
  rintro flow s' ⟨⟨entered, rfl⟩, depth⟩
  cases entered <;> exact Nat.le_of_eq depth

theorem lowest_of_deep {path : Nat → Machine} {n : Nat} (deep : Deep t below path n)
    (healthy : (path 0).Healthy)
    (lowest : Lowest f.EndsLike below ((path 0).store.thread t).frames) :
    (path n).Healthy ∧ Lowest f.EndsLike below ((path n).store.thread t).frames := by
  induction n with
  | zero => exact ⟨healthy, lowest⟩
  | succ n ih =>
      have before : Deep t below path n :=
        ⟨fun k bound => deep.next k (by omega), fun k bound => deep.deep k (by omega)⟩
      obtain ⟨healthy, lowest⟩ := ih before
      have next := deep.next n (Nat.lt_succ_self n)
      have valid : t < (path n).store.threads.size := by
        obtain ⟨upper, g, frames, -⟩ := lowest
        apply Store.lt_of_field Thread.frames
        rw [frames]
        exact List.append_ne_nil_of_right_ne_nil _ (List.cons_ne_nil _ _)
      refine ⟨(next.proceeds healthy).healthy, (next.reframed healthy valid).lowest lowest ?_
        (deep.deep (n + 1) (Nat.le_refl _))⟩
      intro g h slot target wanted ends
      exact ⟨slot.trans ends.slot, target.trans ends.target, wanted.trans ends.wanted⟩

/-- A tail call of a closure looks to the closure like a call, in the place of the frame that has
called it; and however many tail calls follow one another, the frame stays at its depth and ends as
the first one would. -/
theorem tail_call_takes_place {limits : Limits} (reachable : m.Reachable limits)
    (calls : AtTailCall m t f below i callee floor rest)
    (admitted : m.Admitted t f i (m.store.closure callee).prototype) :
    (∃ g, TakesPlace m (m.step .bare) t f g below ∧
      ∀ (j : Instruction) (instead : Closure), j.CallsLike i →
        instead.prototype.code[f.pc]? = some j →
        ∃ h, StandsAbove m (runInstruction m.store m.activities t f instead) t f h below ∧
          g.Alike ((m.step .bare).store.thread t) h
            ((runInstruction m.store m.activities t f instead).store.thread t)) ∧
    ∀ (path : Nat → Machine) (n : Nat), path 0 = m → Deep t below path n → ∀ k, k ≤ n →
      Lowest f.EndsLike below ((path k).store.thread t).frames ∧
      ∀ g, k < n → (path k).TailCalls t g below → path (k + 1) = (path k).step .bare →
        ((path (k + 1)).store.thread t).frames.length =
          ((path k).store.thread t).frames.length := by
  have healthy := reachable.healthy
  have owned : f.slot < f.base := by
    obtain ⟨mine, tidy⟩ := healthy.tidy t
    exact (tidy.frames f (calls.head ▸ .head _)).owned.base
  constructor
  · obtain ⟨g, takes, called, receives⟩ := step_tailCall healthy.linked owned calls admitted
    refine ⟨g, takes, fun j instead alike code => ?_⟩
    obtain ⟨h, stands, called', receives'⟩ :=
      runInstruction_call alike calls.head code calls.closure admitted
    exact ⟨h, stands, receives.alike receives' (called.trans called'.symm)⟩
  · rintro path n rfl deep k bound
    have before : Deep t below path k :=
      ⟨fun k' bound' => deep.next k' (by omega), fun k' bound' => deep.deep k' (by omega)⟩
    obtain ⟨healthy', lowest⟩ := lowest_of_deep before healthy
      ⟨[], f, calls.head, rfl, rfl, rfl⟩
    refine ⟨lowest, fun g more tails steps => ?_⟩
    have least := deep.deep (k + 1) more
    have most := tails.depth healthy'
    obtain ⟨-, -, pc, -, -, -, head, -⟩ := tails
    rw [← steps] at most
    rw [head, List.length_cons]
    omega

def extrasPrototype : Prototype :=
  { Prototype.empty with
    code := #[.abc .vararg 0 0 0, .abc .ret 0 0 0]
    isVararg := true
    window := 1 }

def tailingPrototype : Prototype :=
  { Prototype.empty with
    code := #[.abx .closure 0 0, .abc .loadBool 1 1 0, .abc .tailCall 0 2 0, .abc .ret 0 0 0]
    children := #[extrasPrototype]
    window := 2 }

/-- A host has made the tail-calling function and has called it, and it is about to do its call. -/
def tailingCall : Machine :=
  ((beginRestoringCall (Engine.setHeld
    ((Vm.new .standard).store.newClosure ⟨tailingPrototype, #[]⟩).2 0 true) [] 0 (.closure 0)
    #[]).step .bare).step .bare

def tailingFrame : Frame := { Frame.script (.closure 0) 0 1 3 with pc := 2 }

def callingInstead : Closure :=
  ⟨{ tailingPrototype with code := #[.abx .closure 0 0, .abc .loadBool 1 1 0, .abc .call 0 2 0] },
    #[]⟩

theorem tail_call_takes_place_tailing :
    tailingCall.Reachable .standard ∧
      AtTailCall tailingCall 0 tailingFrame [] (.abc .tailCall 0 2 0) 1 0
        [.collect 0 0, .restore 0 0 0] ∧
      tailingCall.Admitted 0 tailingFrame (.abc .tailCall 0 2 0) extrasPrototype ∧
      (∃ g h, TakesPlace tailingCall (tailingCall.step .bare) 0 tailingFrame g [] ∧
        StandsAbove tailingCall
          (runInstruction tailingCall.store tailingCall.activities 0 tailingFrame callingInstead) 0
          tailingFrame h [] ∧
        g.Alike ((tailingCall.step .bare).store.thread 0) h
          ((runInstruction tailingCall.store tailingCall.activities 0 tailingFrame
            callingInstead).store.thread 0)) ∧
      Deep 0 [] (tailingCall.after .bare) 2 ∧
      ((tailingCall.after .bare 1).store.thread 0).frames.length =
        (tailingCall.store.thread 0).frames.length := by
  have made : Reachable .standard
      ⟨((Vm.new .standard).store.newClosure ⟨tailingPrototype, #[]⟩).2, [], .done #[]⟩ :=
    .single (.heap rfl rfl)
  have called : Reachable .standard (beginRestoringCall (Engine.setHeld
      ((Vm.new .standard).store.newClosure ⟨tailingPrototype, #[]⟩).2 0 true) [] 0 (.closure 0)
      #[]) := made.tail (.call rfl rfl _ _)
  have reachable : tailingCall.Reachable .standard := (called.tail (.step _)).tail (.step _)
  have calls : AtTailCall tailingCall 0 tailingFrame [] (.abc .tailCall 0 2 0) 1 0
      [.collect 0 0, .restore 0 0 0] :=
    ⟨rfl, rfl, rfl, Nat.le_refl 0, ⟨0, rfl, rfl⟩, rfl, rfl⟩
  have admitted : tailingCall.Admitted 0 tailingFrame (.abc .tailCall 0 2 0) extrasPrototype :=
    ⟨by decide, by decide⟩
  have deep : Deep 0 [] (tailingCall.after .bare) 2 := ⟨fun k _ => .step _, by decide⟩
  obtain ⟨⟨g, takes, alike⟩, chain⟩ := tail_call_takes_place reachable calls admitted
  obtain ⟨h, stands, same⟩ := alike (.abc .call 0 2 0) callingInstead ⟨rfl, rfl, rfl⟩ rfl
  refine ⟨reachable, calls, admitted, ⟨g, h, takes, stands, same⟩, deep, ?_⟩
  refine (chain (tailingCall.after .bare) 2 rfl deep 0 (Nat.zero_le 2)).2 tailingFrame (by decide) ?_ rfl
  exact ⟨0, _, 2, rfl, rfl, Nat.le_refl 0, rfl, 0, _, 1, rfl, rfl, rfl, rfl⟩

end Machine

end RegisterVm
