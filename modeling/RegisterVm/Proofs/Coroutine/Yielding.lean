import RegisterVm.Proofs.Coroutine.Lifecycle
import RegisterVm.Proofs.Machine.Results

/-!
A yield is a call that returns the arguments of the next resumption. It hands its own arguments to
whoever resumed the coroutine; when the coroutine is resumed it goes on as if the call had simply
returned, whatever happened to other threads in the meantime.
-/

namespace RegisterVm

open Relation

variable {s : Store} {t r : ThreadRef} {f : Frame} {caller : List Frame}
  {activities below : List Activity}

def Store.suspend (s : Store) (t : ThreadRef) : Store :=
  s.modifyThread t fun th =>
    { th with yielding := true, status := .suspended, yielded := #[], held := false }

namespace Coroutine

theorem resume_accepted (argument : (s.thread r).argument? 1 = some (.thread t))
    (accepted : refusal? s r t = none) :
    resume r s = .ok (.resumes t
      ((s.thread r).arguments.extract 1 (s.thread r).arguments.size) .resumed) s := by
  simp only [resume, bind, EStateM.bind, checkThread_argument argument, look, accepted]
  rfl

theorem wrapped_accepted {native : NativeRef}
    (callee : (s.thread r).frame?.map Frame.callee = some (.native native))
    (bound : (s.native native).bound.getD 0 .nil = .thread t)
    (accepted : refusal? s r t = none) :
    wrapped r s = .ok (.resumes t (s.thread r).arguments .wrapped) s := by
  simp only [wrapped, bind, EStateM.bind, boundValue_thread callee bound, look, accepted]
  rfl

end Coroutine

namespace Machine

def goesOn (s : Store) (t : ThreadRef) (below : List Activity) : Machine :=
  if (s.thread t).frames.isEmpty then ⟨s, .resumption t :: below, .done #[]⟩
  else ⟨s, .script t 0 :: .resumption t :: below, .run⟩

/-- The native function that may yield has been entered in frame `f` of coroutine `t`. -/
structure AtYield (s : Store) (activities : List Activity) (t : ThreadRef) (f : Frame)
    (caller : List Frame) (below : List Activity) : Prop where
  coroutine : (s.thread t).isMain = false
  head : (s.thread t).frames = f :: caller
  yieldable : f.yieldable = true
  formed : f.Formed
  quiet : (s.thread t).yielding = false
  running : (s.thread t).status = .running
  held : (s.thread t).held = true
  arrived : s.Arrived t f
  shape : (activities = .resumption t :: below ∧ caller = []) ∨
    activities = .script t 0 :: .resumption t :: below

theorem Healthy.atYield {body : NativeBody} (healthy : Healthy ⟨s, activities, .enter t body⟩)
    (coroutine : (s.thread t).isMain = false) (head : (s.thread t).frames = f :: caller)
    (yieldable : f.yieldable = true) : ∃ below, AtYield s activities t f caller below := by
  cases healthy with
  | settled sound goes => simp at goes
  | @entered _ _ _ _ g base apart working serves unpinned arrived =>
      obtain ⟨rfl, rfl⟩ := List.cons.inj (head.symm.trans working.head)
      obtain ⟨below, shape⟩ := alone_of_unpinned serves apart.chained (unpinned yieldable)
      have held := working.held serves.hears.ofThread_ne_nil
      refine ⟨below, coroutine, head, yieldable, ?_, working.quiet, ?_, held, arrived, ?_⟩
      · exact working.frames f (head ▸ .head _)
      · exact (working.busy coroutine held).1
      · have expects := working.expects
        rcases shape with rfl | ⟨floor, rfl⟩
        · rw [ofThread_self (by rfl)] at expects
          exact .inl ⟨rfl, expects.2⟩
        · rw [ofThread_self (by rfl), ofThread_self (by rfl)] at expects
          obtain ⟨upper, base, -, rfl, -, -, rfl⟩ := expects
          exact .inr rfl

namespace AtYield

variable (atYield : AtYield s activities t f caller below)

include atYield

theorem valid : t < s.threads.size := Store.lt_of_frames atYield.head

theorem step_enter : step .bare ⟨s, activities, .enter t (.builtin .yield)⟩ =
    ⟨s.modifyThread t fun th => { th with yielded := th.arguments, yielding := true }, activities,
      .done #[]⟩ := by
  have accepted : yieldArguments t s = .ok (.returns 0)
      (s.modifyThread t fun th => { th with yielded := th.arguments, yielding := true }) := by
    have allowed : ((s.thread t).frame?.map Frame.yieldable).getD false = true := by
      rw [Thread.frame?, atYield.head]
      exact atYield.yieldable
    simp only [yieldArguments, lookThread, look, bind, EStateM.bind, atYield.coroutine, allowed,
      Bool.false_eq_true, if_false, Bool.not_true]
    rfl
  change perform s activities (yieldArguments t) _ = _
  simp only [perform, accepted, settle]
  change Machine.mk (Store.modifyThread _ _ _) _ _ = _
  rw [Store.modifyThread_modifyThread]
  rfl

theorem handsOut : ∃ k, after ⟨s, activities, .enter t (.builtin .yield)⟩ .bare k =
    ⟨s.suspend t, below, .done (s.thread t).arguments⟩ := by
  have thread := Store.thread_modifyThread_self s
    (fun th => { th with yielded := th.arguments, yielding := true }) atYield.valid
  have ends : endResumption (s.modifyThread t fun th =>
      { th with yielded := th.arguments, yielding := true }) below t =
      ⟨s.suspend t, below, .done (s.thread t).arguments⟩ := by
    simp only [endResumption, thread, if_true]
    rw [Store.modifyThread_modifyThread]
    rfl
  rcases atYield.shape with ⟨rfl, -⟩ | rfl
  · refine ⟨2, ?_⟩
    rw [after, after, after, atYield.step_enter]
    exact ends
  · refine ⟨3, ?_⟩
    rw [after, after, after, after, atYield.step_enter]
    simp only [step, succeed, thread, if_true]
    exact ends

theorem instead {values : Array Value}
    (fits : f.top + values.size ≤ (s.thread t).limits.maxStack) :
    ∃ k s', after (perform s activities (returnAll t values) fun s outcome =>
        settle s activities t outcome) .bare k = goesOn s' t below ∧
      s.Becomes t ((s.thread t).returning values) s' := by
  have arrived := atYield.arrived.top
  have owned := atYield.formed.owned
  have above : f.slot ≤ (s.thread t).top := by
    have := owned.base
    have := owned.top
    omega
  obtain ⟨s', returned, becomes⟩ := settle_returnAll activities atYield.head atYield.formed
    atYield.quiet above values (by rw [arrived]; exact fits)
  have looks := becomes.looks atYield.valid
  have frames : (s'.thread t).frames = caller :=
    looks.frames.trans (Thread.frames_deliver _ atYield.head _ _)
  have quiet : (s'.thread t).yielding = false := by
    rw [looks.yielding, ← atYield.quiet]
    exact (Thread.reworked_deliver _ atYield.head _ _).steady.yielding
  rw [returned]
  rcases atYield.shape with ⟨rfl, rfl⟩ | rfl
  · exact ⟨0, s', by simp [after, goesOn, frames], becomes⟩
  · cases caller with
    | nil =>
        refine ⟨2, s', ?_, becomes⟩
        simp [after, step, succeed, runScript, goesOn, frames, quiet]
    | cons g rest =>
        refine ⟨1, s', ?_, becomes⟩
        simp [after, step, succeed, goesOn, frames, quiet]

end AtYield

theorem deliverYield_ok (head : (s.thread t).frames = f :: caller) (formed : f.Formed)
    (values : Array Value) (fits : f.base + values.size ≤ (s.thread t).limits.maxStack) :
    ∃ s', deliverYield t values s = .ok () s' ∧
      s.Becomes t (({ s.thread t with yielding := false } : Thread).deliver f.base values) s' := by
  have valid := Store.lt_of_frames head
  have awake := Store.thread_modifyThread_self s (fun th => { th with yielding := false }) valid
  have innermost :
      ((s.modifyThread t fun th => { th with yielding := false }).thread t).frame? = some f := by
    rw [awake, Thread.frame?, head]
    rfl
  have granted := reserve_ok (s := s.modifyThread t fun th => { th with yielding := false })
    (t := t) (f.base + values.size) (by rw [awake]; exact fits)
  have first : s.Becomes t { s.thread t with yielding := false }
      (s.modifyThread t fun th => { th with yielding := false }) :=
    ⟨_, .refl _, Store.modifyThread_congr rfl⟩
  refine ⟨_, ?_, (first.modifyThread fun last looks =>
    looks.trans (.reserve last (f.base + values.size))).modifyThread fun last looks =>
      looks.deliver head formed.delivers (Nat.le_of_lt formed.owned.base) values⟩
  have modifies : ∀ (f : Thread → Thread) (s : Store),
      RegisterVm.modifyThread t f s = .ok () (s.modifyThread t f) := fun _ _ => rfl
  simp only [deliverYield, lookThread, look, bind, EStateM.bind, modifies, innermost, granted]
  rfl

theorem beginResumption_suspended (activities : List Activity)
    (status : (s.thread t).status = .suspended)
    (head : (s.thread t).frames = f :: caller) (formed : f.Formed) (values : Array Value)
    (fits : f.base + values.size ≤ (s.thread t).limits.maxStack) :
    ∃ s', beginResumption s activities t values = goesOn s' t activities ∧
      s.Becomes t (({ s.thread t with status := .running, held := true, yielding := false } :
        Thread).deliver f.base values) s' := by
  have valid := Store.lt_of_frames head
  have woken := Store.thread_modifyThread_self s
    (fun th => { th with status := .running, held := true }) valid
  have first : s.Becomes t { s.thread t with status := .running, held := true }
      (s.modifyThread t fun th => { th with status := .running, held := true }) :=
    ⟨_, .refl _, Store.modifyThread_congr rfl⟩
  have innermost : ((s.modifyThread t fun th =>
      { th with status := .running, held := true }).thread t).frames = f :: caller := by
    rw [woken]
    exact head
  obtain ⟨s', delivered, second⟩ :=
    deliverYield_ok innermost formed values (by rw [woken]; exact fits)
  rw [woken] at second
  refine ⟨s', ?_, first.trans second⟩
  simp only [beginResumption, status, perform, delivered, goesOn]

/-- For `n` steps of the course of events `path` nobody resumes thread `t`. -/
structure Course (t : ThreadRef) (path : Nat → Machine) (n : Nat) : Prop where
  next : ∀ k, k < n → Next (path k) (path (k + 1))
  idle : ∀ k, k ≤ n → .resumption t ∉ (path k).activities

/-- In the course of events a value has been assigned to a slot of thread `t` through a cell. -/
def Assigned (t : ThreadRef) (path : Nat → Machine) (n index : Nat) (value : Value) : Prop :=
  ∃ k cell, k < n ∧ (path k).assignment? = some (cell, value) ∧
    (path k).store.cells[cell]? = some (.slot t index)

structure Waits (t : ThreadRef) (path : Nat → Machine) (n : Nat) : Prop where
  healthy : (path n).Healthy
  valid : t < (path n).store.threads.size
  thread : ∃ stack openCells,
    (path n).store.thread t = { (path 0).store.thread t with stack, openCells }
  slots : ∀ index, ((path n).store.thread t).get index = ((path 0).store.thread t).get index ∨
    Assigned t path n index (((path n).store.thread t).get index)

theorem Course.waits {path : Nat → Machine} {n : Nat} (course : Course t path n)
    (healthy : (path 0).Healthy) (valid : t < (path 0).store.threads.size)
    (coroutine : ((path 0).store.thread t).isMain = false) : Waits t path n := by
  -- Each event spares the coroutine, for none of them resumes it.
  induction n with
  | zero => exact ⟨healthy, valid, ⟨_, _, rfl⟩, fun _ => .inl rfl⟩
  | succ n ih =>
      have before := ih ⟨fun k bound => course.next k (by omega),
        fun k bound => course.idle k (by omega)⟩
      obtain ⟨stack, openCells, thread⟩ := before.thread
      have next := course.next n (Nat.lt_succ_self n)
      have healthy' := (next.proceeds before.healthy).healthy
      rcases next.idle before.healthy before.valid (by rw [thread]; exact coroutine)
        (course.idle n (Nat.le_succ n)) with spares | ⟨s, activities, arguments, -, status, resumed⟩
      · obtain ⟨stack', openCells', thread'⟩ := spares.thread
        refine ⟨healthy', Nat.lt_of_lt_of_le before.valid (next.grown before.healthy), ⟨stack',
          openCells', by rw [thread', thread]⟩, fun index => ?_⟩
        rcases spares.slots index with same | ⟨cell, assigns, found⟩
        · rw [same]
          refine (before.slots index).imp_right ?_
          rintro ⟨k, cell, bound, assigned⟩
          exact ⟨k, cell, Nat.lt_succ_of_lt bound, assigned⟩
        · exact .inr ⟨n, cell, Nat.lt_succ_self n, assigns, found⟩
      · have idle := course.idle (n + 1) (Nat.le_refl _)
        rw [resumed] at idle
        exact absurd (resumed_beginResumption status) idle

/-- As far as the caller of frame `f` is concerned, thread `resumed` is what `returned` is, the call
having returned `values`; below the call's slot there may have been writes. -/
structure AsReturned (f : Frame) (values : Array Value) (written : Nat → Value → Prop)
    (returned resumed : Thread) : Prop where
  fields : ∃ stack openCells, resumed = { returned with stack, openCells, yielded := #[] }
  results : ∀ place, place < f.takes values.size →
    resumed.get (f.target + place) = values.getD place .nil ∧
      returned.get (f.target + place) = values.getD place .nil
  below : ∀ index, index < f.slot →
    resumed.get index = returned.get index ∨ written index (resumed.get index)

/-- How a coroutine that has yielded in machine `m` is resumed after `n` steps of the course of
events `path`. -/
structure Resumes (m : Machine) (t : ThreadRef) (f : Frame) (path : Nat → Machine) (n : Nat) :
    Prop where
  begins : ∀ m', Next (path n) m' → .resumption t ∈ m'.activities →
    ∃ s activities values, s.thread t = (path n).store.thread t ∧
      m' = beginResumption s activities t values
  byHost : ∀ (engine : Engine) (vm : Vm) (values : Array Value), vm.store = (path n).store →
    vm.resume engine (.thread t) values =
      ((engine.finish (beginResumption vm.store [] t values)).1,
        { vm with store := (engine.finish (beginResumption vm.store [] t values)).2 })
  byScript : ∀ r, (path n).control = .enter r (.builtin .resume) →
    ((path n).store.thread r).argument? 1 = some (.thread t) →
    (path n).step .bare = beginResumption (path n).store
      (.native r .resumed :: (path n).activities) t
      (((path n).store.thread r).arguments.extract 1 ((path n).store.thread r).arguments.size)
  byWrapper : ∀ r native, (path n).control = .enter r (.builtin .wrapped) →
    ((path n).store.thread r).frame?.map Frame.callee = some (.native native) →
    ((path n).store.native native).bound.getD 0 .nil = .thread t →
    (path n).step .bare = beginResumption (path n).store
      (.native r .wrapped :: (path n).activities) t ((path n).store.thread r).arguments
  goesOn : ∀ s activities (values : Array Value), s.thread t = (path n).store.thread t →
    f.base + values.size ≤ (m.store.thread t).limits.maxStack →
    ∃ s', beginResumption s activities t values = goesOn s' t activities ∧
      AsReturned f values (Assigned t path n) ((m.store.thread t).returning values) (s'.thread t)

/-- What the yield does that machine `m` is about to run in frame `f` of thread `t`, `below` being
what waits for the coroutine. -/
structure Yields (m : Machine) (t : ThreadRef) (f : Frame) (below : List Activity) : Prop where
  handsOut : ∃ k, m.after .bare k = ⟨m.store.suspend t, below, .done (m.store.thread t).arguments⟩
  arguments : (m.store.thread t).arguments.size = f.top - f.base ∧
    ∀ place, place < f.top - f.base →
      (m.store.thread t).arguments.getD place .nil = (m.store.thread t).get (f.base + place)
  toHost : below = [] → outcome ⟨m.store.suspend t, below, .done (m.store.thread t).arguments⟩ =
    .returned (m.store.thread t).arguments
  toScript : ∀ r rest, below = .native r .resumed :: rest →
    step .bare ⟨m.store.suspend t, below, .done (m.store.thread t).arguments⟩ =
      perform (m.store.suspend t) rest
        (returnAll r (#[.boolean true] ++ (m.store.thread t).arguments))
        fun s outcome => settle s rest r outcome
  toWrapper : ∀ r rest, below = .native r .wrapped :: rest →
    step .bare ⟨m.store.suspend t, below, .done (m.store.thread t).arguments⟩ =
      perform (m.store.suspend t) rest (returnAll r (m.store.thread t).arguments)
        fun s outcome => settle s rest r outcome
  /-- Where a native function would have led that had simply returned. -/
  instead : ∀ values : Array Value, f.top + values.size ≤ (m.store.thread t).limits.maxStack →
    ∃ k s', (perform m.store m.activities (returnAll t values) fun s outcome =>
        settle s m.activities t outcome).after .bare k = goesOn s' t below ∧
      m.store.Becomes t ((m.store.thread t).returning values) s'
  resumes : ∀ (path : Nat → Machine) (n : Nat),
    path 0 = ⟨m.store.suspend t, below, .done (m.store.thread t).arguments⟩ → Course t path n →
    Resumes m t f path n

theorem resumeResults_ok (r : ThreadRef) (values : Array Value) :
    Coroutine.resumeResults r (.ok values) = returnAll r (#[.boolean true] ++ values) := by
  simp [Coroutine.resumeResults, returnAll, pushAll, Nat.add_comm]

namespace AtYield

variable (atYield : AtYield s activities t f caller below)

include atYield

theorem arguments : (s.thread t).arguments.size = f.top - f.base ∧
    ∀ place, place < f.top - f.base →
      (s.thread t).arguments.getD place .nil = (s.thread t).get (f.base + place) := by
  have room := atYield.arrived.room.exist
  have same : (s.thread t).arguments = (s.thread t).stack.extract f.base f.top := by
    rw [Thread.arguments, Thread.frame?, atYield.head]
    rfl
  rw [same]
  refine ⟨by rw [Array.size_extract, Nat.min_eq_left room], fun place bound => ?_⟩
  rw [Thread.get, Array.getD_eq_getD_getElem?, Array.getD_eq_getD_getElem?, Array.getElem?_extract,
    if_pos (by omega)]

theorem above : f.slot ≤ f.base ∧ f.slot ≤ (s.thread t).top := by
  have base := atYield.formed.owned.base
  have top := atYield.formed.owned.top
  have arrived := atYield.arrived.top
  omega

theorem waiting {path : Nat → Machine} {n : Nat} (waits : Waits t path n)
    (start : path 0 = ⟨s.suspend t, below, .done (s.thread t).arguments⟩) :
    ∃ stack openCells, (path n).store.thread t = { s.thread t with
      stack, openCells, status := .suspended, yielding := true, yielded := #[],
      held := false } := by
  obtain ⟨stack, openCells, thread⟩ := waits.thread
  have suspended := Store.thread_modifyThread_self s (fun th =>
    { th with yielding := true, status := .suspended, yielded := #[], held := false }) atYield.valid
  refine ⟨stack, openCells, ?_⟩
  rw [thread, start]
  change { (s.suspend t).thread t with stack, openCells } = _
  rw [Store.suspend, suspended]

theorem resumed {path : Nat → Machine} {n : Nat} (waits : Waits t path n)
    (start : path 0 = ⟨s.suspend t, below, .done (s.thread t).arguments⟩) {s₁ : Store}
    {activities' : List Activity} {values : Array Value}
    (same : s₁.thread t = (path n).store.thread t)
    (fits : f.base + values.size ≤ (s.thread t).limits.maxStack) :
    ∃ s', beginResumption s₁ activities' t values = goesOn s' t activities' ∧
      AsReturned f values (Assigned t path n) ((s.thread t).returning values) (s'.thread t) := by
  obtain ⟨stack, openCells, waiting⟩ := atYield.waiting waits start
  have thread := same.trans waiting
  have head : (s₁.thread t).frames = f :: caller := by
    rw [thread]
    exact atYield.head
  obtain ⟨s', resumes, becomes⟩ := beginResumption_suspended activities' (by rw [thread]) head
    atYield.formed values (by rw [thread]; exact fits)
  refine ⟨s', resumes, ?_⟩
  have looks := becomes.looks (Store.lt_of_frames head)
  -- Woken up, the thread is the one that yielded, but for its stack and its cells.
  have woken : ({ s₁.thread t with status := .running, held := true, yielding := false } : Thread) =
      { s.thread t with stack, openCells, yielded := #[] } := by
    rw [thread, ← atYield.running, ← atYield.held, ← atYield.quiet]
  have slots : ∀ index, (s₁.thread t).get index = (s.thread t).get index ∨
      Assigned t path n index ((s₁.thread t).get index) := by
    intro index
    have before : ((path 0).store.thread t).get index = (s.thread t).get index := by
      have kept : ((s.suspend t).thread t).get = (s.thread t).get :=
        Store.field_modifyThread Thread.get s t t _ fun _ => rfl
      rw [start]
      exact congrFun kept index
    rw [same, ← before]
    exact waits.slots index
  have kept : ∀ index, (s₁.thread t).get index =
      ({ s.thread t with stack, openCells, yielded := #[] } : Thread).get index := by
    intro index
    rw [thread]
    rfl
  rw [woken] at looks
  have delivers := atYield.formed.delivers
  obtain ⟨base, top⟩ := atYield.above
  have head' : ({ s.thread t with stack, openCells, yielded := #[] } : Thread).frames =
    f :: caller := atYield.head
  have results : ∀ place, place < f.takes values.size →
      (s'.thread t).get (f.target + place) = values.getD place .nil ∧
        ((s.thread t).returning values).get (f.target + place) = values.getD place .nil := by
    intro place taken
    rw [looks.slots, Thread.get_deliver_result _ head' delivers base values taken]
    exact ⟨rfl, Thread.get_deliver_result _ atYield.head delivers top values taken⟩
  refine ⟨?_, results, fun index low => ?_⟩
  · have delivered := (Thread.reworked_deliver _ head' f.base values).fields
    have returned := (Thread.reworked_deliver _ atYield.head (s.thread t).top values).fields
    rw [Thread.frames_deliver _ head', Thread.top_deliver _ head'] at delivered
    rw [Thread.frames_deliver _ atYield.head, Thread.top_deliver _ atYield.head] at returned
    obtain ⟨stack', same⟩ := looks.fields
    exact ⟨stack', openCells, by rw [same, delivered, Thread.returning, returned]⟩
  · by_cases result : f.target ≤ index ∧ index < f.target + f.takes values.size
    · obtain ⟨place, rfl⟩ := Nat.exists_eq_add_of_le result.1
      obtain ⟨left, right⟩ := results place (by omega)
      exact .inl (left.trans right.symm)
    · have returned : ((s.thread t).returning values).get index = (s.thread t).get index :=
        Thread.get_deliver_below _ atYield.head delivers top values low result
      rw [looks.slots, Thread.get_deliver_below _ head' delivers base values low result, ← kept,
        returned]
      exact slots index

theorem resumes (healthy : Healthy ⟨s, activities, .enter t (.builtin .yield)⟩)
    {path : Nat → Machine} {n : Nat}
    (start : path 0 = ⟨s.suspend t, below, .done (s.thread t).arguments⟩)
    (course : Course t path n) :
    Resumes ⟨s, activities, .enter t (.builtin .yield)⟩ t f path n := by
  obtain ⟨k, suspended⟩ := atYield.handsOut
  have isMain : ((s.suspend t).thread t).isMain = (s.thread t).isMain :=
    Store.field_modifyThread Thread.isMain s t t _ fun _ => rfl
  have waits : Waits t path n := by
    refine course.waits ?_ ?_ ?_ <;> rw [start]
    · exact suspended ▸ healthy.after k
    · rw [Store.suspend, Store.threadCount_modifyThread]
      exact atYield.valid
    · exact isMain.trans atYield.coroutine
  obtain ⟨stack, openCells, waiting⟩ := atYield.waiting waits start
  have free : ((path n).store.thread t).held = false := by rw [waiting]
  have accepted : ∀ {r}, (path n).worker? = some r →
      Coroutine.refusal? (path n).store r t = none := by
    intro r works
    have different : t ≠ r := by
      rintro rfl
      rw [waits.healthy.worker_held works waits.valid] at free
      contradiction
    simp [Coroutine.refusal?, waiting, Ne.symm different]
  refine ⟨?_, ?_, ?_, ?_, ?_⟩
  · intro m' next resumed
    rcases next.idle waits.healthy waits.valid (by rw [waiting]; exact atYield.coroutine)
      (course.idle n (Nat.le_refl n)) with spares | ⟨s₁, activities', values, same, -, begins⟩
    · have valid := Nat.lt_of_lt_of_le waits.valid (next.grown waits.healthy)
      exact absurd resumed (spares.idle (next.healthy waits.healthy) valid free)
    · exact ⟨s₁, activities', values, same, begins⟩
  · intro engine vm values same
    exact Vm.resume_accepted engine vm values (same ▸ free)
  · intro r control argument
    have accepted := accepted (worker_enter control)
    rw [step_native control]
    change perform _ _ (Coroutine.resume r) _ = _
    simp only [perform, Coroutine.resume_accepted argument accepted]
    rfl
  · intro r native control callee bound
    have accepted := accepted (worker_enter control)
    rw [step_native control]
    change perform _ _ (Coroutine.wrapped r) _ = _
    simp only [perform, Coroutine.wrapped_accepted callee bound accepted]
    rfl
  · exact fun s₁ activities' values same fits => atYield.resumed waits start same fits

end AtYield

/-- In every reachable machine a yield is a call that returns the arguments of the next
resumption. -/
theorem yields_of_reachable {limits : Limits} {m : Machine} (reachable : m.Reachable limits)
    (control : m.control = .enter t (.builtin .yield))
    (coroutine : (m.store.thread t).isMain = false)
    (head : (m.store.thread t).frames = f :: caller) (yieldable : f.yieldable = true) :
    ∃ below, ((m.activities = .resumption t :: below ∧ caller = []) ∨
      m.activities = .script t 0 :: .resumption t :: below) ∧ m.Yields t f below := by
  have healthy := reachable.healthy
  obtain ⟨s, activities, _⟩ := m
  subst control
  obtain ⟨below, atYield⟩ := healthy.atYield coroutine head yieldable
  refine ⟨below, atYield.shape, atYield.handsOut, atYield.arguments, ?_, ?_, ?_, ?_, ?_⟩
  · rintro rfl
    rfl
  · rintro r rest rfl
    simp only [step, succeed, Pending.succeed]
    rw [resumeResults_ok]
  · rintro r rest rfl
    rfl
  · exact fun values fits => atYield.instead fits
  · intro path n start course
    exact atYield.resumes healthy start course

def echoingFrame : Frame := { Frame.native (.native 0) 0 1 with yieldable := true }

theorem yields_of_reachable_echoing :
    echoingCoroutine.Reachable .standard ∧
      echoingCoroutine.control = .enter 1 (.builtin .yield) ∧
      (echoingCoroutine.store.thread 1).isMain = false ∧
      (echoingCoroutine.store.thread 1).frames = [echoingFrame] ∧ echoingFrame.yieldable = true ∧
      ∃ below, ((echoingCoroutine.activities = .resumption 1 :: below ∧ ([] : List Frame) = []) ∨
        echoingCoroutine.activities = .script 1 0 :: .resumption 1 :: below) ∧
        echoingCoroutine.Yields 1 echoingFrame below := by
  have stored : Reachable .standard ⟨yieldStore, [], .done #[]⟩ := .single (.heap rfl rfl)
  have made : Reachable .standard
      ⟨(yieldStore.newCoroutine 0 .standard (.native 0)).2, [], .done #[]⟩ :=
    stored.tail (.newCoroutine 0 .standard (.native 0))
  have reachable : echoingCoroutine.Reachable .standard := made.tail (.resume rfl #[.boolean true])
  exact ⟨reachable, rfl, rfl, rfl, rfl, yields_of_reachable reachable rfl rfl rfl rfl⟩

end Machine

end RegisterVm
