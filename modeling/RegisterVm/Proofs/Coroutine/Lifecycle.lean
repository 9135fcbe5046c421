import RegisterVm.Proofs.Coroutine.Idle

/-!
The life of a coroutine. It is fresh, then running and suspended by turns, then dead for good, and a
resumption that would break this order is refused and changes nothing.
-/

namespace RegisterVm

open Relation

variable {s : Store} {t r : ThreadRef} {m m' : Machine} {activities : List Activity}

/-- Nothing has changed but the stack, its top and the frames of thread `t`. -/
def Store.Handed (t : ThreadRef) (s s' : Store) : Prop :=
  ∃ th, (s.thread t).Reworked 0 th ∧ s' = s.modifyThread t fun _ => th

namespace Machine

/-- How a coroutine lives, whoever resumes it. -/
structure Lifecycle (m : Machine) (t : ThreadRef) : Prop where
  rests : .resumption t ∉ m.activities → (m.store.thread t).Resting
  runs : .resumption t ∈ m.activities → (m.store.thread t).status = .running
  closed : (m.store.thread t).status = .dead → (m.store.thread t).openCells = [] ∧
    ∀ (ref : CellRef) (index : Nat), m.store.cells[ref]? ≠ some (.slot t index)
  keeps : ∀ m', Next m m' → .resumption t ∉ m.activities → .resumption t ∉ m'.activities →
    (m'.store.thread t).status = (m.store.thread t).status
  begins : ∀ m', Next m m' → .resumption t ∉ m.activities → .resumption t ∈ m'.activities →
    (m.store.thread t).status = .fresh ∨ (m.store.thread t).status = .suspended
  ends : ∀ m', Next m m' → .resumption t ∈ m.activities → .resumption t ∉ m'.activities →
    (m'.store.thread t).status = .suspended ∨ (m'.store.thread t).status = .dead
  begun : ∀ later, ReflTransGen Next m later → (m.store.thread t).status ≠ .fresh →
    (later.store.thread t).status ≠ .fresh
  final : ∀ later, ReflTransGen Next m later → (m.store.thread t).status = .dead →
    (later.store.thread t).status = .dead ∧ .resumption t ∉ later.activities

/-- How attempts to resume a thread and questions about its state are answered. -/
structure Answers (m : Machine) (t : ThreadRef) : Prop where
  verdict : ∀ r, Coroutine.refusal? m.store r t =
    if r = t ∨ (m.store.thread t).status = .running then some Coroutine.runningRefusal
    else if (m.store.thread t).status = .dead then some Coroutine.deadRefusal
    else none
  /-- A host's resumption is refused and changes nothing, or the coroutine runs on from there. -/
  host : ∀ (engine : Engine) (vm : Vm) (arguments : Array Value), vm.store = m.store →
    (m.store.thread t).status = .running ∨ (m.store.thread t).status = .dead →
    vm.resume engine (.thread t) arguments =
      (.failed (.invalid (if (m.store.thread t).status = .running then Coroutine.runningRefusal
        else Coroutine.deadRefusal)), vm)
  accepted : ∀ (engine : Engine) (vm : Vm) (arguments : Array Value), vm.store = m.store →
    (m.store.thread t).status = .fresh ∨ (m.store.thread t).status = .suspended →
    vm.resume engine (.thread t) arguments =
      ((engine.finish (beginResumption vm.store [] t arguments)).1,
        { vm with store := (engine.finish (beginResumption vm.store [] t arguments)).2 })
  /-- A script that calls `coroutine.resume` is told why it is refused, as results of the call;
  nothing but the stack and the frames of the caller changes. -/
  resume : ∀ r message, m.control = .enter r (.builtin .resume) →
    (m.store.thread r).argument? 1 = some (.thread t) →
    Coroutine.refusal? m.store r t = some message →
    m.step .bare = perform m.store m.activities (Coroutine.failed r (.string message))
      (fun s outcome => settle s m.activities r outcome) ∧
    (m.step .bare).activities = m.activities ∧ m.store.Handed r (m.step .bare).store
  wrapped : ∀ r message native, m.control = .enter r (.builtin .wrapped) →
    (m.store.thread r).frame?.map Frame.callee = some (.native native) →
    (m.store.native native).bound.getD 0 .nil = .thread t →
    Coroutine.refusal? m.store r t = some message →
    m.step .bare = ⟨m.store, m.activities, .fail (.user (.string (m.store.place r 1 ++ message)))⟩
  status : ∀ r, m.control = .enter r (.builtin .status) →
    (m.store.thread r).argument? 1 = some (.thread t) →
    m.step .bare = perform m.store m.activities
      (returnOne r (.string (Coroutine.statusName m.store r t)))
      fun s outcome => settle s m.activities r outcome
  suspended : ∀ r, Coroutine.statusName m.store r t = "suspended" ↔
    Coroutine.refusal? m.store r t = none
  dead : ∀ r, Coroutine.statusName m.store r t = "dead" ↔
    Coroutine.refusal? m.store r t = some Coroutine.deadRefusal

theorem resumed_beginResumption {arguments : Array Value}
    (status : (s.thread t).status = .fresh ∨ (s.thread t).status = .suspended) :
    .resumption t ∈ (beginResumption s activities t arguments).activities := by
  rcases status with status | status <;> simp only [beginResumption, status, perform]
  · split
    · split
      · rename_i callee _ _
        cases callee <;> simp [proceed]
      · simp
    · simp
  · split
    · split <;> simp
    · simp

structure Continued (th : Thread) : Prop where
  isMain : th.isMain = false
  status : th.status = .running ∨ th.status = .suspended ∨ th.status = .dead

theorem Steps.running (steps : Steps t m m') (valid : t < m.store.threads.size)
    (coroutine : (m.store.thread t).isMain = false)
    (running : (m.store.thread t).status = .running) : Continued (m'.store.thread t) := by
  have same : (m.store.thread t).SameRun (m'.store.thread t) → Continued (m'.store.thread t) :=
    fun own => ⟨own.isMain.trans coroutine, .inl (own.status.trans running)⟩
  cases steps with
  | works works =>
      cases works with
      | advanced advanced => exact same advanced.own
      | @resumes s activities co arguments calm accepted =>
          have other : t ≠ co := by
            rintro rfl
            simp [Coroutine.refusal?] at accepted
          have grown := calm.confined.grown
          have kept := (beginResumption_local s activities co arguments).others t other
            (Nat.lt_of_lt_of_le valid grown)
          apply same
          rw [kept]
          exact ⟨calm.confined.own.status, calm.confined.own.isMain, calm.confined.own.limits⟩
  | @assigned _ _ _ pc cell value head assigns written =>
      apply same
      obtain ⟨stack, thread⟩ := thread_assigned valid head pc cell value
      rw [written, thread]
      exact ⟨rfl, rfl, rfl⟩
  | ended =>
      simp only [endResumption]
      split
      · rw [Store.thread_modifyThread_self _ _ valid]
        exact ⟨coroutine, .inr (.inl rfl)⟩
      · rw [Store.thread_modifyThread_self _ _ valid]
        exact ⟨coroutine, .inr (.inr rfl)⟩
  | killed =>
      simp only [killCoroutine]
      rw [Store.thread_modifyThread_self _ _ (by rwa [Store.threadCount_closeCells]),
        Store.thread_closeCells, if_pos rfl]
      exact ⟨coroutine, .inr (.inr rfl)⟩

theorem Spares.sameRun (spares : Spares t m m') :
    (m.store.thread t).SameRun (m'.store.thread t) := by
  obtain ⟨⟨stack, openCells, thread⟩, -⟩ := spares
  rw [thread]
  exact ⟨rfl, rfl, rfl⟩

theorem Next.running (healthy : m.Healthy) (next : Next m m') (valid : t < m.store.threads.size)
    (resumed : .resumption t ∈ m.activities) : Continued (m'.store.thread t) := by
  obtain ⟨coroutine, -, running⟩ := healthy.running valid resumed
  have same : (m.store.thread t).SameRun (m'.store.thread t) → Continued (m'.store.thread t) :=
    fun own => ⟨own.isMain.trans coroutine, .inl (own.status.trans running)⟩
  cases next with
  | step m =>
      rcases step_cases healthy.real with stays | ⟨r, -, steps⟩
      · apply same
        rw [stays]
        exact ⟨rfl, rfl, rfl⟩
      · by_cases own : t = r
        · exact (own ▸ steps).running valid coroutine running
        · rcases steps.idle own valid with spares | ⟨s, activities, arguments, kept, accepted, -⟩
          · exact same spares.sameRun
          · have status := status_of_refusal accepted
            simp [kept, running] at status
  | drop m r =>
      obtain ⟨stack, openCells, thread⟩ := (Store.faded_closeCells m.store r 0).threads t
      apply same
      rw [Machine.drop, Store.dropThread, thread]
      exact ⟨rfl, rfl, rfl⟩
  | heap | newCell | newCoroutine | call | release | resume => cases resumed

theorem Next.healthy (next : Next m m') (healthy : m.Healthy) : m'.Healthy :=
  (next.proceeds healthy).healthy

theorem Next.kin (healthy : m.Healthy) (next : Next m m') (valid : t < m.store.threads.size)
    (coroutine : (m.store.thread t).isMain = false) :
    (m'.store.thread t).isMain = false ∧
      ((m.store.thread t).status ≠ .fresh → (m'.store.thread t).status ≠ .fresh) := by
  by_cases resumed : .resumption t ∈ m.activities
  · have ran := next.running healthy valid resumed
    refine ⟨ran.isMain, fun _ fresh => ?_⟩
    have status := ran.status
    simp [fresh] at status
  · rcases next.idle healthy valid coroutine resumed with
      spares | ⟨s, activities, arguments, -, status, rfl⟩
    · have own := spares.sameRun
      rw [own.isMain, own.status]
      exact ⟨coroutine, id⟩
    · have healthy' := next.healthy healthy
      have begun : .resumption t ∈ (beginResumption s activities t arguments).activities :=
        resumed_beginResumption status
      have running := healthy'.running (Nat.lt_of_lt_of_le valid (next.grown healthy)) begun
      refine ⟨running.isMain, fun _ fresh => ?_⟩
      have status := running.status
      simp [fresh] at status

theorem run_coroutine {p : Machine → Prop} (healthy : m.Healthy) (valid : t < m.store.threads.size)
    (coroutine : (m.store.thread t).isMain = false) (start : p m)
    (step : ∀ {m m' : Machine}, m.Healthy → t < m.store.threads.size →
      (m.store.thread t).isMain = false → Next m m' → p m → p m') {later : Machine}
    (run : ReflTransGen Next m later) : p later := by
  -- A step may rely on the invariant, which is carried along with `p`.
  have kept : later.Healthy ∧ t < later.store.threads.size ∧
      (later.store.thread t).isMain = false ∧ p later := by
    induction run with
    | refl => exact ⟨healthy, valid, coroutine, start⟩
    | tail _ next ih =>
        obtain ⟨healthy, valid, coroutine, holds⟩ := ih
        exact ⟨next.healthy healthy, Nat.lt_of_lt_of_le valid (next.grown healthy),
          (next.kin healthy valid coroutine).1, step healthy valid coroutine next holds⟩
  exact kept.2.2.2

theorem Healthy.lifecycle (healthy : m.Healthy) (valid : t < m.store.threads.size)
    (coroutine : (m.store.thread t).isMain = false) : m.Lifecycle t := by
  have rests := fun idle => (healthy.resting valid coroutine idle).2
  have idle_of_dead : (m.store.thread t).status = .dead → .resumption t ∉ m.activities := by
    intro dead resumed
    simp [(healthy.running valid resumed).status] at dead
  refine ⟨rests, fun resumed => (healthy.running valid resumed).status, ?_, ?_, ?_, ?_, ?_, ?_⟩
  · intro dead
    have closed : ∀ (ref : CellRef) (index : Nat), m.store.cells[ref]? ≠ some (.slot t index) := by
      intro ref index found
      obtain ⟨mine, tidy⟩ := healthy.tidy t
      obtain ⟨f, member, -⟩ := tidy.witnessed ref index found
      cases rests (idle_of_dead dead) with
      | fresh status | suspended status => simp [dead] at status
      | dead status frames => simp [frames] at member
    refine ⟨List.eq_nil_iff_forall_not_mem.2 ?_, closed⟩
    rintro ⟨index, ref⟩ listed
    exact closed ref index ((healthy.linked.listed t).openCell index ref listed)
  · intro m' next idle idle'
    rcases next.idle healthy valid coroutine idle with
      spares | ⟨s, activities, arguments, -, status, rfl⟩
    · exact spares.sameRun.status
    · exact absurd (resumed_beginResumption status) idle'
  · intro m' next idle resumed
    rcases next.idle healthy valid coroutine idle with
      spares | ⟨s, activities, arguments, same, status, rfl⟩
    · have free := (healthy.resting valid coroutine idle).1
      have valid := Nat.lt_of_lt_of_le valid (next.grown healthy)
      exact absurd resumed (spares.idle (next.healthy healthy) valid free)
    · rwa [same] at status
  · intro m' next resumed idle
    have ran := next.running healthy valid resumed
    have resting := (next.healthy healthy).resting
      (Nat.lt_of_lt_of_le valid (next.grown healthy)) ran.isMain idle
    rcases ran.status with running | stopped
    · cases resting.2 with
      | fresh status | suspended status | dead status => simp [running] at status
    · exact stopped
  · intro later run begun
    exact run_coroutine (p := fun m => (m.store.thread t).status ≠ .fresh) healthy valid coroutine
      begun (fun healthy valid coroutine next => (next.kin healthy valid coroutine).2) run
  · intro later run dead
    refine run_coroutine (p := fun m => (m.store.thread t).status = .dead ∧
      .resumption t ∉ m.activities) healthy valid coroutine ⟨dead, idle_of_dead dead⟩ ?_ run
    rintro m m' healthy valid coroutine next ⟨dead, idle⟩
    rcases next.idle healthy valid coroutine idle with
      spares | ⟨s, activities, arguments, same, status, -⟩
    · have free := (healthy.resting valid coroutine idle).1
      exact ⟨spares.sameRun.status.trans dead,
        spares.idle (next.healthy healthy) (Nat.lt_of_lt_of_le valid (next.grown healthy)) free⟩
    · simp [same, dead] at status

theorem Healthy.running_of_held (healthy : m.Healthy) (held : (m.store.thread t).held = true) :
    (m.store.thread t).status = .running := by
  obtain ⟨mine, tidy⟩ := healthy.tidy t
  cases isMain : (m.store.thread t).isMain with
  | true => exact (tidy.main isMain).1
  | false => exact (tidy.busy isMain held).1

theorem Healthy.verdict (healthy : m.Healthy) (r t : ThreadRef) :
    Coroutine.refusal? m.store r t =
      if r = t ∨ (m.store.thread t).status = .running then some Coroutine.runningRefusal
      else if (m.store.thread t).status = .dead then some Coroutine.deadRefusal
      else none := by
  simp only [Coroutine.refusal?]
  by_cases same : r = t
  · simp [same]
  · cases held : (m.store.thread t).held with
    | true => simp [healthy.running_of_held held]
    | false => cases (m.store.thread t).status <;> simp [same]

end Machine

namespace Coroutine

theorem statusName_eq_suspended (s : Store) (r t : ThreadRef) :
    statusName s r t = "suspended" ↔ refusal? s r t = none := by
  simp only [statusName, refusal?]
  by_cases same : r = t
  · simp [same]
  · cases held : (s.thread t).held with
    | true => simp [same]
    | false => cases (s.thread t).status <;> simp [same]

theorem statusName_eq_dead (s : Store) (r t : ThreadRef) :
    statusName s r t = "dead" ↔ refusal? s r t = some deadRefusal := by
  simp only [statusName, refusal?]
  by_cases same : r = t
  · simp [same, runningRefusal, deadRefusal]
  · cases held : (s.thread t).held with
    | true => simp [same, runningRefusal, deadRefusal]
    | false => cases (s.thread t).status <;> simp [same, runningRefusal, deadRefusal]

end Coroutine

namespace Store.Handed

theorem refl (t : ThreadRef) (s : Store) : s.Handed t s :=
  ⟨s.thread t, .refl 0 _, (s.modifyThread_id t).symm.trans (modifyThread_congr rfl)⟩

theorem modifyThread {s' : Store} (handed : s.Handed t s') {f : Thread → Thread}
    (reworked : ∀ th, Thread.Reworked 0 th (f th)) : s.Handed t (s'.modifyThread t f) := by
  obtain ⟨th, before, rfl⟩ := handed
  refine ⟨f th, before.trans (reworked th), ?_⟩
  rw [modifyThread_modifyThread]
  rfl

end Store.Handed

namespace Coroutine

theorem keeps_push_handed (value : Value) : Keeps (s.Handed t) (push t value) Any := by
  refine Keeps.lookThread.bind fun top _ => .any_bind ?_ fun _ => ?_
  · exact .reserve fun _ handed => handed.modifyThread fun th => Thread.reworked_reserve th 0 _
  · exact .modifyThread fun _ handed => handed.modifyThread fun th =>
      (Thread.reworked_put th value (Nat.zero_le _)).trans (Thread.reworked_withTop _ _ _)

theorem keeps_failed_handed (value : Value) :
    Keeps (s.Handed t) (failed t value) fun outcome => outcome = .returns 2 :=
  (keeps_push_handed _).any_bind fun _ => (keeps_push_handed _).any_bind fun _ => .pure rfl

variable {message : String}

theorem checkThread_argument (argument : (s.thread r).argument? 1 = some (.thread t)) :
    checkThread r 1 s = .ok t s := by
  simp only [checkThread, RegisterVm.argument?, lookThread, look, bind, EStateM.bind, argument]
  rfl

theorem resume_refused (argument : (s.thread r).argument? 1 = some (.thread t))
    (refused : refusal? s r t = some message) :
    resume r s = failed r (.string message) s := by
  simp only [resume, bind, EStateM.bind, checkThread_argument argument, look, refused]

theorem status_argument (argument : (s.thread r).argument? 1 = some (.thread t)) :
    status r s = returnOne r (.string (statusName s r t)) s := by
  simp only [status, bind, EStateM.bind, checkThread_argument argument, look]

theorem boundValue_thread {native : NativeRef}
    (callee : (s.thread r).frame?.map Frame.callee = some (.native native))
    (bound : (s.native native).bound.getD 0 .nil = .thread t) :
    boundValue r 0 s = .ok (.thread t) s := by
  simp only [boundValue, currentNative?, look, bind, EStateM.bind, callee, ← bound]
  rfl

theorem wrapped_refused {native : NativeRef}
    (callee : (s.thread r).frame?.map Frame.callee = some (.native native))
    (bound : (s.native native).bound.getD 0 .nil = .thread t)
    (refused : refusal? s r t = some message) :
    wrapped r s = .error (.user (.string (s.place r 1 ++ message))) s := by
  simp only [wrapped, bind, EStateM.bind, boundValue_thread callee bound, look, refused]
  rfl

end Coroutine

theorem Engine.finish_failed (engine : Engine) (s : Store) (e : Error) :
    engine.finish ⟨s, [], .fail e⟩ = (.failed e, s) := by
  have stays : Machine.run engine.host engine.steps ⟨s, [], .fail e⟩ = ⟨s, [], .fail e⟩ := by
    cases engine.steps <;> rfl
  rw [finish, stays]
  rfl

theorem Vm.resume_refused (engine : Engine) (vm : Vm) (arguments : Array Value)
    (refused : (vm.store.thread t).held = true → (vm.store.thread t).status = .running)
    (stopped : (vm.store.thread t).status = .running ∨ (vm.store.thread t).status = .dead) :
    vm.resume engine (.thread t) arguments =
      (.failed (.invalid (if (vm.store.thread t).status = .running then Coroutine.runningRefusal
        else Coroutine.deadRefusal)), vm) := by
  simp only [Vm.resume, Engine.resume, Machine.beginResumption]
  split
  · rename_i held
    rw [if_pos (refused held)]
  · rcases stopped with status | status <;> simp [status, Engine.finish_failed]

theorem Vm.resume_accepted (engine : Engine) (vm : Vm) (arguments : Array Value)
    (free : (vm.store.thread t).held = false) :
    vm.resume engine (.thread t) arguments =
      ((engine.finish (Machine.beginResumption vm.store [] t arguments)).1,
        { vm with store := (engine.finish (Machine.beginResumption vm.store [] t arguments)).2 }) := by
  simp only [Vm.resume, free, Bool.false_eq_true, if_false, Engine.resume]

namespace Machine

theorem failed_handed (value : Value) :
    (perform s activities (Coroutine.failed r value) fun s outcome =>
        settle s activities r outcome).activities = activities ∧
      s.Handed r (perform s activities (Coroutine.failed r value) fun s outcome =>
        settle s activities r outcome).store := by
  have keeps := (Coroutine.keeps_failed_handed value).leads (Store.Handed.refl r s)
  refine perform_elim (p := fun m => m.activities = activities ∧ s.Handed r m.store) keeps ?_ ?_
  · rintro _ s' ⟨handed, rfl⟩
    refine ⟨rfl, handed.modifyThread fun th => ?_⟩
    split
    · exact .refl 0 th
    · cases frames : th.frames with
      | nil =>
          rw [Thread.finish_nil _ frames]
          exact .refl 0 th
      | cons f below => exact Thread.reworked_finish _ frames (Nat.zero_le _) (Nat.zero_le _) _ _
  · exact fun e s' handed => ⟨rfl, handed⟩

theorem Healthy.answers (healthy : m.Healthy) (t : ThreadRef) : m.Answers t where
  verdict r := healthy.verdict r t
  host engine vm arguments same stopped := by
    rw [← same] at stopped ⊢
    refine Vm.resume_refused engine vm arguments ?_ stopped
    rw [same]
    exact healthy.running_of_held
  accepted engine vm arguments same waits := by
    refine Vm.resume_accepted engine vm arguments (eq_false_of_ne_true fun held => ?_)
    rw [same] at held
    have running := healthy.running_of_held held
    rcases waits with fresh | suspended
    · cases fresh.symm.trans running
    · cases suspended.symm.trans running
  resume r message control argument refused := by
    have step : m.step .bare = perform m.store m.activities
        (Coroutine.failed r (.string message))
        fun s outcome => settle s m.activities r outcome := by
      rw [step_native control]
      change perform _ _ (Coroutine.resume r) _ = _
      simp only [perform, Coroutine.resume_refused argument refused]
    rw [step]
    exact ⟨rfl, failed_handed _⟩
  wrapped r message native control callee bound refused := by
    rw [step_native control]
    change perform _ _ (Coroutine.wrapped r) _ = _
    simp only [perform, Coroutine.wrapped_refused callee bound refused]
  status r control argument := by
    rw [step_native control]
    change perform _ _ (Coroutine.status r) _ = _
    simp only [perform, Coroutine.status_argument argument]
  suspended r := Coroutine.statusName_eq_suspended m.store r t
  dead r := Coroutine.statusName_eq_dead m.store r t

/-- In every reachable machine a coroutine is at the stage that its life has come to, and is resumed
only where that life goes on. -/
theorem lifecycle_of_reachable {limits : Limits} (reachable : m.Reachable limits)
    (valid : t < m.store.threads.size) :
    ((m.store.thread t).isMain = false → m.Lifecycle t) ∧ m.Answers t :=
  ⟨reachable.healthy.lifecycle valid, reachable.healthy.answers t⟩

def yieldStore : Store := ((Vm.new .standard).store.newNative ⟨"yield", .builtin .yield, #[]⟩).2

/-- A host has made a coroutine that yields what it is given, and has given it true. -/
def echoingCoroutine : Machine :=
  beginResumption (yieldStore.newCoroutine 0 .standard (.native 0)).2 [] 1 #[.boolean true]

/-- The host has got the true back; it may resume the coroutine once more. -/
def echoedCoroutine : Machine := (echoingCoroutine.step .bare).step .bare

def echoedVm : Vm := ⟨echoedCoroutine.store, 0, 0, .standard⟩

theorem lifecycle_of_reachable_echoed :
    echoedCoroutine.Reachable .standard ∧ 1 < echoedCoroutine.store.threads.size ∧
      (echoedCoroutine.store.thread 1).isMain = false ∧
      (echoedCoroutine.store.thread 1).status = .suspended ∧
      echoedCoroutine.Lifecycle 1 ∧ echoedCoroutine.Answers 1 ∧
      (echoedVm.resume ⟨.bare, 9⟩ (.thread 1) #[.nil]).1 = .returned #[.nil] ∧
      ((echoedVm.resume ⟨.bare, 9⟩ (.thread 1) #[.nil]).2.store.thread 1).status = .dead := by
  have stored : Reachable .standard ⟨yieldStore, [], .done #[]⟩ := .single (.heap rfl rfl)
  have made : Reachable .standard
      ⟨(yieldStore.newCoroutine 0 .standard (.native 0)).2, [], .done #[]⟩ :=
    stored.tail (.newCoroutine 0 .standard (.native 0))
  have resumed : echoingCoroutine.Reachable .standard := made.tail (.resume rfl #[.boolean true])
  have reachable : echoedCoroutine.Reachable .standard :=
    (resumed.tail (.step _)).tail (.step _)
  have valid : 1 < echoedCoroutine.store.threads.size := by decide
  have lives := lifecycle_of_reachable reachable valid
  refine ⟨reachable, valid, rfl, rfl, lives.1 rfl, lives.2, ?_, ?_⟩
  · rw [lives.2.accepted _ _ _ rfl (.inr rfl)]
    rfl
  · rw [lives.2.accepted _ _ _ rfl (.inr rfl)]
    rfl

end Machine

end RegisterVm
