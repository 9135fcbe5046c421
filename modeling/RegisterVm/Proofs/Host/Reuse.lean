import RegisterVm.Proofs.Coroutine.Lifecycle
import RegisterVm.Proofs.Host.Runs

/-!
A call from the host leaves nothing behind on the main thread, however it ends: a success has
returned from all frames, and a failure is unwound at the outermost boundary.
-/

namespace RegisterVm

open Relation Machine

variable {s : Store} {t : ThreadRef} {m m' : Machine} {values : Array Value}

structure Store.Idle (s : Store) (t : ThreadRef) : Prop where
  frames : (s.thread t).frames = []
  top : (s.thread t).top = 0
  unpinned : (s.thread t).pinned = 0
  listed : (s.thread t).openCells = []
  closed : ∀ (ref : CellRef) (index : Nat), s.cells[ref]? ≠ some (.slot t index)

namespace Machine

inductive Hosting (t : ThreadRef) : Machine → Prop where
  | running {m : Machine} (waits : [.collect t 0, .restore t 0 0] <:+ m.activities) : Hosting t m
  | returned {s : Store} {values : Array Value} (top : (s.thread t).top = 0) :
      Hosting t ⟨s, [.restore t 0 0], .done values⟩
  | failed {s : Store} {e : Error} : Hosting t ⟨s, [.restore t 0 0], .fail e⟩
  | ended {s : Store} {control : Control} (frames : (s.thread t).frames = [])
      (top : (s.thread t).top = 0) : Hosting t ⟨s, [], control⟩

theorem beginRestoringCall_hosting (idle : s.Idle t) (callee : Value) (values : Array Value) :
    Hosting t (beginRestoringCall s [] t callee values) := by
  simp only [beginRestoringCall, idle.top, Thread.depth, idle.frames]
  refine perform_elim (leads_layOut t callee values s) ?_ fun _ _ _ => .failed
  rintro slot s' ⟨rfl, -, -⟩
  rw [idle.top]
  exact .running (suffix_beginCall _ _ _ _ _ _)

theorem collect_hosting (valid : t < s.threads.size) :
    Hosting t (succeed .bare s (.collect t 0) [.restore t 0 0] values) := by
  simp only [succeed]
  refine perform_elim (leads_takeResults t 0 s) ?_ fun _ _ impossible => impossible.elim
  rintro _ s' rfl
  refine .returned ?_
  rw [Store.thread_modifyThread_self s _ valid]
  rfl

theorem Hosting.step (hosting : Hosting t m) (healthy : m.Healthy)
    (valid : t < m.store.threads.size) : Hosting t (m.step .bare) := by
  cases hosting with
  | running waits =>
      obtain ⟨s, activities, control⟩ := m
      obtain ⟨upper, rfl⟩ := waits
      cases upper with
      | cons a upper =>
          have below :=
            suffix_step .bare ⟨s, (a :: upper) ++ [.collect t 0, .restore t 0 0], control⟩
          exact .running ((List.suffix_append upper _).trans below)
      | nil =>
          cases control with
          | enter r body => exact .running (suffix_enter .bare _ _ r body)
          | run => exact .running (List.suffix_refl _)
          | done values =>
              have collected : Hosting t (succeed .bare s (.collect t 0) [.restore t 0 0] values) :=
                collect_hosting valid
              exact collected
          | fail e => exact .failed
  | @returned s values top =>
      refine .ended ?_ top
      cases healthy with
      | settled sound =>
          have expects := (sound.top rfl).expects
          exact List.length_eq_zero_iff.1 expects.2.2.1.symm
      | leaving apart leaving shape => simp at shape
  | @failed s e =>
      have unwound := Store.unwound_unwind s 0 0 valid
      refine .ended ?_ unwound.top
      rw [unwound.frames]
      simp [Thread.keepFrames]
  | @ended s control frames top =>
      have still : Machine.step .bare ⟨s, [], control⟩ = ⟨s, [], control⟩ := by
        rcases healthy.idle.2 with rfl | ⟨values, rfl⟩ | ⟨e, rfl⟩ <;> rfl
      rw [still]
      exact .ended frames top

theorem Hosting.after (hosting : Hosting t m) (healthy : m.Healthy)
    (valid : t < m.store.threads.size) (k : Nat) : Hosting t (m.after .bare k) := by
  -- Threads are never removed, so `t` stays one.
  have kept : Hosting t (m.after .bare k) ∧ t < (m.after .bare k).store.threads.size := by
    induction k with
    | zero => exact ⟨hosting, valid⟩
    | succ k ih =>
        have healthy := healthy.after k
        exact ⟨ih.1.step healthy ih.2, Nat.lt_of_lt_of_le ih.2 ((Next.step _).grown healthy)⟩
  exact kept.1

theorem Hosting.idle (hosting : Hosting t m) (healthy : m.Healthy)
    (finished : m.isFinished = true) : m.activities = [] ∧ m.store.Idle t := by
  obtain ⟨s, activities, control⟩ := m
  simp only [isFinished, Bool.and_eq_true, List.isEmpty_iff] at finished
  obtain rfl : activities = [] := finished.1
  refine ⟨rfl, ?_⟩
  cases hosting with
  | running waits => simp at waits
  | ended frames top =>
      have sound := healthy.idle.1
      have tidy := (sound.settled t).toTidy
      have closed : ∀ (ref : CellRef) (index : Nat), s.cells[ref]? ≠ some (.slot t index) := by
        intro ref index found
        obtain ⟨f, member, -⟩ := tidy.witnessed ref index found
        simp [frames] at member
      refine ⟨frames, top, tidy.pinned, List.eq_nil_iff_forall_not_mem.2 ?_, closed⟩
      rintro ⟨index, ref⟩ listed
      exact closed ref index ((sound.linked.listed t).openCell index ref listed)

theorem Healthy.main_running (healthy : m.Healthy) (main : (m.store.thread t).isMain = true) :
    (m.store.thread t).status = .running := by
  obtain ⟨mine, tidy⟩ := healthy.tidy t
  exact (tidy.main main).1

theorem Steps.main {r : ThreadRef} (steps : Steps r m m') (healthy : m.Healthy)
    (main : (m.store.thread t).isMain = true) : (m'.store.thread t).isMain = true := by
  have valid := Store.lt_of_main main
  by_cases own : t = r
  · subst own
    cases steps with
    | works works =>
        cases works with
        | advanced advanced => exact advanced.own.isMain.trans main
        | @resumes s activities co arguments calm accepted =>
            have other : t ≠ co := by
              rintro rfl
              simp [Coroutine.refusal?] at accepted
            rw [(beginResumption_local s activities co arguments).others t other
              (Nat.lt_of_lt_of_le valid calm.confined.grown)]
            exact calm.confined.own.isMain.trans main
    | assigned pc head assigns written =>
        obtain ⟨stack, thread⟩ := thread_assigned valid head pc _ _
        rw [written, thread]
        exact main
    | ended activities control =>
        refine Eq.trans ?_ main
        simp only [endResumption]
        split <;> exact Store.field_modifyThread Thread.isMain _ t t _ fun _ => rfl
    | killed activities control =>
        rw [killCoroutine, Store.thread_modifyThread_self _ _
          (by rwa [Store.threadCount_closeCells]), Store.thread_closeCells, if_pos rfl]
        exact main
  · rcases steps.idle own valid with spares | ⟨s, activities, arguments, same, accepted, -⟩
    · exact spares.sameRun.isMain.trans main
    · have status := status_of_refusal accepted
      simp [same, healthy.main_running main] at status

theorem isMain_setHeld (s : Store) (r t : ThreadRef) (held : Bool) :
    ((Engine.setHeld s r held).thread t).isMain = (s.thread t).isMain :=
  Store.field_modifyThread Thread.isMain s r t _ fun _ => rfl

theorem Next.main (healthy : m.Healthy) (next : Next m m')
    (main : (m.store.thread t).isMain = true) : (m'.store.thread t).isMain = true := by
  have valid := Store.lt_of_main main
  cases next with
  | step m =>
      rcases step_cases healthy.real with same | ⟨r, -, steps⟩
      · rwa [same]
      · exact steps.main healthy main
  | drop m r =>
      obtain ⟨stack, openCells, thread⟩ := (Store.faded_closeCells m.store r 0).threads t
      rw [Machine.drop, Store.dropThread, thread]
      exact main
  | heap cells threads => simpa only [Store.thread, threads] using main
  | newCell value => exact main
  | newCoroutine globals limits entry =>
      rw [Store.newCoroutine, Store.thread_newThread, if_neg (Nat.ne_of_lt valid)]
      exact main
  | @call s control r main' free callee arguments =>
      have held : ((Engine.setHeld s r true).thread t).isMain = true :=
        (isMain_setHeld s r t true).trans main
      have valid' := Store.lt_of_main held
      by_cases own : t = r
      · subst own
        exact (beginValueCall_advanced valid' callee arguments).own.isMain.trans held
      · have exists' : r < (Engine.setHeld s r true).threads.size := by
          simpa [Engine.setHeld] using Store.lt_of_main main'
        rw [beginRestoringCall,
          (beginValueCall_advanced exists' callee arguments).inside.others t own valid']
        exact held
  | @release s control r main' =>
      exact (isMain_setHeld s r t false).trans main
  | @resume s control r held arguments =>
      by_cases own : t = r
      · subst own
        have status : (s.thread t).status = .running := healthy.main_running main
        simpa only [beginResumption, status] using main
      · rw [(beginResumption_local s [] r arguments).others t own valid]
        exact main

theorem main_after (healthy : m.Healthy) (main : (m.store.thread t).isMain = true) (k : Nat) :
    ((m.after .bare k).store.thread t).isMain = true := by
  induction k with
  | zero => exact main
  | succ k ih => exact (Next.step _).main (healthy.after k) ih

end Machine

/-- What a host has before and after a call: nothing is in progress, nobody holds the main thread,
and nothing is left on it. -/
structure Vm.Ready (limits : Limits) (vm : Vm) : Prop where
  reachable : ∃ control, Machine.Reachable limits ⟨vm.store, [], control⟩
  main : (vm.store.thread vm.main).isMain = true
  free : (vm.store.thread vm.main).held = false
  idle : vm.store.Idle vm.main

namespace Vm

variable {limits : Limits} {engine : Engine} {vm : Vm}

theorem ready_new (limits : Limits) : (Vm.new limits).Ready limits := by
  have settled := (Store.sound_new limits).settled (Vm.new limits).main
  refine ⟨⟨_, .refl⟩, rfl, rfl, rfl, rfl, rfl, rfl, fun ref index found => ?_⟩
  obtain ⟨f, member, -⟩ := settled.witnessed ref index found
  exact absurd member List.not_mem_nil

theorem outcome_unfinished_iff : m.outcome = .unfinished ↔ m.isFinished = false := by
  rw [Machine.outcome, Machine.isFinished]
  cases m.activities.isEmpty <;> cases m.control <;> simp

theorem idle_setHeld (idle : s.Idle t) (held : Bool) : (Engine.setHeld s t held).Idle t := by
  have kept : ∀ {α : Type} (field : Thread → α), (∀ th, field { th with held } = field th) →
      field ((Engine.setHeld s t held).thread t) = field (s.thread t) :=
    fun field same => Store.field_modifyThread field s t t _ same
  exact ⟨(kept Thread.frames fun _ => rfl).trans idle.frames,
    (kept Thread.top fun _ => rfl).trans idle.top,
    (kept Thread.pinned fun _ => rfl).trans idle.unpinned,
    (kept Thread.openCells fun _ => rfl).trans idle.listed, idle.closed⟩

theorem Ready.call (ready : vm.Ready limits) (bare : engine.host = .bare) (callee : Value)
    (values : Array Value) (ends : (vm.call engine callee values).1 ≠ .unfinished) :
    (vm.call engine callee values).2.Ready limits := by
  obtain ⟨⟨control, reachable⟩, main, free, idle⟩ := ready
  rw [call_free free] at ends ⊢
  simp only [Engine.callRestoring, Engine.runHeld, Engine.finish, bare] at ends ⊢
  generalize begun : beginRestoringCall (Engine.setHeld vm.store vm.main true) [] vm.main callee
    values = m at ends ⊢
  have next : Machine.Next ⟨vm.store, [], control⟩ m := begun ▸ .call main free callee values
  have hosting : Hosting vm.main m :=
    begun ▸ beginRestoringCall_hosting (idle_setHeld idle true) _ _
  have healthy := next.healthy reachable.healthy
  have isMain := next.main reachable.healthy main
  obtain ⟨k, run⟩ := m.exists_run_eq_after .bare engine.steps
  rw [run] at ends ⊢
  have last := reachable_after (reachable.tail next) k
  obtain ⟨ended, idle⟩ := (hosting.after healthy (Store.lt_of_main isMain) k).idle
    (healthy.after k) (by simpa [outcome_unfinished_iff] using ends)
  have isMain := main_after healthy isMain k
  generalize m.after .bare k = m at last ended idle isMain
  obtain ⟨s, activities, control'⟩ := m
  obtain rfl : activities = [] := ended
  refine ⟨⟨control', last.tail (.release isMain)⟩, ?_, ?_, idle_setHeld idle false⟩
  · exact (isMain_setHeld s vm.main vm.main false).trans isMain
  · rw [Engine.setHeld, Store.thread_modifyThread_self s _ (Store.lt_of_main isMain)]

theorem pcall_store (callee : Value) (values : Array Value) :
    (vm.pcall engine callee values).2 = (vm.call engine callee values).2 := by
  simp only [pcall]
  split <;> rename_i same <;> rw [same]

theorem call_ends (callee : Value) (values : Array Value)
    (ends : (vm.pcall engine callee values).1 ≠ .unfinished) :
    (vm.call engine callee values).1 ≠ .unfinished := by
  intro unfinished
  apply ends
  have called : vm.call engine callee values = (.unfinished, (vm.call engine callee values).2) :=
    Prod.ext unfinished rfl
  rw [pcall, called]

theorem call_ne_unfinished (free : (vm.store.thread vm.main).held = false) {callee : Value}
    {values : Array Value} (finished : ((beginRestoringCall (Engine.setHeld vm.store vm.main true) []
      vm.main callee values).run engine.host engine.steps).isFinished = true) :
    (vm.call engine callee values).1 ≠ .unfinished := by
  rw [call_free free]
  intro unfinished
  exact Bool.eq_false_iff.1 (outcome_unfinished_iff.1 unfinished) finished

theorem pcall_ne_unfinished {callee : Value} {values : Array Value}
    (ends : (vm.call engine callee values).1 ≠ .unfinished) :
    (vm.pcall engine callee values).1 ≠ .unfinished := by
  rw [pcall]
  split
  · exact nofun
  · split <;> exact nofun
  · rename_i unfinished
    exact absurd (congrArg Prod.fst unfinished) ends

/-- However a call from the host ends, the main thread is ready for the next one; a call while
somebody holds the main thread is refused and changes nothing. -/
theorem reusable (bare : engine.host = .bare) (callee : Value) (values : Array Value) :
    (vm.Ready limits →
      ((vm.call engine callee values).1 ≠ .unfinished →
        (vm.call engine callee values).2.Ready limits) ∧
      ((vm.pcall engine callee values).1 ≠ .unfinished →
        (vm.pcall engine callee values).2.Ready limits)) ∧
    ((vm.store.thread vm.main).held = true →
      vm.call engine callee values = (.failed (.invalid "main thread is already running"), vm) ∧
      vm.pcall engine callee values = (.failed (.invalid "main thread is already running"), vm)) := by
  refine ⟨fun ready => ⟨ready.call bare callee values, fun ends => ?_⟩, fun held => ?_⟩
  · rw [pcall_store]
    exact ready.call bare callee values (call_ends callee values ends)
  · have refused : vm.call engine callee values =
        (.failed (.invalid "main thread is already running"), vm) := by rw [call, if_pos held]
    refine ⟨refused, ?_⟩
    rw [pcall, refused]
    rfl

def capturing : Vm := ((Vm.new .standard).load capturingPrototype).2

theorem ready_capturing : capturing.Ready .standard := by
  have cell : Machine.Reachable .standard
      ⟨((Vm.new .standard).store.newCell (.closed (.table 0))).2, [], .done #[]⟩ :=
    .single (.newCell (.table 0))
  have reachable : Machine.Reachable .standard ⟨capturing.store, [], .done #[]⟩ :=
    cell.tail (.heap rfl rfl)
  refine ⟨⟨_, reachable⟩, rfl, rfl, rfl, rfl, rfl, rfl, fun ref index found => ?_⟩
  obtain ⟨f, member, -⟩ := (reachable.healthy.idle.1.settled 0).witnessed ref index found
  exact absurd member List.not_mem_nil

def borrowed : Vm := { capturing with store := Engine.setHeld capturing.store 0 true }

theorem reusable_capturing :
    Engine.host ⟨.bare, 10⟩ = .bare ∧ capturing.Ready .standard ∧
      (capturing.call ⟨.bare, 10⟩ (.closure 0) #[]).1 ≠ .unfinished ∧
      (capturing.call ⟨.bare, 10⟩ (.closure 0) #[]).2.Ready .standard ∧
      (capturing.pcall ⟨.bare, 10⟩ .nil #[]).1 ≠ .unfinished ∧
      (capturing.pcall ⟨.bare, 10⟩ .nil #[]).2.Ready .standard ∧
      (borrowed.store.thread 0).held = true ∧
      borrowed.call ⟨.bare, 10⟩ .nil #[] =
        (.failed (.invalid "main thread is already running"), borrowed) := by
  have returns : (capturing.call ⟨.bare, 10⟩ (.closure 0) #[]).1 ≠ .unfinished :=
    call_ne_unfinished rfl (by decide +kernel)
  have raises : (capturing.pcall ⟨.bare, 10⟩ .nil #[]).1 ≠ .unfinished :=
    pcall_ne_unfinished (call_ne_unfinished rfl (by decide +kernel))
  have called := @reusable .standard ⟨.bare, 10⟩ capturing rfl (.closure 0) #[]
  have guarded := @reusable .standard ⟨.bare, 10⟩ capturing rfl .nil #[]
  have refused := @reusable .standard ⟨.bare, 10⟩ borrowed rfl .nil #[]
  exact ⟨rfl, ready_capturing, returns, (called.1 ready_capturing).1 returns, raises,
    (guarded.1 ready_capturing).2 raises, rfl, (refused.2 rfl).1⟩

end Vm

end RegisterVm
