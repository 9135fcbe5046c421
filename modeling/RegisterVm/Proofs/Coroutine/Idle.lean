import RegisterVm.Proofs.Lifetime.Reachable

/-!
A coroutine that nothing runs. Whatever happens leaves it alone, but for the closing of its cells
and for assignments through them, until a resumption of it begins.
-/

namespace RegisterVm.Machine

open Relation

variable {m m' : Machine} {s : Store} {t r : ThreadRef} {activities : List Activity}

theorem mem_ofThread : Activity.resumption t ∈ ofThread t activities ↔
    Activity.resumption t ∈ activities := by
  simp [ofThread, Activity.thread]

theorem Healthy.own (healthy : m.Healthy) (valid : t < m.store.threads.size) :
    ∃ mine, m.store.Tidy t mine ∧
      (Activity.resumption t ∈ mine ↔ Activity.resumption t ∈ m.activities) := by
  have beside : ∀ {s : Store} {r : ThreadRef} {activities : List Activity}, s.Apart r activities →
      t ≠ r → ∃ mine, s.Tidy t mine ∧
        (Activity.resumption t ∈ mine ↔ Activity.resumption t ∈ activities) :=
    fun apart different => ⟨_, (apart.others t different).toTidy, mem_ofThread⟩
  cases healthy with
  | settled sound => exact ⟨_, (sound.settled t).toTidy, mem_ofThread⟩
  | @entered _ _ r _ _ _ apart working =>
      by_cases same : t = r
      · subst same
        exact ⟨_, working.toTidy, mem_ofThread⟩
      · exact beside apart same
  | @leaving _ r activities below _ apart leaving shape =>
      by_cases same : t = r
      · subst same
        refine ⟨_, leaving.toTidy, ?_⟩
        rcases shape with rfl | ⟨floor, rfl⟩ <;> simp
      · exact beside apart same
  | @failing _ _ r _ apart failing =>
      by_cases same : t = r
      · subst same
        exact ⟨_, failing.toTidy, mem_ofThread⟩
      · exact beside apart same
  | @lost s r below e sound invalid =>
      have different : t ≠ r := fun same => absurd (same ▸ valid) (Nat.not_lt.2 invalid)
      exact ⟨_, (sound.settled t).toTidy, by simp [mem_ofThread, different]⟩

structure Running (th : Thread) : Prop where
  isMain : th.isMain = false
  held : th.held = true
  status : th.status = .running

theorem Healthy.running (healthy : m.Healthy) (valid : t < m.store.threads.size)
    (resumed : .resumption t ∈ m.activities) : Running (m.store.thread t) := by
  obtain ⟨mine, tidy, same⟩ := healthy.own valid
  have coroutine := tidy.coroutine t (same.2 resumed)
  have held := tidy.held (List.ne_nil_of_mem (same.2 resumed))
  exact ⟨coroutine, held, (tidy.busy coroutine held).1⟩

theorem Healthy.resting (healthy : m.Healthy) (valid : t < m.store.threads.size)
    (coroutine : (m.store.thread t).isMain = false) (idle : .resumption t ∉ m.activities) :
    (m.store.thread t).held = false ∧ (m.store.thread t).Resting := by
  obtain ⟨mine, tidy, same⟩ := healthy.own valid
  cases held : (m.store.thread t).held with
  | true => exact absurd (same.1 (tidy.busy coroutine held).2) idle
  | false => exact ⟨rfl, tidy.resting coroutine held⟩

theorem Healthy.worker_held (healthy : m.Healthy) (works : m.worker? = some r)
    (valid : r < m.store.threads.size) : (m.store.thread r).held = true := by
  cases healthy with
  | @settled s activities control sound goes =>
      cases activities with
      | nil => rcases goes with rfl | ⟨values, rfl⟩ | ⟨e, rfl⟩ <;> simp [worker?] at works
      | cons a below =>
          have own : a.thread = r := by
            rcases goes with rfl | ⟨values, rfl⟩ | ⟨e, rfl⟩ <;> exact Option.some.inj works
          exact (sound.top own).held (List.cons_ne_nil _ _)
  | @entered s activities t body f base apart working serves =>
      obtain rfl : t = r := Option.some.inj works
      exact working.held serves.hears.ofThread_ne_nil
  | @leaving s t activities below values apart leaving shape =>
      have own : t = r := by
        rcases shape with rfl | ⟨floor, rfl⟩ <;> exact Option.some.inj works
      exact own ▸ leaving.held (List.cons_ne_nil _ _)
  | @failing s activities t e apart failing hears =>
      obtain ⟨a, below, rfl, own⟩ := hears.exists_cons
      obtain rfl : t = r := own.symm.trans (Option.some.inj works)
      exact failing.held hears.ofThread_ne_nil
  | @lost s t below e sound invalid =>
      obtain rfl : t = r := Option.some.inj works
      exact absurd valid (Nat.not_lt.2 invalid)

theorem Healthy.real (healthy : m.Healthy) : m.Real := by
  cases healthy with
  | @settled s activities control sound goes =>
      cases activities with
      | nil => rcases goes with rfl | ⟨values, rfl⟩ | ⟨e, rfl⟩ <;> trivial
      | cons a below =>
          cases a with
          | native t next =>
              have valid := (sound.top rfl).toTidy.valid (List.cons_ne_nil _ _)
              rcases goes with rfl | ⟨values, rfl⟩ | ⟨e, rfl⟩ <;> exact valid
          | _ => rcases goes with rfl | ⟨values, rfl⟩ | ⟨e, rfl⟩ <;> trivial
  | entered apart working serves => exact working.toTidy.valid serves.hears.ofThread_ne_nil
  | leaving apart leaving shape => rcases shape with rfl | ⟨floor, rfl⟩ <;> trivial
  | @failing s activities t e apart failing hears =>
      obtain ⟨a, below, rfl, own⟩ := hears.exists_cons
      cases a with
      | native r next =>
          obtain rfl : r = t := own
          exact failing.toTidy.valid hears.ofThread_ne_nil
      | _ => trivial
  | lost sound invalid => trivial

/-- From machine `m` to machine `m'` a thread has been left alone, but for the closing of its cells
and for what machine `m` has assigned through them. -/
structure Spares (t : ThreadRef) (m m' : Machine) : Prop where
  thread : ∃ stack openCells, m'.store.thread t = { m.store.thread t with stack, openCells }
  slots : ∀ index, (m'.store.thread t).get index = (m.store.thread t).get index ∨
    ∃ cell, m.assignment? = some (cell, (m'.store.thread t).get index) ∧
      m.store.cells[cell]? = some (.slot t index)

theorem Spares.of_same (same : m'.store.thread t = m.store.thread t) : Spares t m m' :=
  ⟨⟨_, _, same⟩, fun _ => .inl (by rw [same])⟩

/-- A step of another thread leaves a thread alone or begins its resumption. -/
theorem Steps.idle (steps : Steps r m m') (different : t ≠ r) (valid : t < m.store.threads.size) :
    Spares t m m' ∨ ∃ s activities arguments, s.thread t = m.store.thread t ∧
      Coroutine.refusal? s r t = none ∧ m' = beginResumption s activities t arguments := by
  cases steps with
  | works works =>
      cases works with
      | advanced advanced => exact .inl (.of_same (advanced.inside.others t different valid))
      | @resumes s activities co arguments calm accepted =>
          have same := calm.confined.others t different valid
          by_cases self : t = co
          · subst self
            exact .inr ⟨s, activities, arguments, same, accepted, rfl⟩
          · have later := (beginResumption_local s activities co arguments).others t self
              (Nat.lt_of_lt_of_le valid calm.confined.grown)
            exact .inl (.of_same (later.trans same))
  | @assigned _ f below pc cell value head assigns written =>
      have kept : (m.store.modifyThread r fun th => th.setPc pc).thread t = m.store.thread t :=
        Store.thread_modifyThread_other _ _ different
      have cells : (m.store.modifyThread r fun th => th.setPc pc).cells = m.store.cells := rfl
      generalize m.store.modifyThread r (fun th => th.setPc pc) = s at written kept cells
      obtain ⟨stack, thread⟩ := Store.thread_writeCell s cell value t
      refine .inl ⟨⟨stack, _, by rw [written, thread, kept]⟩, fun index => ?_⟩
      by_cases same : ((s.writeCell cell value).thread t).get index = (s.thread t).get index
      · left
        rw [written, same, kept]
      · obtain ⟨found, value'⟩ := Store.get_writeCell same
        refine .inr ⟨cell, ?_, cells ▸ found⟩
        rw [written, value', assigns]
  | ended activities control =>
      refine .inl (.of_same ?_)
      simp only [endResumption]
      split <;> exact Store.thread_modifyThread_other _ _ different
  | killed activities control =>
      exact .inl (.of_same ((local_killCoroutine m.store r : m.store.Local r 0 _).others t different
        valid))

theorem Steps.grown (steps : Steps r m m') : m.store.threads.size ≤ m'.store.threads.size := by
  cases steps with
  | works works =>
      cases works with
      | advanced advanced => exact advanced.inside.grown
      | resumes calm accepted =>
          exact Nat.le_trans calm.confined.grown (beginResumption_local _ _ _ _).grown
  | assigned pc head assigns written =>
      exact Nat.le_of_eq
        (by rw [written, Store.threadCount_writeCell, Store.threadCount_modifyThread])
  | ended =>
      simp only [endResumption]
      split <;> exact Nat.le_of_eq (Store.threadCount_modifyThread _ _ _).symm
  | killed => exact (local_killCoroutine m.store r : m.store.Local r 0 _).grown

theorem hostCall_local (main : (s.thread r).isMain = true) (callee : Value)
    (arguments : Array Value) :
    s.Local r 0 (beginRestoringCall (Engine.setHeld s r true) [] r callee arguments).store := by
  have held : s.Local r 0 (Engine.setHeld s r true) := Store.local_modifyThread rfl
  have valid := Nat.lt_of_lt_of_le (Store.lt_of_main main) held.grown
  exact held.trans (beginValueCall_advanced valid callee arguments).inside

theorem Next.grown (healthy : m.Healthy) (next : Next m m') :
    m.store.threads.size ≤ m'.store.threads.size := by
  cases next with
  | step m =>
      rcases step_cases healthy.real with same | ⟨r, -, steps⟩
      · exact Nat.le_of_eq (by rw [same])
      · exact steps.grown
  | drop m r => exact Nat.le_of_eq (Store.threadCount_closeCells _ _ _).symm
  | heap cells threads => exact Nat.le_of_eq (congrArg Array.size threads.symm)
  | newCell value => exact Nat.le_refl _
  | @newCoroutine s _ globals limits entry =>
      have inside : s.Local 0 0 (s.newCoroutine globals limits entry).2 :=
        Store.local_newThread (Coroutine.unstarted_new globals limits entry)
      exact inside.grown
  | call main free callee arguments => exact (hostCall_local main callee arguments).grown
  | release main => exact Nat.le_of_eq (Store.threadCount_modifyThread _ _ _).symm
  | resume free arguments => exact (beginResumption_local _ _ _ _).grown

theorem status_of_refusal (accepted : Coroutine.refusal? s r t = none) :
    (s.thread t).status = .fresh ∨ (s.thread t).status = .suspended := by
  simp only [Coroutine.refusal?] at accepted
  split at accepted
  · contradiction
  · cases status : (s.thread t).status <;> simp [status] at accepted ⊢

/-- Whatever happens leaves a coroutine that rests alone or begins its resumption. -/
theorem Next.idle (healthy : m.Healthy) (next : Next m m') (valid : t < m.store.threads.size)
    (coroutine : (m.store.thread t).isMain = false) (idle : .resumption t ∉ m.activities) :
    Spares t m m' ∨ ∃ s activities arguments, s.thread t = m.store.thread t ∧
      ((s.thread t).status = .fresh ∨ (s.thread t).status = .suspended) ∧
      m' = beginResumption s activities t arguments := by
  have free := (healthy.resting valid coroutine idle).1
  have other : ∀ {s : Store} {r : ThreadRef}, (s.thread r).isMain = true →
      m.store = s → t ≠ r := by
    rintro s r main rfl rfl
    simp [coroutine] at main
  cases next with
  | step m =>
      rcases step_cases healthy.real with same | ⟨r, works, steps⟩
      · exact .inl (.of_same (by rw [same]))
      · have different : t ≠ r := by
          rintro rfl
          rw [healthy.worker_held works valid] at free
          contradiction
        refine (steps.idle different valid).imp_right ?_
        rintro ⟨s, activities, arguments, same, accepted, resumed⟩
        exact ⟨s, activities, arguments, same, status_of_refusal accepted, resumed⟩
  | drop m r =>
      obtain ⟨openCells, thread⟩ := Store.alike_closeCells m.store r t 0
      refine .inl ⟨⟨_, openCells, thread⟩, fun index => .inl ?_⟩
      rw [Machine.drop, Store.dropThread, thread]
      rfl
  | heap cells threads => exact .inl (.of_same (by simp only [Store.thread, threads]))
  | newCell value => exact .inl (.of_same rfl)
  | newCoroutine globals limits entry =>
      refine .inl (.of_same ?_)
      exact (Store.thread_newThread _ _ t).trans (if_neg (Nat.ne_of_lt valid))
  | call main held callee arguments =>
      exact .inl (.of_same ((hostCall_local main callee arguments).others t (other main rfl) valid))
  | release main =>
      exact .inl (.of_same (Store.thread_modifyThread_other _ _ (other main rfl)))
  | @resume s control r held arguments =>
      by_cases same : t = r
      · subst same
        cases status : (s.thread t).status with
        | fresh => exact .inr ⟨s, [], arguments, rfl, .inl status, rfl⟩
        | suspended => exact .inr ⟨s, [], arguments, rfl, .inr status, rfl⟩
        | running => exact .inl (.of_same (by simp only [beginResumption, status]))
        | dead => exact .inl (.of_same (by simp only [beginResumption, status]))
      · exact .inl (.of_same ((beginResumption_local s [] r arguments).others t same valid))

theorem Spares.idle (spares : Spares t m m') (healthy : m'.Healthy)
    (valid : t < m'.store.threads.size) (free : (m.store.thread t).held = false) :
    .resumption t ∉ m'.activities := by
  obtain ⟨stack, openCells, thread⟩ := spares.thread
  intro resumed
  have held := (healthy.running valid resumed).held
  rw [thread] at held
  simp [free] at held

end RegisterVm.Machine
