import RegisterVm.Proofs.Call.Ending

/-!
The top of a thread's stack while a native function waits for what it has called. Whatever runs
above its frame, the top comes back to the frame's base or above, so that the function finds its
slots as it has left them.
-/

namespace RegisterVm

theorem Over.head_top {level : Nat} {base frames : List Frame} (stacked : Over level base frames)
    (roof : ∀ h ∈ base.head?, level ≤ h.top) : ∀ f ∈ frames.head?, level ≤ f.top := by
  cases stacked with
  | base => exact roof
  | push owned stacked =>
      rintro f ⟨⟩
      exact owned.low_le_top

theorem Store.Popped.low_le_top {t : ThreadRef} {low : Nat} {below : List Frame} {s s' : Store}
    (popped : s.Popped t low below s') (roof : ∀ f ∈ below.head?, low ≤ f.top) :
    low ≤ (s'.thread t).top := by
  rcases popped.top with above | ⟨caller, rest, rfl, top⟩
  · exact above
  · exact top ▸ roof caller rfl

namespace Machine

variable {s : Store} {t : ThreadRef} {activities : List Activity} {low place : Nat}

theorem beginCall_top (valid : t < s.threads.size) (top : low ≤ (s.thread t).top)
    (above : low ≤ place) (arguments : Nat) (wanted : Option Nat) :
    low ≤ ((beginCall s activities t place arguments wanted).store.thread t).top := by
  refine perform_elim (p := fun m => low ≤ (m.store.thread t).top)
    (leads_enterFrom arguments wanted valid above) ?_ ?_
  · rintro ⟨floor, callee⟩ s' ⟨-, f, fresh, pushed⟩
    have owned := fresh.owned above above
    have entered : low ≤ (s'.thread t).top := pushed.top ▸ owned.low_le_top
    cases callee <;> exact entered
  · rintro e s' rfl
    exact top

theorem top_pin (s : Store) (t : ThreadRef) :
    ((s.modifyThread t pin).thread t).top = (s.thread t).top :=
  Store.field_modifyThread Thread.top s t t pin fun _ => rfl

theorem beginValueCall_top (valid : t < s.threads.size) (top : low ≤ (s.thread t).top)
    (callee : Value) (arguments : Array Value) :
    low ≤ ((beginValueCall s activities t callee arguments).store.thread t).top := by
  refine perform_elim (p := fun m => low ≤ (m.store.thread t).top)
    (leads_layOut t callee arguments s) ?_ ?_
  · rintro place s' ⟨rfl, calm, higher⟩
    have valid' := Nat.lt_of_lt_of_le valid calm.confined.grown
    refine beginCall_top (by simpa using valid') ?_ top _ _
    rw [top_pin]
    exact Nat.le_trans top (Nat.le_of_lt (higher valid))
  · rintro e s' rfl
    exact top

theorem beginGuardedCall_top (valid : t < s.threads.size) (top : low ≤ (s.thread t).top)
    (above : low ≤ place) (arguments : Nat) :
    low ≤ ((beginGuardedCall s activities t place arguments).store.thread t).top := by
  refine beginCall_top (by simpa using valid) ?_ above _ _
  rw [top_pin]
  exact top

theorem step_yield (valid : t < s.threads.size) (activities : List Activity) :
    (∃ s', step .bare ⟨s, activities, .enter t (.builtin .yield)⟩ = ⟨s', activities, .done #[]⟩ ∧
      s'.thread t =
        { s.thread t with yielded := (s.thread t).arguments, yielding := true }) ∨
    ∃ e, step .bare ⟨s, activities, .enter t (.builtin .yield)⟩ = ⟨s, activities, .fail e⟩ := by
  change _ ∨ ∃ e, perform s activities (yieldArguments t) _ = _
  refine perform_elim (p := fun m => (∃ s', m = ⟨s', activities, .done #[]⟩ ∧ s'.thread t =
    { s.thread t with yielded := (s.thread t).arguments, yielding := true }) ∨
    ∃ e, m = ⟨s, activities, .fail e⟩) (leads_yieldArguments t s) ?_ ?_
  · rintro outcome s' ⟨rfl, yielded⟩
    refine .inl ⟨_, rfl, ?_⟩
    dsimp only
    rw [yielded.store, Store.modifyThread_modifyThread, Store.thread_modifyThread_self _ _ valid]
    rfl
  · rintro e s' rfl
    exact .inr ⟨e, rfl⟩

end Machine

namespace Guarding

open Machine

variable {g : Guarding} {values : Nat → Value} {above : List Activity} {s : Store} {m : Machine}

theorem Holds.top_resumed (holds : g.Holds values above s) {co : ThreadRef}
    (free : (s.thread co).held = false) (activities : List Activity) (arguments : Array Value) :
    ((beginResumption s activities co arguments).store.thread g.thread).top =
      (s.thread g.thread).top := by
  have other : g.thread ≠ co := by
    rintro rfl
    rw [holds.held] at free
    contradiction
  rw [(beginResumption_local s activities co arguments).others _ other holds.valid]

theorem settle_top (holds : g.Holds values above s) (spare : g.Spare above g.thread s)
    (roof : ∀ h ∈ g.frames.head?, g.slot ≤ h.top) (activities : List Activity)
    {outcome : NativeOutcome} (leaves : Leaves g.thread s True outcome) :
    g.slot ≤ ((settle s activities g.thread outcome).store.thread g.thread).top := by
  have ready := holds.ready_own spare
  obtain ⟨f, below, head, owned, top⟩ := holds.spare_head spare
  cases outcome with
  | returns count =>
      have lies : ∀ f' below', (s.thread g.thread).frames = f' :: below' →
          g.slot ≤ f'.slot ∧ g.slot ≤ f'.target := by
        intro f' below' head'
        obtain ⟨rfl, -⟩ := List.cons.inj (head.symm.trans head')
        exact ⟨owned.slot, owned.target⟩
      refine perform_elim (p := fun m => g.slot ≤ (m.store.thread g.thread).top)
        (leads_finishNative holds.valid lies count) ?_ fun _ _ impossible => impossible.elim
      · intro _ s' finished
        cases finished with
        | kept calm => exact calm.low_le_top top
        | dropped f' below' head' returned popped =>
            obtain ⟨rfl, rfl⟩ := List.cons.inj (head.symm.trans head')
            have deep := spare rfl
            rw [head, List.length_cons] at deep
            obtain ⟨-, stacked, -⟩ := holds.mark.pop head (by omega)
            exact popped.low_le_top (stacked.head_top roof)
  | calls callee arguments restoring next =>
      obtain ⟨rfl, -⟩ := leaves
      exact beginValueCall_top holds.valid ready.top callee arguments
  | protects place arguments next =>
      obtain ⟨-, rfl⟩ := leaves
      exact beginGuardedCall_top holds.valid ready.top ready.frame arguments
  | resumes co arguments next =>
      have free := Coroutine.held_of_refusal leaves.2.1
      exact holds.top_resumed free _ arguments ▸ ready.top

theorem perform_native_top (holds : g.Holds values above s) (spare : g.Spare above g.thread s)
    (roof : ∀ h ∈ g.frames.head?, g.slot ≤ h.top) (activities : List Activity)
    {action : Action NativeOutcome}
    (keeps : Keeps (Calm g.thread g.slot s) action (Leaves g.thread s True)) :
    g.slot ≤ ((perform s activities action fun s outcome =>
      settle s activities g.thread outcome).store.thread g.thread).top := by
  have ready := holds.ready_own spare
  refine perform_elim (p := fun m => g.slot ≤ (m.store.thread g.thread).top)
    (keeps.leads (.refl _ _ _)) ?_ fun e s' calm => calm.low_le_top ready.top
  rintro outcome s' ⟨calm, leaves⟩
  refine settle_top (holds.calm (Nat.le_of_eq g.low_self) calm) ?_ roof activities
    (leaves.calm calm)
  intro own
  rw [calm.frames]
  exact spare own

theorem enter_top (holds : g.Holds values above s) (spare : g.Spare above g.thread s)
    (roof : ∀ h ∈ g.frames.head?, g.slot ≤ h.top) (activities : List Activity)
    (body : NativeBody) :
    g.slot ≤ ((perform s activities (body.enter .bare g.thread) fun s outcome =>
      settle s activities g.thread outcome).store.thread g.thread).top := by
  have ready := holds.ready_own spare
  by_cases yields : body = .builtin .yield
  · subst yields
    change g.slot ≤ ((step .bare ⟨s, activities, .enter g.thread (.builtin .yield)⟩).store.thread
      g.thread).top
    rcases step_yield holds.valid activities with ⟨s', steps, thread⟩ | ⟨e, steps⟩
    · rw [steps, thread]
      exact ready.top
    · rw [steps]
      exact ready.top
  · exact perform_native_top holds spare roof activities
      (body.keeps_enter yields ready.permits fun _ => trivial)

theorem script_top {floor : Nat} {rest : List Activity}
    (holds : g.Holds values (.script g.thread floor :: above) s)
    (roof : ∀ h ∈ g.frames.head?, g.slot ≤ h.top) (top : g.slot ≤ (s.thread g.thread).top) :
    g.slot ≤ ((runScript s rest g.thread floor).store.thread g.thread).top := by
  cases holds.clear with
  | script valid deep clear =>
  have deep := deep rfl
  have turn := runScript_turn s rest g.thread floor
  generalize runScript s rest g.thread floor = next at turn ⊢
  cases turn with
  | spent | astray => exact top
  | @runs f below ref head inside callee =>
      have ran := runInstruction_ran (.script g.thread floor :: rest) valid head callee
      obtain ⟨owned, stacked, -⟩ := holds.mark.pop head (by omega)
      generalize runInstruction _ _ _ _ _ = next at ran ⊢
      cases ran with
      | stayed pc confined frames same =>
          rcases same with same | higher
          · exact same ▸ top
          · exact Nat.le_trans owned.low_le_floor higher
      | assigned pc assigns written =>
          obtain ⟨stack, thread⟩ := thread_assigned valid head pc _ _
          rw [written, thread]
          exact top
      | entered pc f' fresh place deliver confined cells frames same =>
          have low := owned.low_le_floor
          exact same ▸ (fresh.owned (Nat.le_trans low place)
            (Nat.le_trans low deliver)).low_le_top
      | replaced f' fresh confined frames same =>
          exact same ▸ (fresh.owned owned.slot owned.target).low_le_top
      | returned popped =>
          have low := owned.low_le_reach
          rcases popped.top with higher | ⟨caller, rest, rfl, same⟩
          · exact Nat.le_trans low higher
          · exact same ▸ stacked.head_top roof caller rfl
      | vacated e confined frames higher => exact Nat.le_trans owned.slot higher

theorem succeed_top {a : Activity} (holds : g.Holds values (a :: above) s)
    (roof : ∀ h ∈ g.frames.head?, g.slot ≤ h.top) (top : g.slot ≤ (s.thread g.thread).top)
    (own : a.thread = g.thread) (rest : List Activity) (results : Array Value) :
    g.slot ≤ ((succeed .bare s a rest results).store.thread g.thread).top := by
  cases holds.clear with
  | script valid deep clear =>
      simp only [succeed]
      split <;> exact top
  | @native t next _ valid clear =>
      obtain rfl : t = g.thread := own
      obtain ⟨inner, valid, spare⟩ := holds.resume_native
      have ready := inner.ready_own spare
      exact perform_native_top inner spare roof rest (ready.keeps_succeed next results)
  | @collect t place _ valid bound clear =>
      obtain rfl : t = g.thread := own
      rw [low_self] at bound
      simp only [succeed]
      refine perform_elim (p := fun m => g.slot ≤ (m.store.thread g.thread).top)
        (leads_takeResults g.thread place s) ?_ fun _ _ impossible => impossible.elim
      rintro results s' rfl
      rw [Store.thread_modifyThread_self _ _ valid]
      exact bound
  | @guard t place depth _ valid bound deep clear =>
      obtain rfl : t = g.thread := own
      have same := Store.field_modifyThread Thread.top s g.thread g.thread unpin fun _ => rfl
      exact same ▸ top
  | resumption other clear => exact absurd own other

theorem failTop_top {a : Activity} (holds : g.Holds values (a :: above) s)
    (roof : ∀ h ∈ g.frames.head?, g.slot ≤ h.top) (top : g.slot ≤ (s.thread g.thread).top)
    (own : a.thread = g.thread) (rest : List Activity) (e : Error) :
    g.slot ≤ ((failTop .bare s a rest e).store.thread g.thread).top := by
  have unpinned := Store.field_modifyThread Thread.top s g.thread g.thread unpin fun _ => rfl
  cases holds.clear with
  | script valid deep clear => exact top
  | @native t next _ valid clear =>
      obtain rfl : t = g.thread := own
      obtain ⟨inner, valid, spare⟩ := holds.resume_native
      have ready := inner.ready_own spare
      exact perform_native_top inner spare roof rest (next.keeps_fail ready.permits e)
  | @collect t place _ valid bound clear =>
      obtain rfl : t = g.thread := own
      exact unpinned ▸ top
  | @guard t place depth _ valid bound deep clear =>
      obtain rfl : t = g.thread := own
      rw [low_self] at bound
      simp only [failTop]
      split
      · have valid' : g.thread < ((s.modifyThread g.thread unpin).unwind g.thread place
            depth).threads.size := by
          rw [Store.threadCount_unwind, Store.threadCount_modifyThread]
          exact valid
        rw [catchFailure, Store.thread_modifyThread_self _ _ valid', Thread.top_withTop]
        exact Nat.le_succ_of_le bound
      · exact unpinned ▸ top
  | resumption other clear => exact absurd own other

theorem Runs.top_step (runs : g.Runs values m) (busy : g.Busy m) (healthy : m.Healthy)
    (roof : ∀ h ∈ g.frames.head?, g.slot ≤ h.top)
    (top : g.slot ≤ (m.store.thread g.thread).top) :
    g.slot ≤ ((m.step .bare).store.thread g.thread).top := by
  cases runs with
  | @intro s control above holds enters =>
  rcases step_cases healthy.real with same | ⟨r, works, steps⟩
  · rwa [same]
  by_cases own : r = g.thread
  · subst own
    cases control with
    | enter t body =>
        obtain rfl : t = g.thread := Option.some.inj works
        exact enter_top holds enters.2 roof _ body
    | run =>
        cases above with
        | nil =>
            obtain ⟨t, body, impossible⟩ := busy rfl
            cases impossible
        | cons a above =>
            cases a with
            | script t floor =>
                obtain rfl : t = g.thread := Option.some.inj works
                exact script_top holds roof top
            | _ => exact top
    | done results =>
        cases above with
        | nil =>
            obtain ⟨t, body, impossible⟩ := busy rfl
            cases impossible
        | cons a above => exact succeed_top holds roof top (Option.some.inj works) _ results
    | fail e =>
        cases above with
        | nil =>
            obtain ⟨t, body, impossible⟩ := busy rfl
            cases impossible
        | cons a above => exact failTop_top holds roof top (Option.some.inj works) _ e
  · -- A step that another thread takes does not move the top of this one.
    rcases steps.idle (Ne.symm own) holds.valid with
      spares | ⟨s', activities, arguments, same, accepted, resumed⟩
    · obtain ⟨stack, openCells, thread⟩ := spares.thread
      rw [thread]
      exact top
    · have held : (s'.thread g.thread).held = true := same ▸ holds.held
      rw [Coroutine.held_of_refusal accepted] at held
      contradiction

end Guarding

end RegisterVm
