import RegisterVm.Proofs.Coroutine.Yielding
import RegisterVm.Proofs.Failure.Stranding
import RegisterVm.Proofs.Library.Sequences

/-!
A yield is accepted where it is announced. The announcement looks at a count of the calls in
progress that a yield would leave, the decision at a flag that the frame was given when it was
entered; while a native function is at work the two agree, whatever calls it has made in between and
however these have ended. A yield that is accepted leaves none but script frames below its own, so
nothing that goes on afterwards misses its frame.
-/

namespace RegisterVm

variable {s : Store} {t : ThreadRef} {activities mine : List Activity}

def Undisturbed (t : ThreadRef) (activities : List Activity) : Prop :=
  (∀ slot, .collect t slot ∉ activities) ∧ ∀ slot depth, .guard t slot depth ∉ activities

theorem pins_eq_zero_iff : pins t activities = 0 ↔ Undisturbed t activities := by
  induction activities with
  | nil => simp [pins, Undisturbed]
  | cons a below ih =>
      simp only [Undisturbed, List.mem_cons, not_or, forall_and] at ih ⊢
      cases a with
      | collect r slot | guard r slot depth =>
          by_cases own : r = t
          · subst own
            simp [pins]
          · simp [pins, own, ih, Ne.symm own]
      | _ => simpa [pins] using ih

theorem pins_ofThread : pins t (ofThread t activities) = pins t activities := by
  induction activities with
  | nil => rfl
  | cons a below ih =>
      by_cases own : a.thread = t
      · rw [ofThread_self own]
        cases a <;> simp [pins, ih]
      · rw [ofThread_other own]
        cases a with
        | collect r slot | guard r slot depth =>
            have other : r ≠ t := own
            simp [pins, other, ih]
        | _ => exact ih

theorem Chained.exists_below {a : Activity} (chained : Chained activities)
    (own : ofThread t activities = a :: mine) :
    ∃ below, Chained (a :: below) ∧ ofThread t below = mine := by
  obtain ⟨upper, below, rfl, -, -, same⟩ := List.filter_eq_cons_iff.1 own
  refine ⟨below, ?_, same⟩
  clear own
  induction upper with
  | nil => exact chained
  | cons b upper ih => exact ih chained.tail

theorem yieldArguments_accepts_iff (s : Store) (t : ThreadRef) :
    (∃ outcome s', yieldArguments t s = .ok outcome s') ↔
      (s.thread t).isMain = false ∧ ∃ f, (s.thread t).frame? = some f ∧ f.yieldable = true := by
  constructor
  · rintro ⟨outcome, s', accepted⟩
    have yielded := leads_yieldArguments t s
    simp only [Leads, accepted] at yielded
    refine ⟨?_, yielded.2.frame⟩
    by_contra main
    rw [Bool.not_eq_false] at main
    simp only [yieldArguments, lookThread, look, bind, EStateM.bind, main, if_true] at accepted
    contradiction
  · rintro ⟨coroutine, f, frame, allowed⟩
    refine ⟨.returns 0, s.modifyThread t fun th =>
      { th with yielded := th.arguments, yielding := true }, ?_⟩
    simp only [yieldArguments, lookThread, look, bind, EStateM.bind, coroutine, frame,
      Option.map_some, Option.getD_some, allowed, Bool.not_true, Bool.false_eq_true, if_false]
    rfl

namespace Machine

variable {m : Machine}

/-- A native function of thread `t` is at work: it has been entered, a call that it has made has
ended, or it waits for a coroutine. Where a call of its own has failed it ends without more ado. -/
inductive AtWork (m : Machine) (t : ThreadRef) : Prop where
  | entered (body : NativeBody) (control : m.control = .enter t body)
  | goesOn (next : Pending) (mine : List Activity)
      (waits : ofThread t m.activities = .native t next :: mine)
      (hears : next.Resumes ∨ ∀ e, m.control ≠ .fail e)

structure Announces (m : Machine) (t : ThreadRef) : Prop where
  native : ∃ f, (m.store.thread t).frame? = some f ∧ f.kind = .native
  accepts : (∃ outcome s, (Builtin.yield.enter t) m.store = .ok outcome s) ↔
    (m.store.thread t).isYieldable = true
  free : (m.store.thread t).isYieldable = true ↔
    (m.store.thread t).isMain = false ∧ Undisturbed t m.activities
  reports : m.control = .enter t (.builtin .isyieldable) →
    m.results? = some [.boolean (m.store.thread t).isYieldable]

theorem flag_eq_isYieldable {f : Frame} {base : List Frame}
    (working : s.Working t (ofThread t activities) f base) (serves : Serves t activities)
    (chained : Chained activities) : f.yieldable = (s.thread t).isYieldable := by
  rw [working.announces, working.toTidy.isYieldable serves chained]

theorem settled_working (chained : Chained activities)
    (settled : s.Settled t (ofThread t activities)) {next : Pending}
    (waits : ofThread t activities = .native t next :: mine) :
    ∃ f base, s.Working t mine f base ∧ f.yieldable = (s.thread t).isYieldable := by
  obtain ⟨below, chained, rfl⟩ := chained.exists_below waits
  rw [waits] at settled
  obtain ⟨f, base, working⟩ := settled.working
  exact ⟨f, base, working, flag_eq_isYieldable working chained.serves chained.tail⟩

theorem top_of_waits {a : Activity} {below : List Activity} {next : Pending} (own : a.thread = t)
    (waits : ofThread t (a :: below) = .native t next :: mine) : a = .native t next := by
  rw [ofThread_self own] at waits
  exact (List.cons.inj waits).1

theorem Healthy.working_of_waits {control : Control} {next : Pending}
    (healthy : Healthy ⟨s, activities, control⟩)
    (waits : ofThread t activities = .native t next :: mine)
    (hears : next.Resumes ∨ ∀ e, control ≠ .fail e) :
    ∃ f base, s.Working t mine f base ∧ f.yieldable = (s.thread t).isYieldable := by
  cases healthy with
  | settled sound => exact settled_working sound.chained (sound.settled t) waits
  | @entered _ _ r _ _ _ apart working serves =>
      by_cases same : t = r
      · subst same
        obtain ⟨a, below, rfl, own⟩ := serves.hears.exists_cons
        rw [top_of_waits own waits] at serves
        exact serves.elim
      · exact settled_working apart.chained (apart.others t same) waits
  | @leaving _ r _ below _ apart leaving shape =>
      by_cases same : t = r
      · subst same
        rcases shape with rfl | ⟨floor, rfl⟩
        · exact nomatch top_of_waits rfl waits
        · exact nomatch top_of_waits rfl waits
      · exact settled_working apart.chained (apart.others t same) waits
  | @failing _ _ r e apart failing mourns =>
      by_cases same : t = r
      · subst same
        obtain ⟨a, below, rfl, own⟩ := mourns.exists_cons
        rw [top_of_waits own waits] at mourns
        exact (hears.elim mourns.2 fun well => well e rfl).elim
      · exact settled_working apart.chained (apart.others t same) waits
  | @lost _ r below e sound invalid =>
      by_cases same : t = r
      · subst same
        exact nomatch top_of_waits rfl waits
      · rw [ofThread_other (Ne.symm same)] at waits
        exact settled_working sound.chained (sound.settled t) waits

theorem AtWork.working (works : m.AtWork t) (healthy : m.Healthy) :
    ∃ mine f base, m.store.Working t mine f base ∧ f.yieldable = (m.store.thread t).isYieldable ∧
      pins t mine = pins t m.activities := by
  obtain ⟨s, activities, control⟩ := m
  cases works with
  | entered body entered =>
      obtain rfl : control = .enter t body := entered
      cases healthy with
      | settled sound goes => simp at goes
      | entered apart working serves yieldable arrived =>
          exact ⟨_, _, _, working, flag_eq_isYieldable working serves apart.chained, pins_ofThread⟩
  | goesOn next mine waits hears =>
      obtain ⟨f, base, working, flag⟩ := healthy.working_of_waits waits hears
      have counted : pins t (ofThread t activities) = pins t mine := by
        rw [show ofThread t activities = _ from waits]
        rfl
      exact ⟨mine, f, base, working, flag, counted.symm.trans pins_ofThread⟩

theorem Healthy.reports (healthy : m.Healthy)
    (enters : m.control = .enter t (.builtin .isyieldable)) :
    m.results? = some [.boolean (m.store.thread t).isYieldable] := by
  obtain ⟨valid, room⟩ := healthy.room enters
  obtain ⟨s, activities, control⟩ := m
  obtain rfl : control = .enter t (.builtin .isyieldable) := enters
  obtain ⟨s', done, -, pushed⟩ :=
    returnOne_returns valid room (.boolean (s.thread t).isYieldable)
  have ends : (NativeBody.builtin .isyieldable).enter .bare t s = .ok (.returns 1) s' := done
  rw [← pushed, results?]
  simp only [Store.pushed?, ends, pure, EStateM.pure]

theorem AtWork.announces (works : m.AtWork t) (healthy : m.Healthy) : m.Announces t := by
  obtain ⟨mine, f, base, working, flag, counted⟩ := works.working healthy
  have frame : (m.store.thread t).frame? = some f := by
    rw [Thread.frame?, working.head]
    rfl
  have free : (m.store.thread t).isYieldable = true ↔
      (m.store.thread t).isMain = false ∧ Undisturbed t m.activities := by
    rw [← pins_eq_zero_iff, ← counted, ← working.pinned]
    simp [Thread.isYieldable]
  refine ⟨⟨f, frame, working.native⟩, ?_, free, healthy.reports⟩
  refine (yieldArguments_accepts_iff m.store t).trans ⟨?_, fun announced => ?_⟩
  · rintro ⟨-, g, innermost, allowed⟩
    obtain rfl := Option.some.inj (frame.symm.trans innermost)
    exact flag ▸ allowed
  · exact ⟨(free.1 announced).1, f, frame, flag.trans announced⟩

structure Yieldable (m : Machine) : Prop where
  announces : ∀ t, m.AtWork t → m.Announces t
  framed : ∀ e, m.control = .fail e → e ≠ .invalid "dispatch entered on a native frame" ∧
    e ≠ .invalid "tail call without an active frame"

theorem announces_of_reachable {limits : Limits} (reachable : m.Reachable limits) :
    m.Yieldable where
  announces _ works := works.announces reachable.healthy
  framed e fails := not_or.1 (reachable.steady e fails)

theorem announces_of_reachable_echoing : echoingCoroutine.AtWork 1 ∧
    (echoingCoroutine.store.thread 1).isYieldable = true ∧ echoingCoroutine.Yieldable := by
  have stored : Reachable .standard ⟨yieldStore, [], .done #[]⟩ := .single (.heap rfl rfl)
  have made : Reachable .standard
      ⟨(yieldStore.newCoroutine 0 .standard (.native 0)).2, [], .done #[]⟩ :=
    stored.tail (.newCoroutine 0 .standard (.native 0))
  have reachable : echoingCoroutine.Reachable .standard := made.tail (.resume rfl #[.boolean true])
  exact ⟨.entered _ rfl, rfl, announces_of_reachable reachable⟩

end Machine

end RegisterVm
