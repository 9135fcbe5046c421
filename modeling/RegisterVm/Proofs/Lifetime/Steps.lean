import RegisterVm.Proofs.Lifetime.Natives
import RegisterVm.Proofs.Lifetime.Scripts
import RegisterVm.Proofs.Lifetime.Unwinding

/-!
Every step of a machine keeps the invariant and closes what it has to: one lemma for each way in
which the activity on top hears of what it has waited for.
-/

namespace RegisterVm

variable {s : Store} {t : ThreadRef} {a : Activity} {mine rest : List Activity}

namespace Store

theorem Tidy.unpin (tidy : s.Tidy t (a :: mine)) (pinned : pins t (a :: mine) = pins t mine + 1)
    (other : ∀ r, a ≠ .resumption r) {f : Thread → Thread}
    (alike : Alike (s.thread t) (f (s.thread t)))
    (beneath : Beneath (s.thread t).frames (f (s.thread t)).top)
    (unpins : (f (s.thread t)).pinned = (s.thread t).pinned - 1)
    (marked : (f (s.thread t)).Marked mine) : (s.modifyThread t f).Tidy t mine := by
  apply tidy.adjust (List.cons_ne_nil a mine) alike beneath
  · intro r
    rw [List.mem_cons]
    exact (or_iff_right (Ne.symm (other r))).symm
  · rw [unpins, tidy.pinned, pinned, Nat.add_sub_cancel]
  · exact marked

end Store

namespace Machine

open Store

theorem collect_proceeds {place : Nat} (sound : s.Sound (.collect t place :: rest))
    (values : Array Value) : Harmless s (succeed .bare s (.collect t place) rest values) := by
  have settled : s.Settled t (.collect t place :: ofThread t rest) := sound.top rfl
  have valid := settled.valid (List.cons_ne_nil _ _)
  obtain ⟨bounded, beneath, expects⟩ := settled.expects
  simp only [succeed]
  refine perform_elim (leads_takeResults t place s) ?_ fun _ _ impossible => impossible.elim
  rintro results s' rfl
  have thread := thread_modifyThread_self s
    (fun th => (unpin (th.clear place th.top)).withTop place) valid
  have inside : s.Local t 0 (s.modifyThread t fun th =>
    (unpin (th.clear place th.top)).withTop place) := local_modifyThread rfl
  have sustains : s.Sustains (s.modifyThread t fun th =>
      (unpin (th.clear place th.top)).withTop place) := by
    apply inside.sustains
    intro f below script standing
    rw [thread]
    refine ⟨standing, fun index bound => ?_⟩
    have low := Nat.lt_of_lt_of_le bound (standing.base_le script beneath)
    exact Thread.get_clear_below _ low
  refine .of_sustains (.settled (((sound.apart t).pop inside rfl).sound ⟨?_, ?_, ?_, ?_⟩)
    (.inr (.inl ⟨_, rfl⟩))) sustains
  · refine settled.toTidy.unpin (by simp [pins]) (by simp) ⟨rfl, rfl, rfl, rfl, id⟩ beneath rfl ?_
    exact settled.marked.map (fun _ => id) fun level base mark above =>
      ⟨above.stacked, .inr (bounded level _ mark)⟩
  · rw [thread]
    exact expects
  · rw [thread]
    exact fun _ => settled.quiet (List.cons_ne_nil _ _)
  · exact fun _ resumed => absurd resumed sound.chained.asks.hears.not_resumed

theorem unpinned {place depth : Nat} (tidy : s.Tidy t (.guard t place depth :: mine)) :
    (s.modifyThread t unpin).Tidy t mine := by
  refine tidy.unpin (by simp [pins]) (by simp) ⟨rfl, rfl, rfl, rfl, id⟩ tidy.layers.top rfl ?_
  exact tidy.marked.map (fun m member => .tail _ member) fun _ _ _ above =>
    ⟨above.stacked, above.top⟩

theorem sustains_unpin (s : Store) (t : ThreadRef) : s.Sustains (s.modifyThread t unpin) :=
  sustains_modifyThread s t rfl rfl rfl

theorem release_proceeds {place depth : Nat} (sound : s.Sound (.guard t place depth :: rest))
    (values : Array Value) : Harmless s ⟨s.modifyThread t unpin, rest, .done values⟩ := by
  have settled : s.Settled t (.guard t place depth :: ofThread t rest) := sound.top rfl
  have active := List.cons_ne_nil (Activity.guard t place depth) (ofThread t rest)
  have thread := thread_modifyThread_self s unpin (settled.valid active)
  have inside : s.Local t 0 (s.modifyThread t unpin) := local_modifyThread rfl
  refine .of_sustains (.settled (((sound.apart t).pop inside rfl).sound
    ⟨unpinned settled.toTidy, ?_, ?_, ?_⟩) (.inr (.inl ⟨_, rfl⟩)))
    (sustains_unpin s t)
  · rw [thread]
    exact settled.expects.2.2.2
  · rw [thread]
    exact fun _ => settled.quiet active
  · exact fun _ resumed => absurd resumed sound.chained.guards.asks.hears.not_resumed

theorem endResumption_proceeds (sound : s.Sound (.resumption t :: rest)) :
    Harmless s (endResumption s rest t) := by
  have settled : s.Settled t (.resumption t :: ofThread t rest) := sound.top rfl
  have active := List.cons_ne_nil (Activity.resumption t) (ofThread t rest)
  have quiet := settled.quiet active
  obtain ⟨idle, empty⟩ : ofThread t rest = [] ∧ (s.thread t).frames = [] := settled.expects
  have coroutine := settled.coroutine t (.head _)
  have thread := thread_modifyThread_self s
    (fun th => { th with status := .dead, held := false }) (settled.valid active)
  have inside : s.Local t 0 (s.modifyThread t fun th =>
    { th with status := .dead, held := false }) := local_modifyThread rfl
  simp only [endResumption, quiet, Bool.false_eq_true, if_false]
  refine .of_sustains (.settled (((sound.apart t).pop inside rfl).sound ?_) (.inr (.inl ⟨_, rfl⟩)))
    (sustains_modifyThread s t rfl rfl rfl)
  rw [idle] at settled ⊢
  apply settled_resting <;> rw [thread]
  · exact coroutine
  · exact settled.pinned
  · exact .dead rfl empty quiet
  · exact settled.frames
  · exact settled.layers.of_same rfl (.inl rfl)
  · exact settled.witnessed

theorem succeed_proceeds (sound : s.Sound (a :: rest)) (values : Array Value) :
    Harmless s (succeed .bare s a rest values) := by
  cases a with
  | script t floor =>
      have settled : s.Settled t (.script t floor :: ofThread t rest) := sound.top rfl
      have quiet := settled.quiet (List.cons_ne_nil _ _)
      simp only [succeed, quiet, Bool.false_eq_true, if_false]
      exact .of_sustains (.settled sound (.inl rfl)) (.refl s)
  | native t next =>
      have settled : s.Settled t (.native t next :: ofThread t rest) := sound.top rfl
      obtain ⟨f, base, working⟩ := settled.working
      have serves := sound.chained.serves
      have apart : s.Apart t rest := (sound.apart t).pop (.refl s : s.Local t 0 s) rfl
      exact perform_native_proceeds apart working serves
        fun low ready => leads_left (ready.keeps_succeed next values)
  | collect t place => exact collect_proceeds sound values
  | restore t level depth =>
      have settled : s.Settled t (.restore t level depth :: ofThread t rest) := sound.top rfl
      have apart : s.Apart t rest := (sound.apart t).pop (.refl s : s.Local t 0 s) rfl
      refine .of_sustains (.settled (apart.sound ⟨settled.toTidy.under rfl (by simp),
        settled.expects.2.2.2, ?_, fun active => ?_⟩) (.inr (.inl ⟨_, rfl⟩))) (.refl s)
      · exact fun _ => settled.quiet (List.cons_ne_nil _ _)
      · simp [sound.chained.outermost, ofThread] at active
  | guard t place depth => exact release_proceeds sound _
  | resumption t => exact endResumption_proceeds sound

theorem catch_proceeds {place : Nat} {base : List Frame} (apart : s.Apart t rest)
    (tidy : s.Tidy t (ofThread t rest)) (hears : Hears t rest)
    (above : (s.thread t).Above place base) (bounded : Bounded place (ofThread t rest))
    (beneath : Beneath base place) (expects : Expects (ofThread t rest) base) (e : Error)
    (values : Array Value) :
    Harmless s ⟨catchFailure s t place base.length e, rest, .done values⟩ := by
  have active := hears.ofThread_ne_nil
  have valid := tidy.valid active
  have unwound := unwound_unwind s place base.length valid
  have back := tidy.unwind apart.linked valid (tidy.held active) above bounded beneath
    fun _ _ => expects.depth_le
  have onward := onward_unwind apart.linked valid above
  have inside := (s.local_unwind place base.length : s.Local t 0 _)
  have frames : ((s.unwind t place base.length).thread t).frames = base := by
    rw [unwound.frames, above.stacked.keepFrames_base]
  have quiet := unwound.yielding
  have slots := unwound.slots
  simp only [catchFailure]
  generalize s.unwind t place base.length = s₁ at back onward inside frames quiet slots
  have valid := Nat.lt_of_lt_of_le valid inside.grown
  have thread := thread_modifyThread_self s₁
    (fun th => (th.put place e.value).withTop (place + 1)) valid
  have moved : s₁.Local t 0 (s₁.modifyThread t fun th =>
    (th.put place e.value).withTop (place + 1)) := local_modifyThread rfl
  have later : s₁.Onward (s₁.modifyThread t fun th =>
    (th.put place e.value).withTop (place + 1)) := onward_modifyThread s₁ t rfl rfl
  have settled : (s₁.modifyThread t fun th =>
      (th.put place e.value).withTop (place + 1)).Settled t (ofThread t rest) := by
    have higher : Beneath (s₁.thread t).frames (place + 1) := by
      rw [frames]
      exact beneath.mono (Nat.le_succ place)
    refine ⟨back.adjust active ⟨rfl, rfl, rfl, rfl, id⟩ higher (fun _ => .rfl) back.pinned ?_, ?_,
      ?_, fun _ resumed => absurd resumed hears.not_resumed⟩
    · exact back.marked.map (fun _ => id) fun level base mark above =>
        ⟨above.stacked, .inr (Nat.le_succ_of_le (bounded level _ mark))⟩
    · rw [thread, Thread.frames_withTop, Thread.frames_put, frames]
      exact expects
    · rw [thread]
      exact fun _ => quiet
  refine ⟨⟨.settled (apart.rest (inside.trans moved) settled) (.inr (.inl ⟨_, rfl⟩)),
    onward.trans later⟩, kept_of_own (inside.trans moved) ?_⟩
  intro f below script standing index bound
  rw [thread, Thread.frames_withTop, Thread.frames_put, frames] at standing
  have low := Nat.lt_of_lt_of_le bound (standing.base_le script beneath)
  rw [thread, Thread.get_withTop, Thread.get_put, if_neg (by omega), slots index low]

theorem above_of_mark {level : Nat} {base : List Frame} (tidy : s.Tidy t mine)
    (mark : (level, base.length) ∈ marks mine) (suffix : base <:+ (s.thread t).frames) :
    (s.thread t).Above level base := by
  obtain ⟨base', length, above⟩ := tidy.marked level base.length mark
  have left := above.stacked.keepFrames_base
  rw [length, keepFrames_of_suffix suffix] at left
  rw [left]
  exact above

theorem guard_proceeds {place depth : Nat} (apart : s.Apart t (.guard t place depth :: rest))
    (failing : s.Failing t (.guard t place depth :: ofThread t rest)) (e : Error) :
    Harmless s (failTop .bare s (.guard t place depth) rest e) := by
  have active : Activity.guard t place depth :: ofThread t rest ≠ [] := List.cons_ne_nil _ _
  have thread := thread_modifyThread_self s unpin (failing.valid active)
  obtain ⟨base, suffix, bounded, ⟨beneath, -⟩, rfl, expects⟩ := failing.expects
  have above := above_of_mark failing.toTidy (.head _) suffix
  have inside : s.Local t 0 (s.modifyThread t unpin) := local_modifyThread rfl
  have tidy := unpinned failing.toTidy
  have gives := apart.pop inside rfl
  have asks := apart.chained.guards.asks
  simp only [failTop]
  refine .after (sustains_unpin s t) ?_
  split
  · apply catch_proceeds gives tidy asks.hears _ bounded beneath expects
    rw [thread]
    exact ⟨above.stacked, above.top⟩
  · refine .of_sustains (.failing gives ⟨tidy, ⟨base, ?_, expects⟩, ?_⟩ asks.hears) (.refl _) <;>
      rw [thread]
    · exact suffix
    · exact failing.quiet

theorem passes (apart : s.Apart t rest) (tidy : s.Tidy t (ofThread t rest))
    (quiet : (s.thread t).yielding = false) {base : List Frame}
    (suffix : base <:+ (s.thread t).frames) (expects : Expects (ofThread t rest) base)
    (hears : Hears t rest) (e : Error) : Harmless s ⟨s, rest, .fail e⟩ :=
  .of_sustains (.failing apart ⟨tidy, ⟨base, suffix, expects⟩, quiet⟩ hears) (.refl s)

theorem fail_passes (next : Pending) (passes : ¬next.Resumes) (e : Error) :
    ∃ e', next.fail .bare t e s = .error e' s := by
  cases next with
  | resumed => exact absurd (.inl rfl) passes
  | wrapped => exact absurd (.inr rfl) passes
  | _ => exact ⟨_, rfl⟩

theorem collect_fails {place : Nat} (apart : s.Apart t (.collect t place :: rest))
    (failing : s.Failing t (.collect t place :: ofThread t rest)) (e : Error) :
    Harmless s ⟨s.modifyThread t unpin, rest, .fail e⟩ := by
  have thread := thread_modifyThread_self s unpin (failing.valid (List.cons_ne_nil _ _))
  have inside : s.Local t 0 (s.modifyThread t unpin) := local_modifyThread rfl
  have asks := apart.chained.asks
  obtain ⟨base, suffix, -, -, expects⟩ := failing.expects
  have tidy : (s.modifyThread t unpin).Tidy t (ofThread t rest) := by
    refine failing.toTidy.unpin (by simp [pins]) (by simp) ⟨rfl, rfl, rfl, rfl, id⟩
      failing.layers.top rfl ?_
    exact failing.marked.map (fun _ => id) fun _ _ _ above => ⟨above.stacked, above.top⟩
  refine .after (sustains_unpin s t)
    (passes (apart.pop inside rfl) tidy ?_ ?_ expects asks.hears e) <;> rw [thread]
  · exact failing.quiet
  · exact suffix

theorem restore_fails {level depth : Nat} (apart : s.Apart t (.restore t level depth :: rest))
    (failing : s.Failing t (.restore t level depth :: ofThread t rest)) (e : Error) :
    Harmless s ⟨s.unwind t level depth, rest, .fail e⟩ := by
  have active := List.cons_ne_nil (Activity.restore t level depth) (ofThread t rest)
  have valid := failing.valid active
  obtain ⟨base, suffix, bounded, beneath, rfl, expects⟩ := failing.expects
  have above := above_of_mark failing.toTidy (.head _) suffix
  have unwound := unwound_unwind s level base.length valid
  have tidy : s.Tidy t (ofThread t rest) := failing.toTidy.under rfl (by simp)
  have back := tidy.unwind apart.linked valid (failing.held active) above bounded beneath
    fun _ _ => expects.depth_le
  have inside : s.Local t 0 (s.unwind t level base.length) := s.local_unwind level base.length
  have kept : ∀ f below, f.kind = .script →
      Standing ((s.unwind t level base.length).thread t).frames f below → ∀ index, index < f.base →
      ((s.unwind t level base.length).thread t).get index = (s.thread t).get index := by
    intro f below script standing index bound
    rw [unwound.frames, above.stacked.keepFrames_base] at standing
    exact unwound.slots index (Nat.lt_of_lt_of_le bound (standing.base_le script beneath))
  refine ⟨⟨.settled ((apart.pop inside rfl).sound ⟨back, ?_, ?_, fun active => ?_⟩)
    (.inr (.inr ⟨e, rfl⟩)), onward_unwind apart.linked valid above⟩, kept_of_own inside kept⟩
  · rw [unwound.frames, above.stacked.keepFrames_base]
    exact expects
  · exact fun _ => unwound.yielding
  · simp [apart.chained.outermost, ofThread] at active

theorem resumption_fails (apart : s.Apart t (.resumption t :: rest))
    (failing : s.Failing t (.resumption t :: ofThread t rest)) (e : Error) :
    Harmless s ⟨killCoroutine s t, rest, .fail e⟩ := by
  obtain ⟨base, suffix, idle, -⟩ := failing.expects
  have tidy := failing.toTidy
  rw [idle] at tidy
  have inside : s.Local t 0 (killCoroutine s t) := local_killCoroutine s t
  refine ⟨⟨.settled ((apart.pop inside rfl).sound ?_) (.inr (.inr ⟨e, rfl⟩)),
    onward_kill apart.linked⟩, kept_of_own inside ?_⟩
  · rw [idle]
    exact tidy.kill apart.linked
  · intro f below _ standing
    rw [frames_killCoroutine s (failing.valid (List.cons_ne_nil _ _))] at standing
    exact absurd standing Standing.nil_elim

theorem failing_proceeds (apart : s.Apart t (a :: rest))
    (failing : s.Failing t (ofThread t (a :: rest))) (hears : Hears t (a :: rest)) (e : Error) :
    Harmless s (failTop .bare s a rest e) := by
  have own : a.thread = t := by
    obtain ⟨b, below, same, own⟩ := hears.exists_cons
    cases same
    exact own
  rw [ofThread_self own] at failing
  have gives : s.Apart t rest := apart.pop (.refl s : s.Local t 0 s) own
  cases a with
  | script r floor =>
      cases own
      have starts := apart.chained.starts
      obtain ⟨_, suffix, upper, base, rfl, -, -, expects⟩ := failing.expects
      exact passes gives (failing.toTidy.under rfl (by simp)) failing.quiet
        ((List.suffix_append upper base).trans suffix) expects starts.hears e
  | native r next =>
      cases own
      have serves := apart.chained.serves
      obtain ⟨base, suffix, f, below, rfl, -, -, expects⟩ := failing.expects
      obtain ⟨e', handed⟩ := fail_passes (t := r) (s := s) next hears.2 e
      simp only [failTop, perform, handed]
      exact passes gives (failing.toTidy.under rfl (by simp)) failing.quiet
        ((List.suffix_cons f below).trans suffix) expects serves.hears e'
  | collect r place =>
      cases own
      exact collect_fails apart failing e
  | restore r level depth =>
      cases own
      exact restore_fails apart failing e
  | guard r place depth =>
      cases own
      exact guard_proceeds apart failing e
  | resumption r =>
      cases own
      exact resumption_fails apart failing e

theorem fail_proceeds (sound : s.Sound (a :: rest)) (e : Error) :
    Harmless s (failTop .bare s a rest e) := by
  have active : ofThread a.thread (a :: rest) ≠ [] := by
    simp [ofThread_self (rfl : a.thread = a.thread)]
  have failing := (sound.settled a.thread).failing active
  by_cases waits : ∃ t next, a = .native t next
  · obtain ⟨t, next, rfl⟩ := waits
    have settled : s.Settled t (.native t next :: ofThread t rest) := sound.top rfl
    obtain ⟨f, base, working⟩ := settled.working
    have serves := sound.chained.serves
    have apart : s.Apart t rest := (sound.apart t).pop (.refl s : s.Local t 0 s) rfl
    exact perform_native_proceeds apart working serves
      fun low ready => leads_left (next.keeps_fail ready.permits e)
  · refine failing_proceeds (sound.apart a.thread) failing ?_ e
    cases a with
    | native t next => exact absurd ⟨t, next, rfl⟩ waits
    | _ => rfl

theorem leaving_proceeds {activities below : List Activity} (apart : s.Apart t activities)
    (leaving : s.Leaving t below) (shape : activities = .resumption t :: below ∨
      ∃ floor, activities = .script t floor :: .resumption t :: below) (values : Array Value) :
    Harmless s (step .bare ⟨s, activities, .done values⟩) := by
  have yielding := leaving.yielding
  have unpinned : (s.thread t).pinned = 0 := leaving.pinned
  rcases shape with rfl | ⟨floor, rfl⟩
  · have coroutine := leaving.coroutine t (.head _)
    have thread := thread_modifyThread_self s (fun th =>
      { th with status := .suspended, yielded := #[], held := false })
      (leaving.valid (List.cons_ne_nil _ _))
    have inside : s.Local t 0 (s.modifyThread t fun th =>
      { th with status := .suspended, yielded := #[], held := false }) := local_modifyThread rfl
    simp only [step, succeed, endResumption, yielding, if_true]
    refine .of_sustains (.settled ((apart.pop inside rfl).sound ?_) (.inr (.inl ⟨_, rfl⟩)))
      (sustains_modifyThread s t rfl rfl rfl)
    rw [leaving.alone]
    apply settled_resting <;> rw [thread]
    · exact coroutine
    · exact unpinned
    · obtain ⟨f, base, head, native, scripts⟩ := leaving.head
      exact .suspended rfl yielding unpinned head native scripts
    · exact leaving.frames
    · exact leaving.layers.of_same rfl (.inl rfl)
    · exact leaving.witnessed
  · simp only [step, succeed, yielding, if_true]
    have gives := apart.pop (.refl s : s.Local t 0 s) rfl
    exact .of_sustains (.leaving gives leaving (.inl rfl)) (.refl s)

theorem Healthy.step_harmless {m : Machine} (healthy : m.Healthy) :
    Harmless m.store (m.step .bare) ∨ ∃ t floor rest, m.activities = .script t floor :: rest ∧
      m.control = .run ∧ m.store.Sound (.script t floor :: rest) := by
  cases healthy with
  | @settled s activities control sound goes =>
      cases activities with
      | nil =>
          have same : Machine.step .bare ⟨s, [], control⟩ = ⟨s, [], control⟩ := by
            rcases goes with rfl | ⟨values, rfl⟩ | ⟨e, rfl⟩ <;> rfl
          rw [same]
          exact .inl (.of_sustains (.settled sound goes) (.refl s))
      | cons a rest =>
          rcases goes with rfl | ⟨values, rfl⟩ | ⟨e, rfl⟩
          · cases a with
            | script t floor => exact .inr ⟨t, floor, rest, rfl, rfl, sound⟩
            | _ => exact .inl (.of_sustains (.settled sound (.inl rfl)) (.refl s))
          · exact .inl (succeed_proceeds sound values)
          · exact .inl (fail_proceeds sound e)
  | entered apart working serves yieldable arrived =>
      exact .inl (enter_proceeds apart working serves yieldable arrived _)
  | leaving apart leaving shape => exact .inl (leaving_proceeds apart leaving shape _)
  | @failing s activities t e apart failing hears =>
      cases activities with
      | nil => exact hears.elim
      | cons a rest => exact .inl (failing_proceeds apart failing hears e)
  | @lost s t below e sound invalid =>
      simp only [Machine.step, failTop, killCoroutine_invalid invalid]
      exact .inl (proceeds_fail sound e)

/-- Every step keeps the invariant and closes what it has to. -/
theorem Healthy.step {m : Machine} (healthy : m.Healthy) : Proceeds m.store (m.step .bare) := by
  obtain harmless | ⟨t, floor, rest, activities, control, sound⟩ := healthy.step_harmless
  · exact harmless.toProceeds
  · obtain ⟨s, _, _⟩ := m
    cases activities
    cases control
    exact runScript_proceeds sound

theorem Healthy.after {m : Machine} (healthy : m.Healthy) (k : Nat) :
    (m.after .bare k).Healthy := by
  induction k with
  | zero => exact healthy
  | succ k ih => exact ih.step.healthy

end Machine

end RegisterVm
