import RegisterVm.Proofs.Metatable.Turns

/-!
A handler while it runs. The frame of the interrupted instruction waits below the handler's own,
whatever the handler calls and also while a coroutine that has yielded in it rests; the slots below
the handler change by assignments through cells alone. When the handler ends, its results reach the
instruction's target and the frame goes on.
-/

namespace RegisterVm

open Machine

namespace Interruption

variable {c : Interruption} {h : Frame} {m m' : Machine} {s : Store} {pinned floor : Nat}
  {under rest activities : List Activity} {values : Nat → Value}

theorem yields_step (handler : c.Handler h) (healthy : m.Healthy)
    (above : (m.store.thread c.thread).Above h.base (h :: c.frames))
    (yielding : (m.store.thread c.thread).yielding = true)
    (resumed : .resumption c.thread ∈ m.activities) : c.Outcome m (m.step .bare) := by
  have next := healthy.step.healthy
  have active : ofThread c.thread m.activities ≠ [] :=
    List.ne_nil_of_mem (mem_ofThread.2 resumed)
  obtain ⟨s, activities, values, below, rfl, leaving, shape⟩ :=
    healthy.leaving_of_yielding yielding active
  have valid := leaving.valid (List.cons_ne_nil _ _)
  rcases shape with rfl | ⟨floor, rfl⟩
  · have thread := Store.thread_modifyThread_self s (fun th =>
      { th with status := .suspended, yielded := #[], held := false }) valid
    change c.Outcome _ (endResumption s below c.thread)
    change (endResumption s below c.thread).Healthy at next
    simp only [endResumption, show (s.thread c.thread).yielding = true from yielding, if_true]
      at next ⊢
    refine .handling (.rests handler ?_ ?_ fun member => ?_) (.of_same fun index _ => ?_)
    · rw [thread]
      exact ⟨above.stacked, above.top⟩
    · rw [thread]
      exact leaving.coroutine c.thread (.head _)
    · have held := (next.running (by simpa using valid) member).held
      rw [thread] at held
      contradiction
    · rw [thread]
      rfl
  · change c.Outcome _ (if (s.thread c.thread).yielding then
      ⟨s, .resumption c.thread :: below, .done #[]⟩
      else ⟨s, .script c.thread floor :: .resumption c.thread :: below, .run⟩)
    rw [if_pos yielding]
    exact .handling (.yields handler above yielding (.head _)) (.of_same fun _ _ => rfl)

theorem unwind_shorter (marked : MarkedBelow c.thread c.frames.length activities)
    (valid : c.thread < s.threads.size) {level deep : Nat}
    (mark : (level, deep) ∈ marks (ofThread c.thread activities)) :
    ((s.unwind c.thread level deep).thread c.thread).frames.length < c.frames.length := by
  have bound := marked level deep mark
  rw [(s.unwound_unwind level deep valid).frames, Thread.keepFrames, List.length_drop]
  omega

theorem fails_step {e : Error} (healthy : Healthy ⟨s, activities, .fail e⟩)
    (valid : c.thread < s.threads.size) (hears : Hears c.thread activities)
    (marked : MarkedBelow c.thread c.frames.length activities) :
    c.Outcome ⟨s, activities, .fail e⟩ (step .bare ⟨s, activities, .fail e⟩) := by
  obtain ⟨a, rest, rfl, own⟩ := hears.exists_cons
  have inner : MarkedBelow c.thread c.frames.length rest := by
    intro level deep mark
    refine marked level deep ?_
    rw [ofThread_self own]
    cases a with
    | guard | restore => exact .tail _ mark
    | _ => exact mark
  have goes : ∀ {e'}, Hears c.thread rest →
      c.Outcome ⟨s, a :: rest, .fail e⟩ ⟨s, rest, .fail e'⟩ :=
    fun hears => .handling (.fails valid hears inner) (.of_same fun _ _ => rfl)
  have unpinned := Store.thread_modifyThread_self s unpin valid
  have unpins : ∀ {e'}, Hears c.thread rest →
      c.Outcome ⟨s, a :: rest, .fail e⟩ ⟨s.modifyThread c.thread unpin, rest, .fail e'⟩ := by
    refine fun hears => .handling (.fails (by simpa using valid) hears inner)
      (.of_same fun _ _ => ?_)
    rw [unpinned]
    rfl
  have killed : c.Outcome ⟨s, a :: rest, .fail e⟩ ⟨killCoroutine s c.thread, rest, .fail e⟩ := by
    refine .lost ?_
    rw [frames_killCoroutine s valid]
    exact Nat.succ_pos _
  rcases healthy.chained with chained | ⟨r, below, e', lost, -⟩
  · cases a with
    | script r floor =>
        obtain rfl : r = c.thread := own
        exact goes chained.starts.hears
    | native r next =>
        obtain rfl : r = c.thread := own
        obtain ⟨e', fails⟩ := fail_passes (t := c.thread) (s := s) next hears.2 e
        change c.Outcome _ (perform s _ (next.fail .bare c.thread e) _)
        simp only [perform, fails]
        exact goes chained.serves.hears
    | collect r place =>
        obtain rfl : r = c.thread := own
        exact unpins chained.asks.hears
    | restore r level depth =>
        obtain rfl : r = c.thread := own
        refine .lost (unwind_shorter marked valid ?_)
        rw [ofThread_self (by rfl)]
        exact .head _
    | guard r place depth =>
        obtain rfl : r = c.thread := own
        have mark : (place, depth) ∈
            marks (ofThread c.thread (.guard c.thread place depth :: rest)) := by
          rw [ofThread_self (by rfl)]
          exact .head _
        simp only [step, failTop]
        split
        · refine .lost ?_
          have frames := Store.field_modifyThread Thread.frames
            ((s.modifyThread c.thread unpin).unwind c.thread place depth) c.thread c.thread
            (fun th => (th.put place e.value).withTop (place + 1)) fun _ => rfl
          rw [catchFailure, frames]
          exact unwind_shorter marked (by simpa using valid) mark
        · exact unpins chained.guards.asks.hears
    | resumption r =>
        obtain rfl : r = c.thread := own
        exact killed
  · cases lost
    obtain rfl : r = c.thread := own
    exact killed

theorem Handling.drop (handling : c.Handling m) (t : ThreadRef) : c.Handling (m.drop t) := by
  obtain ⟨openCells, thread⟩ := Store.alike_closeCells m.store t c.thread 0
  cases handling with
  | script handler scripts inside runs => exact .script handler scripts inside (runs.drop t).here
  | waits handler native inside runs top =>
      exact .waits handler native inside (runs.drop t).here
        (Nat.le_trans top (Nat.le_of_eq (congrArg Thread.top thread).symm))
  | enters handler native inside frames =>
      exact .enters handler native inside ((congrArg Thread.frames thread).trans frames)
  | yields handler above yielding resumed =>
      exact .yields handler (thread.symm ▸ ⟨above.stacked, above.top⟩)
        ((congrArg Thread.yielding thread).trans yielding) resumed
  | rests handler above coroutine idle =>
      exact .rests handler (thread.symm ▸ ⟨above.stacked, above.top⟩)
        ((congrArg Thread.isMain thread).trans coroutine) idle
  | fails valid hears marked =>
      exact .fails ((Store.threadCount_closeCells _ t 0).symm ▸ valid) hears marked

theorem Handler.deliver (handler : c.Handler h) (script : c.caller.kind = .script) {th : Thread}
    (frames : th.frames = h :: c.frames) (values : Array Value) :
    c.Served th (th.deliver h.base values) values.toList := by
  have above := Nat.le_of_lt handler.formed.owned.base
  have takes : h.takes values.size = c.wanted := by simp [Frame.takes, handler.wanted]
  refine ⟨th.frames_deliver frames _ _, ?_, fun place taken => ?_, fun index low other => ?_⟩
  · rw [th.top_deliver frames]
    simp only [Thread.topAfter, handler.wanted, Interruption.frames, script]
  · rw [← handler.target, th.get_deliver_result frames handler.formed.delivers above values
      (takes ▸ taken)]
    simp [Array.getD_eq_getD_getElem?, List.getD_eq_getElem?_getD]
  · exact th.get_deliver_below frames handler.formed.delivers above values
      (handler.slot ▸ low) (by rw [takes, handler.target]; exact other)

theorem overflows_outcome {arguments : Array Value} {f : Frame} {lower : List Frame}
    (healthy : (beginResumption s activities c.thread arguments).Healthy)
    (same : s.thread c.thread = m.store.thread c.thread)
    (status : (s.thread c.thread).status = .suspended)
    (frames : (s.thread c.thread).frames = f :: lower)
    (exceeds : (s.thread c.thread).limits.maxStack < f.base + arguments.size) :
    c.Outcome m (beginResumption s activities c.thread arguments) := by
  obtain ⟨s', e, begins, thread⟩ :=
    beginResumption_exceeds activities status frames arguments exceeds
  have valid : c.thread < s'.threads.size := by
    refine Store.lt_of_held ?_
    rw [thread]
  rw [begins] at healthy ⊢
  refine .handling (.fails valid rfl ?_) (.of_same fun index _ => ?_)
  · intro level deep mark
    rw [ofThread_self (by rfl), healthy.below_resumption valid] at mark
    simp [marks] at mark
  · rw [thread, ← same]
    rfl

theorem Handler.goesOn (handler : c.Handler h) (scripts : h.kind = .script)
    (healthy : Healthy ⟨s, .script c.thread 0 :: .resumption c.thread :: activities, .run⟩)
    (valid : c.thread < s.threads.size)
    (above : (s.thread c.thread).Above h.base (h :: c.frames)) :
    c.Handling ⟨s, .script c.thread 0 :: .resumption c.thread :: activities, .run⟩ := by
  have holds : (c.guarding h (s.thread c.thread).pinned
      (.script c.thread 0 :: .resumption c.thread :: activities)).Holds
        (s.thread c.thread).get [] s := {
    linked := healthy.linked
    held := (healthy.running valid (.tail _ (.head _))).held
    clear := .nil
    mark := above
    enough := by
      obtain ⟨upper, frames, -⟩ := above.stacked.exists_append
      change _ ≤ (s.thread c.thread).frames.length
      rw [frames]
      simp [guarding, waiting]
    pinned := rfl
    slots := fun _ _ => rfl }
  exact .script handler scripts (Nat.succ_pos _) (.intro [] holds trivial)

theorem resumes_outcome (handler : c.Handler h) (script : c.caller.kind = .script)
    {arguments : Array Value} {f : Frame} {lower : List Frame}
    (healthy : (beginResumption s activities c.thread arguments).Healthy)
    (same : s.thread c.thread = m.store.thread c.thread)
    (formed : ∀ f ∈ (s.thread c.thread).frames, f.Formed)
    (resting : (s.thread c.thread).Resting) (frames : (s.thread c.thread).frames = f :: lower)
    (stacked : Over h.base (h :: c.frames) (f :: lower)) :
    c.Outcome m (beginResumption s activities c.thread arguments) := by
  have valid := Store.lt_of_frames frames
  rw [frames] at formed
  have own := formed f (.head _)
  cases resting with
  | fresh status none | dead status none =>
      rw [frames] at none
      cases none
  | @suspended status yielding unpinned g below head native scripts =>
  obtain ⟨rfl, rfl⟩ := List.cons.inj (frames.symm.trans head)
  by_cases fits : f.base + arguments.size ≤ (s.thread c.thread).limits.maxStack
  · obtain ⟨s', begins, becomes⟩ :=
      beginResumption_suspended activities status frames own arguments fits
    -- The coroutine as it was, but awake and held.
    obtain ⟨th, head, slots, looks⟩ : ∃ th : Thread, th.frames = f :: lower ∧
        (∀ index, th.get index = (m.store.thread c.thread).get index) ∧
        (th.deliver f.base arguments).Looks (s'.thread c.thread) := by
      refine ⟨{ s.thread c.thread with status := .running, held := true, yielding := false },
        frames, fun index => ?_, becomes.looks valid⟩
      rw [← same]
      rfl
    have left : (s'.thread c.thread).frames = lower :=
      looks.frames.trans (th.frames_deliver head _ _)
    have more : lower ≠ [] → Machine.goesOn s' c.thread activities =
        ⟨s', .script c.thread 0 :: .resumption c.thread :: activities, .run⟩ := by
      intro some
      rw [Machine.goesOn, left, if_neg (by simpa using some)]
    rw [begins] at healthy ⊢
    cases stacked with
    | base =>
        have served := (handler.deliver script head arguments).of_looks looks
        rw [more (List.cons_ne_nil _ _)] at begins ⊢
        exact .ends (.resumed same begins.symm) (served.of_slots fun index _ => slots index)
          ⟨0, _, rfl, Nat.succ_pos _, .inl rfl⟩
    | push owned stacked =>
        obtain ⟨upper, rfl, -⟩ := stacked.exists_append
        rw [more (by simp)] at healthy ⊢
        have above : (s'.thread c.thread).Above h.base (h :: c.frames) := by
          refine .of_popped stacked left ?_
          rw [looks.top]
          exact (Thread.top_finish _ (by simpa using head) _ _).imp_left
            (Nat.le_trans owned.target)
        refine .handling (handler.goesOn (scripts h (by simp)) healthy (becomes.valid valid) above)
          (.of_same fun index low => ?_)
        have place := handler.place_lt
        have slot := owned.slot
        have target := owned.target
        exact (looks.slots index).trans ((th.get_deliver_below head own.delivers
          (Nat.le_of_lt own.owned.base) arguments (by omega) (by omega)).trans (slots index))
  · exact overflows_outcome healthy same status frames (Nat.lt_of_not_le fits)

theorem rests_outcome (handler : c.Handler h) (script : c.caller.kind = .script)
    (healthy : m.Healthy) (next : Next m m')
    (above : (m.store.thread c.thread).Above h.base (h :: c.frames))
    (coroutine : (m.store.thread c.thread).isMain = false)
    (idle : .resumption c.thread ∉ m.activities) : c.Outcome m m' := by
  have healthy' := next.healthy healthy
  have held : ∃ f below, (m.store.thread c.thread).frames = f :: below := by
    have stacked := above.stacked
    generalize (m.store.thread c.thread).frames = frames at stacked
    cases stacked with
    | base => exact ⟨_, _, rfl⟩
    | push => exact ⟨_, _, rfl⟩
  obtain ⟨f, lower, frames⟩ := held
  have valid := Store.lt_of_frames frames
  obtain ⟨free, resting⟩ := healthy.resting valid coroutine idle
  rcases next.idle healthy valid coroutine idle with
    spares | ⟨s, activities, arguments, same, -, rfl⟩
  · obtain ⟨stack, openCells, thread⟩ := spares.thread
    have grown := Nat.lt_of_lt_of_le valid (next.grown healthy)
    refine .handling (.rests handler ?_ ?_ (spares.idle healthy' grown free)) fun index low => ?_
    · rw [thread]
      exact ⟨above.stacked, above.top⟩
    · rw [thread]
      exact coroutine
    · rcases spares.slots index with kept | ⟨cell, assigns, found⟩
      · exact .inl kept
      · have busy : m.activities ≠ [] := by
          rintro none
          obtain ⟨s, _, control⟩ := m
          cases none
          cases assigns
        rcases next.busy busy with rfl | ⟨r, rfl⟩
        · exact .inr ⟨rfl, cell, assigns, found⟩
        · exact .inl (get_drop m r c.thread index)
  · obtain ⟨mine, tidy⟩ := healthy.tidy c.thread
    have formed := tidy.frames
    have stacked := above.stacked
    rw [frames] at stacked
    rw [← same] at formed frames resting
    exact resumes_outcome handler script healthy' same formed resting frames stacked

theorem Handling.outcome (handling : c.Handling m) (script : c.caller.kind = .script)
    (healthy : m.Healthy) (next : Next m m') : c.Outcome m m' := by
  have acts : m.activities ≠ [] → c.Outcome m (m.step .bare) → c.Outcome m m' := by
    intro busy steps
    rcases next.busy busy with rfl | ⟨r, rfl⟩
    · exact steps
    · exact .handling (handling.drop r) (.of_same fun index _ => get_drop m r c.thread index)
  cases handling with
  | script handler scripts inside runs =>
      refine acts ?_ (script_step handler script scripts inside healthy runs)
      cases runs with
      | intro above => simp [guarding]
  | waits handler native inside runs top =>
      refine acts ?_ (waits_step handler script native inside healthy runs top)
      cases runs with
      | intro above => simp [guarding]
  | enters handler native inside frames =>
      exact acts (List.cons_ne_nil _ _) (enters_outcome handler script native inside frames healthy)
  | yields handler above yielding resumed =>
      exact acts (List.ne_nil_of_mem resumed) (yields_step handler healthy above yielding resumed)
  | rests handler above coroutine idle =>
      exact rests_outcome handler script healthy next above coroutine idle
  | fails valid hears marked =>
      refine acts ?_ (fails_step healthy valid hears marked)
      obtain ⟨a, rest, rfl, -⟩ := hears.exists_cons
      exact List.cons_ne_nil _ _

theorem Handling.deep (handling : c.Handling m) (well : ∀ e, m.control ≠ .fail e) :
    c.frames.length < (m.store.thread c.thread).frames.length := by
  have above : ∀ {h : Frame} {frames : List Frame}, Over h.base (h :: c.frames) frames →
      c.frames.length < frames.length := by
    intro h frames stacked
    obtain ⟨upper, rfl, -⟩ := stacked.exists_append
    simp only [List.length_append, List.length_cons]
    omega
  cases handling with
  | script handler script inside runs | waits handler native inside runs =>
      cases runs with
      | intro upper holds => exact above holds.mark.stacked
  | enters handler native inside frames =>
      rw [frames]
      exact Nat.lt_succ_self _
  | yields handler marked | rests handler marked => exact above marked.stacked
  | fails => exact absurd rfl (well _)

/-- A handler runs for as long as the thread keeps more frames than the interrupted one and those
below it, and leaves the slots below its own alone but for assignments. -/
theorem Handling.run {path : Nat → Machine} {n : Nat} (handling : c.Handling (path 0))
    (script : c.caller.kind = .script) (healthy : (path 0).Healthy)
    (deep : Deep c.thread c.frames path n) (k : Nat) (upto : k ≤ n) :
    c.Handling (path k) ∧ (path k).Healthy ∧ ∀ j, j < k → c.Kept (path j) (path (j + 1)) := by
  induction k with
  | zero => exact ⟨handling, healthy, fun j bound => absurd bound (Nat.not_lt_zero j)⟩
  | succ k ih =>
      obtain ⟨handling, healthy, before⟩ := ih (Nat.le_of_succ_le upto)
      have next := deep.next k upto
      have still := deep.deep (k + 1) upto
      have healthy' := (next.proceeds healthy).healthy
      cases handling.outcome script healthy next with
      | handling handling' kept =>
          refine ⟨handling', healthy', fun j bound => ?_⟩
          rcases Nat.lt_succ_iff_lt_or_eq.1 bound with earlier | rfl
          · exact before j earlier
          · exact kept
      | lost fewer => omega
      | failed control gone => omega
      | ends gives served => exact absurd (served.frames ▸ still) (Nat.lt_irrefl _)

structure Finished (c : Interruption) (path : Nat → Machine) (n : Nat) (results : List Value) :
    Prop where
  gives : c.Gives (path n) (path (n + 1)) results
  served : c.Served ((path n).store.thread c.thread) ((path (n + 1)).store.thread c.thread) results
  goes : c.GoesOn (path (n + 1))
  kept : ∀ index, index < c.place → ¬(c.target ≤ index ∧ index < c.target + c.wanted) →
    Stored c.thread index path (n + 1) (((path 0).store.thread c.thread).get index)
      (((path (n + 1)).store.thread c.thread).get index)

theorem Handling.finishes {path : Nat → Machine} {n : Nat} (handling : c.Handling (path 0))
    (script : c.caller.kind = .script) (healthy : (path 0).Healthy)
    (back : ComesBack c.thread c.frames path n) : ∃ results, c.Finished path n results := by
  obtain ⟨handling, healthy, kept⟩ := handling.run script healthy back.toDeep n (Nat.le_refl n)
  have length := back.back
  cases handling.outcome script healthy back.last with
  | handling handling' => exact absurd (handling'.deep back.well) (by omega)
  | lost fewer => omega
  | failed control => exact absurd control (back.well _)
  | @ends results gives served goes =>
      refine ⟨results, gives, served, goes, fun index low other => ?_⟩
      refine stored_of_steps fun k bound => ?_
      rcases Nat.lt_succ_iff_lt_or_eq.1 bound with earlier | rfl
      · exact kept k earlier index low
      · exact .inl (served.kept index low other)

theorem GoesOn.runs (goes : c.GoesOn m) :
    ∃ m', (m' = m ∨ m' = m.step .bare) ∧ m'.store = m.store ∧ m'.control = .run ∧
      ∃ floor rest, m'.activities = .script c.thread floor :: rest ∧ floor < c.frames.length := by
  obtain ⟨s, activities, control⟩ := m
  obtain ⟨floor, rest, script, inside, control | ⟨⟨values, done⟩, quiet⟩⟩ := goes
  · exact ⟨_, .inl rfl, rfl, control, floor, rest, script, inside⟩
  · dsimp only at script done quiet
    subst script done
    refine ⟨⟨s, .script c.thread floor :: rest, .run⟩, .inr ?_, rfl, rfl, floor, rest, rfl, inside⟩
    simp only [Machine.step, succeed, quiet]
    rfl

end Interruption

end RegisterVm
