import RegisterVm.Proofs.Metatable.Interruptions

/-!
The turns of a handler: an instruction of its script, the beginning of its native function, and what
that function does when a call that it asked for has ended.
-/

namespace RegisterVm

open Machine

namespace Interruption

variable {c : Interruption} {h : Frame} {m m' : Machine} {s : Store} {pinned floor : Nat}
  {under rest activities : List Activity} {values : Nat → Value}

theorem Handler.ends (handler : c.Handler h) (script : c.caller.kind = .script)
    (frames : (s.thread c.thread).frames = h :: c.frames)
    (quiet : (s.thread c.thread).yielding = false) {count : Nat}
    (room : h.base + count ≤ (s.thread c.thread).top) {s' : Store}
    (finishes : s' = s.modifyThread c.thread fun th => if th.yielding then th
      else th.finish (th.top - min count th.top) (min count th.top)) :
    c.Served (s.thread c.thread) (s'.thread c.thread)
        ((s.thread c.thread).values ((s.thread c.thread).top - count) count) ∧
      (s'.thread c.thread).yielding = false := by
  have place := handler.place_lt
  have all : min count (s.thread c.thread).top = count := by omega
  have finished : s'.thread c.thread =
      (s.thread c.thread).finish ((s.thread c.thread).top - count) count := by
    rw [finishes, Store.thread_modifyThread_self _ _ (Store.lt_of_frames frames), quiet,
      if_neg Bool.false_ne_true, all]
  have steady := (Thread.reworked_finish _ frames (Nat.zero_le _) (Nat.zero_le _)
    ((s.thread c.thread).top - count) count).steady
  rw [finished]
  exact ⟨handler.finish script frames (by omega) count, steady.yielding.trans quiet⟩

section Natives

variable {control : Control} {action : Action NativeOutcome}

theorem native_outcome (handler : c.Handler h) (script : c.caller.kind = .script)
    (native : h.kind = .native) (inside : floor < c.frames.length)
    (frames : (s.thread c.thread).frames = h :: c.frames) (linked : s.Linked)
    (held : (s.thread c.thread).held = true) (quiet : (s.thread c.thread).yielding = false)
    (marked : MarkedBelow c.thread c.frames.length (.script c.thread floor :: rest))
    (top : h.base ≤ (s.thread c.thread).top)
    (gives : ∀ results, s.pushed? c.thread action = some results →
      c.Gives ⟨s, activities, control⟩ (perform s (.script c.thread floor :: rest) action
        fun s outcome => settle s (.script c.thread floor :: rest) c.thread outcome) results)
    (keeps : Keeps (Calm c.thread h.base s) action (Leaves c.thread s True))
    (covers : Leads action s (Covered c.thread h.base) fun _ => True) :
    c.Outcome ⟨s, activities, control⟩ (perform s (.script c.thread floor :: rest) action
      fun s outcome => settle s (.script c.thread floor :: rest) c.thread outcome) := by
  have valid := Store.lt_of_frames frames
  have place := handler.place_lt
  have leads := ((keeps.leads (.refl _ _ _)).and covers).and (leads_self action s)
  refine perform_elim (p := fun m => (∀ results, s.pushed? c.thread action = some results →
    c.Gives ⟨s, activities, control⟩ m results) → c.Outcome ⟨s, activities, control⟩ m) leads ?_ ?_
    gives
  · rintro outcome s' ⟨⟨⟨calm, leaves⟩, covered⟩, acts⟩ gives
    have slots : ∀ index, index < c.place →
        (s'.thread c.thread).get index = (s.thread c.thread).get index :=
      fun index bound => calm.confined.own.slots index (by omega)
    have valid := Nat.lt_of_lt_of_le valid calm.confined.grown
    have top := calm.low_le_top top
    have quiet := calm.confined.own.yielding.trans quiet
    have leaves := leaves.calm calm
    have frames := calm.frames.trans frames
    have holds := fun next => holds_top (calm.confined.linked linked)
      (calm.confined.own.held.trans held) frames
      (.native c.thread next :: .script c.thread floor :: rest)
    have begun : ∀ {next m}, (c.guarding h (s'.thread c.thread).pinned
        (.native c.thread next :: .script c.thread floor :: rest)).Runs (s'.thread c.thread).get m →
        h.base ≤ (m.store.thread c.thread).top → c.Outcome ⟨s, activities, control⟩ m := by
      intro next m runs top
      refine .handling (.waits handler native inside runs.here top) (.of_same fun index bound => ?_)
      exact (runs.slots (Nat.lt_trans bound place)).trans (slots index bound)
    cases outcome with
    | returns count =>
        have room := covered count rfl
        obtain ⟨served, still⟩ := handler.ends script frames quiet room rfl
        refine .ends (gives _ ?_) (served.of_slots slots)
          ⟨floor, rest, rfl, inside, .inr ⟨⟨_, rfl⟩, still⟩⟩
        have all : min count (s'.thread c.thread).top = count := by omega
        simp only [Store.pushed?, acts, all]
    | calls callee arguments restoring next =>
        obtain ⟨rfl, -⟩ := leaves
        exact begun (Guarding.beginValueCall_runs (holds next) valid
          (by simpa [Guarding.low, guarding] using top) callee arguments)
          (beginValueCall_top valid top callee arguments)
    | protects place arguments next =>
        obtain ⟨-, rfl⟩ := leaves
        have base : ((s'.thread c.thread).frame?.map Frame.base).getD 0 = h.base := by
          rw [Thread.frame?, frames]
          rfl
        rw [base]
        exact begun (Guarding.beginGuardedCall_runs (holds next) valid
          (by simp [Guarding.low, guarding]) arguments)
          (beginGuardedCall_top valid top (Nat.le_refl _) arguments)
    | resumes co arguments next =>
        have free := Coroutine.held_of_refusal leaves.2.1
        exact begun (Guarding.beginResumption_runs (holds next) free arguments)
          ((holds next).top_resumed free _ arguments ▸ top)
  · rintro e s' ⟨⟨calm, -⟩, -⟩ -
    refine .handling (.fails (Nat.lt_of_lt_of_le valid calm.confined.grown) rfl marked)
      (.of_same fun index bound => calm.confined.own.slots index (by omega))

end Natives

theorem Handler.remains (handler : c.Handler h) (scripts : h.kind = .script)
    (inside : floor < c.frames.length)
    (marked : MarkedBelow c.thread c.frames.length (.script c.thread floor :: rest))
    {control : Control} (pc : Nat) (linked : s.Linked) (held : (s.thread c.thread).held = true)
    (frames : (s.thread c.thread).frames = { h with pc } :: c.frames)
    (goes : control = .run ∨ ∃ e, control = .fail e) :
    c.Handling ⟨s, .script c.thread floor :: rest, control⟩ := by
  rcases goes with rfl | ⟨e, rfl⟩
  · exact .script (handler.move pc) scripts inside
      (.intro [] (holds_top linked held frames _) trivial)
  · exact .fails (Store.lt_of_held held) rfl marked

theorem Handler.calls (handler : c.Handler h) (scripts : h.kind = .script)
    (inside : floor < c.frames.length) (linked : s.Linked)
    (held : (s.thread c.thread).held = true) {g : Frame} (owned : g.Owned h.base)
    (frames : (s.thread c.thread).frames = g :: h :: c.frames)
    (top : (s.thread c.thread).top = g.top) (callee : Entered) :
    c.Handling ⟨s, .script c.thread floor :: rest, callee.control c.thread⟩ := by
  have more : (h :: c.frames).length < (s.thread c.thread).frames.length :=
    Nat.le_of_eq (congrArg List.length frames).symm
  have holds : (c.guarding h (s.thread c.thread).pinned (.script c.thread floor :: rest)).Holds
      (s.thread c.thread).get [] s := {
    linked := linked
    held := held
    clear := .nil
    mark := .of_pushed .base owned frames top
    enough := Nat.le_of_lt more
    pinned := rfl
    slots := fun _ _ => rfl }
  exact .script handler scripts inside
    (.intro [] holds (Guarding.enters_control callee holds.valid fun _ => more))

theorem script_outcome (handler : c.Handler h) (script : c.caller.kind = .script)
    (inside : floor < c.frames.length) (frames : (s.thread c.thread).frames = h :: c.frames)
    (linked : s.Linked) (held : (s.thread c.thread).held = true)
    (marked : MarkedBelow c.thread c.frames.length (.script c.thread floor :: rest))
    {ref : ClosureRef} (callee : h.callee = .closure ref) :
    c.Outcome ⟨s, .script c.thread floor :: rest, .run⟩
      (step .bare ⟨s, .script c.thread floor :: rest, .run⟩) := by
  have valid := Store.lt_of_held held
  have place := handler.place_lt
  have scripts := handler.kind_of_closure callee
  have owned := handler.formed.owned
  have base : h.floor = h.base := owned.floor_eq
  have within := Nat.le_of_lt inside
  have steps : step .bare ⟨s, .script c.thread floor :: rest, .run⟩ =
      runInstruction s (.script c.thread floor :: rest) c.thread h (s.closure ref) :=
    runScript_eq rest frames within callee
  have ran := runInstruction_ran (.script c.thread floor :: rest) valid frames callee
  have ret := ret_finishes (.script c.thread floor :: rest) valid frames callee
  rw [← steps] at ran ret
  generalize same : step .bare ⟨s, .script c.thread floor :: rest, .run⟩ = m' at ran ret ⊢
  have kept : ∀ {s' : Store} {low : Nat}, s.Confined c.thread low s' → c.place ≤ low →
      ∀ index, index < c.place → (s'.thread c.thread).get index = (s.thread c.thread).get index :=
    fun confined above index bound => confined.own.slots index (by omega)
  cases ran with
  | stayed pc confined frames' top goes =>
      exact .handling (handler.remains scripts inside marked pc (confined.linked linked)
        (confined.own.held.trans held) frames' goes) (.of_same (kept confined (by omega)))
  | @assigned s' _ pc cell value assigns written goes =>
      have advance : s.Confined c.thread 0 (s.modifyThread c.thread fun th => th.setPc pc) :=
        Store.confined_reworked (Thread.reworked_setPc _ _)
      obtain ⟨stack, thread⟩ := thread_assigned valid frames pc cell value
      rw [← written] at thread
      refine .handling (handler.remains scripts inside marked pc ?_ (by rw [thread]; exact held)
        (by rw [thread]) goes) ?_
      · exact written ▸ (advance.linked linked).writeCell cell value
      · intro index bound
        by_cases equal : (s'.thread c.thread).get index = (s.thread c.thread).get index
        · exact .inl equal
        · obtain ⟨found, assigned⟩ := assigned_of_ne frames written equal
          refine .inr ⟨same.symm, cell, ?_, found⟩
          simp only [assignment?, frames, if_neg (Nat.not_lt.2 within), assigns, assigned]
  | @entered s' callee place' destination pc g fresh above deliver confined cells frames' top =>
      have owned := fresh.owned (base ▸ above) (base ▸ deliver)
      exact .handling ((handler.move pc).calls scripts inside (confined.linked linked)
        (confined.own.held.trans held) owned frames' top callee)
        (.of_same (kept confined (by omega)))
  | @replaced s' callee g fresh confined frames' top shut wanted =>
      have next := handler.replaced fresh wanted
      refine .handling ?_ (.of_same (kept confined (Nat.le_of_eq handler.slot.symm)))
      cases callee with
      | script =>
          exact .script next fresh.kind inside (.intro []
            (holds_top (confined.linked linked) (confined.own.held.trans held) frames' _) trivial)
      | native body => exact .enters next fresh.kind inside frames'
  | returned popped shut returns =>
      obtain ⟨source, n, openCells, above, returned, finished⟩ := ret returns
      have moved : ({ s.thread c.thread with
          frames := { h with pc := h.pc + 1 } :: c.frames, openCells } : Thread).frames =
          { h with pc := h.pc + 1 } :: c.frames := rfl
      have served := (handler.move (h.pc + 1)).finish script moved (by omega : c.place ≤ source) n
      rw [← finished] at served
      refine .ends (.returned same.symm ?_) (served.of_slots fun _ _ => rfl)
        ⟨floor, rest, rfl, inside, .inl rfl⟩
      simp only [results?, Thread.frame?, frames, List.head?_cons, Option.bind_some, returned]
      rfl
  | vacated e confined frames' => exact .failed rfl (Nat.le_of_eq (congrArg List.length frames'))

theorem fails_below {e : Error} (valid : c.thread < s.threads.size)
    (inside : floor < c.frames.length) {control : Control}
    (healthy : Healthy ⟨s, .script c.thread floor :: rest, control⟩) :
    c.Handling ⟨s, rest, .fail e⟩ := by
  rcases healthy.chained with chained | ⟨r, below, e, lost, -⟩
  · exact .fails valid chained.starts.hears (marked_of_healthy inside healthy)
  · cases lost

theorem turn_outcome (handler : c.Handler h) (script : c.caller.kind = .script)
    (scripts : h.kind = .script) (inside : floor < c.frames.length)
    (healthy : Healthy ⟨s, .script c.thread floor :: rest, .run⟩)
    (holds : (c.guarding h pinned (.script c.thread floor :: rest)).Holds
      (s.thread c.thread).get [] s) :
    c.Outcome ⟨s, .script c.thread floor :: rest, .run⟩
      (step .bare ⟨s, .script c.thread floor :: rest, .run⟩) := by
  have stacked : Over h.base (h :: c.frames) (s.thread c.thread).frames := holds.mark.stacked
  generalize frames : (s.thread c.thread).frames = active at stacked
  cases stacked with
  | base =>
      have typed := handler.formed.typed
      simp only [Frame.Typed] at typed
      split at typed
      · rename_i ref callee
        exact script_outcome handler script inside frames holds.linked holds.held
          (marked_script (marked_of_healthy inside healthy)) callee
      · rw [scripts] at typed
        cases typed
      · exact typed.elim
  | @push f below owned stacked =>
      obtain ⟨upper, same, -⟩ := stacked.exists_append
      have length := congrArg List.length same
      simp only [List.length_append, List.length_cons] at length
      have turn := runScript_turn s rest c.thread floor
      change c.Outcome _ (runScript s rest c.thread floor)
      generalize made : runScript s rest c.thread floor = m' at turn ⊢
      cases turn with
      | spent short =>
          rw [frames, List.length_cons] at short
          omega
      | astray head within e =>
          exact .handling (fails_below holds.valid inside healthy) (.of_same fun _ _ => rfl)
      | @runs g lower ref head within callee =>
          obtain ⟨rfl, rfl⟩ := List.cons.inj (frames.symm.trans head)
          have ran : Ran c.thread f below s (.script c.thread floor :: rest) _ :=
            runInstruction_ran (.script c.thread floor :: rest) holds.valid head callee
          rw [← made] at ran ⊢
          obtain ⟨values', follows, next⟩ := Guarding.ran_runs holds holds.valid head within
            (fun _ => by simp only [guarding, waiting, List.length_cons]; omega) rfl ran
          exact .handling (.script handler scripts inside next.here)
            (.of_runs handler rfl follows next)

theorem script_step (handler : c.Handler h) (script : c.caller.kind = .script)
    (scripts : h.kind = .script) (inside : floor < c.frames.length) (healthy : m.Healthy)
    (runs : (c.guarding h pinned (.script c.thread floor :: rest)).Runs
      (m.store.thread c.thread).get m) : c.Outcome m (m.step .bare) := by
  by_cases busy : (c.guarding h pinned (.script c.thread floor :: rest)).Busy m
  · obtain ⟨values', follows, next⟩ := runs.step busy
    exact .handling (.script handler scripts inside next.here) (.of_runs handler rfl follows next)
  · cases runs with
    | @intro s control above holds enters =>
    cases above with
    | cons top above =>
        refine absurd (fun own => ?_) busy
        have length := congrArg List.length own
        simp only [guarding, List.length_append, List.length_cons] at length
        omega
    | nil =>
        change Healthy ⟨s, .script c.thread floor :: rest, control⟩ at healthy
        change c.Outcome ⟨s, .script c.thread floor :: rest, control⟩
          (step .bare ⟨s, .script c.thread floor :: rest, control⟩)
        cases control with
        | enter t body => exact absurd (fun _ => ⟨t, body, rfl⟩) busy
        | run => exact turn_outcome handler script scripts inside healthy holds
        | fail e =>
            exact .handling (fails_below holds.valid inside healthy) (.of_same fun _ _ => rfl)
        | done results =>
            change c.Outcome _ (if (s.thread c.thread).yielding then ⟨s, rest, .done #[]⟩
              else ⟨s, .script c.thread floor :: rest, .run⟩)
            cases yielding : (s.thread c.thread).yielding with
            | false =>
                rw [if_neg Bool.false_ne_true]
                exact .handling (.script handler scripts inside (.intro [] holds trivial))
                  (.of_same fun _ _ => rfl)
            | true =>
                rw [if_pos rfl]
                obtain ⟨_, _, _, below, same, -, shape⟩ := healthy.leaving_of_yielding
                  (t := c.thread) yielding (Hears.ofThread_ne_nil (by rfl))
                cases same
                rcases shape with shape | ⟨_, shape⟩
                · cases shape
                · cases shape
                  exact .handling (.yields handler holds.mark yielding (.head _))
                    (.of_same fun _ _ => rfl)

theorem frames_of_waiting {level : Nat} {next : Pending} {mine : List Activity}
    {frames : List Frame} (native : h.kind = .native) (inside : floor < c.frames.length)
    (stacked : Over level (h :: c.frames) frames)
    (expects : Expects (.native c.thread next :: .script c.thread floor :: mine) frames) :
    frames = h :: c.frames := by
  obtain ⟨f, lower, rfl, -, -, upper, base, split, length, scripts, -⟩ := expects
  cases stacked with
  | base => rfl
  | push owned stacked =>
      -- The native frame would be one of the script's own.
      obtain ⟨above, same, -⟩ := stacked.exists_append
      rw [split] at same
      rcases List.append_eq_append_iff.1 same with ⟨more, rfl, left⟩ | ⟨more, rfl, left⟩
      · have lengths := congrArg List.length left
        simp only [List.length_append, List.length_cons] at lengths
        omega
      · cases more with
        | nil =>
            have lengths := congrArg List.length left
            simp only [List.nil_append, List.length_cons] at lengths
            omega
        | cons g more =>
            obtain ⟨rfl, -⟩ := List.cons.inj left
            have scripted := scripts h (by simp)
            rw [native] at scripted
            cases scripted

theorem pending_outcome (handler : c.Handler h) (script : c.caller.kind = .script)
    (native : h.kind = .native) (inside : floor < c.frames.length) {next : Pending}
    {control : Control}
    (healthy : Healthy ⟨s, .native c.thread next :: .script c.thread floor :: rest, control⟩)
    (holds : (c.guarding h pinned
      (.native c.thread next :: .script c.thread floor :: rest)).Holds (s.thread c.thread).get [] s)
    (top : h.base ≤ (s.thread c.thread).top) (quiet : ∀ t body, control ≠ .enter t body) :
    c.Outcome ⟨s, .native c.thread next :: .script c.thread floor :: rest, control⟩
      (step .bare ⟨s, .native c.thread next :: .script c.thread floor :: rest, control⟩) := by
  have stacked : Over h.base (h :: c.frames) (s.thread c.thread).frames := holds.mark.stacked
  have goes : ∀ action, s.Sound (.native c.thread next :: .script c.thread floor :: rest) →
      (∀ results, s.pushed? c.thread action = some results →
        c.Gives ⟨s, .native c.thread next :: .script c.thread floor :: rest, control⟩
          (perform s (.script c.thread floor :: rest) action fun s outcome =>
            settle s (.script c.thread floor :: rest) c.thread outcome) results) →
      (Ready c.thread h.base s → Keeps (Calm c.thread h.base s) action (Leaves c.thread s True) ∧
        Leads action s (Covered c.thread h.base) fun _ => True) →
      c.Outcome ⟨s, .native c.thread next :: .script c.thread floor :: rest, control⟩
        (perform s (.script c.thread floor :: rest) action fun s outcome =>
          settle s (.script c.thread floor :: rest) c.thread outcome) := by
    intro action sound gives acts
    have settled := sound.top (t := c.thread) rfl
    have expects := settled.expects
    rw [ofThread_self (by rfl)] at expects
    have frames := frames_of_waiting native inside stacked expects
    obtain ⟨keeps, covers⟩ := acts ⟨holds.valid, top, by
      rw [Thread.frame?, frames]
      exact Nat.le_refl _⟩
    obtain ⟨_, _, _, -, -, inner⟩ := expects
    exact native_outcome handler script native inside frames holds.linked holds.held
      (settled.quiet (List.cons_ne_nil _ _))
      (marked_script fun _ _ mark => Nat.lt_of_le_of_lt (inner.floor_le mark) inside) top gives
      keeps covers
  cases control with
  | enter t body => exact absurd rfl (quiet t body)
  | run =>
      exact .handling (.waits handler native inside (.intro [] holds trivial) top)
        (.of_same fun _ _ => rfl)
  | done results =>
      cases healthy with
      | settled sound =>
          exact goes _ sound (fun _ pushed => .returned rfl pushed) fun ready =>
            ⟨ready.keeps_succeed next results, next.covers_succeed ready results⟩
      | leaving apart leaving shape =>
          obtain shape | ⟨_, shape⟩ := shape <;> cases shape
  | fail e =>
      cases healthy with
      | settled sound =>
          exact goes _ sound (fun _ pushed => .returned rfl pushed) fun ready =>
            ⟨next.keeps_fail ready.permits e, next.covers_fail ready e⟩
      | @failing _ _ r _ apart failing hears =>
          obtain rfl : c.thread = r := hears.1
          obtain ⟨e', fails⟩ := fail_passes (t := c.thread) (s := s) next hears.2 e
          obtain ⟨base, -, expects⟩ := failing.expects
          rw [ofThread_self (by rfl), ofThread_self (by rfl)] at expects
          obtain ⟨_, _, _, -, -, inner⟩ := expects
          change c.Outcome _ (perform s _ (next.fail .bare c.thread e) _)
          simp only [perform, fails]
          exact .handling (.fails holds.valid rfl (marked_script
            fun _ _ mark => Nat.lt_of_le_of_lt (inner.floor_le mark) inside))
            (.of_same fun _ _ => rfl)

theorem waits_step (handler : c.Handler h) (script : c.caller.kind = .script)
    (native : h.kind = .native) (inside : floor < c.frames.length) {next : Pending}
    (healthy : m.Healthy)
    (runs : (c.guarding h pinned (.native c.thread next :: .script c.thread floor :: rest)).Runs
      (m.store.thread c.thread).get m) (top : h.base ≤ (m.store.thread c.thread).top) :
    c.Outcome m (m.step .bare) := by
  by_cases busy : (c.guarding h pinned
      (.native c.thread next :: .script c.thread floor :: rest)).Busy m
  · obtain ⟨values', follows, further⟩ := runs.step busy
    have roof : ∀ g ∈ (c.guarding h pinned (.native c.thread next ::
        .script c.thread floor :: rest)).frames.head?, h.base ≤ g.top := by
      rintro g ⟨⟩
      exact handler.formed.owned.top
    exact .handling (.waits handler native inside further.here
      (runs.top_step busy healthy roof top)) (.of_runs handler rfl follows further)
  · cases runs with
    | @intro s control above holds enters =>
    cases above with
    | cons a above =>
        refine absurd (fun own => ?_) busy
        have length := congrArg List.length own
        simp only [guarding, List.length_append, List.length_cons] at length
        omega
    | nil =>
        refine pending_outcome handler script native inside healthy holds top ?_
        rintro t body rfl
        exact busy fun _ => ⟨t, body, rfl⟩

theorem enters_outcome (handler : c.Handler h) (script : c.caller.kind = .script)
    (native : h.kind = .native) (inside : floor < c.frames.length)
    (frames : (s.thread c.thread).frames = h :: c.frames) {body : NativeBody}
    (healthy : Healthy ⟨s, .script c.thread floor :: rest, .enter c.thread body⟩) :
    c.Outcome ⟨s, .script c.thread floor :: rest, .enter c.thread body⟩
      (step .bare ⟨s, .script c.thread floor :: rest, .enter c.thread body⟩) := by
  have valid := Store.lt_of_frames frames
  have marked : MarkedBelow c.thread c.frames.length (.script c.thread floor :: rest) :=
    marked_script (marked_of_healthy inside healthy)
  have next := healthy.step.healthy
  cases healthy with
  | settled sound goes => simp at goes
  | @entered _ _ _ _ f base apart working serves yieldable arrived =>
      obtain ⟨rfl, -⟩ := List.cons.inj (frames.symm.trans working.head)
      have owned := handler.formed.owned
      have top : h.base ≤ (s.thread c.thread).top := arrived.top ▸ owned.top
      by_cases yields : body = .builtin .yield
      · subst yields
        rcases step_yield valid (.script c.thread floor :: rest) with
          ⟨s', steps, thread⟩ | ⟨e, steps⟩
        · rw [steps] at next ⊢
          obtain ⟨_, _, _, below, same, -, shape⟩ := next.leaving_of_yielding (t := c.thread)
            (by rw [thread]) (Hears.ofThread_ne_nil (by rfl))
          refine .handling (.yields handler ?_ (by rw [thread]) ?_) (.of_same fun index _ => ?_)
          · rw [thread]
            exact ⟨frames ▸ .base, .inl (Nat.le_of_eq (congrArg List.length frames))⟩
          · cases same
            rcases shape with shape | ⟨_, shape⟩
            · cases shape
            · exact shape ▸ .tail _ (.head _)
          · rw [thread]
            rfl
        · rw [steps]
          exact .handling (.fails valid rfl marked) (.of_same fun _ _ => rfl)
      · have ready : Ready c.thread h.base s := by
          refine ⟨valid, top, ?_⟩
          rw [Thread.frame?, frames]
          exact Nat.le_refl _
        have filled : h.base + (s.thread c.thread).argumentCount ≤ (s.thread c.thread).top := by
          have count : (s.thread c.thread).argumentCount = h.top - h.base := by
            rw [Thread.argumentCount, Thread.frame?, frames]
            rfl
          have := owned.top
          rw [count, arrived.top]
          omega
        exact native_outcome handler script native inside frames apart.linked
          (working.held (Hears.ofThread_ne_nil (by rfl))) working.quiet marked top
          (fun _ pushed => .returned rfl pushed)
          (body.keeps_enter yields ready.permits fun _ => trivial)
          (body.covers_enter yields valid filled)

end Interruption

end RegisterVm
