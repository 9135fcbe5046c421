import RegisterVm.Proofs.Lifetime.Calls

/-!
Native functions at work: however one leaves off, the machine that goes on has the invariant.
-/

namespace RegisterVm.Machine

variable {s : Store} {t : ThreadRef} {activities : List Activity} {f : Frame} {base : List Frame}

theorem settle_proceeds (apart : s.Apart t activities)
    (working : s.Working t (ofThread t activities) f base) (serves : Serves t activities)
    {outcome : NativeOutcome}
    (leaves : Leaves t s ((s.thread t).Ample) outcome) :
    Harmless s (settle s activities t outcome) := by
  have active := serves.hears.ofThread_ne_nil
  have valid := working.valid active
  have wait : ∀ next, (∀ name, next ≠ .host name) →
      (next.Resumes → (s.thread t).Ample) →
      s.Sound (.native t next :: activities) :=
    fun next known ample => apart.push (.refl s : s.Local t 0 s)
      (.native serves known apart.chained) rfl (working.wait active next ample)
  cases outcome with
  | returns count =>
      have owned : ∀ g below, (s.thread t).frames = g :: below →
          f.reach ≤ g.slot ∧ f.reach ≤ g.target := by
        intro g below head
        obtain ⟨rfl, -⟩ := List.cons.inj (working.head.symm.trans head)
        simp only [Frame.reach]
        omega
      simp only [settle]
      refine perform_elim (leads_finishNative valid owned count) ?_ ?_
      · intro _ s' finished
        cases finished with
        | kept calm reason =>
            have quiet := working.quiet
            have head := working.head
            rcases reason with yielding | empty
            · simp [quiet] at yielding
            · simp [head] at empty
        | dropped g below head returned popped cells =>
            obtain ⟨rfl, rfl⟩ := List.cons.inj (working.head.symm.trans head)
            have inside := popped.confined.toLocal
            refine .of_sustains
              (.settled (apart.rest inside ⟨?_, ?_, ?_, ?_⟩) (.inr (.inl ⟨_, rfl⟩))) ?_
            · exact working.toTidy.popped active head working.native working.deep popped cells
            · rw [popped.frames]
              exact working.expects
            · exact fun _ => popped.confined.own.yielding.trans working.quiet
            · exact fun _ resumed => absurd resumed serves.hears.not_resumed
            · exact popped.sustains head working.native (working.layers.reach head).1
      · exact fun _ _ impossible => impossible.elim
  | calls callee arguments restoring next =>
      obtain ⟨rfl, next_eq⟩ := leaves
      have asks : Asks t (.native t next :: activities) := by
        refine ⟨rfl, ?_⟩
        rintro (rfl | rfl) <;> exact next_eq
      have known : ∀ name, next ≠ .host name := by
        rintro name rfl
        exact next_eq
      refine beginValueCall_proceeds (wait next known fun resumes => absurd resumes asks.2) asks ?_
        callee arguments
      rw [ofThread_self (by rfl)]
      exact working.marked.bounded_top working.head working.deep
  | protects place arguments next =>
      obtain ⟨rfl, rfl⟩ := leaves
      have guards : Guards t (.native t .protectedCall :: activities) := rfl
      have owned := (working.frames f (working.head ▸ .head _)).owned
      have frame : (s.thread t).frame? = some f := by rw [Thread.frame?, working.head]; rfl
      rw [frame]
      refine beginGuardedCall_proceeds
        (wait .protectedCall (by simp) fun resumes => absurd resumes guards.asks.2) guards ?_ ?_ ?_
        arguments
      · rw [ofThread_self (by rfl)]
        exact (working.marked.bounded_slot working.head working.deep).mono (Nat.le_of_lt owned.base)
      · exact (working.layers.native working.head working.native owned).mono (Nat.min_le_right _ _)
      · rw [← Thread.frame?, frame]
        rfl
  | resumes co arguments next =>
      have known : ∀ name, next ≠ .host name := by
        rintro name rfl
        rcases leaves.1 with same | same <;> contradiction
      exact beginResumption_proceeds (wait next known fun _ => leaves.2.2)
        (Coroutine.held_of_refusal leaves.2.1) leaves.1 arguments

/-- How a native function leaves off that began at store `start`. -/
def Left (t : ThreadRef) (low : Nat) (start : Store) (outcome : NativeOutcome) (s : Store) : Prop :=
  Calm t low start s ∧ Leaves t s ((s.thread t).Ample) outcome

theorem leads_left {low : Nat} {action : Action NativeOutcome}
    (keeps : Keeps (Calm t low s) action (Leaves t s False)) :
    Leads action s (Left t low s) (Calm t low s) :=
  (keeps.leads (.refl _ _ _)).mono
    (fun _ _ after => ⟨after.1, (after.2.calm after.1).imp False.elim⟩) fun _ => id

theorem perform_native_proceeds (apart : s.Apart t activities)
    (working : s.Working t (ofThread t activities) f base) (serves : Serves t activities)
    {action : Action NativeOutcome}
    (leads : ∀ low, Ready t low s → Leads action s (Left t low s) (Calm t low s)) :
    Harmless s (perform s activities action fun s outcome => settle s activities t outcome) := by
  have active := serves.hears.ofThread_ne_nil
  have owned := (working.frames f (working.head ▸ .head _)).owned
  have bounded : Bounded (min (s.thread t).top f.base) (ofThread t activities) := by
    intro level depth mark
    have := working.marked.bounded_top working.head working.deep level depth mark
    have := working.marked.bounded_slot working.head working.deep level depth mark
    have := owned.base
    omega
  have beneath := working.layers.native working.head working.native owned
  have ready : Ready t (min (s.thread t).top f.base) s := by
    refine ⟨working.valid active, Nat.min_le_left _ _, ?_⟩
    rw [Thread.frame?, working.head]
    exact Nat.min_le_right _ _
  refine perform_elim (leads _ ready) ?_ ?_
  · rintro outcome s' ⟨calm, leaves⟩
    exact .after (calm.sustains beneath) (settle_proceeds
      (apart.move calm.confined.toLocal apart.chained fun _ _ => rfl)
      (working.calm active calm bounded beneath) serves leaves)
  · intro e s' calm
    refine .of_sustains (.failing (apart.move calm.confined.toLocal apart.chained fun _ _ => rfl) ?_
      serves.hears) (calm.sustains beneath)
    exact (working.calm active calm bounded beneath).failing

/-- Where a yield is accepted the thread has a single resumption, and script frames alone below that
of the yield. -/
theorem only_resumed {below : List Activity}
    (working : s.Working t (ofThread t activities) f base)
    (shape : activities = .resumption t :: below ∨
      ∃ floor, activities = .script t floor :: .resumption t :: below) :
    ofThread t below = [] ∧ s.Tidy t [.resumption t] ∧ ∀ g ∈ base, g.kind = .script := by
  have tidy := working.toTidy
  have expects := working.expects
  rcases shape with rfl | ⟨floor, rfl⟩
  · rw [ofThread_self (by rfl)] at tidy expects
    obtain ⟨alone, rfl⟩ := expects
    rw [alone] at tidy
    exact ⟨alone, tidy, by simp⟩
  · rw [ofThread_self (by rfl), ofThread_self (by rfl)] at tidy expects
    obtain ⟨upper, lowest, rfl, -, scripts, alone, rfl⟩ := expects
    rw [alone] at tidy
    exact ⟨alone, tidy.under rfl (by simp), by simpa using scripts⟩

theorem yield_proceeds (apart : s.Apart t activities)
    (working : s.Working t (ofThread t activities) f base) (serves : Serves t activities)
    (yieldable : f.yieldable = true → pins t (ofThread t activities) = 0) :
    Harmless s (perform s activities (yieldArguments t) fun s outcome =>
      settle s activities t outcome) := by
  have active := serves.hears.ofThread_ne_nil
  have valid := working.valid active
  refine perform_elim (leads_yieldArguments t s) ?_ ?_
  · rintro outcome s' ⟨rfl, yielded⟩
    obtain ⟨g, innermost, accepted⟩ := yielded.frame
    rw [Thread.frame?, working.head] at innermost
    cases innermost
    obtain ⟨below, shape⟩ := alone_of_unpinned serves apart.chained (yieldable accepted)
    obtain ⟨alone, tidy, scripts⟩ := only_resumed working shape
    have coroutine := tidy.coroutine t (.head _)
    have held := tidy.held (List.cons_ne_nil _ _)
    have thread : s'.thread t =
        { s.thread t with yielded := (s.thread t).arguments, yielding := true } := by
      rw [yielded.store, Store.thread_modifyThread_self s _ valid]
    have marked : s'.Tidy t [.resumption t] := by
      refine ⟨?_, ?_, ?_, ?_, ?_, ?_, ?_, ?_, ?_, ?_⟩ <;> rw [thread]
      · exact tidy.frames
      · exact tidy.layers.of_same rfl (.inl rfl)
      · rw [yielded.store]
        exact tidy.witnessed
      · simp [Thread.Marked, marks]
      · exact tidy.pinned
      · exact tidy.held
      · exact tidy.coroutine
      · simp [coroutine]
      · simp [held]
      · exact tidy.busy
    have inside : s.Local t 0 s' := by
      rw [yielded.store]
      exact Store.local_modifyThread rfl
    have sustains : s.Sustains s' := by
      rw [yielded.store]
      exact Store.sustains_modifyThread s t rfl rfl rfl
    have valid : t < s'.threads.size := Nat.lt_of_lt_of_le valid inside.grown
    have head : (s'.thread t).frames = f :: base := by
      rw [thread]
      exact working.head
    have reach : ∀ g below, (s'.thread t).frames = g :: below →
        f.reach ≤ g.slot ∧ f.reach ≤ g.target := by
      intro g below same
      obtain ⟨rfl, -⟩ := List.cons.inj (head.symm.trans same)
      simp only [Frame.reach]
      omega
    simp only [settle]
    refine perform_elim (leads_finishNative valid reach 0) ?_ fun _ _ impossible => impossible.elim
    intro _ s'' finished
    cases finished with
    | dropped g rest head returned popped cells => simp [thread] at returned
    | kept calm reason =>
        have moved := inside.trans (calm.confined.toLocal.mono (Nat.zero_le _))
        have beneath : Beneath (s'.thread t).frames f.reach := by
          rw [head]
          exact .cons (by simp [working.native]) (working.layers.reach working.head).1
        refine .of_sustains (.leaving (apart.move moved apart.chained fun _ _ => rfl)
          ⟨?_, ?_, ?_, alone⟩ shape) (sustains.trans (calm.sustains beneath))
        · exact marked.calm (List.cons_ne_nil _ _) calm (by simp [Bounded, marks]) beneath
        · rw [calm.frames, thread]
          exact ⟨_, base, working.head, working.native, scripts⟩
        · rw [calm.confined.own.yielding, thread]
  · rintro e s' rfl
    exact .of_sustains (.failing apart working.failing serves.hears) (.refl _)

theorem leads_resume {low : Nat} (permits : Permits t low s (Calm t low s))
    (ample : (s.thread t).Ample) : Leads (Coroutine.resume t) s (Left t low s) (Calm t low s) := by
  have calm : ∀ s', s' = s → Calm t low s s' := by
    rintro _ rfl
    exact .refl t low _
  have looks : Keeps (· = s) (Coroutine.checkThread t 1) Any := Coroutine.keeps_checkThread 1
  refine looks.leads_bind rfl calm ?_
  rintro co _ rfl -
  refine .look_bind ?_
  split
  · exact leads_left (Coroutine.keeps_failed permits _)
  · rename_i allowed
    exact ⟨.refl t low _, .inl rfl, allowed, ample⟩

theorem leads_wrapped {low : Nat} (ample : (s.thread t).Ample) :
    Leads (Coroutine.wrapped t) s (Left t low s) (Calm t low s) := by
  have calm : ∀ s', s' = s → Calm t low s s' := by
    rintro _ rfl
    exact .refl t low _
  have looks : Keeps (· = s) (boundValue t 0) Any := keeps_boundValue 0
  refine looks.leads_bind rfl calm ?_
  rintro v _ rfl -
  split
  · refine .look_bind ?_
    split
    · exact leads_left .raiseText
    · rename_i allowed
      exact ⟨.refl t low _, .inr rfl, allowed, ample⟩
  · exact leads_left .invalid

theorem enter_proceeds (apart : s.Apart t activities)
    (working : s.Working t (ofThread t activities) f base) (serves : Serves t activities)
    (yieldable : f.yieldable = true → pins t (ofThread t activities) = 0)
    (arrived : s.Arrived t f) (body : NativeBody) :
    Harmless s (perform s activities (body.enter .bare t) fun s outcome =>
      settle s activities t outcome) := by
  by_cases yields : body = .builtin .yield
  · subst yields
    exact yield_proceeds apart working serves yieldable
  · have ample : (s.thread t).Ample := by
      have granted := arrived.room.granted working.native
      obtain ⟨-, -, base, top⟩ := (working.frames f (working.head ▸ .head _)).owned
      rw [Thread.Ample, arrived.top, Thread.frame?, working.head]
      simp only [nativeSlots] at granted
      refine ⟨by omega, ?_⟩
      rintro _ ⟨⟩
      omega
    refine perform_native_proceeds apart working serves fun low ready => ?_
    by_cases resume : body = .builtin .resume
    · subst resume
      exact leads_resume ready.permits ample
    · by_cases wrapped : body = .builtin .wrapped
      · subst wrapped
        exact leads_wrapped ample
      · refine leads_left (body.keeps_enter yields ready.permits fun either => ?_)
        exact either.elim resume wrapped

end RegisterVm.Machine
