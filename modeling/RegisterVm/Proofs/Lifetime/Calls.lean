import RegisterVm.Proofs.Library.Natives
import RegisterVm.Proofs.Lifetime.Sound

/-!
Calls and resumptions on top of a machine with the invariant, and what native functions make of it.
-/

namespace RegisterVm

variable {s s' : Store} {t : ThreadRef} {mine activities : List Activity} {low : Nat}

namespace Store

theorem Settled.calm (settled : s.Settled t mine) (active : mine ≠ []) (other : ¬Resumed mine)
    (calm : Calm t low s s') (bounded : Bounded low mine)
    (beneath : Beneath (s.thread t).frames low) : s'.Settled t mine where
  toTidy := settled.toTidy.calm active calm bounded beneath
  expects := by
    rw [calm.frames]
    exact settled.expects
  quiet _ := calm.confined.own.yielding.trans (settled.quiet active)
  ample _ resumed := absurd resumed other

theorem Working.calm {f : Frame} {base : List Frame} (working : s.Working t mine f base)
    (active : mine ≠ []) (calm : Calm t low s s') (bounded : Bounded low mine)
    (beneath : Beneath (s.thread t).frames low) : s'.Working t mine f base where
  toTidy := working.toTidy.calm active calm bounded beneath
  head := calm.frames.trans working.head
  native := working.native
  announces := working.announces
  expects := working.expects
  quiet := calm.confined.own.yielding.trans working.quiet

theorem Settled.pin {a : Activity} (settled : s.Settled t mine) (active : mine ≠ [])
    (pinned : pins t (a :: mine) = pins t mine + 1) (other : ∀ r, a ≠ .resumption r)
    (serves : ¬Resumed (a :: mine)) (marked : (s.thread t).Marked (a :: mine))
    (expects : Expects (a :: mine) (s.thread t).frames) :
    (s.modifyThread t Machine.pin).Settled t (a :: mine) := by
  have valid := settled.toTidy.valid active
  have thread := thread_modifyThread_self s Machine.pin valid
  refine ⟨settled.toTidy.adjust active ⟨rfl, rfl, rfl, rfl, id⟩ settled.layers.top ?_ ?_ ?_, ?_, ?_,
    fun _ resumed => absurd resumed serves⟩
  · intro r
    rw [List.mem_cons]
    exact or_iff_right (Ne.symm (other r))
  · rw [pinned, ← settled.pinned]
    rfl
  · exact marked.map (fun _ => id) fun _ _ _ above => ⟨above.stacked, above.top⟩
  · rw [thread]
    exact expects
  · rw [thread]
    exact fun _ => settled.quiet active

theorem Sound.coroutine (sound : s.Sound activities) (waits : (s.thread t).status ≠ .running) :
    (s.thread t).isMain = false := by
  by_contra main
  exact waits ((sound.settled t).main (by simpa using main)).1

end Store

namespace Machine

theorem proceeds_fail (sound : s.Sound activities) (e : Error) :
    Harmless s ⟨s, activities, .fail e⟩ :=
  .of_sustains (.settled sound (.inr (.inr ⟨e, rfl⟩))) (.refl s)

theorem proceed_proceeds (sound : s.Sound activities) (starts : Starts t activities)
    {place : Nat} (bounded : Bounded place (ofThread t activities))
    (beneath : Beneath (s.thread t).frames place) {f : Frame} {callee : Entered}
    (fresh : f.Fresh (s.thread t).isYieldable place place callee)
    (pushed : s.Pushed t place f s') :
    Harmless s (proceed s' activities t (s.thread t).frames.length callee) := by
  have active := starts.hears.ofThread_ne_nil
  have settled := sound.settled t
  have owned := fresh.owned (Nat.le_refl place) (Nat.le_refl place)
  have tidy := settled.toTidy.pushed active (fresh.formed fresh.delivers) owned pushed bounded
    beneath
  have quiet := pushed.confined.own.yielding.trans (settled.quiet active)
  have announced := settled.toTidy.isYieldable starts.serves sound.chained
  refine .of_sustains ?_ ?_
  · cases callee with
    | script =>
        refine .settled ((sound.apart t).push pushed.confined.toLocal
          (.script starts sound.chained) rfl ⟨?_, ?_, fun _ => quiet, fun _ => False.elim⟩)
          (.inl rfl)
        · exact tidy.onto active rfl rfl (by simp)
        · rw [pushed.frames]
          exact settled.expects.start fresh.kind
    | native body =>
        refine .entered ((sound.apart t).move pushed.confined.toLocal sound.chained
          fun _ _ => rfl) ⟨tidy, pushed.frames, fresh.kind, fresh.yieldable.trans announced,
          settled.expects, quiet⟩ starts.serves ?_ ⟨pushed.top, pushed.room⟩
        intro yieldable
        rw [fresh.yieldable, Thread.isYieldable, settled.pinned] at yieldable
        simp only [Bool.and_eq_true, beq_iff_eq] at yieldable
        exact yieldable.2
  · cases callee <;> exact pushed.sustains beneath

theorem beginCall_proceeds (sound : s.Sound activities) (starts : Starts t activities)
    {place : Nat} (bounded : Bounded place (ofThread t activities))
    (beneath : Beneath (s.thread t).frames place) (arguments : Nat) (wanted : Option Nat) :
    Harmless s (beginCall s activities t place arguments wanted) := by
  have valid := (sound.settled t).toTidy.valid starts.hears.ofThread_ne_nil
  refine perform_elim (leads_enterFrom arguments wanted valid (Nat.le_refl place)) ?_ ?_
  · rintro ⟨floor, callee⟩ s' ⟨rfl, f, fresh, pushed⟩
    exact proceed_proceeds sound starts bounded beneath fresh pushed
  · rintro e s' rfl
    exact proceeds_fail sound e

theorem frames_pin (s : Store) (t : ThreadRef) :
    ((s.modifyThread t pin).thread t).frames = (s.thread t).frames :=
  Store.field_modifyThread Thread.frames s t t pin fun _ => rfl

theorem sustains_pin (s : Store) (t : ThreadRef) : s.Sustains (s.modifyThread t pin) :=
  Store.sustains_modifyThread s t rfl rfl rfl

theorem beginValueCall_proceeds (sound : s.Sound activities) (asks : Asks t activities)
    (bounded : Bounded (s.thread t).top (ofThread t activities)) (callee : Value)
    (arguments : Array Value) : Harmless s (beginValueCall s activities t callee arguments) := by
  have active := asks.hears.ofThread_ne_nil
  refine perform_elim (leads_layOut t callee arguments s) ?_ ?_
  · rintro place s' ⟨rfl, calm, -⟩
    have beneath := (sound.settled t).layers.top
    have laid := calm.sustains beneath
    have settled := (sound.settled t).calm active asks.hears.not_resumed calm bounded beneath
    rw [← calm.frames] at beneath
    have pinned : (s'.modifyThread t pin).Sound
        (.collect t (s.thread t).top :: activities) := by
      refine (sound.apart t).push (calm.confined.toLocal.trans (Store.local_modifyThread rfl))
        (.collect asks sound.chained) rfl (settled.pin active ?_ (by simp) id ?_ ?_)
      · simp [pins]
      · exact settled.marked
      · exact ⟨bounded, beneath, settled.expects⟩
    refine .after (laid.trans (sustains_pin s' t)) ?_
    rw [← frames_pin] at beneath
    refine beginCall_proceeds pinned rfl ?_ beneath _ _
    rw [ofThread_self (by rfl)]
    exact bounded
  · rintro e s' rfl
    exact proceeds_fail sound e

theorem beginGuardedCall_proceeds (sound : s.Sound activities) (guards : Guards t activities)
    {place : Nat} (bounded : Bounded place (ofThread t activities))
    (beneath : Beneath (s.thread t).frames place)
    (base : (s.thread t).frames.head?.map Frame.base = some place) (arguments : Nat) :
    Harmless s (beginGuardedCall s activities t place arguments) := by
  have active := guards.asks.hears.ofThread_ne_nil
  have settled := sound.settled t
  have pinned : (s.modifyThread t pin).Sound
      (.guard t place (s.thread t).depth :: activities) := by
    refine (sound.apart t).push (Store.local_modifyThread rfl : Store.Local t 0 _ _)
      (.guard guards sound.chained) rfl (settled.pin active ?_ (by simp) id ?_ ?_)
    · simp [pins]
    · intro level depth mark
      rcases List.mem_cons.1 mark with same | mark
      · cases same
        exact ⟨_, rfl, .base, .inl (Nat.le_refl _)⟩
      · exact settled.marked level depth mark
    · exact ⟨bounded, ⟨beneath, base⟩, rfl, settled.expects⟩
  refine .after (sustains_pin s t) ?_
  rw [← frames_pin] at beneath
  refine beginCall_proceeds pinned rfl ?_ beneath _ _
  rw [ofThread_self (by rfl)]
  exact bounded_marks_cons bounded (Nat.le_refl place)

def rouse (s : Store) (t : ThreadRef) : Store :=
  s.modifyThread t fun th => { th with status := .running, held := true }

theorem rouse_eq (s : Store) (t : ThreadRef) :
    (s.modifyThread t fun th => { th with status := .running, held := true }) = rouse s t := rfl

theorem local_rouse (s : Store) (t : ThreadRef) : s.Local t 0 (rouse s t) :=
  Store.local_modifyThread rfl

theorem sustains_rouse (s : Store) (t : ThreadRef) : s.Sustains (rouse s t) :=
  Store.sustains_modifyThread s t rfl rfl rfl

theorem roused (sound : s.Sound activities) (valid : t < s.threads.size)
    (free : (s.thread t).held = false) (waits : (s.thread t).status ≠ .running)
    (resumed : Resumed activities) :
    (rouse s t).Apart t (.resumption t :: activities) ∧ (rouse s t).Tidy t [.resumption t] ∧
      ofThread t (.resumption t :: activities) = [.resumption t] := by
  have idle := (sound.settled t).toTidy.idle_of_free free
  have settled := sound.settled t
  rw [idle] at settled
  have coroutine := sound.coroutine waits
  refine ⟨?_, ?_, ?_⟩
  · apply (sound.apart t).move (local_rouse s t) (.resumption resumed sound.chained)
    intro r different
    exact ofThread_other (Ne.symm different)
  · refine ⟨?_, ?_, ?_, ?_, ?_, ?_, ?_, ?_, ?_, ?_⟩ <;>
      rw [rouse, Store.thread_modifyThread_self s _ valid]
    · exact settled.frames
    · exact settled.layers.of_same rfl (.inl rfl)
    · exact settled.witnessed
    · simp [Thread.Marked, marks]
    · exact settled.pinned
    · simp
    · exact fun _ _ => coroutine
    · simp [coroutine]
    · simp
    · exact fun _ _ => ⟨rfl, .head _⟩
  · rw [ofThread_self (by rfl), idle]

theorem fresh_proceeds (sound : s.Sound activities) (valid : t < s.threads.size)
    (free : (s.thread t).held = false) (fresh : (s.thread t).status = .fresh)
    (resumed : Resumed activities) (arguments : Array Value) :
    Harmless s (beginResumption s activities t arguments) := by
  obtain ⟨apart, tidy, own⟩ := roused sound valid free (by simp [fresh]) resumed
  have started : (s.thread t).frames = [] ∧ (s.thread t).yielding = false := by
    cases (sound.settled t).resting (sound.coroutine (by simp [fresh])) free with
    | fresh _ frames quiet => exact ⟨frames, quiet⟩
    | suspended status => simp [fresh] at status
    | dead status => simp [fresh] at status
  have woken : (rouse s t).Sound (.resumption t :: activities) := by
    apply apart.sound
    rw [own]
    refine ⟨tidy, ?_, ?_, fun _ => False.elim⟩ <;>
      rw [rouse, Store.thread_modifyThread_self s _ valid]
    · exact ⟨rfl, started.1⟩
    · exact fun _ => started.2
  have sustains := sustains_rouse s t
  simp only [beginResumption, fresh, rouse_eq]
  generalize rouse s t = s₁ at woken sustains
  refine .after sustains ?_
  have valid := (woken.settled t).toTidy.valid (by simp [own])
  have bounded : Bounded 0 (ofThread t (.resumption t :: activities)) := by
    simp [own, Bounded, marks]
  have empty : (s₁.thread t).frames = [] := by
    have expects := (woken.settled t).expects
    rw [own] at expects
    exact expects.2
  have beneath : Beneath (s₁.thread t).frames 0 := empty ▸ .nil
  refine perform_elim (leads_layOutEntry t arguments s₁) ?_ ?_
  · intro _ s₂ calm
    have laid : s₂.Sound (.resumption t :: activities) :=
      (woken.apart t).rest calm.confined.toLocal
        ((woken.settled t).calm (by simp [own]) (by simp [own, Resumed]) calm bounded beneath)
    have valid := Nat.lt_of_lt_of_le valid calm.confined.grown
    refine .after (calm.sustains beneath) ?_
    rw [← calm.frames] at empty beneath
    refine perform_elim (leads_enterCall _ _ _ valid (Nat.le_refl 0)) ?_ ?_
    · rintro callee s₃ ⟨f, fresh, -, pushed⟩
      have proceeds := proceed_proceeds laid rfl bounded beneath fresh pushed
      rwa [empty] at proceeds
    · rintro e s₃ rfl
      exact proceeds_fail laid e
  · rintro e s₂ rfl
    exact proceeds_fail woken e

theorem suspended_proceeds (sound : s.Sound activities) (valid : t < s.threads.size)
    (free : (s.thread t).held = false) (suspended : (s.thread t).status = .suspended)
    (resumed : Resumed activities) (arguments : Array Value) :
    Harmless s (beginResumption s activities t arguments) := by
  obtain ⟨apart, tidy, own⟩ := roused sound valid free (by simp [suspended]) resumed
  obtain ⟨f, below, head, native, scripts⟩ : ∃ f below, (s.thread t).frames = f :: below ∧
      f.kind = .native ∧ ∀ g ∈ below, g.kind = .script := by
    cases (sound.settled t).resting (sound.coroutine (by simp [suspended])) free with
    | fresh status => simp [suspended] at status
    | suspended _ _ _ head native scripts => exact ⟨_, _, head, native, scripts⟩
    | dead status => simp [suspended] at status
  have head : ((rouse s t).thread t).frames = f :: below := by
    rw [rouse, Store.thread_modifyThread_self s _ valid]
    exact head
  have sustains := sustains_rouse s t
  simp only [beginResumption, suspended, rouse_eq]
  generalize rouse s t = s₁ at apart tidy head sustains
  refine .after sustains ?_
  have active : [Activity.resumption t] ≠ [] := List.cons_ne_nil _ _
  have valid := tidy.valid active
  have awaken : s₁.Local t 0 (s₁.awaken t) := Store.local_modifyThread rfl
  have thread : (s₁.awaken t).thread t = { s₁.thread t with yielding := false } :=
    Store.thread_modifyThread_self s₁ _ valid
  have awake : (s₁.awaken t).Tidy t [.resumption t] := by
    apply tidy.adjust active ⟨rfl, rfl, rfl, rfl, fun _ => rfl⟩ tidy.layers.top (fun _ => .rfl)
    · exact tidy.pinned
    · simp [Thread.Marked, marks]
  have head : ((s₁.awaken t).thread t).frames = f :: below := by
    rw [thread]
    exact head
  have before : (s₁.thread t).frames = f :: below := by
    rwa [thread] at head
  have owned := (awake.frames f (head ▸ .head _)).owned
  have reach : ∀ g rest, (s₁.thread t).frames = g :: rest →
      f.reach ≤ g.base ∧ f.reach ≤ g.slot ∧ f.reach ≤ g.target := by
    intro g rest same
    obtain ⟨rfl, -⟩ := List.cons.inj (before.symm.trans same)
    have := owned.base
    simp only [Frame.reach]
    omega
  refine perform_elim (leads_deliverYield_above valid arguments reach (by simp [before])) ?_ ?_
  · rintro _ s₂ ⟨popped, cells⟩
    rw [before, List.tail_cons] at popped
    have delivered : s₂.Tidy t [.resumption t] := by
      apply awake.tail active head native popped (awake.layers.reach head).1 cells
      simp [Thread.Marked, marks]
    have quiet : (s₂.thread t).yielding = false := by
      rw [popped.confined.own.yielding, thread]
    have inside := awaken.trans (popped.confined.toLocal.mono (Nat.zero_le _))
    have frames := popped.frames
    have sustains : s₁.Sustains s₂ :=
      (Store.sustains_modifyThread s₁ t rfl rfl rfl : s₁.Sustains (s₁.awaken t)).trans
        (popped.sustains head native (awake.layers.reach head).1)
    refine .of_sustains ?_ ?_
    · split
      · rename_i empty
        have empty : (s₂.thread t).frames = [] := by simpa using empty
        refine .settled (apart.rest inside ?_) (.inr (.inl ⟨_, rfl⟩))
        rw [own]
        exact ⟨delivered, ⟨rfl, empty⟩, fun _ => quiet, fun _ => False.elim⟩
      · have chained : Chained (.script t 0 :: .resumption t :: activities) :=
          .script rfl apart.chained
        refine .settled (apart.push inside chained rfl ?_) (.inl rfl)
        rw [own]
        refine ⟨delivered.onto active rfl rfl (by simp), ?_, fun _ => quiet, fun _ => False.elim⟩
        rw [frames]
        exact ⟨below, [], (List.append_nil below).symm, rfl, scripts, rfl, rfl⟩
    · split <;> exact sustains
  · rintro e s₂ rfl
    refine .of_sustains (.failing (t := t) (apart.move awaken apart.chained fun _ _ => rfl) ?_ rfl)
      (Store.sustains_modifyThread s₁ t rfl rfl rfl)
    rw [own]
    refine ⟨awake, ⟨[], List.nil_suffix, rfl, rfl⟩, ?_⟩
    rw [thread]

theorem beginResumption_proceeds (sound : s.Sound activities)
    (free : (s.thread t).held = false) (resumed : Resumed activities) (arguments : Array Value) :
    Harmless s (beginResumption s activities t arguments) := by
  by_cases valid : t < s.threads.size
  · cases status : (s.thread t).status with
    | fresh => exact fresh_proceeds sound valid free status resumed arguments
    | suspended => exact suspended_proceeds sound valid free status resumed arguments
    | running =>
        simp only [beginResumption, status]
        exact proceeds_fail sound _
    | dead =>
        simp only [beginResumption, status]
        exact proceeds_fail sound _
  · have invalid := Nat.not_lt.1 valid
    obtain ⟨e, refused⟩ := beginResumption_invalid invalid activities arguments
    rw [refused]
    exact .of_sustains (.lost sound invalid) (.refl s)

end Machine

end RegisterVm
