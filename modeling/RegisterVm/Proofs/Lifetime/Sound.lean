import RegisterVm.Proofs.Lifetime.Activities
import RegisterVm.Proofs.Lifetime.Frames

/-!
The invariant of machines that run scripts. Every open cell stands for a slot from the base of an
active script frame up; every activity finds the frames that it looks for, whether the one on top
succeeds, yields or fails.
-/

namespace RegisterVm

inductive Thread.Resting (th : Thread) : Prop where
  | fresh (status : th.status = .fresh) (frames : th.frames = []) (quiet : th.yielding = false)
  | suspended (status : th.status = .suspended) (yielding : th.yielding = true)
      (unpinned : th.pinned = 0) {f : Frame} {below : List Frame} (frames : th.frames = f :: below)
      (native : f.kind = .native) (scripts : ∀ g ∈ below, g.kind = .script)
  | dead (status : th.status = .dead) (frames : th.frames = []) (quiet : th.yielding = false)

/-- The innermost call can tell of a failure: the limit leaves slots for it, above the call's. -/
def Thread.Ample (th : Thread) : Prop :=
  th.top + 2 ≤ th.limits.maxStack ∧ ∀ f ∈ th.frame?, f.base ≤ th.top

namespace Store

/-- What holds of a thread with activities `mine` whatever it is doing. -/
structure Tidy (s : Store) (t : ThreadRef) (mine : List Activity) : Prop where
  frames : ∀ f ∈ (s.thread t).frames, f.Formed
  layers : (s.thread t).Layers
  witnessed : ∀ (ref : CellRef) (index : Nat), s.cells[ref]? = some (.slot t index) →
    ∃ f ∈ (s.thread t).frames, f.kind = .script ∧ f.base ≤ index
  marked : (s.thread t).Marked mine
  pinned : (s.thread t).pinned = pins t mine
  held : mine ≠ [] → (s.thread t).held = true
  coroutine : ∀ r, .resumption r ∈ mine → (s.thread t).isMain = false
  main : (s.thread t).isMain = true →
    (s.thread t).status = .running ∧ (s.thread t).yielding = false
  resting : (s.thread t).isMain = false → (s.thread t).held = false → (s.thread t).Resting
  busy : (s.thread t).isMain = false → (s.thread t).held = true →
    (s.thread t).status = .running ∧ .resumption t ∈ mine

structure Settled (s : Store) (t : ThreadRef) (mine : List Activity) : Prop
    extends Tidy s t mine where
  expects : Expects mine (s.thread t).frames
  quiet : mine ≠ [] → (s.thread t).yielding = false
  ample : mine ≠ [] → Resumed mine → (s.thread t).Ample

structure Sound (s : Store) (activities : List Activity) : Prop where
  linked : s.Linked
  chained : Chained activities
  settled : ∀ t, s.Settled t (ofThread t activities)

structure Apart (s : Store) (t : ThreadRef) (activities : List Activity) : Prop where
  linked : s.Linked
  chained : Chained activities
  others : ∀ r, r ≠ t → s.Settled r (ofThread r activities)

variable {s s' : Store} {t r : ThreadRef} {mine activities : List Activity} {low : Nat}

theorem Sound.apart (sound : s.Sound activities) (t : ThreadRef) : s.Apart t activities :=
  ⟨sound.linked, sound.chained, fun r _ => sound.settled r⟩

theorem Sound.top {a : Activity} (sound : s.Sound (a :: activities)) (own : a.thread = t) :
    s.Settled t (a :: ofThread t activities) := by
  rw [← ofThread_self own]
  exact sound.settled t

theorem Apart.sound (apart : s.Apart t activities) (settled : s.Settled t (ofThread t activities)) :
    s.Sound activities := by
  refine ⟨apart.linked, apart.chained, fun r => ?_⟩
  by_cases same : r = t
  · rw [same]
    exact settled
  · exact apart.others r same

theorem Local.thread_other (inside : s.Local t low s') (different : r ≠ t) :
    s'.thread r = s.thread r ∨ s.threads.size ≤ r ∧ Unstarted (s'.thread r) := by
  by_cases known : r < s.threads.size
  · exact .inl (inside.others r different known)
  · have known := Nat.not_lt.1 known
    by_cases made : r < s'.threads.size
    · exact .inr ⟨known, inside.created r different known made⟩
    · rw [thread_invalid s known, thread_invalid s' (Nat.not_lt.1 made)]
      exact .inl rfl

theorem Tidy.idle_of_invalid (tidy : s.Tidy t mine) (invalid : s.threads.size ≤ t) :
    mine = [] := by
  by_contra active
  have held := tidy.held active
  rw [thread_invalid s invalid] at held
  contradiction

theorem Tidy.idle_of_free (tidy : s.Tidy t mine) (free : (s.thread t).held = false) :
    mine = [] := by
  by_contra active
  rw [tidy.held active] at free
  contradiction

theorem Tidy.valid (tidy : s.Tidy t mine) (active : mine ≠ []) : t < s.threads.size := by
  by_contra invalid
  exact active (tidy.idle_of_invalid (Nat.not_lt.1 invalid))

theorem Local.open_other (inside : s.Local t low s') (different : r ≠ t) {ref : CellRef}
    {index : Nat} (found : s'.cells[ref]? = some (.slot r index)) :
    s.cells[ref]? = some (.slot r index) := by
  by_cases bound : ref < s.cells.size
  · exact inside.cells.old ref r index bound found
  · exact absurd (inside.cells.fresh ref r index (Nat.not_lt.1 bound) found).1 different

theorem settled_empty (frames : (s.thread t).frames = []) (pinned : (s.thread t).pinned = 0)
    (yielding : (s.thread t).yielding = false)
    (main : (s.thread t).isMain = true → (s.thread t).status = .running)
    (fresh : (s.thread t).isMain = false →
      (s.thread t).status = .fresh ∧ (s.thread t).held = false)
    (closed : ∀ (ref : CellRef) (index : Nat), s.cells[ref]? ≠ some (.slot t index)) :
    s.Settled t [] where
  frames := by simp [frames]
  layers := .of_nil frames
  witnessed ref index found := absurd found (closed ref index)
  marked := by simp [Thread.Marked, marks]
  pinned := pinned
  held active := absurd rfl active
  coroutine r member := by simp at member
  main isMain := ⟨main isMain, yielding⟩
  resting coroutine _ := .fresh (fresh coroutine).1 frames yielding
  busy coroutine held := by
    rw [(fresh coroutine).2] at held
    contradiction
  expects := trivial
  quiet active := absurd rfl active
  ample active := absurd rfl active

theorem settled_unstarted (unstarted : Unstarted (s.thread t))
    (closed : ∀ (ref : CellRef) (index : Nat), s.cells[ref]? ≠ some (.slot t index)) :
    s.Settled t [] :=
  settled_empty unstarted.frames unstarted.pinned unstarted.yielding (by simp [unstarted.isMain])
    (fun _ => ⟨unstarted.status, unstarted.held⟩) closed

theorem settled_resting (coroutine : (s.thread t).isMain = false)
    (free : (s.thread t).held = false) (pinned : (s.thread t).pinned = 0)
    (resting : (s.thread t).Resting) (frames : ∀ f ∈ (s.thread t).frames, f.Formed)
    (layers : (s.thread t).Layers)
    (witnessed : ∀ (ref : CellRef) (index : Nat), s.cells[ref]? = some (.slot t index) →
      ∃ f ∈ (s.thread t).frames, f.kind = .script ∧ f.base ≤ index) : s.Settled t [] where
  frames := frames
  layers := layers
  witnessed := witnessed
  marked := by simp [Thread.Marked, marks]
  pinned := pinned
  held active := absurd rfl active
  coroutine r member := by simp at member
  main isMain := by simp [coroutine] at isMain
  resting _ _ := resting
  busy _ held := by simp [free] at held
  expects := trivial
  quiet active := absurd rfl active
  ample active := absurd rfl active

theorem Linked.closed_of_invalid (linked : s.Linked) (invalid : s.threads.size ≤ t)
    (ref : CellRef) (index : Nat) : s.cells[ref]? ≠ some (.slot t index) := by
  intro found
  have listed := linked.complete ref t index found
  rw [thread_invalid s invalid] at listed
  contradiction

theorem Settled.other (settled : s.Settled r mine) (linked : s.Linked) (inside : s.Local t low s')
    (different : r ≠ t) : s'.Settled r mine := by
  rcases inside.thread_other different with same | ⟨unknown, unstarted⟩
  · have witnessed : ∀ (ref : CellRef) (index : Nat), s'.cells[ref]? = some (.slot r index) →
        ∃ f ∈ (s.thread r).frames, f.kind = .script ∧ f.base ≤ index :=
      fun ref index found => settled.witnessed ref index (inside.open_other different found)
    obtain ⟨⟨frames, layers, _, marked, pinned, held, coroutine, main, resting, busy⟩, expects,
      quiet, ample⟩ := settled
    rw [← same] at *
    exact ⟨⟨frames, layers, witnessed, marked, pinned, held, coroutine, main, resting, busy⟩,
      expects, quiet, ample⟩
  · rw [settled.toTidy.idle_of_invalid unknown]
    apply settled_unstarted unstarted
    intro ref index found
    exact linked.closed_of_invalid unknown ref index (inside.open_other different found)

theorem Apart.move (apart : s.Apart t activities) (inside : s.Local t low s')
    {activities' : List Activity} (chained : Chained activities')
    (same : ∀ r, r ≠ t → ofThread r activities' = ofThread r activities) :
    s'.Apart t activities' := by
  refine ⟨inside.linked apart.linked, chained, fun r different => ?_⟩
  rw [same r different]
  exact (apart.others r different).other apart.linked inside different

theorem Apart.pop {a : Activity} (apart : s.Apart t (a :: activities)) (inside : s.Local t low s')
    (own : a.thread = t) : s'.Apart t activities := by
  refine apart.move inside apart.chained.tail fun r different => (ofThread_other ?_).symm
  rw [own]
  exact Ne.symm different

theorem Apart.push {a : Activity} (apart : s.Apart t activities) (inside : s.Local t low s')
    (chained : Chained (a :: activities)) (own : a.thread = t)
    (settled : s'.Settled t (a :: ofThread t activities)) : s'.Sound (a :: activities) := by
  refine (apart.move inside chained fun r different => ?_).sound ?_
  · apply ofThread_other
    rw [own]
    exact Ne.symm different
  · rw [ofThread_self own]
    exact settled

theorem Apart.rest (apart : s.Apart t activities) (inside : s.Local t low s')
    (settled : s'.Settled t (ofThread t activities)) : s'.Sound activities :=
  (apart.move inside apart.chained fun _ _ => rfl).sound settled

namespace Tidy

theorem under {a : Activity} (tidy : s.Tidy t (a :: mine))
    (pinned : pins t (a :: mine) = pins t mine) (other : ∀ r, a ≠ .resumption r) :
    s.Tidy t mine := by
  refine { tidy with
    marked := tidy.marked.map (fun m member => ?_) fun _ _ _ above => above
    pinned := by rw [tidy.pinned, pinned]
    held := fun _ => tidy.held (List.cons_ne_nil a mine)
    coroutine := fun r member => tidy.coroutine r (.tail _ member)
    busy := fun coroutine held => ?_ }
  · cases a with
    | restore | guard => exact .tail _ member
    | _ => exact member
  · obtain ⟨running, member⟩ := tidy.busy coroutine held
    rcases List.mem_cons.1 member with same | member
    · exact absurd same.symm (other t)
    · exact ⟨running, member⟩

theorem onto {a : Activity} (tidy : s.Tidy t mine) (active : mine ≠ [])
    (marked : marks (a :: mine) = marks mine) (pinned : pins t (a :: mine) = pins t mine)
    (other : ∀ r, a ≠ .resumption r) : s.Tidy t (a :: mine) := by
  refine { tidy with
    marked := tidy.marked.map (fun m member => ?_) fun _ _ _ above => above
    pinned := by rw [tidy.pinned, pinned]
    held := fun _ => tidy.held active
    coroutine := fun r member => ?_
    busy := fun coroutine held => ?_ }
  · rwa [marked] at member
  · rcases List.mem_cons.1 member with same | member
    · exact absurd same.symm (other r)
    · exact tidy.coroutine r member
  · obtain ⟨running, member⟩ := tidy.busy coroutine held
    exact ⟨running, .tail _ member⟩

theorem confined (tidy : s.Tidy t mine) (active : mine ≠ []) (confined : s.Confined t low s')
    (frames : ∀ f ∈ (s'.thread t).frames, f.Formed) (layers : (s'.thread t).Layers)
    (witnessed : ∀ (ref : CellRef) (index : Nat), s'.cells[ref]? = some (.slot t index) →
      ∃ f ∈ (s'.thread t).frames, f.kind = .script ∧ f.base ≤ index)
    (marked : (s'.thread t).Marked mine) : s'.Tidy t mine := by
  have steady := confined.own
  have held := steady.held.trans (tidy.held active)
  refine ⟨frames, layers, witnessed, marked, ?_, fun _ => held, ?_, ?_, ?_, ?_⟩
  · rw [steady.pinned, tidy.pinned]
  · rw [steady.isMain]
    exact tidy.coroutine
  · rw [steady.isMain, steady.status, steady.yielding]
    exact tidy.main
  · intro _ free
    rw [held] at free
    contradiction
  · rw [steady.isMain, steady.status]
    exact fun coroutine _ => tidy.busy coroutine (tidy.held active)

theorem calm (tidy : s.Tidy t mine) (active : mine ≠ []) (calm : Calm t low s s')
    (bounded : Bounded low mine) (beneath : Beneath (s.thread t).frames low) : s'.Tidy t mine := by
  apply tidy.confined active calm.confined
  · rw [calm.frames]
    exact tidy.frames
  · exact tidy.layers.of_same calm.frames (calm.top.imp_right beneath.mono)
  · rw [calm.frames, calm.cells]
    exact tidy.witnessed
  · refine tidy.marked.map (fun _ => id) fun level base mark above => ?_
    have := bounded level base.length mark
    have := calm.top
    exact above.of_same calm.frames (by omega)

theorem pushed (tidy : s.Tidy t mine) (active : mine ≠ []) {f : Frame} {place : Nat}
    (formed : f.Formed) (owned : f.Owned place) (pushed : s.Pushed t place f s')
    (bounded : Bounded place mine) (beneath : Beneath (s.thread t).frames place) :
    s'.Tidy t mine := by
  apply tidy.confined active pushed.confined
  · intro g member
    rw [pushed.frames] at member
    rcases List.mem_cons.1 member with rfl | inner
    · exact formed
    · exact tidy.frames g inner
  · exact .of_pushed tidy.layers.stacked (beneath.mono owned.low_le_reach) formed.owned
      pushed.frames pushed.top
  · intro ref index found
    rw [pushed.cells] at found
    obtain ⟨g, member, script, bound⟩ := tidy.witnessed ref index found
    refine ⟨g, ?_, script, bound⟩
    rw [pushed.frames]
    exact .tail _ member
  · refine tidy.marked.map (fun _ => id) fun level base mark above => ?_
    exact .of_pushed above.stacked (owned.mono (bounded level _ mark)) pushed.frames pushed.top

theorem tail (tidy : s.Tidy t mine) (active : mine ≠ []) {f : Frame} {below : List Frame}
    (head : (s.thread t).frames = f :: below) (native : f.kind = .native)
    (popped : s.Popped t low below s') (beneath : Beneath below low)
    (cells : s'.cells = s.cells) (marked : (s'.thread t).Marked mine) : s'.Tidy t mine := by
  have inner : ∀ g ∈ below, g.Formed := fun g member => tidy.frames g (head ▸ .tail _ member)
  apply tidy.confined active popped.confined
  · intro g member
    rw [popped.frames] at member
    exact inner g member
  · exact .of_popped (tidy.layers.reach head).2 (fun g member => (inner g member).owned) beneath
      popped.frames popped.top
  · intro ref index found
    rw [cells] at found
    obtain ⟨g, member, script, bound⟩ := tidy.witnessed ref index found
    refine ⟨g, ?_, script, bound⟩
    rw [popped.frames]
    rw [head] at member
    rcases List.mem_cons.1 member with rfl | inner
    · simp [native] at script
    · exact inner
  · exact marked

theorem popped (tidy : s.Tidy t mine) (active : mine ≠ []) {f : Frame} {below : List Frame}
    (head : (s.thread t).frames = f :: below) (native : f.kind = .native)
    (deep : ∀ level depth, (level, depth) ∈ marks mine → depth ≤ below.length)
    (popped : s.Popped t f.reach below s') (cells : s'.cells = s.cells) : s'.Tidy t mine := by
  apply tidy.tail active head native popped (tidy.layers.reach head).1 cells
  refine tidy.marked.map (fun _ => id) fun level base mark above => ?_
  obtain ⟨owned, stacked, -⟩ := above.pop head (deep _ _ mark)
  exact .of_popped stacked popped.frames (popped.top.imp_left (Nat.le_trans owned.low_le_reach))

end Tidy

structure Alike (th th' : Thread) : Prop where
  frames : th'.frames = th.frames
  status : th'.status = th.status
  isMain : th'.isMain = th.isMain
  held : th'.held = th.held
  quiet : th.yielding = false → th'.yielding = false

theorem Tidy.adjust (tidy : s.Tidy t mine) (active : mine ≠ []) {f : Thread → Thread}
    (alike : Alike (s.thread t) (f (s.thread t))) {mine' : List Activity}
    (beneath : Beneath (s.thread t).frames (f (s.thread t)).top)
    (coroutine : ∀ r, .resumption r ∈ mine' ↔ .resumption r ∈ mine)
    (pinned : (f (s.thread t)).pinned = pins t mine') (marked : (f (s.thread t)).Marked mine') :
    (s.modifyThread t f).Tidy t mine' := by
  have thread := thread_modifyThread_self s f (tidy.valid active)
  have held := alike.held.trans (tidy.held active)
  refine ⟨?_, ?_, ?_, ?_, ?_, ?_, ?_, ?_, ?_, ?_⟩ <;> rw [thread]
  · rw [alike.frames]
    exact tidy.frames
  · exact tidy.layers.of_same alike.frames (.inr beneath)
  · rw [alike.frames, cells_modifyThread]
    exact tidy.witnessed
  · exact marked
  · exact pinned
  · exact fun _ => held
  · rw [alike.isMain]
    exact fun r member => tidy.coroutine r ((coroutine r).1 member)
  · rw [alike.isMain, alike.status]
    exact fun main => ⟨(tidy.main main).1, alike.quiet (tidy.main main).2⟩
  · intro _ free
    rw [held] at free
    contradiction
  · rw [alike.isMain, alike.status]
    intro isMain _
    obtain ⟨running, member⟩ := tidy.busy isMain (tidy.held active)
    exact ⟨running, (coroutine t).2 member⟩

theorem Tidy.isYieldable (tidy : s.Tidy t (ofThread t activities)) (serves : Serves t activities)
    (chained : Chained activities) :
    (s.thread t).isYieldable = (pins t (ofThread t activities) == 0) := by
  rw [Thread.isYieldable, tidy.pinned]
  by_cases unpinned : pins t (ofThread t activities) = 0
  · have resumed : .resumption t ∈ ofThread t activities := by
      obtain ⟨below, rfl | ⟨floor, rfl⟩⟩ := Machine.alone_of_unpinned serves chained unpinned <;>
        simp [ofThread, Activity.thread]
    simp [unpinned, tidy.coroutine t resumed]
  · simp [unpinned]

structure Working (s : Store) (t : ThreadRef) (mine : List Activity) (f : Frame)
    (base : List Frame) : Prop extends Tidy s t mine where
  head : (s.thread t).frames = f :: base
  native : f.kind = .native
  announces : f.yieldable = (pins t mine == 0)
  expects : Expects mine base
  quiet : (s.thread t).yielding = false

structure Arrived (s : Store) (t : ThreadRef) (f : Frame) : Prop where
  top : (s.thread t).top = f.top
  room : (s.thread t).Holds f

theorem Working.deep {f : Frame} {base : List Frame} (working : s.Working t mine f base) :
    ∀ level depth, (level, depth) ∈ marks mine → depth ≤ base.length :=
  fun _ _ mark => working.expects.depth_le mark

theorem Settled.working {next : Pending} (settled : s.Settled t (.native t next :: mine)) :
    ∃ f base, s.Working t mine f base := by
  obtain ⟨f, base, head, native, announces, expects⟩ := settled.expects
  exact ⟨f, base, settled.toTidy.under rfl (by simp), head, native, announces, expects,
    settled.quiet (List.cons_ne_nil _ _)⟩

theorem Working.wait {f : Frame} {base : List Frame} (working : s.Working t mine f base)
    (active : mine ≠ []) (next : Pending)
    (ample : next.Resumes → (s.thread t).Ample) :
    s.Settled t (.native t next :: mine) where
  toTidy := working.toTidy.onto active rfl rfl (by simp)
  expects := ⟨f, base, working.head, working.native, working.announces, working.expects⟩
  quiet _ := working.quiet
  ample _ := ample

structure Failing (s : Store) (t : ThreadRef) (mine : List Activity) : Prop
    extends Tidy s t mine where
  expects : ∃ base, base <:+ (s.thread t).frames ∧ Expects mine base
  quiet : (s.thread t).yielding = false

theorem Settled.failing (settled : s.Settled t mine) (active : mine ≠ []) : s.Failing t mine :=
  ⟨settled.toTidy, ⟨_, List.suffix_refl _, settled.expects⟩, settled.quiet active⟩

theorem Working.failing {f : Frame} {base : List Frame} (working : s.Working t mine f base) :
    s.Failing t mine := by
  refine ⟨working.toTidy, ⟨base, ?_, working.expects⟩, working.quiet⟩
  rw [working.head]
  exact List.suffix_cons f base

structure Leaving (s : Store) (t : ThreadRef) (below : List Activity) : Prop
    extends Tidy s t [.resumption t] where
  head : ∃ f base, (s.thread t).frames = f :: base ∧ f.kind = .native ∧
    ∀ g ∈ base, g.kind = .script
  yielding : (s.thread t).yielding = true
  alone : ofThread t below = []

end Store

namespace Machine

/-- The invariant of machines, by what is to be done next. -/
inductive Healthy : Machine → Prop where
  | settled {s : Store} {activities : List Activity} {control : Control}
      (sound : s.Sound activities)
      (goes : control = .run ∨ (∃ values, control = .done values) ∨ ∃ e, control = .fail e) :
      Healthy ⟨s, activities, control⟩
  | entered {s : Store} {activities : List Activity} {t : ThreadRef} {body : NativeBody}
      {f : Frame} {base : List Frame} (apart : s.Apart t activities)
      (working : s.Working t (ofThread t activities) f base) (serves : Serves t activities)
      (yieldable : f.yieldable = true → pins t (ofThread t activities) = 0)
      (arrived : s.Arrived t f) : Healthy ⟨s, activities, .enter t body⟩
  | leaving {s : Store} {t : ThreadRef} {activities below : List Activity} {values : Array Value}
      (apart : s.Apart t activities) (leaving : s.Leaving t below)
      (shape : activities = .resumption t :: below ∨
        ∃ floor, activities = .script t floor :: .resumption t :: below) :
      Healthy ⟨s, activities, .done values⟩
  | failing {s : Store} {activities : List Activity} {t : ThreadRef} {e : Error}
      (apart : s.Apart t activities) (failing : s.Failing t (ofThread t activities))
      (hears : Hears t activities) : Healthy ⟨s, activities, .fail e⟩
  | lost {s : Store} {t : ThreadRef} {below : List Activity} {e : Error} (sound : s.Sound below)
      (invalid : s.threads.size ≤ t) : Healthy ⟨s, .resumption t :: below, .fail e⟩

theorem Healthy.chained {m : Machine} (healthy : m.Healthy) :
    Chained m.activities ∨
      ∃ t below e, m.activities = .resumption t :: below ∧ m.control = .fail e := by
  cases healthy with
  | settled sound => exact .inl sound.chained
  | entered apart => exact .inl apart.chained
  | leaving apart => exact .inl apart.chained
  | failing apart => exact .inl apart.chained
  | lost sound => exact .inr ⟨_, _, _, rfl, rfl⟩

structure Proceeds (s : Store) (m : Machine) : Prop where
  healthy : m.Healthy
  onward : s.Onward m.store

theorem Proceeds.after {s s' : Store} {m : Machine} (onward : s.Onward s')
    (proceeds : Proceeds s' m) : Proceeds s m :=
  ⟨proceeds.healthy, onward.trans proceeds.onward⟩

structure Harmless (s : Store) (m : Machine) : Prop extends Proceeds s m where
  kept : ∀ t f below, f.kind = .script → Standing (s.thread t).frames f below →
    Standing (m.store.thread t).frames f below →
    ∀ index, index < f.base → (m.store.thread t).get index = (s.thread t).get index

theorem Harmless.of_sustains {s : Store} {m : Machine} (healthy : m.Healthy)
    (sustains : s.Sustains m.store) : Harmless s m :=
  ⟨⟨healthy, sustains.toOnward⟩, fun t f below script standing _ =>
    sustains.slots t f below script standing⟩

theorem kept_of_own {s s' : Store} {t : ThreadRef} {low : Nat} (inside : s.Local t low s')
    (own : ∀ f below, f.kind = .script → Standing (s'.thread t).frames f below →
      ∀ index, index < f.base → (s'.thread t).get index = (s.thread t).get index) :
    ∀ r f below, f.kind = .script → Standing (s.thread r).frames f below →
      Standing (s'.thread r).frames f below →
      ∀ index, index < f.base → (s'.thread r).get index = (s.thread r).get index := by
  intro r f below script before standing
  by_cases same : r = t
  · subst same
    exact own f below script standing
  · rw [inside.others r same (Store.lt_of_standing before)]
    exact fun _ _ => rfl

theorem Harmless.after {s s' : Store} {m : Machine} (sustains : s.Sustains s')
    (harmless : Harmless s' m) : Harmless s m := by
  refine ⟨.after sustains.toOnward harmless.toProceeds, ?_⟩
  intro t f below script standing later index bound
  rw [← sustains.slots t f below script standing index bound]
  have middle := sustains.stands t f below script standing
  exact harmless.kept t f below script middle later index bound

end Machine

end RegisterVm
