import RegisterVm.Proofs.Library.Natives
import RegisterVm.Proofs.Machine.Coroutines
import RegisterVm.Proofs.Machine.Scripts
import RegisterVm.Proofs.Machine.Unwinding

/-!
A step at large: it works on one thread and leaves the others alone, unless it assigns to a captured
variable or begins the resumption of a coroutine.
-/

namespace RegisterVm

inductive Reframed : List Frame → List Frame → Prop where
  | dropped {frames base : List Frame} (suffix : base <:+ frames) : Reframed frames base
  | replaced {f g : Frame} {below : List Frame} (slot : g.slot = f.slot)
      (target : g.target = f.target) (wanted : g.wanted = f.wanted) :
      Reframed (f :: below) (g :: below)
  | pushed {frames : List Frame} (g : Frame) : Reframed frames (g :: frames)
  | entered {f : Frame} {below : List Frame} (g : Frame) (pc : Nat) :
      Reframed (f :: below) (g :: { f with pc } :: below)

theorem Reframed.same {frames frames' : List Frame} (same : frames' = frames) :
    Reframed frames frames' :=
  .dropped (same ▸ List.suffix_refl frames)

structure Thread.Advances (th th' : Thread) : Prop where
  frames : Reframed th.frames th'.frames
  depth : th.Shallow → th'.Shallow

namespace Thread.Advances

variable {start th th' : Thread}

theorem of_suffix (limits : th'.limits = th.limits) (suffix : th'.frames <:+ th.frames) :
    th.Advances th' :=
  ⟨.dropped suffix, fun shallow => shallow.of_suffix limits suffix⟩

theorem of_same (limits : th'.limits = th.limits) (frames : th'.frames = th.frames) :
    th.Advances th' :=
  .of_suffix limits (frames ▸ List.suffix_refl _)

theorem after (limits : th.limits = start.limits) (frames : th.frames = start.frames)
    (advances : th.Advances th') : start.Advances th' :=
  ⟨frames ▸ advances.frames, fun shallow => advances.depth ((of_same limits frames).depth shallow)⟩

theorem before (advances : start.Advances th) (limits : th'.limits = th.limits)
    (frames : th'.frames = th.frames) : start.Advances th' :=
  ⟨frames ▸ advances.frames, fun shallow => (of_same limits frames).depth (advances.depth shallow)⟩

end Thread.Advances

structure Thread.SameRun (th th' : Thread) : Prop where
  status : th'.status = th.status
  isMain : th'.isMain = th.isMain
  limits : th'.limits = th.limits

structure Store.Advanced (t : ThreadRef) (s s' : Store) : Prop where
  inside : s.Local t 0 s'
  own : (s.thread t).SameRun (s'.thread t)
  thread : (s.thread t).Advances (s'.thread t)

namespace Store.Advanced

variable {t : ThreadRef} {low : Nat} {s s' : Store}

theorem refl (t : ThreadRef) (s : Store) : s.Advanced t s :=
  ⟨.refl s, ⟨rfl, rfl, rfl⟩, .of_same rfl rfl⟩

theorem after {start : Store} (inside : start.Local t 0 s)
    (own : (start.thread t).SameRun (s.thread t))
    (frames : (s.thread t).frames = (start.thread t).frames) (advanced : s.Advanced t s') :
    start.Advanced t s' where
  inside := inside.trans advanced.inside
  own := ⟨advanced.own.status.trans own.status, advanced.own.isMain.trans own.isMain,
    advanced.own.limits.trans own.limits⟩
  thread := .after own.limits frames advanced.thread

theorem modifyThread (advanced : s.Advanced t s') {f : Thread → Thread}
    (lists : ∀ th, (f th).openCells = th.openCells) (own : ∀ th, Thread.SameRun th (f th))
    (frames : ∀ th, (f th).frames = th.frames) : s.Advanced t (s'.modifyThread t f) := by
  have limits := field_modifyThread Thread.limits s' t t f fun th => (own th).limits
  refine ⟨advanced.inside.trans (local_modifyThread (lists _)), ⟨?_, ?_, ?_⟩,
    advanced.thread.before limits (field_modifyThread Thread.frames s' t t f frames)⟩
  · exact (field_modifyThread Thread.status s' t t f fun th => (own th).status).trans
      advanced.own.status
  · exact (field_modifyThread Thread.isMain s' t t f fun th => (own th).isMain).trans
      advanced.own.isMain
  · exact limits.trans advanced.own.limits

theorem of_confined (confined : s.Confined t low s')
    (thread : (s.thread t).Advances (s'.thread t)) : s.Advanced t s' :=
  ⟨confined.toLocal.mono (Nat.zero_le low),
    ⟨confined.own.status, confined.own.isMain, confined.own.limits⟩, thread⟩

theorem calm (calm : Calm t low s s') : s.Advanced t s' :=
  of_confined calm.confined (.of_same calm.confined.own.limits calm.frames)

theorem pushed {f : Frame} (pushed : s.Pushed t low f s') : s.Advanced t s' :=
  of_confined pushed.confined ⟨pushed.frames ▸ .pushed f, fun _ => pushed.shallow⟩

theorem finished (finished : s.Finished t low s') : s.Advanced t s' := by
  cases finished with
  | kept calm reason => exact .calm calm
  | dropped f below head returned popped cells =>
      refine of_confined popped.confined (.of_suffix popped.confined.own.limits ?_)
      rw [popped.frames, head]
      exact List.suffix_cons f below

theorem unwind (s : Store) (t : ThreadRef) (level depth : Nat) :
    s.Advanced t (s.unwind t level depth) := by
  by_cases valid : t < s.threads.size
  · have unwound := unwound_unwind s level depth valid
    refine ⟨s.local_unwind level depth, ⟨unwound.status, unwound.isMain, unwound.limits⟩,
      .of_suffix unwound.limits ?_⟩
    rw [unwound.frames]
    exact List.drop_suffix _ _
  · have invalid := Nat.not_lt.1 valid
    have same : (s.unwind t level depth).thread t = s.thread t := by
      rw [thread_invalid s invalid, thread_invalid _ (by rwa [threadCount_unwind])]
    exact ⟨s.local_unwind level depth, by rw [same]; exact ⟨rfl, rfl, rfl⟩,
      .of_same (by rw [same]) (by rw [same])⟩

end Store.Advanced

def Activity.thread : Activity → ThreadRef
  | .script t _ | .native t _ | .collect t _ | .restore t _ _ | .guard t _ _ | .resumption t => t

namespace Machine

/-- A run, state by state. -/
def after (m : Machine) (host : Host) : Nat → Machine
  | 0 => m
  | n + 1 => (m.after host n).step host

def worker? (m : Machine) : Option ThreadRef :=
  match m with
  | ⟨_, _, .enter t _⟩ => some t
  | ⟨_, a :: _, _⟩ => some a.thread
  | _ => none

theorem worker_enter {m : Machine} {r : ThreadRef} {body : NativeBody}
    (control : m.control = .enter r body) : m.worker? = some r := by
  obtain ⟨s, activities, _⟩ := m
  subst control
  rfl

theorem step_native {m : Machine} {r : ThreadRef} {body : NativeBody} {host : Host}
    (control : m.control = .enter r body) :
    m.step host = perform m.store m.activities (body.enter host r)
      fun s outcome => settle s m.activities r outcome := by
  obtain ⟨s, activities, _⟩ := m
  subst control
  rfl

inductive Works (t : ThreadRef) (s : Store) : Machine → Prop where
  | advanced {m : Machine} (advanced : s.Advanced t m.store) : Works t s m
  | resumes {s' : Store} {activities : List Activity} {co : ThreadRef} {arguments : Array Value}
      (calm : Calm t 0 s s') (accepted : Coroutine.refusal? s' t co = none) :
      Works t s (beginResumption s' activities co arguments)

inductive Steps (t : ThreadRef) (m : Machine) : Machine → Prop where
  | works {m' : Machine} (works : Works t m.store m') : Steps t m m'
  | assigned {m' : Machine} {f : Frame} {below : List Frame} (pc : Nat) {cell : CellRef}
      {value : Value} (head : (m.store.thread t).frames = f :: below)
      (assigns : m.assignment? = some (cell, value))
      (written : m'.store = (m.store.modifyThread t fun th => th.setPc pc).writeCell cell value) :
      Steps t m m'
  | ended {rest : List Activity} {values : Array Value}
      (activities : m.activities = .resumption t :: rest) (control : m.control = .done values) :
      Steps t m (endResumption m.store rest t)
  | killed {rest : List Activity} {e : Error} (activities : m.activities = .resumption t :: rest)
      (control : m.control = .fail e) : Steps t m ⟨killCoroutine m.store t, rest, .fail e⟩

variable {s : Store} {t : ThreadRef} {activities : List Activity}

theorem beginCall_advanced (valid : t < s.threads.size) (slot arguments : Nat)
    (wanted : Option Nat) :
    s.Advanced t (beginCall s activities t slot arguments wanted).store := by
  refine perform_elim (p := fun m => s.Advanced t m.store)
    (leads_enterFrom arguments wanted valid (Nat.le_refl slot)) ?_ ?_
  · rintro ⟨floor, callee⟩ s' ⟨-, f, -, pushed⟩
    cases callee <;> exact .pushed pushed
  · rintro e s' rfl
    exact .refl t _

theorem beginGuardedCall_advanced (valid : t < s.threads.size) (slot arguments : Nat) :
    s.Advanced t (beginGuardedCall s activities t slot arguments).store := by
  have pinned : s.Advanced t (s.modifyThread t pin) :=
    (Store.Advanced.refl t s).modifyThread (fun _ => rfl) (fun _ => ⟨rfl, rfl, rfl⟩) fun _ => rfl
  refine .after pinned.inside pinned.own ?_ (beginCall_advanced (by simpa using valid) _ _ _)
  exact Store.field_modifyThread Thread.frames s t t pin fun _ => rfl

theorem beginValueCall_advanced (valid : t < s.threads.size) (callee : Value)
    (arguments : Array Value) :
    s.Advanced t (beginValueCall s activities t callee arguments).store := by
  refine perform_elim (p := fun m => s.Advanced t m.store) (leads_layOut t callee arguments s)
    ?_ ?_
  · rintro slot s' ⟨-, calm, -⟩
    have pinned := (Store.Advanced.calm calm).modifyThread (f := pin) (fun _ => rfl)
      (fun _ => ⟨rfl, rfl, rfl⟩) fun _ => rfl
    have valid := Nat.lt_of_lt_of_le valid pinned.inside.grown
    refine .after pinned.inside pinned.own ?_ (beginCall_advanced valid _ _ _)
    exact (Store.field_modifyThread Thread.frames s' t t pin fun _ => rfl).trans calm.frames
  · rintro e s' rfl
    exact .refl t _

theorem beginResumption_local (s : Store) (activities : List Activity) (t : ThreadRef)
    (arguments : Array Value) : s.Local t 0 (beginResumption s activities t arguments).store := by
  by_cases valid : t < s.threads.size
  · have woken : s.Local t 0 (s.modifyThread t fun th =>
        { th with status := .running, held := true }) := Store.local_modifyThread rfl
    have valid := Nat.lt_of_lt_of_le valid woken.grown
    simp only [beginResumption]
    generalize (s.modifyThread t fun th => { th with status := .running, held := true }) = s₁
      at woken valid
    split
    · refine perform_elim (p := fun m => s.Local t 0 m.store)
        (leads_layOutEntry t arguments s₁) ?_ ?_
      · intro _ s₂ calm
        have valid := Nat.lt_of_lt_of_le valid calm.confined.grown
        have laid := woken.trans calm.confined.toLocal
        refine perform_elim (p := fun m => s.Local t 0 m.store)
          (leads_enterCall _ _ _ valid (Nat.zero_le _)) ?_ ?_
        · rintro callee s₃ ⟨f, -, -, pushed⟩
          cases callee <;> exact laid.trans (pushed.confined.toLocal.mono (Nat.zero_le _))
        · rintro e s₃ rfl
          exact laid
      · rintro e s₂ rfl
        exact woken
    · have awake : s.Local t 0 (s₁.awaken t) := woken.trans (Store.local_modifyThread rfl)
      refine perform_elim (p := fun m => s.Local t 0 m.store)
        (leads_deliverYield valid arguments) ?_ ?_
      · rintro _ s₂ ⟨popped, -⟩
        split <;> exact awake.trans popped.confined.toLocal
      · rintro e s₂ rfl
        exact awake
    · exact .refl s
    · exact .refl s
  · obtain ⟨e, refused⟩ := beginResumption_invalid (Nat.not_lt.1 valid) activities arguments
    rw [refused]
    exact .refl s

theorem settle_works (valid : t < s.threads.size) {outcome : NativeOutcome}
    (leaves : Leaves t s True outcome) : Works t s (settle s activities t outcome) := by
  cases outcome with
  | returns count =>
      simp only [settle]
      refine perform_elim (leads_finishNative valid (fun _ _ _ => ⟨Nat.zero_le _, Nat.zero_le _⟩)
        count) ?_ fun _ _ impossible => impossible.elim
      exact fun _ s' finished => .advanced (.finished finished)
  | calls callee arguments restoring next =>
      obtain ⟨rfl, -⟩ := leaves
      exact .advanced (beginValueCall_advanced valid callee arguments)
  | protects slot arguments next => exact .advanced (beginGuardedCall_advanced valid slot arguments)
  | resumes co arguments next => exact .resumes (.refl t 0 s) leaves.2.1

theorem Works.after {s' : Store} {m : Machine} (calm : Calm t 0 s s') (works : Works t s' m) :
    Works t s m := by
  cases works with
  | advanced advanced =>
      have own := calm.confined.own
      exact .advanced (.after calm.confined.toLocal ⟨own.status, own.isMain, own.limits⟩ calm.frames advanced)
  | resumes later accepted => exact .resumes (calm.trans later) accepted

theorem perform_native_works (valid : t < s.threads.size) {action : Action NativeOutcome}
    (keeps : Keeps (Calm t 0 s) action (Leaves t s True)) :
    Works t s (perform s activities action fun s outcome => settle s activities t outcome) := by
  refine perform_elim (keeps.leads (.refl _ _ _)) ?_ ?_
  · rintro outcome s' ⟨calm, leaves⟩
    have valid := Nat.lt_of_lt_of_le valid calm.confined.grown
    exact .after calm (settle_works valid (leaves.calm calm))
  · exact fun e s' calm => .advanced (.calm calm)

theorem ready_zero (valid : t < s.threads.size) : Ready t 0 s :=
  ⟨valid, Nat.zero_le _, Nat.zero_le _⟩

theorem enter_works (valid : t < s.threads.size) (body : NativeBody) :
    Works t s (perform s activities (body.enter .bare t) fun s outcome =>
      settle s activities t outcome) := by
  by_cases yields : body = .builtin .yield
  · subst yields
    refine perform_elim (leads_yieldArguments t s) ?_ ?_
    · rintro outcome s' ⟨rfl, yielded⟩
      have marked : s.Advanced t s' := by
        rw [yielded.store]
        exact (Store.Advanced.refl t s).modifyThread (fun _ => rfl) (fun _ => ⟨rfl, rfl, rfl⟩)
          fun _ => rfl
      have frames : (s'.thread t).frames = (s.thread t).frames := by
        rw [yielded.store]
        exact Store.field_modifyThread Thread.frames s t t _ fun _ => rfl
      have valid := Nat.lt_of_lt_of_le valid marked.inside.grown
      simp only [settle]
      refine perform_elim (leads_finishNative valid (fun _ _ _ => ⟨Nat.zero_le _, Nat.zero_le _⟩)
        0) ?_ fun _ _ impossible => impossible.elim
      exact fun _ s'' finished =>
        .advanced (.after marked.inside marked.own frames (.finished finished))
    · rintro e s' rfl
      exact .advanced (.refl t _)
  · exact perform_native_works valid (body.keeps_enter yields (ready_zero valid).permits fun _ => trivial)

theorem ran_steps {f : Frame} {below : List Frame} {floor : Nat} {rest : List Activity}
    {m : Machine} (head : (s.thread t).frames = f :: below) (inside : floor ≤ below.length)
    (ran : Ran t f below s (.script t floor :: rest) m) :
    Steps t ⟨s, .script t floor :: rest, .run⟩ m := by
  have advanced : ∀ {s' : Store} {low : Nat} {control : Control}, s.Confined t low s' →
      Reframed (f :: below) (s'.thread t).frames →
      ((s.thread t).Shallow → (s'.thread t).Shallow) →
      Steps t ⟨s, .script t floor :: rest, .run⟩ ⟨s', .script t floor :: rest, control⟩ :=
    fun confined frames depth =>
      .works (.advanced (.of_confined confined ⟨head ▸ frames, depth⟩))
  -- But for a call there are no more frames than before.
  have fewer : ∀ {s' : Store} {low : Nat} {control : Control}, s.Confined t low s' →
      Reframed (f :: below) (s'.thread t).frames →
      (s'.thread t).frames.length ≤ (f :: below).length →
      Steps t ⟨s, .script t floor :: rest, .run⟩ ⟨s', .script t floor :: rest, control⟩ :=
    fun confined frames bound => advanced confined frames fun shallow =>
      shallow.of_le confined.own.limits (head ▸ bound)
  cases ran with
  | stayed pc confined frames =>
      exact fewer confined (frames ▸ .replaced rfl rfl rfl) (by simp [frames])
  | assigned pc assigns written =>
      refine .assigned pc head ?_ written
      simp only [assignment?, head, if_neg (Nat.not_lt.2 inside), assigns]
  | entered pc g fresh above deliver confined cells frames top room delivers shallow =>
      exact advanced confined (frames ▸ .entered g pc) fun _ => shallow
  | replaced g fresh confined frames top shut wanted =>
      exact fewer confined (frames ▸ .replaced fresh.slot fresh.target wanted) (by simp [frames])
  | returned popped =>
      refine fewer popped.confined ?_ (by simp [popped.frames])
      rw [popped.frames]
      exact .dropped (List.suffix_cons f below)
  | vacated e confined frames =>
      refine fewer confined ?_ (by simp [frames])
      rw [frames]
      exact .dropped (List.suffix_cons f below)

theorem runScript_steps (s : Store) (rest : List Activity) (t : ThreadRef) (floor : Nat) :
    Steps t ⟨s, .script t floor :: rest, .run⟩ (runScript s rest t floor) := by
  have stays : ∀ {activities : List Activity} {control : Control},
      Steps t ⟨s, .script t floor :: rest, .run⟩ ⟨s, activities, control⟩ :=
    .works (.advanced (.refl t s))
  have turn := runScript_turn s rest t floor
  generalize runScript s rest t floor = next at turn ⊢
  cases turn with
  | spent short => exact stays
  | runs head inside callee =>
      exact ran_steps head inside
        (runInstruction_ran (.script t floor :: rest) (Store.lt_of_frames head) head callee)
  | astray head inside e => exact stays

def Real (m : Machine) : Prop :=
  match m with
  | ⟨s, _, .enter t _⟩ => t < s.threads.size
  | ⟨s, .native t _ :: _, _⟩ => t < s.threads.size
  | _ => True

theorem succeed_steps {top : Activity} {rest : List Activity} {values : Array Value}
    (worker : worker? ⟨s, top :: rest, .done values⟩ = some t)
    (real : Real ⟨s, top :: rest, .done values⟩) :
    Steps t ⟨s, top :: rest, .done values⟩ (succeed .bare s top rest values) := by
  have adjusts : ∀ {f : Thread → Thread} {activities : List Activity} {control : Control},
      (∀ th, (f th).openCells = th.openCells) → (∀ th, Thread.SameRun th (f th)) →
      (∀ th, (f th).frames = th.frames) →
      Steps t ⟨s, top :: rest, .done values⟩ ⟨s.modifyThread t f, activities, control⟩ :=
    fun lists own frames =>
      .works (.advanced ((Store.Advanced.refl t s).modifyThread lists own frames))
  cases top with
  | script r floor =>
      simp only [succeed]
      split <;> exact .works (.advanced (.refl t s))
  | native r next =>
      obtain rfl : r = t := Option.some.inj worker
      exact .works (perform_native_works real ((ready_zero real).keeps_succeed next values))
  | collect r slot =>
      obtain rfl : r = t := Option.some.inj worker
      simp only [succeed]
      refine perform_elim (leads_takeResults r slot s) ?_ fun _ _ impossible => impossible.elim
      rintro results s' rfl
      exact adjusts (fun _ => rfl) (fun _ => ⟨rfl, rfl, rfl⟩) fun _ => rfl
  | restore => exact .works (.advanced (.refl t s))
  | guard r slot depth =>
      obtain rfl : r = t := Option.some.inj worker
      exact adjusts (fun _ => rfl) (fun _ => ⟨rfl, rfl, rfl⟩) fun _ => rfl
  | resumption r =>
      obtain rfl : r = t := Option.some.inj worker
      exact .ended rfl rfl

theorem failTop_steps {top : Activity} {rest : List Activity} {e : Error}
    (worker : worker? ⟨s, top :: rest, .fail e⟩ = some t)
    (real : Real ⟨s, top :: rest, .fail e⟩) :
    Steps t ⟨s, top :: rest, .fail e⟩ (failTop .bare s top rest e) := by
  have unpinned : s.Advanced t (s.modifyThread t unpin) :=
    (Store.Advanced.refl t s).modifyThread (fun _ => rfl) (fun _ => ⟨rfl, rfl, rfl⟩) fun _ => rfl
  cases top with
  | script => exact .works (.advanced (.refl t s))
  | native r next =>
      obtain rfl : r = t := Option.some.inj worker
      exact .works (perform_native_works real (next.keeps_fail (ready_zero real).permits e))
  | collect r slot =>
      obtain rfl : r = t := Option.some.inj worker
      exact .works (.advanced unpinned)
  | restore r level depth =>
      obtain rfl : r = t := Option.some.inj worker
      exact .works (.advanced (.unwind s r level depth))
  | guard r slot depth =>
      obtain rfl : r = t := Option.some.inj worker
      simp only [failTop]
      split
      · have caught := (Store.Advanced.unwind (s.modifyThread r unpin) r slot depth).modifyThread
          (f := fun th => (th.put slot e.value).withTop (slot + 1)) (fun _ => rfl)
          (fun _ => ⟨rfl, rfl, rfl⟩) fun _ => rfl
        refine .works (.advanced (.after unpinned.inside unpinned.own ?_ caught))
        exact Store.field_modifyThread Thread.frames s r r unpin fun _ => rfl
      · exact .works (.advanced unpinned)
  | resumption r =>
      obtain rfl : r = t := Option.some.inj worker
      exact .killed rfl rfl

/-- A step changes nothing, or it is one that some thread takes. -/
theorem step_cases {m : Machine} (real : m.Real) :
    m.step .bare = m ∨ ∃ t, m.worker? = some t ∧ Steps t m (m.step .bare) := by
  obtain ⟨s, activities, control⟩ := m
  cases control with
  | enter t body => exact .inr ⟨t, rfl, .works (enter_works real body)⟩
  | run =>
      cases activities with
      | nil => exact .inl rfl
      | cons top rest =>
          cases top with
          | script t floor => exact .inr ⟨t, rfl, runScript_steps s rest t floor⟩
          | _ => exact .inl rfl
  | done values =>
      cases activities with
      | nil => exact .inl rfl
      | cons top rest => exact .inr ⟨top.thread, rfl, succeed_steps rfl real⟩
  | fail e =>
      cases activities with
      | nil => exact .inl rfl
      | cons top rest => exact .inr ⟨top.thread, rfl, failTop_steps rfl real⟩

theorem Steps.linked {m m' : Machine} (steps : Steps t m m') (linked : m.store.Linked) :
    m'.store.Linked := by
  cases steps with
  | works works =>
      cases works with
      | advanced advanced => exact advanced.inside.linked linked
      | resumes calm accepted =>
          exact (beginResumption_local _ _ _ _).linked (calm.confined.linked linked)
  | assigned pc head assigns written =>
      have advance : m.store.Local t 0 (m.store.modifyThread t fun th => th.setPc pc) :=
        (Store.confined_reworked (Thread.reworked_setPc _ _) : m.store.Confined t 0 _).toLocal
      rw [written]
      exact (advance.linked linked).writeCell _ _
  | ended =>
      simp only [endResumption]
      split <;> exact (Store.local_modifyThread rfl : Store.Local t 0 _ _).linked linked
  | killed => exact (local_killCoroutine m.store t : m.store.Local t 0 _).linked linked

end Machine

end RegisterVm
