import RegisterVm.Proofs.Lifetime.Calls
import RegisterVm.Proofs.Limits.Natives

/-!
Machines within the limits. A frame that has just been pushed has the registers of its function, if
there is such a function; it is the only one of which so little is known, and no other thread runs
before it does.
-/

namespace RegisterVm

variable {limits : Limits} {s s' : Store} {t : ThreadRef} {activities : List Activity} {f : Frame}
  {below : List Frame}

structure Store.Orderly (limits : Limits) (s : Store) : Prop where
  fits : s.Fits limits
  seats : ∀ t, s.Seats t

def Activity.Placed (limits : Limits) : Activity → Prop
  | .collect _ slot => slot < limits.slots
  | .restore _ level _ => level ≤ limits.slots
  | .guard _ slot _ => slot + 1 < limits.slots
  | _ => True

def Awaited : List Activity → Option ThreadRef
  | .script t _ :: _ | .guard t _ _ :: _ | .native t .protectedCall :: _ => some t
  | _ => none

def Store.Spare (limits : Limits) (s : Store) (t : ThreadRef) : Prop :=
  ∀ f below, (s.thread t).frames = f :: below → f.kind = .native → (s.thread t).top < limits.slots

theorem awaited_of_serves {r : ThreadRef} (serves : Serves t activities)
    (awaited : Awaited activities = some r) : r = t := by
  cases activities with
  | nil => contradiction
  | cons a below =>
      cases a with
      | script | guard =>
          cases serves
          exact (Option.some.inj awaited).symm
      | collect | resumption => contradiction
      | native | restore => exact serves.elim

theorem awaited_of_asks {r : ThreadRef} (asks : Asks t activities)
    (awaited : Awaited activities = some r) : r = t := by
  match activities, asks, awaited with
  | .native _ .protectedCall :: _, ⟨rfl, _⟩, awaited => exact (Option.some.inj awaited).symm

/-- Where a native function of that thread goes on, there is a slot left above its values. -/
def Store.Room (limits : Limits) (s : Store) (activities : List Activity) : Prop :=
  ∀ t, Awaited activities = some t → s.Spare limits t

theorem room_of_none (unawaited : Awaited activities = none) : s.Room limits activities := by
  intro t awaited
  rw [unawaited] at awaited
  contradiction

namespace Machine

inductive Poised (t : ThreadRef) : Machine → Prop where
  | running {s : Store} {floor : Nat} {rest : List Activity} {f : Frame} {below : List Frame}
      (head : (s.thread t).frames = f :: below) (perched : f.Perched s)
      (inside : floor ≤ below.length) : Poised t ⟨s, .script t floor :: rest, .run⟩
  | entering {s : Store} {activities : List Activity} {body : NativeBody} :
      Poised t ⟨s, activities, .enter t body⟩
  | failing {s : Store} {a : Activity} {rest : List Activity} {e : Error} {base : List Frame}
      (own : a.thread = t) (suffix : base <:+ (s.thread t).frames)
      (seated : ∀ f ∈ base, f.Seated s) (expects : Expects (ofThread t (a :: rest)) base) :
      Poised t ⟨s, a :: rest, .fail e⟩

/-- The machine keeps to the limits, and what its activities will do keeps to them. -/
structure Fitting (limits : Limits) (m : Machine) : Prop where
  fits : m.store.Fits limits
  placed : ∀ a ∈ m.activities, a.Placed limits
  seats : ∀ t, m.store.Seats t ∨ Poised t m
  room : (m.control = .run ∨ ∃ values, m.control = .done values) → m.store.Room limits m.activities

end Machine

theorem Store.Fits.orderly_modifyThread (fits : s.Fits limits) (others : ∀ r, r ≠ t → s.Seats r)
    {f : Thread → Thread} (own : (s.thread t).Fits limits → (f (s.thread t)).Fits limits)
    (seated : ∀ g ∈ (f (s.thread t)).frames, g.Seated s) :
    (s.modifyThread t f).Orderly limits := by
  refine ⟨fits.modifyThread own fun _ g member => seated g (List.mem_of_mem_tail member),
    fun r g member => ?_⟩
  rw [thread_modifyThread] at member
  split at member
  · exact seated g member
  · rename_i other
    by_cases same : r = t
    · subst same
      rw [thread_invalid s (Nat.not_lt.1 fun valid => other ⟨rfl, valid⟩)] at member
      contradiction
    · exact others r same g member

namespace Store.Orderly

variable (orderly : s.Orderly limits)

include orderly

theorem of_spares (fits : s'.Fits limits) (spares : s.Spares t s') (own : s'.Seats t) :
    s'.Orderly limits := by
  refine ⟨fits, fun r => ?_⟩
  by_cases same : r = t
  · exact same ▸ own
  · exact (orderly.seats r).extend spares.extended (spares.others r same)

theorem serving (serving : Serving limits t s s') : s'.Orderly limits :=
  orderly.of_spares serving.fits serving.spares
    ((orderly.seats t).extend serving.spares.extended (serving.frames ▸ List.suffix_refl _))

theorem modifyThread {f : Thread → Thread}
    (own : (s.thread t).Fits limits → (f (s.thread t)).Fits limits)
    (frames : (f (s.thread t)).frames <:+ (s.thread t).frames) :
    (s.modifyThread t f).Orderly limits :=
  orderly.fits.orderly_modifyThread (fun r _ => orderly.seats r) own
    fun g member => orderly.seats t g (frames.mem member)

theorem mark {f : Thread → Thread} (limited : ∀ th, (f th).limits = th.limits)
    (frames : ∀ th, (f th).frames = th.frames) (stack : ∀ th, (f th).stack = th.stack)
    (top : ∀ th, (f th).top = th.top) : (s.modifyThread t f).Orderly limits :=
  ⟨orderly.fits.mark limited frames stack top, (orderly.modifyThread (fun own =>
    own.of_stack (limited _) (frames _) ((stack _).symm ▸ own.stack) ((top _).symm ▸ own.top))
    (suffix_of_eq (frames _))).seats⟩

theorem reserve (needed : Nat) :
    (s.modifyThread t fun th => th.reserve needed).Orderly limits :=
  orderly.modifyThread (fun own => own.reserve needed) (suffix_of_eq (Thread.frames_reserve _ _))

variable (valid : t < s.threads.size)

include valid

theorem leads_layOut (callee : Value) (arguments : Array Value) :
    Leads (layOut t callee arguments) s
      (fun slot s' => slot < limits.slots ∧ s'.Orderly limits ∧ t < s'.threads.size)
      fun s' => s' = s := by
  refine .lookThread_bind (.reserve_fits_bind (fun granted => .modifyThread_bind (.pure ?_)) rfl)
  have bound := Nat.le_trans ((orderly.fits.threads t valid).le_maxStack granted)
    limits.maxStack_le_slots
  refine ⟨by omega, (orderly.reserve _).modifyThread (fun own => ?_) (by simp), by simpa using valid⟩
  exact (own.putAll _ (by simpa [Nat.add_assoc, Nat.add_comm] using bound)).withTop bound

theorem leads_layOutEntry (arguments : Array Value) :
    Leads (Machine.layOutEntry t arguments) s
      (fun _ s' => s'.Orderly limits ∧ t < s'.threads.size) fun s' => s' = s := by
  refine .reserve_fits_bind (fun granted => .modifyThread ?_) rfl
  have bound := Nat.le_trans ((orderly.fits.threads t valid).le_maxStack granted)
    limits.maxStack_le_slots
  refine ⟨(orderly.reserve _).modifyThread (fun own => ?_) (by simp), by simpa using valid⟩
  exact (own.putAll _ (by simpa using bound)).withTop bound

theorem finish (head : (s.thread t).frames = f :: below) {work : Thread → Thread} {source n : Nat}
    (own : (s.thread t).Fits limits → (work (s.thread t)).Fits limits)
    (frames : (work (s.thread t)).frames = (s.thread t).frames)
    (supplied : 0 < n → source + n ≤ limits.slots) (delivered : f.target + n < limits.slots) :
    (s.modifyThread t fun th => (work th).finish source n).Orderly limits ∧
      (s.modifyThread t fun th => (work th).finish source n).Spare limits t := by
  have worked := own (orderly.fits.threads t valid)
  have head' := frames.trans head
  have left := Thread.frames_finish _ head' source n
  refine ⟨orderly.modifyThread (fun _ => worked.finish head' supplied (Nat.le_of_lt delivered)) ?_,
    fun g rest innermost native => ?_⟩
  · rw [left, head]
    exact List.suffix_cons f below
  · rw [thread_modifyThread_self s _ valid] at innermost ⊢
    rw [left] at innermost
    rcases worked.top_finish head' source n with top | ⟨caller, under, rfl, script, -⟩
    · omega
    · obtain ⟨rfl, -⟩ := List.cons.inj innermost
      cases native.symm.trans script

theorem leads_deliver {base : Nat} (values : Array Value)
    (place : ∀ f below, (s.thread t).frames = f :: below → f.base = base) :
    Leads (do
        RegisterVm.reserve t (base + values.size)
        RegisterVm.modifyThread t fun th =>
          ((th.putAll base values.toList).withTop (base + values.size)).finish base values.size) s
      (fun _ s' => s'.Orderly limits ∧ s'.Spare limits t) fun s' => s' = s := by
  refine .reserve_fits_bind (fun granted => .modifyThread ?_) rfl
  have bound := Nat.le_trans ((orderly.fits.threads t valid).le_maxStack granted)
    limits.maxStack_le_slots
  have reserved := orderly.reserve (t := t) (base + values.size)
  have same := congrArg Thread.frames
    (thread_modifyThread_self s (fun th => th.reserve (base + values.size)) valid)
  rw [Thread.frames_reserve] at same
  have valid : t < (s.modifyThread t fun th => th.reserve (base + values.size)).threads.size := by
    simpa using valid
  rw [← same] at place
  generalize Store.modifyThread _ _ _ = s₁ at reserved valid place ⊢
  have laid : (s₁.thread t).Fits limits → (((s₁.thread t).putAll base values.toList).withTop
      (base + values.size)).Fits limits :=
    fun own => (own.putAll _ (by simpa using bound)).withTop bound
  cases head : (s₁.thread t).frames with
  | nil =>
      have empty : ((s₁.modifyThread t fun th => ((th.putAll base values.toList).withTop
          (base + values.size)).finish base values.size).thread t).frames = [] := by
        rw [thread_modifyThread_self s₁ _ valid, Thread.finish_nil _ (by simpa using head)]
        simpa using head
      refine ⟨reserved.modifyThread (fun own => ?_) ?_, fun f below innermost => ?_⟩
      · rw [Thread.finish_nil _ (by simpa using head)]
        exact laid own
      · rw [Thread.finish_nil _ (by simpa using head)]
        simp
      · rw [empty] at innermost
        contradiction
  | cons f below =>
      obtain rfl := place f below head
      have own := reserved.fits.frame valid head
      have := own.target
      have := own.base
      exact reserved.finish valid head laid (by simp) (fun _ => bound) (by omega)

theorem leads_deliverYield (values : Array Value) :
    Leads (Machine.deliverYield t values) s
      (fun _ s' => s'.Orderly limits ∧ s'.Spare limits t) fun s' => s'.Orderly limits := by
  refine .modifyThread_bind (.lookThread_bind ?_)
  have woken : (s.awaken t).Orderly limits :=
    orderly.mark (fun _ => rfl) (fun _ => rfl) (fun _ => rfl) fun _ => rfl
  have valid : t < (s.awaken t).threads.size := by simpa [awaken] using valid
  change Leads _ (s.awaken t) _ _
  refine (woken.leads_deliver valid values fun f below head => ?_).mono (fun _ _ => id) ?_
  · have innermost : ((s.awaken t).thread t).frame? = some f := by simp [Thread.frame?, head]
    rw [← Store.awaken, innermost]
  · rintro s' rfl
    exact woken

end Store.Orderly

namespace Machine

theorem placed_cons {a : Activity} (own : a.Placed limits)
    (placed : ∀ b ∈ activities, b.Placed limits) : ∀ b ∈ a :: activities, b.Placed limits :=
  List.forall_mem_cons.2 ⟨own, placed⟩

theorem orderly_pin (orderly : s.Orderly limits) (t : ThreadRef) :
    (s.modifyThread t pin).Orderly limits :=
  orderly.mark (fun _ => rfl) (fun _ => rfl) (fun _ => rfl) fun _ => rfl

theorem Fitting.fail (orderly : s.Orderly limits) (placed : ∀ a ∈ activities, a.Placed limits)
    (e : Error) : Fitting limits ⟨s, activities, .fail e⟩ :=
  ⟨orderly.fits, placed, fun t => .inl (orderly.seats t), nofun⟩

theorem Fitting.done (orderly : s.Orderly limits) (placed : ∀ a ∈ activities, a.Placed limits)
    (room : s.Room limits activities) (values : Array Value) :
    Fitting limits ⟨s, activities, .done values⟩ :=
  ⟨orderly.fits, placed, fun t => .inl (orderly.seats t), fun _ => room⟩

def ended (count : Nat) (th : Thread) : Thread :=
  if th.yielding then th else th.finish (th.top - min count th.top) (min count th.top)

section Calls

variable (orderly : s.Orderly limits) (placed : ∀ a ∈ activities, a.Placed limits)

include orderly placed

theorem proceed_fitting {callee : Entered} (admits : s.Admits limits t callee s') {floor : Nat}
    (shallow : floor ≤ (s.thread t).frames.length) :
    Fitting limits (proceed s' activities t floor callee) := by
  obtain ⟨f, frames, kind, perched⟩ := admits.frames
  have others : ∀ r, r ≠ t → s'.Seats r := fun r different =>
    (orderly.seats r).extend admits.spares.extended (admits.spares.others r different)
  cases callee with
  | script =>
      refine ⟨admits.fits, placed_cons trivial placed, fun r => ?_, fun _ => ?_⟩
      · by_cases same : r = t
        · subst same
          exact .inr (.running frames perched shallow)
        · exact .inl (others r same)
      · rintro _ ⟨⟩ g under head native
        obtain ⟨rfl, -⟩ := List.cons.inj (frames.symm.trans head)
        cases kind.symm.trans native
  | native body =>
      refine ⟨admits.fits, placed, fun r => ?_, nofun⟩
      by_cases same : r = t
      · subst same
        exact .inr .entering
      · exact .inl (others r same)

variable (valid : t < s.threads.size)

include valid

theorem beginCall_fitting (slot arguments : Nat) :
    Fitting limits (beginCall s activities t slot arguments none) := by
  have leads : Leads (enterFrom t slot arguments none) s
      (fun entered s' => entered.1 = (s.thread t).frames.length ∧
        s.Admits limits t entered.2 s') fun s' => s' = s :=
    .lookThread_bind ((orderly.fits.leads_enterCall valid (orderly.seats t) arguments
      (Nat.le_refl slot) nofun).bind fun _ _ admits => .pure ⟨rfl, admits⟩)
  refine perform_elim leads ?_ ?_
  · rintro ⟨_, callee⟩ s' ⟨rfl, admits⟩
    exact proceed_fitting orderly placed admits (Nat.le_refl _)
  · rintro e s' rfl
    exact .fail orderly placed e

theorem beginGuardedCall_fitting {slot : Nat} (bound : slot + 1 < limits.slots)
    (arguments : Nat) : Fitting limits (beginGuardedCall s activities t slot arguments) := by
  have guarded := placed_cons (a := .guard t slot (s.thread t).depth) bound placed
  exact beginCall_fitting (orderly_pin orderly t) guarded (by simpa using valid) slot arguments

theorem beginValueCall_fitting (callee : Value) (arguments : Array Value) :
    Fitting limits (beginValueCall s activities t callee arguments) := by
  refine perform_elim (orderly.leads_layOut valid callee arguments) ?_ ?_
  · rintro slot s' ⟨bound, orderly, valid⟩
    have collected := placed_cons (a := .collect t slot) bound placed
    exact beginCall_fitting (orderly_pin orderly t) collected (by simpa using valid) slot _
  · rintro e s' rfl
    exact .fail orderly placed e

theorem beginRestoringCall_fitting (callee : Value) (arguments : Array Value) :
    Fitting limits (beginRestoringCall s activities t callee arguments) := by
  have level : (Activity.restore t (s.thread t).top (s.thread t).depth).Placed limits :=
    (orderly.fits.threads t valid).top
  exact beginValueCall_fitting orderly (placed_cons level placed) valid callee arguments

omit valid in
theorem beginResumption_fitting (arguments : Array Value) :
    Fitting limits (beginResumption s activities t arguments) := by
  have resumed : ∀ a ∈ Activity.resumption t :: activities, a.Placed limits :=
    placed_cons trivial placed
  by_cases valid : t < s.threads.size
  · have roused : (rouse s t).Orderly limits :=
      orderly.mark (fun _ => rfl) (fun _ => rfl) (fun _ => rfl) fun _ => rfl
    have known : t < (rouse s t).threads.size := by simpa [rouse] using valid
    cases status : (s.thread t).status with
    | fresh =>
        simp only [beginResumption, status, rouse_eq]
        refine perform_elim (roused.leads_layOutEntry known arguments) ?_ ?_
        · rintro _ s₁ ⟨laid, valid⟩
          refine perform_elim (laid.fits.leads_enterCall valid (laid.seats t) arguments.size
            (Nat.le_refl 0) fun asked => absurd rfl asked) ?_ ?_
          · intro callee s₂ admits
            exact proceed_fitting laid resumed admits (Nat.zero_le _)
          · rintro e s₂ rfl
            exact .fail laid resumed e
        · rintro e s₁ rfl
          exact .fail roused resumed e
    | suspended =>
        simp only [beginResumption, status, rouse_eq]
        refine perform_elim (roused.leads_deliverYield known arguments) ?_ ?_
        · rintro _ s₁ ⟨delivered, spare⟩
          split
          · exact .done delivered resumed (room_of_none rfl) _
          · refine ⟨delivered.fits, placed_cons trivial resumed, fun r => .inl (delivered.seats r),
              fun _ => ?_⟩
            rintro _ ⟨⟩
            exact spare
        · intro e s₁ woken
          exact .fail woken resumed e
    | running =>
        simp only [beginResumption, status]
        exact .fail orderly placed _
    | dead =>
        simp only [beginResumption, status]
        exact .fail orderly placed _
  · obtain ⟨e, refused⟩ := beginResumption_invalid (Nat.not_lt.1 valid) activities arguments
    rw [refused]
    exact .fail orderly resumed e

omit orderly placed valid in
theorem settle_returns (count : Nat) : settle s activities t (.returns count) =
    ⟨s.modifyThread t (ended count), activities, .done #[]⟩ := rfl

theorem settle_fitting (serves : Serves t activities) (head : (s.thread t).frames = f :: below)
    (native : f.kind = .native) {outcome : NativeOutcome} (leaves : Leaves t s True outcome)
    (roomy : Roomy limits t outcome s)
    (yields : (s.thread t).yielding = true → (s.thread t).top < limits.slots) :
    Fitting limits (settle s activities t outcome) := by
  have own := orderly.fits.frame valid head
  have waits : ∀ next, ∀ a ∈ Activity.native t next :: activities, a.Placed limits :=
    fun next => placed_cons trivial placed
  cases outcome with
  | returns count =>
      have room : ∀ {s' : Store}, s'.Spare limits t → s'.Room limits activities := by
        intro s' spare r awaited
        obtain rfl := awaited_of_serves serves awaited
        exact spare
      have bound := (orderly.fits.threads t valid).top
      have supplied : 0 < min count (s.thread t).top →
          (s.thread t).top - min count (s.thread t).top + min count (s.thread t).top ≤
            limits.slots := by omega
      have own : (s.thread t).Fits limits → (id (s.thread t)).Fits limits := id
      have finished := orderly.finish valid head own rfl supplied (roomy count rfl _ _ head)
      rw [settle_returns]
      cases yielding : (s.thread t).yielding with
      | true =>
          have same : ended count (s.thread t) = id (s.thread t) := by
            rw [ended, if_pos yielding, id]
          rw [Store.modifyThread_congr same, s.modifyThread_id]
          exact .done orderly placed (room fun g rest head' _ => yields yielding) _
      | false =>
          have same : ended count (s.thread t) =
              (id (s.thread t)).finish ((s.thread t).top - min count (s.thread t).top)
                (min count (s.thread t).top) := by
            rw [ended, if_neg (by simp [yielding]), id]
          rw [Store.modifyThread_congr (g := fun th => (id th).finish _ _) same]
          exact .done finished.1 placed (room finished.2) _
  | calls callee arguments restoring next =>
      obtain ⟨rfl, -⟩ := leaves
      exact beginValueCall_fitting orderly (waits next) valid callee arguments
  | protects slot arguments next =>
      obtain ⟨-, rfl⟩ := leaves
      have granted := Nat.le_trans (own.granted native) limits.maxStack_le_slots
      have place : ((s.thread t).frame?.map Frame.base).getD 0 = f.base := by
        simp [Thread.frame?, head]
      refine beginGuardedCall_fitting orderly (waits next) valid ?_ arguments
      have := own.top
      simp only [nativeSlots] at granted
      omega
  | resumes co arguments next => exact beginResumption_fitting orderly (waits next) arguments

end Calls

end Machine

end RegisterVm
