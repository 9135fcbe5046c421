import RegisterVm.Proofs.Library.Natives
import RegisterVm.Proofs.Protected.Guarding

/-!
Every step of a machine on top of a call in progress keeps what the call relies on, one lemma for
each function that a step is made of.
-/

namespace RegisterVm.Guarding

open Machine

def Enters (g : Guarding) (above : List Activity) (s : Store) : Control → Prop
  | .enter t _ => t < s.threads.size ∧ (t = g.thread →
      g.frames.length + waiting g.thread above + 1 ≤ (s.thread g.thread).frames.length)
  | _ => True

inductive Runs (g : Guarding) (values : Nat → Value) : Machine → Prop where
  | intro {s : Store} {control : Control} (above : List Activity)
      (holds : g.Holds values above s) (enters : g.Enters above s control) :
      Runs g values ⟨s, above ++ g.under, control⟩

variable {g : Guarding} {values : Nat → Value} {above : List Activity} {s : Store}

theorem Runs.here {m : Machine} (runs : g.Runs values m) :
    g.Runs (m.store.thread g.thread).get m := by
  cases runs with
  | intro above holds enters => exact .intro above { holds with slots := fun _ _ => rfl } enters

theorem Runs.slots {m : Machine} (runs : g.Runs values m) {index : Nat} (bound : index < g.slot) :
    (m.store.thread g.thread).get index = values index := by
  cases runs with
  | intro above holds enters => exact holds.slots index bound

theorem low_self (g : Guarding) : g.low g.thread = g.slot := if_pos rfl

theorem low_other {t : ThreadRef} (different : t ≠ g.thread) : g.low t = 0 := if_neg different

theorem owned_of_fresh {t : ThreadRef} {f : Frame} {mayYield : Bool} {place : Nat}
    {callee : Entered} (fresh : f.Fresh mayYield place place callee) (bound : g.low t ≤ place)
    (same : t = g.thread) : f.Owned g.slot := by
  rw [same, low_self] at bound
  exact fresh.owned bound bound

theorem Holds.push_script (holds : g.Holds values above s) {t : ThreadRef} {floor : Nat}
    (valid : t < s.threads.size)
    (deep : t = g.thread → g.frames.length + waiting g.thread above ≤ floor) :
    g.Holds values (.script t floor :: above) s :=
  { holds with clear := .script valid deep holds.clear }

theorem beginCall_runs (holds : g.Holds values above s) {t : ThreadRef} {place : Nat}
    (valid : t < s.threads.size) (bound : g.low t ≤ place) (arguments : Nat)
    (wanted : Option Nat) :
    g.Runs values (beginCall s (above ++ g.under) t place arguments wanted) := by
  refine perform_elim (leads_enterFrom arguments wanted valid bound) ?_ ?_
  · rintro ⟨floor, callee⟩ s' ⟨rfl, f, fresh, pushed⟩
    have after := holds.pushed (Nat.le_refl _) (owned_of_fresh fresh bound) pushed
    have valid := Nat.lt_of_lt_of_le valid pushed.confined.grown
    have enough := holds.enough
    cases callee with
    | script =>
        refine .intro (.script t _ :: above) (after.push_script valid ?_) trivial
        rintro rfl
        exact enough
    | native body =>
        refine .intro above after ⟨valid, ?_⟩
        rintro rfl
        rw [pushed.frames, List.length_cons]
        omega
  · rintro e s' rfl
    exact .intro above holds trivial

structure Adjusts (g : Guarding) (above : List Activity) (th th' : Thread) : Prop where
  held : th'.held = th.held
  frames : th'.frames = th.frames
  top : th'.top = th.top ∨ g.slot ≤ th'.top
  slots : ∀ index, index < g.slot → th'.get index = th.get index
  pinned : th'.pinned = g.pinned + pins g.thread above

theorem Holds.adjust (holds : g.Holds values above s) {t : ThreadRef} {f : Thread → Thread}
    {above' : List Activity} (lists : ∀ th, (f th).openCells = th.openCells)
    (clear : g.Clear s.threads.size above')
    (waits : waiting g.thread above' ≤ waiting g.thread above)
    (own : t = g.thread → g.Adjusts above' (s.thread t) (f (s.thread t)))
    (other : t ≠ g.thread → pins g.thread above' = pins g.thread above) :
    g.Holds values above' (s.modifyThread t f) := by
  have inside : s.Local t 0 (s.modifyThread t f) := Store.local_modifyThread (lists _)
  have enough := Nat.le_trans (Nat.add_le_add_left waits _) holds.enough
  by_cases same : t = g.thread
  · have adjusts := own same
    subst same
    have thread := Store.thread_modifyThread_self s f holds.valid
    exact {
      linked := inside.linked holds.linked
      held := by rw [thread, adjusts.held]; exact holds.held
      clear := clear.mono inside.grown
      mark := by rw [thread]; exact holds.mark.of_same adjusts.frames adjusts.top
      enough := by rw [thread, adjusts.frames]; exact enough
      pinned := by rw [thread]; exact adjusts.pinned
      slots := fun index below => by
        rw [thread, adjusts.slots index below]
        exact holds.slots index below }
  · have after := holds.other same inside
    have thread := Store.thread_modifyThread_other s f (Ne.symm same)
    exact { after with
      clear := clear.mono inside.grown
      enough := by rw [thread]; exact enough
      pinned := by rw [other same]; exact after.pinned }

theorem Holds.pin (holds : g.Holds values above s) {t : ThreadRef} {activity : Activity}
    (clear : g.Clear s.threads.size (activity :: above))
    (waits : waiting g.thread (activity :: above) = waiting g.thread above)
    (counts : pins g.thread (activity :: above) =
      pins g.thread above + if t = g.thread then 1 else 0) :
    g.Holds values (activity :: above) (s.modifyThread t pin) := by
  refine holds.adjust (fun _ => rfl) clear (Nat.le_of_eq waits) ?_ ?_
  · rintro rfl
    refine ⟨rfl, rfl, .inl rfl, fun _ _ => rfl, ?_⟩
    rw [counts, if_pos rfl, ← Nat.add_assoc, ← holds.pinned]
    rfl
  · intro different
    rw [counts, if_neg different]
    rfl

theorem beginValueCall_runs (holds : g.Holds values above s) {t : ThreadRef}
    (valid : t < s.threads.size) (bound : g.low t ≤ (s.thread t).top) (callee : Value)
    (arguments : Array Value) :
    g.Runs values (beginValueCall s (above ++ g.under) t callee arguments) := by
  refine perform_elim (leads_layOut t callee arguments s) ?_ ?_
  · rintro place s' ⟨rfl, calm, -⟩
    have after := holds.calm bound calm
    have valid := Nat.lt_of_lt_of_le valid calm.confined.grown
    have pinned := after.pin (t := t) (.collect valid bound after.clear)
      rfl rfl
    exact beginCall_runs pinned (by simpa using valid) bound _ _
  · rintro e s' rfl
    exact .intro above holds trivial

theorem beginGuardedCall_runs (holds : g.Holds values above s) {t : ThreadRef} {place : Nat}
    (valid : t < s.threads.size) (bound : g.low t ≤ place) (arguments : Nat) :
    g.Runs values (beginGuardedCall s (above ++ g.under) t place arguments) := by
  have clear : g.Clear s.threads.size (.guard t place (s.thread t).depth :: above) := by
    refine .guard valid bound ?_ holds.clear
    rintro rfl
    exact holds.enough
  exact beginCall_runs (holds.pin clear rfl rfl) (by simpa using valid) bound _ _

theorem beginResumption_runs (holds : g.Holds values above s) {co : ThreadRef}
    (free : (s.thread co).held = false) (arguments : Array Value) :
    g.Runs values (beginResumption s (above ++ g.under) co arguments) := by
  have other : co ≠ g.thread := by
    rintro rfl
    rw [holds.held] at free
    contradiction
  have resumed : ∀ {s}, g.Holds values above s → g.Holds values (.resumption co :: above) s :=
    fun holds => { holds with clear := .resumption other holds.clear }
  by_cases valid : co < s.threads.size
  · have woken : g.Holds values above (s.modifyThread co fun th =>
        { th with status := .running, held := true }) :=
      holds.other other (Store.local_modifyThread rfl : Store.Local co 0 _ _)
    have started : co < (s.modifyThread co fun th =>
        { th with status := .running, held := true }).threads.size := by simpa using valid
    simp only [beginResumption]
    generalize (s.modifyThread co fun th => { th with status := .running, held := true }) = s₁
      at woken started
    split
    · refine perform_elim (leads_layOutEntry co arguments s₁) ?_ ?_
      · intro _ s₂ calm
        have laid := woken.other other calm.confined.toLocal
        have valid := Nat.lt_of_lt_of_le started calm.confined.grown
        refine perform_elim (leads_enterCall _ _ _ valid (Nat.le_refl 0)) ?_ ?_
        · rintro callee s₃ ⟨f, fresh, -, pushed⟩
          have after := laid.other other pushed.confined.toLocal
          have valid := Nat.lt_of_lt_of_le valid pushed.confined.grown
          cases callee with
          | script =>
              exact .intro (.script co 0 :: .resumption co :: above)
                ((resumed after).push_script valid fun same => absurd same other) trivial
          | native body =>
              exact .intro (.resumption co :: above) (resumed after)
                ⟨valid, fun same => absurd same other⟩
        · rintro e s₃ rfl
          exact .intro (.resumption co :: above) (resumed laid) trivial
      · rintro e s₂ rfl
        exact .intro (.resumption co :: above) (resumed woken) trivial
    · have awake : g.Holds values above (s₁.awaken co) :=
        woken.other other (Store.local_modifyThread rfl : Store.Local co 0 _ _)
      refine perform_elim (leads_deliverYield started arguments) ?_ ?_
      · rintro _ s₂ ⟨popped, cells⟩
        have after := awake.other other popped.confined.toLocal
        have valid : co < s₂.threads.size :=
          Nat.lt_of_lt_of_le (by simpa [Store.awaken] using started) popped.confined.grown
        split
        · exact .intro (.resumption co :: above) (resumed after) trivial
        · exact .intro (.script co 0 :: .resumption co :: above)
            ((resumed after).push_script valid fun same => absurd same other) trivial
      · rintro e s₂ rfl
        exact .intro (.resumption co :: above) (resumed awake) trivial
    · exact .intro above holds trivial
    · exact .intro above holds trivial
  · obtain ⟨e, refused⟩ :=
      beginResumption_invalid (Nat.not_lt.1 valid) (above ++ g.under) arguments
    rw [refused]
    exact .intro (.resumption co :: above) (resumed holds) trivial

def Spare (g : Guarding) (above : List Activity) (t : ThreadRef) (s : Store) : Prop :=
  t = g.thread → g.frames.length + waiting g.thread above + 1 ≤ (s.thread g.thread).frames.length

theorem Holds.spare_head (holds : g.Holds values above s) (spare : g.Spare above g.thread s) :
    ∃ f below, (s.thread g.thread).frames = f :: below ∧ f.Owned g.slot ∧
      g.slot ≤ (s.thread g.thread).top := by
  have deep := spare rfl
  cases frames : (s.thread g.thread).frames with
  | nil =>
      rw [frames] at deep
      contradiction
  | cons f below =>
      rw [frames, List.length_cons] at deep
      obtain ⟨owned, -, top⟩ := holds.mark.pop frames (by omega)
      exact ⟨f, below, rfl, owned, top⟩

theorem Holds.ready (holds : g.Holds values above s) {t : ThreadRef} (valid : t < s.threads.size)
    (spare : g.Spare above t s) : Ready t (g.low t) s := by
  by_cases same : t = g.thread
  · subst same
    obtain ⟨f, below, frames, owned, top⟩ := holds.spare_head spare
    rw [low_self]
    refine ⟨valid, top, ?_⟩
    rw [Thread.frame?, frames]
    exact Nat.le_of_lt owned.low_lt_base
  · rw [low_other same]
    exact ⟨valid, Nat.zero_le _, Nat.zero_le _⟩

theorem Holds.wait (holds : g.Holds values above s) {t : ThreadRef} (valid : t < s.threads.size)
    (spare : g.Spare above t s) (next : Pending) :
    g.Holds values (.native t next :: above) s := by
  refine { holds with clear := .native valid holds.clear, enough := ?_ }
  have enough := holds.enough
  simp only [waiting]
  split
  · rename_i same
    have := spare same
    omega
  · exact enough

theorem settle_runs (holds : g.Holds values above s) {t : ThreadRef} (valid : t < s.threads.size)
    (spare : g.Spare above t s) {outcome : NativeOutcome} (leaves : Leaves t s True outcome) :
    g.Runs values (settle s (above ++ g.under) t outcome) := by
  have ready := holds.ready valid spare
  cases outcome with
  | returns count =>
      have owned : ∀ f below, (s.thread t).frames = f :: below →
          g.low t ≤ f.slot ∧ g.low t ≤ f.target := by
        intro f below frames
        by_cases same : t = g.thread
        · subst same
          obtain ⟨head, tail, split, owned, -⟩ := holds.spare_head spare
          obtain ⟨rfl, -⟩ := List.cons.inj (split.symm.trans frames)
          rw [low_self]
          exact ⟨owned.slot, owned.target⟩
        · rw [low_other same]
          exact ⟨Nat.zero_le _, Nat.zero_le _⟩
      simp only [settle]
      refine perform_elim (leads_finishNative valid owned count) ?_ ?_
      · intro _ s' finished
        exact .intro above (holds.finished spare finished) trivial
      · exact fun _ _ impossible => impossible.elim
  | calls callee arguments restoring next =>
      obtain ⟨rfl, -⟩ := leaves
      exact beginValueCall_runs (holds.wait valid spare next) valid ready.top callee arguments
  | protects place arguments next =>
      obtain ⟨-, rfl⟩ := leaves
      exact beginGuardedCall_runs (holds.wait valid spare next) valid ready.frame arguments
  | resumes co arguments next =>
      exact beginResumption_runs (holds.wait valid spare next)
        (Coroutine.held_of_refusal leaves.2.1) arguments

theorem perform_native_runs (holds : g.Holds values above s) {t : ThreadRef}
    (valid : t < s.threads.size) (spare : g.Spare above t s) {action : Action NativeOutcome}
    (keeps : Keeps (Calm t (g.low t) s) action (Leaves t s True)) :
    g.Runs values (perform s (above ++ g.under) action fun s outcome =>
      settle s (above ++ g.under) t outcome) := by
  refine perform_elim (keeps.leads (.refl _ _ _)) ?_ ?_
  · rintro outcome s' ⟨calm, leaves⟩
    refine settle_runs (holds.calm (Nat.le_refl _) calm)
      (Nat.lt_of_lt_of_le valid calm.confined.grown) ?_ (leaves.calm calm)
    rintro rfl
    rw [calm.frames]
    exact spare rfl
  · intro e s' calm
    exact .intro above (holds.calm (Nat.le_refl _) calm) trivial

theorem enter_runs (holds : g.Holds values above s) {t : ThreadRef} (valid : t < s.threads.size)
    (spare : g.Spare above t s) (body : NativeBody) :
    g.Runs values (perform s (above ++ g.under) (body.enter .bare t) fun s outcome =>
      settle s (above ++ g.under) t outcome) := by
  by_cases yields : body = .builtin .yield
  · subst yields
    refine perform_elim (leads_yieldArguments t s) ?_ ?_
    · rintro outcome s' ⟨rfl, yielded⟩
      have pinned := holds.pinned
      have after : g.Holds values above s' := by
        rw [yielded.store]
        refine holds.adjust (fun _ => rfl) holds.clear (Nat.le_refl _) ?_ fun _ => rfl
        rintro rfl
        exact ⟨rfl, rfl, .inl rfl, fun _ _ => rfl, pinned⟩
      refine settle_runs after (by simpa [yielded.store] using valid) ?_ trivial
      rintro rfl
      rw [yielded.store, Store.thread_modifyThread_self _ _ valid]
      exact spare rfl
    · rintro e s' rfl
      exact .intro above holds trivial
  · exact perform_native_runs holds valid spare
      (body.keeps_enter yields (holds.ready valid spare).permits fun _ => trivial)

/-- The slots below the call's own have kept their values, or the machine has assigned to one of
them through its cell. -/
def Follows (g : Guarding) (m : Machine) (values values' : Nat → Value) : Prop :=
  ∀ index, index < g.slot → values' index = values index ∨
    ∃ cell, m.assignment? = some (cell, values' index) ∧
      m.store.cells[cell]? = some (.slot g.thread index)

theorem Follows.refl (m : Machine) (values : Nat → Value) : g.Follows m values values :=
  fun _ _ => .inl rfl

theorem Runs.below {m : Machine} {values' : Nat → Value} (next : g.Runs values' (m.step .bare))
    (follows : g.Follows m (m.store.thread g.thread).get values') {index : Nat}
    (bound : index < g.slot) :
    ((m.step .bare).store.thread g.thread).get index = (m.store.thread g.thread).get index ∨
      ∃ cell, m.assignment? = some (cell, ((m.step .bare).store.thread g.thread).get index) ∧
        m.store.cells[cell]? = some (.slot g.thread index) := by
  rw [next.slots bound]
  exact follows index bound

theorem enters_control {t : ThreadRef} (callee : Entered) (valid : t < s.threads.size)
    (spare : g.Spare above t s) : g.Enters above s (callee.control t) := by
  cases callee with
  | script => trivial
  | native body => exact ⟨valid, spare⟩

theorem enters_goes {control : Control} (goes : control = .run ∨ ∃ e, control = .fail e) :
    g.Enters above s control := by
  rcases goes with rfl | ⟨e, rfl⟩ <;> trivial

theorem ran_runs {t : ThreadRef} {floor : Nat} {f : Frame} {below : List Frame}
    {rest : List Activity} {m : Machine} (holds : g.Holds values above s)
    (valid : t < s.threads.size) (frames : (s.thread t).frames = f :: below)
    (inside : floor ≤ below.length)
    (deep : t = g.thread → g.frames.length + waiting g.thread above ≤ below.length)
    (script : above ++ g.under = .script t floor :: rest)
    (ran : Ran t f below s (above ++ g.under) m) :
    ∃ values', g.Follows ⟨s, above ++ g.under, .run⟩ values values' ∧ g.Runs values' m := by
  have owned : t = g.thread → f.Owned g.slot := by
    rintro rfl
    exact (holds.mark.pop frames (by have := deep rfl; omega)).1
  have mark : t = g.thread → (m.store.thread g.thread).Above g.slot g.frames := by
    rintro rfl
    exact holds.mark.ran valid frames (by have := deep rfl; omega) ran
  have keep : ∀ {s' : Store} {low : Nat}, s.Confined t low s' → (t = g.thread → g.slot ≤ low) →
      (t = g.thread → (s'.thread g.thread).Above g.slot g.frames) →
      below.length ≤ (s'.thread t).frames.length → g.Holds values above s' := by
    intro s' low confined bound mark length
    by_cases same : t = g.thread
    · subst same
      exact holds.own (confined.mono (bound rfl)) (mark rfl) (Nat.le_trans (deep rfl) length)
    · exact holds.other same confined.toLocal
  cases ran with
  | stayed pc confined frames' top goes =>
      refine ⟨values, .refl _ _, .intro above ?_ (enters_goes goes)⟩
      refine keep confined (fun same => (owned same).low_le_floor) mark ?_
      rw [frames', List.length_cons]
      omega
  | @assigned s' control pc cell value assigns written goes =>
      have advanced : g.Holds values above (s.modifyThread t fun th => th.setPc pc) := by
        have thread := thread_setPc valid frames pc
        refine keep (Store.confined_reworked (Thread.reworked_setPc _ _))
          (fun _ => Nat.le_refl g.slot) ?_ ?_
        · rintro rfl
          rw [thread]
          exact holds.mark.advance frames (by have := deep rfl; omega) pc
        · rw [thread]
          exact Nat.le_succ _
      subst written
      refine ⟨_, ?_, .intro above (advanced.assigned cell value) (enters_goes goes)⟩
      intro index bound
      by_cases same : (((s.modifyThread t fun th => th.setPc pc).writeCell cell value).thread
          g.thread).get index = ((s.modifyThread t fun th => th.setPc pc).thread g.thread).get index
      · exact .inl (same.trans (advanced.slots index bound))
      · obtain ⟨found, written⟩ := Store.get_writeCell same
        refine .inr ⟨cell, ?_, found⟩
        simp only [written, script, Machine.assignment?, frames, if_neg (Nat.not_lt.2 inside),
          assigns]
  | entered pc f' fresh place deliver confined cells frames' top =>
      have after := keep confined (fun same => (owned same).low_le_floor) mark
        (by rw [frames', List.length_cons, List.length_cons]; omega)
      refine ⟨values, .refl _ _, .intro above after ?_⟩
      refine enters_control _ (Nat.lt_of_lt_of_le valid confined.grown) ?_
      rintro rfl
      have := deep rfl
      rw [frames', List.length_cons, List.length_cons]
      omega
  | replaced f' fresh confined frames' top shut =>
      have after := keep confined (fun same => (owned same).slot) mark
        (by rw [frames', List.length_cons]; omega)
      refine ⟨values, .refl _ _, .intro above after ?_⟩
      refine enters_control _ (Nat.lt_of_lt_of_le valid confined.grown) ?_
      rintro rfl
      have := deep rfl
      rw [frames', List.length_cons]
      omega
  | returned popped shut =>
      have after := keep popped.confined (fun same => (owned same).low_le_reach) mark
        (Nat.le_of_eq (by rw [popped.frames]))
      exact ⟨values, .refl _ _, .intro above after trivial⟩
  | vacated e confined frames' top shut =>
      have after := keep confined (fun same => (owned same).slot) mark
        (Nat.le_of_eq (by rw [frames']))
      exact ⟨values, .refl _ _, .intro above after trivial⟩

theorem runScript_runs {t : ThreadRef} {floor : Nat}
    (holds : g.Holds values (.script t floor :: above) s) :
    ∃ values', g.Follows ⟨s, .script t floor :: (above ++ g.under), .run⟩ values values' ∧
      g.Runs values' (runScript s (above ++ g.under) t floor) := by
  have inner : g.Holds values above s := by
    cases holds.clear with
    | script valid deep clear => exact { holds with clear := clear }
  cases holds.clear with
  | script valid deep clear =>
  have turn := runScript_turn s (above ++ g.under) t floor
  generalize runScript s (above ++ g.under) t floor = next at turn ⊢
  cases turn with
  | spent short => exact ⟨values, .refl _ _, .intro above inner trivial⟩
  | runs frames inside callee =>
      have ran := runInstruction_ran (.script t floor :: (above ++ g.under)) valid frames callee
      exact ran_runs holds valid frames inside (fun same => Nat.le_trans (deep same) inside) rfl
        ran
  | astray frames inside e => exact ⟨values, .refl _ _, .intro above inner trivial⟩

theorem Holds.drop {activity : Activity} (holds : g.Holds values (activity :: above) s)
    (clear : g.Clear s.threads.size above)
    (waits : waiting g.thread above ≤ waiting g.thread (activity :: above))
    (counts : pins g.thread (activity :: above) = pins g.thread above) :
    g.Holds values above s :=
  { holds with
    clear
    enough := Nat.le_trans (Nat.add_le_add_left waits _) holds.enough
    pinned := by rw [← counts]; exact holds.pinned }

theorem Holds.resume_native {t : ThreadRef} {next : Pending}
    (holds : g.Holds values (.native t next :: above) s) :
    g.Holds values above s ∧ t < s.threads.size ∧ g.Spare above t s := by
  cases holds.clear with
  | native valid clear =>
      refine ⟨holds.drop clear (Nat.le_add_right _ _) rfl, valid, ?_⟩
      intro same
      have enough := holds.enough
      simp only [waiting, if_pos same] at enough
      exact enough

theorem Holds.unpin {t : ThreadRef} {activity : Activity} {f : Thread → Thread}
    (holds : g.Holds values (activity :: above) s) (clear : g.Clear s.threads.size above)
    (waits : waiting g.thread above ≤ waiting g.thread (activity :: above))
    (counts : pins g.thread (activity :: above) =
      pins g.thread above + if t = g.thread then 1 else 0)
    (lists : ∀ th, (f th).openCells = th.openCells) (unpins : ∀ th, (f th).pinned = th.pinned - 1)
    (own : t = g.thread → (f (s.thread t)).held = (s.thread t).held ∧
      (f (s.thread t)).frames = (s.thread t).frames ∧
      ((f (s.thread t)).top = (s.thread t).top ∨ g.slot ≤ (f (s.thread t)).top) ∧
      ∀ index, index < g.slot → (f (s.thread t)).get index = (s.thread t).get index) :
    g.Holds values above (s.modifyThread t f) := by
  refine holds.adjust lists clear waits ?_ ?_
  · intro same
    obtain ⟨held, frames, top, slots⟩ := own same
    refine ⟨held, frames, top, slots, ?_⟩
    subst same
    rw [unpins, holds.pinned, counts, if_pos rfl]
    omega
  · intro different
    rw [counts, if_neg different]
    rfl

theorem succeed_runs {top : Activity} (holds : g.Holds values (top :: above) s)
    (results : Array Value) :
    g.Runs values (succeed .bare s top (above ++ g.under) results) := by
  cases holds.clear with
  | @script t floor _ valid deep clear =>
      simp only [succeed]
      split
      · exact .intro above (holds.drop clear (Nat.le_refl _) rfl) trivial
      · exact .intro (.script t floor :: above) holds trivial
  | @native t next _ valid clear =>
      obtain ⟨inner, valid, spare⟩ := holds.resume_native
      exact perform_native_runs inner valid spare
        ((inner.ready valid spare).keeps_succeed next results)
  | @collect t place _ valid bound clear =>
      simp only [succeed]
      refine perform_elim (leads_takeResults t place s) ?_ fun _ _ impossible => impossible.elim
      rintro results s' rfl
      refine .intro above (holds.unpin clear (Nat.le_refl _) rfl (fun _ => rfl) (fun _ => rfl) ?_)
        trivial
      intro same
      rw [low, if_pos same] at bound
      refine ⟨rfl, rfl, .inr bound, fun index below => ?_⟩
      exact Thread.get_clear_below _ (Nat.lt_of_lt_of_le below bound)
  | @guard t place depth _ valid bound deep clear =>
      refine .intro above (holds.unpin clear (Nat.le_refl _) rfl (fun _ => rfl) (fun _ => rfl) ?_)
        trivial
      exact fun _ => ⟨rfl, rfl, .inl rfl, fun _ _ => rfl⟩
  | @resumption t _ other clear =>
      have inner := holds.drop clear (Nat.le_refl _) rfl
      simp only [succeed, endResumption]
      split
      · exact .intro above (inner.other other (Store.local_modifyThread rfl :
          Store.Local t 0 _ _)) trivial
      · exact .intro above (inner.other other (Store.local_modifyThread rfl :
          Store.Local t 0 _ _)) trivial

theorem catchFailure_holds {t : ThreadRef} {place depth : Nat}
    (holds : g.Holds values above s) (valid : t < s.threads.size) (bound : g.low t ≤ place)
    (deep : t = g.thread → g.frames.length + waiting g.thread above ≤ depth) (e : Error) :
    g.Holds values above (catchFailure s t place depth e) := by
  have inside : s.Local t 0 (catchFailure s t place depth e) :=
    local_catchFailure s place depth e
  by_cases same : t = g.thread
  · subst same
    rw [low_self] at bound
    have deep := deep rfl
    have unwound := Store.unwound_unwind s place depth valid
    have thread : (catchFailure s g.thread place depth e).thread g.thread =
        (((s.unwind g.thread place depth).thread g.thread).put place e.value).withTop
          (place + 1) := by
      rw [catchFailure, Store.thread_modifyThread_self _ _
        (by rwa [Store.threadCount_unwind])]
    generalize (s.unwind g.thread place depth).thread g.thread = th at thread unwound
    have enough := holds.enough
    exact {
      linked := inside.linked holds.linked
      held := by rw [thread]; exact unwound.held.trans holds.held
      clear := holds.clear.mono inside.grown
      mark := by
        rw [thread]
        refine ⟨?_, .inr (Nat.le_succ_of_le bound)⟩
        rw [Thread.frames_withTop, Thread.frames_put, unwound.frames]
        exact holds.mark.stacked.keepFrames (by omega)
      enough := by
        rw [thread, Thread.frames_withTop, Thread.frames_put, unwound.frames, Thread.keepFrames,
          List.length_drop]
        omega
      pinned := by rw [thread]; exact unwound.pinned.trans holds.pinned
      slots := fun index below => by
        rw [thread, Thread.get_withTop, Thread.get_put, if_neg (by omega),
          unwound.slots index (by omega)]
        exact holds.slots index below }
  · exact holds.other same inside

theorem failTop_runs {top : Activity} (holds : g.Holds values (top :: above) s) (e : Error) :
    g.Runs values (failTop .bare s top (above ++ g.under) e) := by
  cases holds.clear with
  | @script t floor _ valid deep clear =>
      exact .intro above (holds.drop clear (Nat.le_refl _) rfl) trivial
  | @native t next _ valid clear =>
      obtain ⟨inner, valid, spare⟩ := holds.resume_native
      exact perform_native_runs inner valid spare (next.keeps_fail (inner.ready valid spare).permits e)
  | @collect t place _ valid bound clear =>
      refine .intro above (holds.unpin clear (Nat.le_refl _) rfl (fun _ => rfl) (fun _ => rfl) ?_)
        trivial
      exact fun _ => ⟨rfl, rfl, .inl rfl, fun _ _ => rfl⟩
  | @guard t place depth _ valid bound deep clear =>
      have inner : g.Holds values above (s.modifyThread t unpin) :=
        holds.unpin clear (Nat.le_refl _) rfl (fun _ => rfl) (fun _ => rfl)
          fun _ => ⟨rfl, rfl, .inl rfl, fun _ _ => rfl⟩
      simp only [failTop]
      split
      · refine .intro above (catchFailure_holds inner (by simpa using valid) bound deep e) trivial
      · exact .intro above inner trivial
  | @resumption t _ other clear =>
      have inner := holds.drop clear (Nat.le_refl _) rfl
      exact .intro above (inner.other other (local_killCoroutine s t : s.Local t 0 _)) trivial

/-- Something is above the call's own activity: other activities, or a native function that it has
just entered. -/
def Busy (g : Guarding) (m : Machine) : Prop :=
  m.activities = g.under → ∃ t body, m.control = .enter t body

/-- As long as something is above the call's own activity, a step keeps what the call relies on. -/
theorem Runs.step {m : Machine} (runs : g.Runs values m) (busy : g.Busy m) :
    ∃ values', g.Follows m values values' ∧ g.Runs values' (m.step .bare) := by
  cases runs with
  | @intro s control above holds enters =>
  have stuck : ∀ {m}, m.step .bare = m → g.Runs values m →
      ∃ values', g.Follows m values values' ∧ g.Runs values' (m.step .bare) :=
    fun same runs => ⟨values, .refl _ _, by rwa [same]⟩
  cases above with
  | nil =>
      obtain ⟨t, body, rfl⟩ := busy rfl
      exact ⟨values, .refl _ _, enter_runs holds enters.1 enters.2 body⟩
  | cons top above =>
      cases control with
      | enter t body => exact ⟨values, .refl _ _, enter_runs holds enters.1 enters.2 body⟩
      | run =>
          cases top with
          | script t floor => exact runScript_runs holds
          | _ => exact stuck rfl (.intro _ holds trivial)
      | done results => exact ⟨values, .refl _ _, succeed_runs holds results⟩
      | fail e => exact ⟨values, .refl _ _, failTop_runs holds e⟩

end RegisterVm.Guarding
