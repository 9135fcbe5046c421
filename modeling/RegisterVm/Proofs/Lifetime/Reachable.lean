import Mathlib.Logic.Relation
import RegisterVm.Machine.Vm
import RegisterVm.Proofs.Lifetime.Steps

/-!
Captured variables live no longer than their frames, in every machine that a host can come to: by
steps, by what a host does between runs, and by the end of threads that nothing refers to any more.
-/

namespace RegisterVm

open Relation

namespace Machine

def drop (m : Machine) (t : ThreadRef) : Machine := { m with store := m.store.dropThread t }

/-- What may happen to a machine. Between runs the host changes the heap and the surroundings, makes
closed cells and coroutines, calls values on the main thread, and resumes coroutines. -/
inductive Next : Machine → Machine → Prop where
  | step (m : Machine) : Next m (m.step .bare)
  | drop (m : Machine) (t : ThreadRef) : Next m (m.drop t)
  | heap {s s' : Store} {control : Control} (cells : s'.cells = s.cells)
      (threads : s'.threads = s.threads) : Next ⟨s, [], control⟩ ⟨s', [], control⟩
  | newCell {s : Store} {control : Control} (value : Value) :
      Next ⟨s, [], control⟩ ⟨(s.newCell (.closed value)).2, [], control⟩
  | newCoroutine {s : Store} {control : Control} (globals : TableRef) (limits : Limits)
      (entry : Value) : Next ⟨s, [], control⟩ ⟨(s.newCoroutine globals limits entry).2, [], control⟩
  | call {s : Store} {control : Control} {t : ThreadRef} (main : (s.thread t).isMain = true)
      (free : (s.thread t).held = false) (callee : Value) (arguments : Array Value) :
      Next ⟨s, [], control⟩ (beginRestoringCall (Engine.setHeld s t true) [] t callee arguments)
  | release {s : Store} {control : Control} {t : ThreadRef} (main : (s.thread t).isMain = true) :
      Next ⟨s, [], control⟩ ⟨Engine.setHeld s t false, [], control⟩
  | resume {s : Store} {control : Control} {t : ThreadRef} (free : (s.thread t).held = false)
      (arguments : Array Value) : Next ⟨s, [], control⟩ (beginResumption s [] t arguments)

def initial (limits : Limits) : Machine := ⟨(Vm.new limits).store, [], .done #[]⟩

def Reachable (limits : Limits) : Machine → Prop := ReflTransGen Next (initial limits)

def TailCalls (m : Machine) (t : ThreadRef) (f : Frame) (below : List Frame) : Prop :=
  ∃ floor rest pc, m.activities = .script t floor :: rest ∧ m.control = .run ∧
    floor ≤ below.length ∧ (m.store.thread t).frames = { f with pc } :: below ∧
    m.store.tailCalls t { f with pc }

/-- Script frame `f` on top of `below` ends when machine `m` becomes `m'`: it is gone, another call
takes its place, or its thread is dropped. -/
inductive Ends (m m' : Machine) (t : ThreadRef) (f : Frame) (below : List Frame) : Prop where
  | gone (gone : ¬Standing (m'.store.thread t).frames f below)
  | replaced (calls : m.TailCalls t f below) (steps : m' = m.step .bare)
  | dropped (drops : m' = m.drop t)

/-- Captured variables live no longer than their frames. -/
structure Captures (m : Machine) : Prop where
  unique : ∀ (ref other : CellRef) (t : ThreadRef) (index : Nat),
    m.store.cells[ref]? = some (.slot t index) → m.store.cells[other]? = some (.slot t index) →
    ref = other
  listed : ∀ (ref : CellRef) (t : ThreadRef) (index : Nat),
    m.store.cells[ref]? = some (.slot t index) ↔ (m.store.thread t).cellAt? index = some ref
  framed : ∀ (ref : CellRef) (t : ThreadRef) (index : Nat),
    m.store.cells[ref]? = some (.slot t index) →
    ∃ f ∈ (m.store.thread t).frames, f.kind = .script ∧ f.base ≤ index
  ended : ∀ (m' : Machine) (t : ThreadRef) (f : Frame) (below : List Frame), Next m m' →
    f.kind = .script → Standing (m.store.thread t).frames f below → m.Ends m' t f below →
    ∀ later, ReflTransGen Next m' later → ∀ (ref : CellRef) (index : Nat),
    ref < m.store.cells.size → later.store.cells[ref]? = some (.slot t index) → index < f.base

end Machine

variable {s : Store} {t : ThreadRef}

namespace Store

theorem sound_new (limits : Limits) : (Vm.new limits).store.Sound [] := by
  have linked : (Vm.new limits).store.Linked := by
    have table : (Store.empty.newTable .empty).2.Linked :=
      linked_empty.congr rfl fun _ => rfl
    exact table.newThread rfl
  have closed : ∀ (t : ThreadRef) (ref : CellRef) (index : Nat),
      (Vm.new limits).store.cells[ref]? ≠ some (.slot t index) := by
    intro t ref index found
    simp [Vm.new, newThread, newTable, Store.empty] at found
  refine ⟨linked, .nil, fun t => ?_⟩
  have thread : (Vm.new limits).store.thread t =
      if t = 0 then .new true 0 limits else default := by
    rw [← thread_invalid (Store.empty.newTable .empty).2 (Nat.zero_le t)]
    exact thread_newThread _ _ t
  by_cases main : t = 0
  · rw [if_pos main] at thread
    apply settled_empty _ _ _ _ _ (closed t) <;> rw [thread] <;> simp [Thread.new]
  · rw [if_neg main] at thread
    apply settled_unstarted _ (closed t)
    rw [thread]
    exact ⟨rfl, rfl, rfl, rfl, rfl, rfl, rfl⟩

theorem Sound.newCoroutine (sound : s.Sound []) (globals : TableRef) (limits : Limits)
    (entry : Value) : (s.newCoroutine globals limits entry).2.Sound [] := by
  have unstarted := Coroutine.unstarted_new globals limits entry
  have inside : s.Local s.threads.size 0 (s.newCoroutine globals limits entry).2 :=
    local_newThread unstarted
  refine ((sound.apart s.threads.size).move inside .nil fun _ _ => rfl).sound ?_
  apply settled_unstarted
  · rw [Store.newCoroutine, thread_newThread, if_pos rfl]
    exact unstarted
  · exact sound.linked.closed_of_invalid (Nat.le_refl _)

theorem Sound.setHeld (sound : s.Sound []) (main : (s.thread t).isMain = true) (held : Bool) :
    (Engine.setHeld s t held).Sound [] := by
  have valid := lt_of_main main
  have settled := sound.settled t
  have inside : s.Local t 0 (Engine.setHeld s t held) := local_modifyThread rfl
  refine (sound.apart t).rest inside ⟨⟨?_, ?_, ?_, ?_, ?_, ?_, ?_, ?_, ?_, ?_⟩, ?_, ?_,
    fun active => absurd rfl active⟩ <;> rw [Engine.setHeld, thread_modifyThread_self s _ valid]
  · exact settled.frames
  · exact settled.layers.of_same rfl (.inl rfl)
  · exact settled.witnessed
  · simp [Thread.Marked, ofThread, marks]
  · exact settled.pinned
  · exact fun active => absurd rfl active
  · simp [ofThread]
  · exact settled.main
  · simp [main]
  · simp [main]
  · trivial
  · exact fun active => absurd rfl active

theorem Sound.restoring (sound : s.Sound []) (main : (s.thread t).isMain = true)
    (held : (s.thread t).held = true) :
    s.Sound [.restore t (s.thread t).top (s.thread t).depth] := by
  have settled := sound.settled t
  refine (sound.apart t).push (.refl s : s.Local t 0 s) .restore rfl
    ⟨{ settled.toTidy with
      marked := ?_, held := fun _ => held, coroutine := by simp [ofThread]
      busy := by simp [main] }, ?_, ?_, fun _ => False.elim⟩
  · intro level depth mark
    rcases List.mem_cons.1 mark with same | mark
    · cases same
      exact ⟨_, rfl, .base, .inl (Nat.le_refl _)⟩
    · contradiction
  · exact ⟨by simp [Bounded, marks, ofThread], settled.layers.top, rfl, trivial⟩
  · exact fun _ => (settled.main main).2

end Store

namespace Machine

theorem Healthy.idle {control : Control} (healthy : Healthy ⟨s, [], control⟩) : s.Sound [] ∧
    (control = .run ∨ (∃ values, control = .done values) ∨ ∃ e, control = .fail e) := by
  cases healthy with
  | settled sound goes => exact ⟨sound, goes⟩
  | entered apart working serves => exact serves.elim
  | leaving apart leaving shape => simp at shape
  | failing apart failing hears => exact hears.elim

theorem Next.harmless {m m' : Machine} (next : Next m m') (healthy : m.Healthy) :
    Harmless m.store m' ∨ m' = m.step .bare ∧ ∃ t floor rest,
      m.activities = .script t floor :: rest ∧ m.control = .run ∧
        m.store.Sound (.script t floor :: rest) := by
  cases next with
  | step m => exact healthy.step_harmless.imp_right fun turn => ⟨rfl, turn⟩
  | drop m t =>
      have faded := Store.faded_closeCells m.store t 0
      refine .inl (.of_sustains (healthy.faded faded) (faded.sustains fun r => ?_))
      obtain ⟨openCells, thread⟩ := Store.alike_closeCells m.store t r 0
      rw [thread]
  | heap cells threads =>
      have faded := Store.faded_heap cells threads
      refine .inl (.of_sustains (healthy.faded faded) (faded.sustains fun r => ?_))
      rw [Store.thread, threads, Store.thread]
  | @newCell s control value =>
      have faded := Store.faded_newCell s value
      exact .inl (.of_sustains (healthy.faded faded) (faded.sustains fun _ => rfl))
  | @newCoroutine s control globals limits entry =>
      obtain ⟨sound, goes⟩ := healthy.idle
      refine .inl (.of_sustains (.settled (sound.newCoroutine globals limits entry) goes) ?_)
      have inside : s.Local s.threads.size 0 (s.newCoroutine globals limits entry).2 :=
        Store.local_newThread (Coroutine.unstarted_new globals limits entry)
      apply inside.sustains
      intro f below _ standing
      rw [Store.thread_invalid s (Nat.le_refl _)] at standing
      exact absurd standing Standing.nil_elim
  | @call s control t main free callee arguments =>
      have sound := healthy.idle.1.setHeld main true
      have sustains : s.Sustains (Engine.setHeld s t true) :=
        Store.sustains_modifyThread s t rfl rfl rfl
      have thread : (Engine.setHeld s t true).thread t = { s.thread t with held := true } :=
        Store.thread_modifyThread_self s _ (Store.lt_of_main main)
      have restoring := sound.restoring (by rw [thread]; exact main) (by rw [thread])
      refine .inl (.after sustains (beginValueCall_proceeds restoring rfl ?_ callee arguments))
      rw [ofThread_self (by rfl)]
      exact bounded_marks_cons (by simp [Bounded, marks, ofThread]) (Nat.le_refl _)
  | @release s control t main =>
      obtain ⟨sound, goes⟩ := healthy.idle
      exact .inl (.of_sustains (.settled (sound.setHeld main false) goes)
        (Store.sustains_modifyThread s t rfl rfl rfl))
  | resume free arguments =>
      exact .inl (beginResumption_proceeds healthy.idle.1 free trivial arguments)

/-- Whatever happens keeps the invariant and closes what it has to. -/
theorem Next.proceeds {m m' : Machine} (next : Next m m') (healthy : m.Healthy) :
    Proceeds m.store m' := by
  obtain harmless | ⟨rfl, -⟩ := next.harmless healthy
  · exact harmless.toProceeds
  · exact healthy.step

theorem run_proceeds {m m' : Machine} (healthy : m.Healthy) (run : ReflTransGen Next m m') :
    Proceeds m.store m' := by
  induction run with
  | refl => exact ⟨healthy, .refl _⟩
  | tail _ next ih => exact .after ih.onward (next.proceeds ih.healthy)

theorem Reachable.healthy {limits : Limits} {m : Machine} (reachable : m.Reachable limits) :
    m.Healthy :=
  (run_proceeds (.settled (Store.sound_new limits) (.inr (.inl ⟨_, rfl⟩))) reachable).healthy

theorem Healthy.linked {m : Machine} (healthy : m.Healthy) : m.store.Linked := by
  cases healthy with
  | settled sound => exact sound.linked
  | entered apart => exact apart.linked
  | leaving apart => exact apart.linked
  | failing apart => exact apart.linked
  | lost sound => exact sound.linked

theorem Healthy.tidy {m : Machine} (healthy : m.Healthy) (t : ThreadRef) :
    ∃ mine, m.store.Tidy t mine := by
  have beside : ∀ {s : Store} {r : ThreadRef} {activities mine : List Activity},
      s.Apart r activities → s.Tidy r mine → ∃ mine, s.Tidy t mine := by
    intro s r activities mine apart own
    by_cases same : t = r
    · exact ⟨mine, same ▸ own⟩
    · exact ⟨_, (apart.others t same).toTidy⟩
  cases healthy with
  | settled sound => exact ⟨_, (sound.settled t).toTidy⟩
  | entered apart working => exact beside apart working.toTidy
  | leaving apart leaving => exact beside apart leaving.toTidy
  | failing apart failing => exact beside apart failing.toTidy
  | lost sound => exact ⟨_, (sound.settled t).toTidy⟩

theorem TailCalls.shut {m : Machine} {f : Frame} {below : List Frame}
    (calls : m.TailCalls t f below) : m.store.Shut t f.base (m.step .bare).store := by
  obtain ⟨s, activities, control⟩ := m
  obtain ⟨floor, rest, pc, rfl, rfl, inside, head, calls⟩ := calls
  have base : ({ f with pc } : Frame).base = f.base := rfl
  generalize ({ f with pc } : Frame) = g at head calls base
  have valid : t < s.threads.size := Store.lt_of_frames head
  obtain ⟨ref, i, target, callee, -⟩ := id calls
  simp only [Machine.step, runScript_eq rest head inside callee, ← base]
  exact runInstruction_tailCall _ valid head callee calls

theorem Ends.closed {m m' : Machine} {f : Frame} {below : List Frame} (healthy : m.Healthy)
    (next : Next m m') (script : f.kind = .script)
    (standing : Standing (m.store.thread t).frames f below) (ends : m.Ends m' t f below)
    {ref : CellRef} {index : Nat} (bound : ref < m.store.cells.size)
    (found : m'.store.cells[ref]? = some (.slot t index)) : index < f.base := by
  cases ends with
  | gone gone =>
      exact (next.proceeds healthy).onward.ended t f below script standing gone ref index bound
        found
  | replaced calls steps =>
      subst steps
      exact healthy.linked.lt_of_closed calls.shut found
  | dropped drops =>
      subst drops
      have none := healthy.linked.lt_of_closed (Store.shut_closeCells m.store t 0) found
      omega

/-- In every reachable machine captured variables live no longer than their frames. -/
theorem captures_of_reachable {limits : Limits} {m : Machine} (reachable : m.Reachable limits) :
    m.Captures := by
  have healthy := reachable.healthy
  have listed : ∀ (ref : CellRef) (t : ThreadRef) (index : Nat),
      m.store.cells[ref]? = some (.slot t index) ↔
        (m.store.thread t).cellAt? index = some ref := by
    intro ref t index
    rw [Store.cellAt_eq_some (healthy.linked.listed t).unique]
    exact ⟨healthy.linked.complete ref t index, (healthy.linked.listed t).openCell index ref⟩
  refine ⟨?_, listed, ?_, ?_⟩
  · intro ref other t index first second
    rw [listed] at first second
    exact Option.some.inj (first.symm.trans second)
  · intro ref t index found
    obtain ⟨mine, tidy⟩ := healthy.tidy t
    exact tidy.witnessed ref index found
  · intro m' t f below next script standing ends later run ref index bound found
    have proceeds := next.proceeds healthy
    have before := (run_proceeds proceeds.healthy run).onward.old ref t index
      (Nat.lt_of_lt_of_le bound proceeds.onward.grown) found
    exact ends.closed healthy next script standing bound before

def capturingPrototype : Prototype :=
  { Prototype.empty with
    code := #[.abx .closure 0 0, .abc .ret 0 1 0]
    children := #[{ Prototype.empty with captures := #[⟨"variable", true, 1⟩] }]
    window := 2 }

def capturingCall : Machine :=
  beginRestoringCall (Engine.setHeld
    ((Vm.new .standard).store.newClosure ⟨capturingPrototype, #[]⟩).2 0 true) [] 0 (.closure 0) #[]

theorem captures_of_reachable_capturing :
    (capturingCall.step .bare).Reachable .standard ∧
      (capturingCall.step .bare).store.cells[0]? = some (.slot 0 2) ∧
      ((capturingCall.step .bare).step .bare).store.cells[0]? = some (.closed .nil) ∧
      (capturingCall.step .bare).Captures := by
  have made : Reachable .standard
      ⟨((Vm.new .standard).store.newClosure ⟨capturingPrototype, #[]⟩).2, [], .done #[]⟩ :=
    .single (.heap rfl rfl)
  have called : capturingCall.Reachable .standard := made.tail (.call rfl rfl _ _)
  have stepped : (capturingCall.step .bare).Reachable .standard := called.tail (.step _)
  exact ⟨stepped, rfl, rfl, captures_of_reachable stepped⟩

end Machine

end RegisterVm
