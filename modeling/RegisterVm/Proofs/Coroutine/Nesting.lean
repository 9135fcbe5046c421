import Mathlib.Data.List.Nodup
import RegisterVm.Proofs.Call.Running
import RegisterVm.Proofs.Host.Reuse

/-!
Resumptions within one another. A coroutine that is being resumed is running and is not resumed
again, so no more of them are nested than there are coroutines. The limit on calls counts those of
one thread: it bounds the frames of each, and it does not bound the nesting.
-/

namespace RegisterVm

open Relation

variable {s s' : Store} {t r : ThreadRef} {activities : List Activity}

def resumptions : List Activity → List ThreadRef
  | [] => []
  | .resumption t :: below => t :: resumptions below
  | _ :: below => resumptions below

theorem mem_resumptions : t ∈ resumptions activities ↔ .resumption t ∈ activities := by
  induction activities with
  | nil => simp [resumptions]
  | cons a below ih => cases a <;> simp [resumptions, ih]

theorem count_resumptions (t : ThreadRef) (activities : List Activity) :
    (resumptions activities).count t = (resumptions (ofThread t activities)).length := by
  induction activities with
  | nil => rfl
  | cons a below ih =>
      by_cases own : a.thread = t
      · rw [ofThread_self own]
        cases a with
        | resumption r =>
            obtain rfl : r = t := own
            simpa [resumptions] using ih
        | _ => exact ih
      · rw [ofThread_other own]
        cases a with
        | resumption r =>
            have other : r ≠ t := own
            simpa [resumptions, other] using ih
        | _ => exact ih

theorem Expects.resumptions_le {mine : List Activity} {frames : List Frame}
    (expects : Expects mine frames) : (resumptions mine).length ≤ 1 := by
  induction mine generalizing frames with
  | nil => exact Nat.zero_le 1
  | cons a below ih =>
      cases a with
      | script r floor =>
          obtain ⟨-, base, -, -, -, inner⟩ := expects
          exact ih inner
      | native r next =>
          obtain ⟨-, base, -, -, -, inner⟩ := expects
          exact ih inner
      | collect r place => exact ih expects.2.2
      | restore r level depth | guard r place depth => exact ih expects.2.2.2
      | resumption r =>
          obtain ⟨rfl, -⟩ := expects
          exact Nat.le_refl 1

namespace Store

theorem Local.shallow {low : Nat} (inside : s.Local t low s') (own : (s'.thread t).Shallow)
    (all : ∀ r, (s.thread r).Shallow) (r : ThreadRef) : (s'.thread r).Shallow := by
  by_cases same : r = t
  · rwa [same]
  · rcases inside.thread_other same with kept | ⟨-, unstarted⟩
    · rw [kept]
      exact all r
    · rw [Thread.Shallow, unstarted.frames]
      exact Nat.zero_le _

theorem Advanced.shallow (advanced : s.Advanced t s') (all : ∀ r, (s.thread r).Shallow) :
    ∀ r, (s'.thread r).Shallow :=
  advanced.inside.shallow (advanced.thread.depth (all t)) all

theorem shallow_of_same (limits : ∀ r, (s'.thread r).limits = (s.thread r).limits)
    (frames : ∀ r, (s'.thread r).frames = (s.thread r).frames) (all : ∀ r, (s.thread r).Shallow)
    (r : ThreadRef) : (s'.thread r).Shallow :=
  (all r).of_le (limits r) (Nat.le_of_eq (by rw [frames]))

theorem shallow_setHeld (all : ∀ r, (s.thread r).Shallow) (t : ThreadRef) (held : Bool) :
    ∀ r, ((Engine.setHeld s t held).thread r).Shallow :=
  shallow_of_same (fun r => field_modifyThread Thread.limits s t r _ fun _ => rfl)
    (fun r => field_modifyThread Thread.frames s t r _ fun _ => rfl) all

end Store

namespace Machine

variable {m m' : Machine} {limits : Limits}

def resuming (m : Machine) : List ThreadRef :=
  (resumptions m.activities).filter fun t => t < m.store.threads.size

/-- How far resumptions are nested, and how many calls each thread has in progress. -/
structure Nests (m : Machine) : Prop where
  distinct : m.resuming.Nodup
  running : ∀ t ∈ m.resuming, Running (m.store.thread t)
  fewer : m.resuming.length < m.store.threads.size
  calls : ∀ t, t < m.store.threads.size →
    (m.store.thread t).frames.length ≤ (m.store.thread t).limits.maxDepth

section Resuming

theorem Healthy.resumptions_le (healthy : m.Healthy) (t : ThreadRef) :
    (resumptions (ofThread t m.activities)).length ≤ 1 := by
  have beside : ∀ {s : Store} {r : ThreadRef} {activities : List Activity}, s.Apart r activities →
      t ≠ r → (resumptions (ofThread t activities)).length ≤ 1 :=
    fun apart different => (apart.others t different).expects.resumptions_le
  cases healthy with
  | settled sound => exact (sound.settled t).expects.resumptions_le
  | @entered _ _ r _ _ _ apart working =>
      by_cases same : t = r
      · subst same
        exact working.expects.resumptions_le
      · exact beside apart same
  | @leaving _ r activities below _ apart leaving shape =>
      by_cases same : t = r
      · subst same
        have only : (resumptions (.resumption t :: ofThread t below)).length ≤ 1 := by
          rw [leaving.alone]
          exact Nat.le_refl 1
        rcases shape with rfl | ⟨floor, rfl⟩
        · rwa [ofThread_self (by rfl)]
        · rwa [ofThread_self (by rfl), ofThread_self (by rfl)]
      · exact beside apart same
  | @failing _ _ r _ apart failing =>
      by_cases same : t = r
      · subst same
        obtain ⟨base, -, expects⟩ := failing.expects
        exact expects.resumptions_le
      · exact beside apart same
  | @lost s r below _ sound invalid =>
      by_cases same : r = t
      · subst same
        rw [ofThread_self (by rfl), (sound.settled r).toTidy.idle_of_invalid invalid]
        exact Nat.le_refl 1
      · rw [ofThread_other (a := .resumption r) same]
        exact (sound.settled t).expects.resumptions_le

theorem Healthy.distinct (healthy : m.Healthy) : m.resuming.Nodup := by
  refine List.Nodup.filter _ (List.nodup_iff_count_le_one.2 fun t => ?_)
  rw [count_resumptions]
  exact healthy.resumptions_le t

theorem Healthy.resuming_running (healthy : m.Healthy) (member : t ∈ m.resuming) :
    Running (m.store.thread t) := by
  obtain ⟨resumed, valid⟩ := List.mem_filter.1 member
  exact healthy.running (of_decide_eq_true valid) (mem_resumptions.1 resumed)

theorem Reachable.main (reachable : m.Reachable limits) :
    (m.store.thread 0).isMain = true := by
  induction reachable with
  | refl => rfl
  | tail earlier next ih => exact next.main (Reachable.healthy earlier) ih

theorem Reachable.fewer (reachable : m.Reachable limits) :
    m.resuming.length < m.store.threads.size := by
  have healthy := reachable.healthy
  have main := reachable.main
  have other : 0 ∉ m.resuming := by
    intro member
    have coroutine := (healthy.resuming_running member).isMain
    simp [main] at coroutine
  have known : 0 :: m.resuming ⊆ List.range m.store.threads.size := by
    rintro t (- | ⟨-, member⟩)
    · exact List.mem_range.2 (Store.lt_of_main main)
    · exact List.mem_range.2 (of_decide_eq_true (List.mem_filter.1 member).2)
  have bound := List.Nodup.length_le_of_subset (List.nodup_cons.2 ⟨other, healthy.distinct⟩) known
  rwa [List.length_range] at bound

end Resuming

section Shallow

theorem beginResumption_shallow (all : ∀ r, (s.thread r).Shallow) (activities : List Activity)
    (t : ThreadRef) (arguments : Array Value) :
    ∀ r, ((beginResumption s activities t arguments).store.thread r).Shallow := by
  by_cases valid : t < s.threads.size
  · exact (beginResumption_local s activities t arguments).shallow
      ((beginResumption_advances valid activities arguments).depth (all t)) all
  · obtain ⟨e, refused⟩ := beginResumption_invalid (Nat.not_lt.1 valid) activities arguments
    rwa [refused]

theorem Steps.shallow (steps : Steps t m m') (all : ∀ r, (m.store.thread r).Shallow) :
    ∀ r, (m'.store.thread r).Shallow := by
  cases steps with
  | works works =>
      cases works with
      | advanced advanced => exact advanced.shallow all
      | resumes calm accepted =>
          exact beginResumption_shallow ((Store.Advanced.calm calm).shallow all) _ _ _
  | @assigned m' f below pc cell value head assigns written =>
      have moved : ∀ r, ((m.store.modifyThread t fun th => th.setPc pc).thread r).Shallow := by
        have inside : m.store.Confined t 0 (m.store.modifyThread t fun th => th.setPc pc) :=
          Store.confined_reworked (Thread.reworked_setPc _ _)
        refine inside.toLocal.shallow ((all t).of_le inside.own.limits ?_) all
        rw [thread_setPc (Store.lt_of_frames head) head, head]
        exact Nat.le_refl _
      rw [written]
      intro r
      obtain ⟨stack, thread⟩ := Store.thread_writeCell _ cell value r
      rw [thread]
      exact moved r
  | ended activities control =>
      simp only [endResumption]
      split
      · exact Store.shallow_of_same (fun r => Store.field_modifyThread Thread.limits _ t r _ fun _ => rfl)
          (fun r => Store.field_modifyThread Thread.frames _ t r _ fun _ => rfl) all
      · exact Store.shallow_of_same (fun r => Store.field_modifyThread Thread.limits _ t r _ fun _ => rfl)
          (fun r => Store.field_modifyThread Thread.frames _ t r _ fun _ => rfl) all
  | killed activities control =>
      by_cases valid : t < m.store.threads.size
      · refine (local_killCoroutine m.store t : m.store.Local t 0 _).shallow ?_ all
        rw [Thread.Shallow, frames_killCoroutine _ valid]
        exact Nat.zero_le _
      · rwa [killCoroutine_invalid (Nat.not_lt.1 valid)]

theorem Next.shallow (healthy : m.Healthy) (next : Next m m')
    (all : ∀ r, (m.store.thread r).Shallow) : ∀ r, (m'.store.thread r).Shallow := by
  cases next with
  | step m =>
      rcases step_cases healthy.real with same | ⟨t, -, steps⟩
      · rwa [same]
      · exact steps.shallow all
  | drop m t =>
      intro r
      obtain ⟨stack, openCells, thread⟩ := (Store.faded_closeCells m.store t 0).threads r
      rw [Machine.drop, Store.dropThread, thread]
      exact all r
  | heap cells threads => simpa only [Store.thread, threads] using all
  | newCell value => exact all
  | @newCoroutine s control globals limits entry =>
      have inside : s.Local s.threads.size 0 (s.newCoroutine globals limits entry).2 :=
        Store.local_newThread (Coroutine.unstarted_new globals limits entry)
      refine inside.shallow ?_ all
      rw [Store.newCoroutine, Store.thread_newThread, if_pos rfl]
      exact Nat.zero_le _
  | @call s control t main free callee arguments =>
      have valid : t < (Engine.setHeld s t true).threads.size := by
        simpa [Engine.setHeld] using Store.lt_of_main main
      exact (beginValueCall_advanced valid callee arguments).shallow
        (Store.shallow_setHeld all t true)
  | @release s control t main => exact Store.shallow_setHeld all t false
  | resume free arguments => exact beginResumption_shallow all _ _ _

theorem Reachable.shallow (reachable : m.Reachable limits) :
    ∀ r, (m.store.thread r).Shallow := by
  induction reachable with
  | refl =>
      intro r
      have frames : (((initial limits).store.thread r)).frames = [] := by
        refine (congrArg Thread.frames (Store.thread_newThread _ _ r)).trans ?_
        split
        · rfl
        · rw [Store.thread_invalid _ (Nat.zero_le r)]
          rfl
      rw [Thread.Shallow, frames]
      exact Nat.zero_le _
  | tail earlier next ih => exact next.shallow (Reachable.healthy earlier) ih

end Shallow

/-- In every reachable machine those that are being resumed are different coroutines that run, so
they are fewer than the threads, and each thread keeps to its own limit on calls. -/
theorem nests_of_reachable (reachable : m.Reachable limits) : m.Nests where
  distinct := reachable.healthy.distinct
  running _ member := reachable.healthy.resuming_running member
  fewer := reachable.fewer
  calls t _ := reachable.shallow t

def descendingPrototype : Prototype :=
  { Prototype.empty with
    code := #[.abc .move 3 0 0, .abc .move 4 2 0, .abc .call 3 2 2, .abc .move 4 1 0,
      .abc .move 5 3 0, .abc .move 6 0 0, .abc .move 7 1 0, .abc .move 8 2 0, .abc .call 4 5 1,
      .abc .ret 0 1 0]
    parameters := 3
    window := 9 }

def twoCalls : Limits := ⟨200, 2⟩

/-- A host has made the descending function and has taken two functions from the library. -/
def descendingStore : Store :=
  let s := ((Vm.new twoCalls).store.newClosure ⟨descendingPrototype, #[]⟩).2
  let s := (s.newNative ⟨"create", .builtin .create, #[]⟩).2
  (s.newNative ⟨"resume", .builtin .resume, #[]⟩).2

/-- It has called the function with itself. -/
def descendingCall : Machine :=
  beginRestoringCall (Engine.setHeld descendingStore 0 true) [] 0 (.closure 0)
    #[.native 0, .native 1, .closure 0]

theorem descendingCall_reachable (k : Nat) : (descendingCall.after .bare k).Reachable twoCalls := by
  have made : Reachable twoCalls ⟨descendingStore, [], .done #[]⟩ := .single (.heap rfl rfl)
  have called : descendingCall.Reachable twoCalls := made.tail (.call rfl rfl _ _)
  induction k with
  | zero => exact called
  | succ k ih => exact ih.tail (.step _)

/-- Where each thread may have two calls in progress, three coroutines are being resumed within one
another after thirty-six steps. -/
theorem resuming_exceeds_depth :
    (descendingCall.after .bare 36).Reachable twoCalls ∧
      (∀ t ∈ (descendingCall.after .bare 36).resuming,
        ((descendingCall.after .bare 36).store.thread t).limits = twoCalls) ∧
      twoCalls.maxDepth < (descendingCall.after .bare 36).resuming.length :=
  ⟨descendingCall_reachable 36, by decide +kernel, by decide +kernel⟩

theorem nests_of_reachable_descending :
    (descendingCall.after .bare 36).Reachable twoCalls ∧
      (descendingCall.after .bare 36).resuming = [3, 2, 1] ∧
      (descendingCall.after .bare 36).store.threads.size = 4 ∧ (descendingCall.after .bare 36).Nests :=
  have reachable := descendingCall_reachable 36
  ⟨reachable, by decide +kernel, by decide +kernel, nests_of_reachable reachable⟩

end Machine

end RegisterVm
