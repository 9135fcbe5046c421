import RegisterVm.Machine.Step
import RegisterVm.Proofs.Machine.Keeps

/-!
Dropping frames after a failure. The cells from a level up are closed first, so that they keep the
values of slots that are cleared next.
-/

namespace RegisterVm

def Thread.highest (th : Thread) (depth : Nat) : Nat :=
  (th.frames.take (th.frames.length - depth)).foldl (fun high f => max high f.top) th.top

theorem keepFrames_append (upper : List Frame) {base : List Frame} {depth : Nat}
    (bound : base.length ≤ depth) :
    ∃ upper', Thread.keepFrames (upper ++ base) depth = upper' ++ base ∧ upper' <:+ upper := by
  refine ⟨upper.drop ((upper ++ base).length - depth), ?_, List.drop_suffix _ _⟩
  rw [Thread.keepFrames, List.drop_append_of_le_length]
  simp
  omega

theorem keepFrames_base (upper base : List Frame) :
    Thread.keepFrames (upper ++ base) base.length = base := by
  simp [Thread.keepFrames]

namespace Store

variable (s : Store) {t : ThreadRef} (level depth : Nat)

theorem thread_unwind (valid : t < s.threads.size) :
    (s.unwind t level depth).thread t =
      ({ (s.closeCells t level).thread t with
        frames := Thread.keepFrames (s.thread t).frames depth, yielding := false }.clear level
          ((s.thread t).highest depth)).withTop level := by
  have closed : (s.closeCells t level).thread t = { s.thread t with
      openCells := (s.thread t).openCells.filter fun e => e.1 < level } := by
    rw [thread_closeCells, if_pos rfl]
  rw [unwind, thread_modifyThread_self _ _ (by rwa [threadCount_closeCells]), closed]
  rfl

theorem local_unwind {low : Nat} : Local t low s (s.unwind t level depth) :=
  (confined_closeCells s t).toLocal.trans (local_modifyThread rfl)

theorem threadCount_unwind : (s.unwind t level depth).threads.size = s.threads.size := by
  rw [unwind, threadCount_modifyThread, threadCount_closeCells]

structure Unwound (level depth : Nat) (th th' : Thread) : Prop where
  frames : th'.frames = Thread.keepFrames th.frames depth
  top : th'.top = level
  yielding : th'.yielding = false
  held : th'.held = th.held
  pinned : th'.pinned = th.pinned
  status : th'.status = th.status
  isMain : th'.isMain = th.isMain
  limits : th'.limits = th.limits
  slots : ∀ index, index < level → th'.get index = th.get index
  cleared : ∀ index, level ≤ index → index < th.highest depth → th'.get index = .nil

theorem unwound_unwind (valid : t < s.threads.size) :
    Unwound level depth (s.thread t) ((s.unwind t level depth).thread t) := by
  rw [thread_unwind s level depth valid, thread_closeCells, if_pos rfl]
  refine ⟨rfl, rfl, rfl, rfl, rfl, rfl, rfl, rfl, ?_, ?_⟩
  · intro index below
    rw [Thread.get_withTop, Thread.get_clear_below _ below]
    rfl
  · intro index above inside
    rw [Thread.get_withTop, Thread.get_clear, if_pos ⟨above, inside⟩]

end Store

theorem Machine.local_catchFailure (s : Store) {t : ThreadRef} {low : Nat} (slot depth : Nat)
    (e : Error) : s.Local t low (catchFailure s t slot depth e) :=
  (s.local_unwind slot depth).trans (Store.local_modifyThread rfl)

theorem Machine.local_killCoroutine (s : Store) (t : ThreadRef) {low : Nat} :
    s.Local t low (killCoroutine s t) :=
  (Store.confined_closeCells s t).toLocal.trans (Store.local_modifyThread rfl)

theorem Machine.frames_killCoroutine (s : Store) {t : ThreadRef} (valid : t < s.threads.size) :
    ((killCoroutine s t).thread t).frames = [] := by
  rw [killCoroutine, Store.thread_modifyThread_self _ _ (by rwa [Store.threadCount_closeCells])]

end RegisterVm
