import RegisterVm.Proofs.Protected.Reachable
import RegisterVm.Proofs.Protected.Steps

/-!
A protected call that has caught a failure has put its thread back as it was on entry, whatever ran
in between and wherever the failure was raised.
-/

namespace RegisterVm

namespace Machine

end Machine

namespace Guarding

open Machine

abbrev Protects (g : Guarding) (rest : List Activity) : Prop :=
  g.under = .guard g.thread g.slot g.frames.length :: rest

variable {g : Guarding} {values : Nat → Value} {above rest : List Activity} {s : Store}

theorem Runs.longer {m : Machine} (runs : g.Runs values m) (protects : g.Protects rest) :
    rest.length < m.activities.length := by
  cases runs with
  | intro above holds enters =>
      simp only [protects, List.length_append, List.length_cons]
      omega

def caught (g : Guarding) (s : Store) (e : Error) : Store :=
  catchFailure (s.modifyThread g.thread Machine.unpin) g.thread g.slot g.frames.length e

structure Catches (g : Guarding) (e : Error) (s s' : Store) : Prop where
  frames : (s'.thread g.thread).frames = g.frames
  top : (s'.thread g.thread).top = g.slot + 1
  error : (s'.thread g.thread).get g.slot = e.value
  pinned : (s'.thread g.thread).pinned = g.pinned - 1
  yielding : (s'.thread g.thread).yielding = false
  shut : ∀ (ref : CellRef) (index : Nat), s'.cells[ref]? = some (.slot g.thread index) →
    index < g.slot
  closed : ∀ (ref : CellRef) (index : Nat), g.slot ≤ index →
    s.cells[ref]? = some (.slot g.thread index) →
    s'.cells[ref]? = some (.closed ((s.thread g.thread).get index))
  below : ∀ index, index < g.slot → (s'.thread g.thread).get index = (s.thread g.thread).get index
  cleared : ∀ index, g.slot < index → index < (s.thread g.thread).highest g.frames.length →
    (s'.thread g.thread).get index = .nil

theorem Holds.catches (holds : g.Holds values [] s) (e : Error) :
    g.Catches e s (g.caught s e) := by
  have unpinned := Store.thread_modifyThread_self s Machine.unpin holds.valid
  have linked : (s.modifyThread g.thread Machine.unpin).Linked :=
    (Store.local_modifyThread rfl : Store.Local g.thread 0 _ _).linked holds.linked
  have valid : g.thread < (s.modifyThread g.thread Machine.unpin).threads.size := by
    simpa using holds.valid
  have cells : (s.modifyThread g.thread Machine.unpin).cells = s.cells := rfl
  have closes : (g.caught s e).cells =
      ((s.modifyThread g.thread Machine.unpin).closeCells g.thread g.slot).cells := rfl
  have thread : (g.caught s e).thread g.thread =
      ((((s.modifyThread g.thread Machine.unpin).unwind g.thread g.slot g.frames.length).thread
        g.thread).put g.slot e.value).withTop (g.slot + 1) := by
    rw [caught, catchFailure, Store.thread_modifyThread_self _ _
      (by rwa [Store.threadCount_unwind])]
  have unwound := Store.unwound_unwind _ g.slot g.frames.length valid
  have slots : (Machine.unpin (s.thread g.thread)).get = (s.thread g.thread).get := rfl
  have pinned : (Machine.unpin (s.thread g.thread)).pinned = g.pinned - 1 := by
    rw [Machine.unpin, holds.pinned]
    rfl
  have highest : (Machine.unpin (s.thread g.thread)).highest g.frames.length =
    (s.thread g.thread).highest g.frames.length := rfl
  have frames : (Machine.unpin (s.thread g.thread)).frames = (s.thread g.thread).frames := rfl
  generalize (Store.unwind _ g.thread g.slot g.frames.length).thread g.thread = dropped
    at thread unwound
  generalize s.modifyThread g.thread Machine.unpin = start at *
  rw [← unpinned] at slots pinned highest frames
  refine ⟨?_, ?_, ?_, ?_, ?_, ?_, ?_, ?_, ?_⟩
  · rw [thread, Thread.frames_withTop, Thread.frames_put, unwound.frames, frames]
    exact holds.mark.stacked.keepFrames_base
  · rw [thread, Thread.top_withTop]
  · rw [thread, Thread.get_withTop, Thread.get_put, if_pos rfl]
  · rw [thread, ← pinned]
    exact unwound.pinned
  · rw [thread]
    exact unwound.yielding
  · intro ref index found
    rw [closes] at found
    obtain ⟨before, bound⟩ := Store.open_closeCells found
    exact bound rfl (linked.complete ref g.thread index before)
  · intro ref index above found
    rw [← cells] at found
    rw [closes, Store.cells_closeCells_closed (linked.listed g.thread)
      (linked.complete ref g.thread index found) above, slots]
  · intro index bound
    rw [thread, Thread.get_withTop, Thread.get_put, if_neg (by omega), unwound.slots index bound,
      slots]
  · intro index above bound
    rw [thread, Thread.get_withTop, Thread.get_put, if_neg (by omega)]
    exact unwound.cleared index (by omega) (by rwa [highest])

end Guarding

end RegisterVm
