import RegisterVm.Proofs.Machine.Steps

/-!
The stores that a host can come to, by running machines and by what it may do to a store itself. In
all of them the lists of open cells are right.
-/

namespace RegisterVm

/-- Stores that a host can come to: it allocates, changes threads but for their lists of open cells,
captures slots, closes cells, assigns through them, begins calls, and lets machines take steps. -/
inductive Store.Reachable : Store → Prop where
  | empty : Reachable .empty
  | heap {s s' : Store} (before : Reachable s) (cells : s'.cells = s.cells)
      (threads : s'.threads = s.threads) : Reachable s'
  | newCell {s : Store} (before : Reachable s) (value : Value) :
      Reachable (s.newCell (.closed value)).2
  | newThread {s : Store} (before : Reachable s) (isMain : Bool) (globals : TableRef)
      (limits : Limits) : Reachable (s.newThread (.new isMain globals limits)).2
  | modifyThread {s : Store} (before : Reachable s) (t : ThreadRef) {f : Thread → Thread}
      (lists : ∀ th, (f th).openCells = th.openCells) : Reachable (s.modifyThread t f)
  | captureSlot {s : Store} (before : Reachable s) {t : ThreadRef} (valid : t < s.threads.size)
      (index : Nat) : Reachable (s.captureSlot t index).2
  | closeCells {s : Store} (before : Reachable s) (t : ThreadRef) (level : Nat) :
      Reachable (s.closeCells t level)
  | writeCell {s : Store} (before : Reachable s) (cell : CellRef) (value : Value) :
      Reachable (s.writeCell cell value)
  | beginCall {s : Store} (before : Reachable s) (activities : List Activity) {t : ThreadRef}
      (valid : t < s.threads.size) (slot arguments : Nat) (wanted : Option Nat) :
      Reachable (Machine.beginCall s activities t slot arguments wanted).store
  | beginResumption {s : Store} (before : Reachable s) (activities : List Activity)
      (t : ThreadRef) (arguments : Array Value) :
      Reachable (Machine.beginResumption s activities t arguments).store
  | step {m : Machine} (before : Reachable m.store) (real : m.Real) :
      Reachable (m.step .bare).store

theorem Store.Reachable.linked {s : Store} (reachable : s.Reachable) : s.Linked := by
  induction reachable with
  | empty => exact linked_empty
  | heap _ cells threads ih =>
      exact (Store.confined_heap cells threads : Store.Confined 0 0 _ _).linked ih
  | newCell _ value ih => exact ih.newCell value
  | newThread _ isMain globals limits ih => exact ih.newThread rfl
  | modifyThread _ t lists ih =>
      exact (Store.local_modifyThread (lists _) : Store.Local t 0 _ _).linked ih
  | captureSlot _ valid index ih => exact ih.captureSlot valid index
  | closeCells _ t level ih => exact ih.closeCells t level
  | writeCell _ cell value ih => exact ih.writeCell cell value
  | beginCall _ activities valid slot arguments wanted ih =>
      exact (Machine.beginCall_advanced valid slot arguments wanted).inside.linked ih
  | beginResumption _ activities t arguments ih =>
      exact (Machine.beginResumption_local _ activities t arguments).linked ih
  | step _ real ih =>
      rcases Machine.step_cases real with same | ⟨t, -, steps⟩
      · rw [same]
        exact ih
      · exact steps.linked ih

end RegisterVm
