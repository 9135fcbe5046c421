import RegisterVm.Proofs.Lifetime.Sound

/-!
Changes that no thread notices: of the heap, of values on a stack, and the closing of cells. They
keep the invariant whatever a machine is about to do.
-/

namespace RegisterVm

variable {s s' : Store} {t : ThreadRef} {mine activities : List Activity}

namespace Store

structure Faded (s s' : Store) : Prop where
  count : s'.threads.size = s.threads.size
  threads : ∀ t, ∃ stack openCells, s'.thread t = { s.thread t with stack, openCells }
  room : ∀ t, (s.thread t).stack.size ≤ (s'.thread t).stack.size
  grown : s.cells.size ≤ s'.cells.size
  opened : ∀ (ref : CellRef) (t : ThreadRef) (index : Nat),
    s'.cells[ref]? = some (.slot t index) → s.cells[ref]? = some (.slot t index)
  linked : s.Linked → s'.Linked

theorem Tidy.faded (tidy : s.Tidy t mine) (faded : s.Faded s') : s'.Tidy t mine := by
  obtain ⟨stack, openCells, thread⟩ := faded.threads t
  refine ⟨?_, ?_, ?_, ?_, ?_, ?_, ?_, ?_, ?_, ?_⟩ <;> rw [thread]
  · exact tidy.frames
  · exact tidy.layers.of_same rfl (.inl rfl)
  · exact fun ref index found => tidy.witnessed ref index (faded.opened ref t index found)
  · intro level depth mark
    obtain ⟨base, length, above⟩ := tidy.marked level depth mark
    exact ⟨base, length, above.stacked, above.top⟩
  · exact tidy.pinned
  · exact tidy.held
  · exact tidy.coroutine
  · exact tidy.main
  · intro coroutine free
    cases tidy.resting coroutine free with
    | fresh status frames quiet => exact .fresh status frames quiet
    | suspended status yielding unpinned frames native scripts =>
        exact .suspended status yielding unpinned frames native scripts
    | dead status frames quiet => exact .dead status frames quiet
  · exact tidy.busy

theorem Settled.faded (settled : s.Settled t mine) (faded : s.Faded s') : s'.Settled t mine := by
  obtain ⟨stack, openCells, thread⟩ := faded.threads t
  refine ⟨settled.toTidy.faded faded, ?_, ?_, ?_⟩ <;> rw [thread]
  · exact settled.expects
  · exact settled.quiet
  · exact settled.ample

theorem Sound.faded (sound : s.Sound activities) (faded : s.Faded s') : s'.Sound activities :=
  ⟨faded.linked sound.linked, sound.chained, fun t => (sound.settled t).faded faded⟩

theorem Apart.faded (apart : s.Apart t activities) (faded : s.Faded s') : s'.Apart t activities :=
  ⟨faded.linked apart.linked, apart.chained,
    fun r different => (apart.others r different).faded faded⟩

theorem Faded.onward (faded : s.Faded s') : s.Onward s' where
  grown := faded.grown
  old ref t index _ := faded.opened ref t index
  ended t f below _ standing gone := by
    obtain ⟨stack, openCells, thread⟩ := faded.threads t
    rw [thread] at gone
    exact absurd standing gone

theorem Faded.sustains (faded : s.Faded s')
    (unmoved : ∀ t, (s'.thread t).stack = (s.thread t).stack) : s.Sustains s' where
  toOnward := faded.onward
  stands t f below _ standing := by
    obtain ⟨stack, openCells, thread⟩ := faded.threads t
    rw [thread]
    exact standing
  slots t f below _ _ index _ := by rw [Thread.get, unmoved, Thread.get]

theorem faded_heap (cells : s'.cells = s.cells) (threads : s'.threads = s.threads) :
    s.Faded s' where
  count := by rw [threads]
  threads t := ⟨_, _, by rw [thread, threads, thread]⟩
  room t := Nat.le_of_eq (by rw [thread, thread, threads])
  grown := Nat.le_of_eq (by rw [cells])
  opened ref t index found := by rwa [cells] at found
  linked linked := linked.congr cells fun t => by rw [thread, threads, thread]

theorem faded_newCell (s : Store) (value : Value) : s.Faded (s.newCell (.closed value)).2 where
  count := rfl
  threads t := ⟨_, _, rfl⟩
  room t := Nat.le_refl _
  grown := by simp [newCell]
  opened ref t index found := by
    simp only [newCell, Array.getElem?_push] at found
    split at found
    · simp at found
    · exact found
  linked linked := linked.newCell value

theorem faded_writeCell (s : Store) (cell : CellRef) (value : Value) :
    s.Faded (s.writeCell cell value) where
  count := threadCount_writeCell s cell value
  threads t := by
    obtain ⟨stack, thread⟩ := thread_writeCell s cell value t
    exact ⟨stack, _, thread⟩
  room := le_size_writeCell s cell value
  grown := Nat.le_of_eq (size_writeCell s cell value).symm
  opened ref t index := open_writeCell.1
  linked linked := linked.writeCell cell value

theorem faded_closeCells (s : Store) (t : ThreadRef) (level : Nat) :
    s.Faded (s.closeCells t level) where
  count := threadCount_closeCells s t level
  threads r := by
    obtain ⟨openCells, thread⟩ := alike_closeCells s t r level
    exact ⟨_, openCells, thread⟩
  room r := by
    obtain ⟨openCells, thread⟩ := alike_closeCells s t r level
    exact Nat.le_of_eq (by rw [thread])
  grown := Nat.le_of_eq (size_closeCells s t level).symm
  opened ref r index found := (open_closeCells found).1
  linked linked := linked.closeCells t level

end Store

theorem Machine.Healthy.faded {control : Control} (healthy : Healthy ⟨s, activities, control⟩)
    (faded : s.Faded s') : Healthy ⟨s', activities, control⟩ := by
  cases healthy with
  | settled sound goes => exact .settled (sound.faded faded) goes
  | @entered _ _ t body f base apart working serves yieldable arrived =>
      obtain ⟨stack, openCells, thread⟩ := faded.threads t
      refine .entered (apart.faded faded) ⟨working.toTidy.faded faded, ?_, working.native,
        working.announces, working.expects, ?_⟩ serves yieldable
        ⟨?_, Nat.le_trans arrived.room.exist (faded.room t), ?_⟩
      · rw [thread]
        exact working.head
      · rw [thread]
        exact working.quiet
      · rw [thread]
        exact arrived.top
      · rw [thread]
        exact arrived.room.granted
  | @leaving _ t _ below values apart leaving shape =>
      obtain ⟨stack, openCells, thread⟩ := faded.threads t
      refine .leaving (apart.faded faded) ⟨leaving.toTidy.faded faded, ?_, ?_, leaving.alone⟩
        shape <;> rw [thread]
      · exact leaving.head
      · exact leaving.yielding
  | @failing _ _ t e apart failing hears =>
      obtain ⟨stack, openCells, thread⟩ := faded.threads t
      refine .failing (apart.faded faded) ⟨failing.toTidy.faded faded, ?_, ?_⟩ hears <;>
        rw [thread]
      · exact failing.expects
      · exact failing.quiet
  | lost sound invalid =>
      refine .lost (sound.faded faded) ?_
      rw [faded.count]
      exact invalid

end RegisterVm
