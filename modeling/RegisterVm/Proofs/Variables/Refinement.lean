import Mathlib.Data.List.Basic
import RegisterVm.Proofs.Store.Cells
import RegisterVm.Proofs.Variables.Reference

/-!
Captured variables behave as shared cells. A session on a thread answers as the reference model
does, and a slot keeps its cell until a close at or below it, or until its thread is dropped.
-/

namespace RegisterVm.Capture

/-- A session and the reference model describe the same variables. The cells of the session lie
from `offset` on in the store, in the order in which the model numbers them. -/
structure Simulates (offset : Nat) (session : Session) (vars : Variables) : Prop where
  valid : session.thread < session.store.threads.size
  alive : session.alive = vars.alive
  size : session.store.cells.size = offset + vars.count
  handles : session.handles = vars.handles.map (offset + ·)
  known : ∀ cell ∈ vars.handles, cell < vars.count
  listed : session.store.Listed session.thread
  slot : ∀ index, (session.store.thread session.thread).get index = vars.read index
  captured : ∀ index ref, (index, ref) ∈ (session.store.thread session.thread).openCells ↔
    ∃ cell, vars.captured index = some cell ∧ ref = offset + cell
  detached : ∀ cell, cell < vars.count → (∀ index, vars.captured index ≠ some cell) →
    session.store.cells[offset + cell]? = some (.closed (vars.cells cell))

namespace Simulates

variable {offset : Nat} {session : Session} {vars : Variables}

theorem mem_openCells (related : Simulates offset session vars) {index cell : Nat}
    (captured : vars.captured index = some cell) :
    (index, offset + cell) ∈ (session.store.thread session.thread).openCells :=
  (related.captured index (offset + cell)).2 ⟨cell, captured, rfl⟩

theorem openCell (related : Simulates offset session vars) {index cell : Nat}
    (captured : vars.captured index = some cell) :
    session.store.cells[offset + cell]? = some (.slot session.thread index) :=
  related.listed.openCell index _ (related.mem_openCells captured)

theorem captured_lt (related : Simulates offset session vars) {index cell : Nat}
    (captured : vars.captured index = some cell) : cell < vars.count := by
  have bound := related.listed.bound (related.mem_openCells captured)
  rw [related.size] at bound
  exact Nat.lt_of_add_lt_add_left bound

theorem captured_inj (related : Simulates offset session vars) {i j cell : Nat}
    (first : vars.captured i = some cell) (second : vars.captured j = some cell) : i = j :=
  related.listed.slot_unique (related.mem_openCells first) (related.mem_openCells second)

theorem readCell (related : Simulates offset session vars) {cell : Nat}
    (bound : cell < vars.count) :
    session.store.readCell (offset + cell) = vars.cells cell := by
  by_cases captured : ∃ index, vars.captured index = some cell
  · obtain ⟨index, captured⟩ := captured
    rw [Store.readCell_slot (related.openCell captured), related.slot, Variables.read, captured]
  · have free : ∀ index, vars.captured index ≠ some cell :=
      fun index found => captured ⟨index, found⟩
    rw [Store.readCell_closed (related.detached cell bound free)]

end Simulates

namespace Variables

variable (vars : Variables)

@[simp] theorem write_captured (index : Nat) (value : Value) :
    (vars.write index value).captured = vars.captured := by
  simp only [write]
  split <;> rfl

@[simp] theorem write_count (index : Nat) (value : Value) :
    (vars.write index value).count = vars.count := by
  simp only [write]
  split <;> rfl

@[simp] theorem write_handles (index : Nat) (value : Value) :
    (vars.write index value).handles = vars.handles := by
  simp only [write]
  split <;> rfl

@[simp] theorem write_alive (index : Nat) (value : Value) :
    (vars.write index value).alive = vars.alive := by
  simp only [write]
  split <;> rfl

theorem write_cells_free {cell : Nat} (index : Nat) (value : Value)
    (free : ∀ i, vars.captured i ≠ some cell) :
    (vars.write index value).cells cell = vars.cells cell := by
  simp only [write]
  split
  · rename_i other captured
    have different : cell ≠ other := by
      rintro rfl
      exact free index captured
    simp [setCell, different]
  · rfl

theorem read_write (index : Nat) (value : Value)
    (injective : ∀ i j cell, vars.captured i = some cell → vars.captured j = some cell → i = j)
    (other : Nat) :
    (vars.write index value).read other = if other = index then value else vars.read other := by
  rw [read, write_captured]
  cases mine : vars.captured other with
  | none =>
      cases captured : vars.captured index with
      | none => simp [write, captured, read, mine]
      | some cell =>
          have different : other ≠ index := by
            rintro rfl
            rw [mine] at captured
            contradiction
          simp [write, captured, read, mine, different, setCell]
  | some own =>
      cases captured : vars.captured index with
      | none =>
          have different : other ≠ index := by
            rintro rfl
            rw [mine] at captured
            contradiction
          simp [write, captured, read, mine, different]
      | some cell =>
          by_cases same : other = index
          · subst same
            rw [mine] at captured
            simp only [Option.some.injEq] at captured
            simp [write, mine, setCell]
          · have different : own ≠ cell := by
              rintro rfl
              exact same (injective other index own mine captured)
            simp [write, captured, read, mine, same, different, setCell]

end Variables

namespace Simulates

variable {offset : Nat} {session : Session} {vars : Variables}

theorem putSlot (related : Simulates offset session vars) (index : Nat) (value : Value) :
    Simulates offset
      { session with store :=
          session.store.modifyThread session.thread fun th => th.put index value }
      (vars.write index value) := by
  have thread := session.store.thread_modifyThread_self (fun th => th.put index value) related.valid
  have lists : ((session.store.modifyThread session.thread fun th => th.put index value).thread
      session.thread).openCells = (session.store.thread session.thread).openCells := by
    rw [thread]
    rfl
  refine {
    valid := by simpa using related.valid
    alive := by simpa using related.alive
    size := by simpa using related.size
    handles := by simpa using related.handles
    known := by simpa using related.known
    listed := related.listed.congr lists fun _ _ _ => rfl
    slot := ?_
    captured := ?_
    detached := ?_ }
  · intro i
    have injective : ∀ i j cell, vars.captured i = some cell → vars.captured j = some cell →
        i = j := fun _ _ _ => related.captured_inj
    simp only [thread, Thread.get_put, vars.read_write index value injective, related.slot]
  · intro i ref
    simp only [lists, Variables.write_captured]
    exact related.captured i ref
  · intro cell bound free
    simp only [Variables.write_captured, Variables.write_count] at bound free
    rw [Variables.write_cells_free _ _ _ free]
    exact related.detached cell bound free

theorem setCell (related : Simulates offset session vars) {cell : Nat} (bound : cell < vars.count)
    (value : Value) :
    Simulates offset { session with store := session.store.writeCell (offset + cell) value }
      (vars.setCell cell value) := by
  by_cases captured : ∃ index, vars.captured index = some cell
  · obtain ⟨index, captured⟩ := captured
    have written : vars.setCell cell value = vars.write index value := by
      simp [Variables.write, captured]
    rw [Store.writeCell_slot value (related.openCell captured), written]
    exact related.putSlot index value
  · have free : ∀ index, vars.captured index ≠ some cell :=
      fun index found => captured ⟨index, found⟩
    have inside : offset + cell < session.store.cells.size := by
      rw [related.size]
      omega
    rw [Store.writeCell_closed value (related.detached cell bound free)]
    have elsewhere : ∀ ref, ref ≠ offset + cell →
        (session.store.closeCell (offset + cell) value).cells[ref]? =
          session.store.cells[ref]? := by
      intro ref different
      rw [Store.closeCell, Array.getElem?_setIfInBounds, if_neg (Ne.symm different)]
    refine { related with
      size := by simpa [Store.closeCell, Variables.setCell] using related.size
      listed := related.listed.congr rfl ?_
      slot := ?_
      detached := ?_ }
    · intro index ref member
      apply elsewhere
      rintro rfl
      obtain ⟨other, owned, equal⟩ := (related.captured index _).1 member
      have same : cell = other := Nat.add_left_cancel equal
      subst same
      exact free index owned
    · intro index
      refine (related.slot index).trans ?_
      simp only [Variables.read, Variables.setCell]
      split
      · rename_i other owned
        have different : other ≠ cell := by
          rintro rfl
          exact free index owned
        rw [if_neg different]
      · rfl
    · intro other otherBound otherFree
      by_cases same : other = cell
      · subst same
        simp [Store.closeCell, inside, Variables.setCell]
      · rw [elsewhere _ (by omega)]
        simpa [Variables.setCell, same] using related.detached other otherBound otherFree

theorem capture (related : Simulates offset session vars) (index : Nat) :
    (session.store.captureSlot session.thread index).1 = offset + (vars.capture index).1 ∧
      (vars.capture index).1 < (vars.capture index).2.count ∧
      (vars.capture index).2.handles = vars.handles ∧
      (vars.capture index).2.alive = vars.alive ∧
      Simulates offset { session with store := (session.store.captureSlot session.thread index).2 }
        (vars.capture index).2 := by
  cases captured : vars.captured index with
  | some cell =>
      have found : (session.store.thread session.thread).cellAt? index = some (offset + cell) :=
        (Store.cellAt_eq_some related.listed.unique).2 (related.mem_openCells captured)
      rw [Store.captureSlot_known found]
      simp only [Variables.capture, captured]
      exact ⟨trivial, related.captured_lt captured, trivial, trivial, related⟩
  | none =>
      have missing : (session.store.thread session.thread).cellAt? index = none := by
        rw [Store.cellAt_eq_none]
        intro ref member
        obtain ⟨cell, owned, _⟩ := (related.captured index ref).1 member
        rw [captured] at owned
        contradiction
      rw [Store.captureSlot_fresh missing]
      simp only [Variables.capture, captured]
      refine ⟨related.size, by omega, trivial, trivial, ?_⟩
      have thread := session.store.thread_withFreshCell index related.valid session.thread
      rw [if_pos rfl] at thread
      refine {
        valid := by simpa [Store.withFreshCell] using related.valid
        alive := related.alive
        size := by simp [Store.withFreshCell, related.size]; omega
        handles := related.handles
        known := ?_
        listed := related.listed.withFreshCell related.valid missing
        slot := ?_
        captured := ?_
        detached := ?_ }
      · intro cell member
        exact Nat.lt_succ_of_lt (related.known cell member)
      · intro i
        rw [thread]
        refine (related.slot i).trans ?_
        simp only [Variables.read]
        by_cases same : i = index
        · subst same
          simp [captured]
        · rw [if_neg same]
          split
          · rename_i cell owned
            have := related.captured_lt owned
            rw [if_neg (by omega)]
          · rfl
      · intro i ref
        rw [thread]
        simp only [List.mem_cons, Prod.mk.injEq, related.captured, related.size]
        by_cases same : i = index
        · subst same
          simp [captured]
        · simp [same]
      · intro cell bound free
        dsimp only at bound free ⊢
        have different : cell ≠ vars.count := by
          rintro rfl
          exact free index (if_pos rfl)
        have stillFree : ∀ i, vars.captured i ≠ some cell := by
          intro i owned
          apply free i
          by_cases same : i = index
          · subst same
            rw [captured] at owned
            contradiction
          · rw [if_neg same]
            exact owned
        have below : cell < vars.count := Nat.lt_of_le_of_ne (Nat.le_of_lt_succ bound) different
        have shifted : offset + cell ≠ offset + vars.count := fun equal =>
          different (Nat.add_left_cancel equal)
        rw [Store.cells_withFreshCell, related.size, if_neg shifted, if_neg different]
        exact related.detached cell below stillFree

theorem remember (related : Simulates offset session vars) {cell : Nat}
    (bound : cell < vars.count) :
    Simulates offset { session with handles := session.handles ++ [offset + cell] }
      { vars with handles := vars.handles ++ [cell] } := by
  refine { related with handles := ?_, known := ?_ }
  · simp [related.handles]
  · intro other member
    rcases List.mem_append.1 member with old | new
    · exact related.known other old
    · rw [List.mem_singleton.1 new]
      exact bound

theorem detach (related : Simulates offset session vars) (level : Nat) :
    Simulates offset { session with store := session.store.closeCells session.thread level }
      (vars.detach level) := by
  have kept : ∀ index, ((session.store.closeCells session.thread level).thread
      session.thread).get index = (session.store.thread session.thread).get index := by
    intro index
    rw [Store.thread_closeCells, if_pos rfl]
    rfl
  refine {
    valid := by simpa [Store.threadCount_closeCells] using related.valid
    alive := related.alive
    size := (Store.size_closeCells _ _ _).trans related.size
    handles := related.handles
    known := related.known
    listed := related.listed.closeCells level
    slot := ?_
    captured := ?_
    detached := ?_ }
  · intro index
    rw [kept, related.slot]
    by_cases above : level ≤ index
    · simp [Variables.detach, Variables.read, above]
    · simp [Variables.detach, Variables.read, above]
  · intro index ref
    rw [Store.mem_openCells_closeCells, related.captured]
    by_cases above : level ≤ index
    · simp [Variables.detach, above, Nat.not_lt.2 above]
    · simp [Variables.detach, above, Nat.lt_of_not_le above]
  · intro cell bound free
    by_cases captured : ∃ index, vars.captured index = some cell
    · obtain ⟨index, captured⟩ := captured
      have above : level ≤ index := by
        by_contra below
        exact free index (by simp [Variables.detach, below, captured])
      rw [Store.cells_closeCells_closed related.listed (related.mem_openCells captured) above,
        related.slot, Variables.read, captured]
      rfl
    · have before : ∀ index, vars.captured index ≠ some cell :=
        fun index found => captured ⟨index, found⟩
      rw [Store.cells_closeCells_other]
      · exact related.detached cell bound before
      · intro index member
        obtain ⟨other, owned, equal⟩ := (related.captured index _).1 member
        have same : cell = other := Nat.add_left_cancel equal
        subst same
        exact (before index owned).elim

theorem handle (related : Simulates offset session vars) (index : Nat) :
    session.handles[index]? = (vars.handles[index]?).map (offset + ·) := by
  rw [related.handles, List.getElem?_map]

theorem idxOf_shifted (offset : Nat) (handles : List Nat) (cell : Nat) :
    (handles.map (offset + ·)).idxOf (offset + cell) = handles.idxOf cell := by
  induction handles with
  | nil => rfl
  | cons first rest ih =>
      by_cases same : first = cell
      · simp [same]
      · have shifted : offset + first ≠ offset + cell :=
          fun equal => same (Nat.add_left_cancel equal)
        rw [List.map_cons, List.idxOf_cons, List.idxOf_cons, beq_false_of_ne shifted,
          beq_false_of_ne same, ih]

theorem step (related : Simulates offset session vars) (operation : Operation) :
    Simulates offset (session.step operation).1 (vars.step operation).1 ∧
      (session.step operation).2 = (vars.step operation).2 := by
  cases operation with
  | setSlot index value =>
      by_cases alive : vars.alive = true
      · rw [Session.step, Variables.step, if_pos (related.alive.trans alive), if_pos alive]
        exact ⟨related.putSlot index value, rfl⟩
      · have gone : ¬session.alive = true := by rwa [related.alive]
        rw [Session.step, Variables.step, if_neg gone, if_neg alive]
        exact ⟨related, rfl⟩
  | getSlot index =>
      by_cases alive : vars.alive = true
      · rw [Session.step, Variables.step, if_pos (related.alive.trans alive), if_pos alive]
        exact ⟨related, congrArg Reply.value (related.slot index)⟩
      · have gone : ¬session.alive = true := by rwa [related.alive]
        rw [Session.step, Variables.step, if_neg gone, if_neg alive]
        exact ⟨related, rfl⟩
  | capture index =>
      by_cases alive : vars.alive = true
      · rw [Session.step, Variables.step, if_pos (related.alive.trans alive), if_pos alive]
        obtain ⟨ref, bound, handles, _, after⟩ := related.capture index
        have remembered := after.remember bound
        have shifted := idxOf_shifted offset
          (vars.handles ++ [(vars.capture index).1]) (vars.capture index).1
        rw [List.map_append, List.map_singleton, ← related.handles] at shifted
        rw [handles] at remembered
        dsimp only
        rw [ref, shifted]
        exact ⟨remembered, rfl⟩
      · have gone : ¬session.alive = true := by rwa [related.alive]
        rw [Session.step, Variables.step, if_neg gone, if_neg alive]
        exact ⟨related, rfl⟩
  | getCell handle =>
      simp only [Session.step, Variables.step, related.handle]
      cases found : vars.handles[handle]? with
      | none => exact ⟨related, rfl⟩
      | some cell =>
          have bound := related.known cell (List.mem_of_getElem? found)
          exact ⟨related, congrArg Reply.value (related.readCell bound)⟩
  | setCell handle value =>
      simp only [Session.step, Variables.step, related.handle]
      cases found : vars.handles[handle]? with
      | none => exact ⟨related, rfl⟩
      | some cell =>
          have bound := related.known cell (List.mem_of_getElem? found)
          exact ⟨related.setCell bound value, rfl⟩
  | close level =>
      by_cases alive : vars.alive = true
      · rw [Session.step, Variables.step, if_pos (related.alive.trans alive), if_pos alive]
        exact ⟨related.detach level, rfl⟩
      · have gone : ¬session.alive = true := by rwa [related.alive]
        rw [Session.step, Variables.step, if_neg gone, if_neg alive]
        exact ⟨related, rfl⟩
  | drop =>
      by_cases alive : vars.alive = true
      · rw [Session.step, Variables.step, if_pos (related.alive.trans alive), if_pos alive]
        exact ⟨{ related.detach 0 with alive := rfl }, rfl⟩
      · have gone : ¬session.alive = true := by rwa [related.alive]
        rw [Session.step, Variables.step, if_neg gone, if_neg alive]
        exact ⟨related, rfl⟩

theorem replies (related : Simulates offset session vars) (operations : List Operation) :
    session.replies operations = vars.replies operations := by
  induction operations generalizing session vars with
  | nil => rfl
  | cons operation rest ih =>
      obtain ⟨after, answer⟩ := related.step operation
      rw [Session.replies, Variables.replies, answer, ih after]

end Simulates

theorem simulates_start (s : Store) (isMain : Bool) (globals : TableRef) (limits : Limits) :
    Simulates s.cells.size (Session.start s isMain globals limits) Variables.start := by
  have thread : (s.newThread (Thread.new isMain globals limits)).2.thread s.threads.size =
      Thread.new isMain globals limits := by
    rw [Store.thread_newThread, if_pos rfl]
  have slots : ∀ index, (Thread.new isMain globals limits).get index = .nil := by
    intro index
    simp only [Thread.new, Thread.get, Array.getD_eq_getD_getElem?, Array.getElem?_replicate]
    split <;> rfl
  refine {
    valid := by simp [Session.start, Store.newThread]
    alive := rfl
    size := rfl
    handles := rfl
    known := by simp [Variables.start]
    listed := ⟨?_, ?_⟩
    slot := ?_
    captured := ?_
    detached := by simp [Variables.start] }
  · intro index ref member
    have listed := thread ▸ member
    simp [Thread.new] at listed
  · show ((((s.newThread (Thread.new isMain globals limits)).2.thread
      s.threads.size).openCells).map Prod.fst).Nodup
    rw [thread]
    exact List.nodup_nil
  · intro index
    exact (congrArg (·.get index) thread).trans (slots index)
  · intro index ref
    have listed : ((Session.start s isMain globals limits).store.thread
        (Session.start s isMain globals limits).thread).openCells = [] :=
      congrArg Thread.openCells thread
    rw [listed]
    simp [Variables.start]

theorem Simulates.run {offset : Nat} {session : Session} {vars : Variables}
    (related : Simulates offset session vars) (operations : List Operation) :
    ∃ after, Simulates offset after (vars.run operations) := by
  induction operations generalizing session vars with
  | nil => exact ⟨session, related⟩
  | cons operation rest ih => exact ih (related.step operation).1

namespace Variables

theorem replies_append (vars : Variables) (before after : List Operation) :
    vars.replies (before ++ after) = vars.replies before ++ (vars.run before).replies after := by
  induction before generalizing vars with
  | nil => rfl
  | cons operation rest ih => simp [replies, run, ih]

theorem length_replies (vars : Variables) (operations : List Operation) :
    (vars.replies operations).length = operations.length := by
  induction operations generalizing vars with
  | nil => rfl
  | cons operation rest ih => simp [replies, ih]

theorem step_cases (vars : Variables) (operation : Operation) :
    ((operation ≠ .drop ∨ vars.alive = false) ∧
      (vars.step operation).1.captured = vars.captured ∧
      (vars.step operation).1.count = vars.count ∧
      (vars.step operation).1.handles = vars.handles ∧
      (vars.step operation).1.alive = vars.alive) ∨
    (∃ index, operation = .capture index ∧ (vars.step operation).1 =
      { (vars.capture index).2 with handles := vars.handles ++ [(vars.capture index).1] }) ∨
    (∃ level, operation = .close level ∧ (vars.step operation).1 = vars.detach level) ∨
    (operation = .drop ∧ (vars.step operation).1 = { vars.detach 0 with alive := false }) := by
  cases operation with
  | setSlot index value =>
      refine .inl ⟨.inl (by simp), ?_⟩
      simp only [step]
      split <;> simp
  | getSlot index =>
      refine .inl ⟨.inl (by simp), ?_⟩
      simp only [step]
      split <;> simp
  | getCell handle =>
      refine .inl ⟨.inl (by simp), ?_⟩
      simp only [step]
      split <;> simp
  | setCell handle value =>
      refine .inl ⟨.inl (by simp), ?_⟩
      simp only [step]
      split <;> simp [setCell]
  | capture index =>
      by_cases alive : vars.alive = true
      · refine .inr (.inl ⟨index, rfl, ?_⟩)
        rw [step, if_pos alive]
      · exact .inl ⟨.inl (by simp), by simp [step, alive]⟩
  | close level =>
      by_cases alive : vars.alive = true
      · exact .inr (.inr (.inl ⟨level, rfl, by rw [step, if_pos alive]⟩))
      · exact .inl ⟨.inl (by simp), by simp [step, alive]⟩
  | drop =>
      by_cases alive : vars.alive = true
      · exact .inr (.inr (.inr ⟨rfl, by rw [step, if_pos alive]⟩))
      · exact .inl ⟨.inr (by simpa using alive), by simp [step, alive]⟩

theorem capture_alive (vars : Variables) (index : Nat) :
    (vars.capture index).2.alive = vars.alive := by
  simp only [capture]
  split <;> rfl

theorem getElem_replies (vars : Variables) (before after : List Operation)
    (operation : Operation) :
    (vars.replies (before ++ operation :: after))[before.length]? =
      some ((vars.run before).step operation).2 := by
  rw [replies_append, List.getElem?_append_right (Nat.le_of_eq (length_replies _ _)),
    length_replies,
    Nat.sub_self]
  rfl

theorem step_alive (vars : Variables) (operation : Operation) :
    (vars.step operation).1.alive = true ↔ vars.alive = true ∧ operation ≠ .drop := by
  rcases step_cases vars operation with ⟨other, _, _, _, same⟩ | ⟨index, rfl, after⟩ |
    ⟨level, rfl, after⟩ | ⟨rfl, after⟩
  · rw [same]
    rcases other with other | gone
    · simp [other]
    · simp [gone]
  · simp [after, capture_alive]
  · simp [after, detach]
  · simp [after]

theorem run_alive (vars : Variables) (operations : List Operation) :
    (vars.run operations).alive = true ↔ vars.alive = true ∧ .drop ∉ operations := by
  induction operations generalizing vars with
  | nil => simp [run]
  | cons operation rest ih =>
      rw [run, List.foldl_cons]
      refine (ih _).trans ?_
      rw [step_alive, List.mem_cons, and_assoc, not_or]
      exact and_congr_right fun _ => and_congr_left fun _ => ne_comm

theorem step_handles (vars : Variables) (operation : Operation) :
    vars.handles <+: (vars.step operation).1.handles := by
  rcases step_cases vars operation with ⟨_, _, _, same, _⟩ | ⟨index, rfl, after⟩ |
    ⟨level, rfl, after⟩ | ⟨rfl, after⟩
  · exact same ▸ List.prefix_rfl
  · rw [after]
    exact List.prefix_append _ _
  · rw [after]
    exact List.prefix_rfl
  · rw [after]
    exact List.prefix_rfl

theorem step_keeps_cell (vars : Variables) (operation : Operation) {index cell : Nat}
    (captured : vars.captured index = some cell) (attached : ¬operation.detaches index) :
    (vars.step operation).1.captured index = some cell := by
  rcases step_cases vars operation with ⟨_, same, _⟩ | ⟨other, rfl, after⟩ |
    ⟨level, rfl, after⟩ | ⟨rfl, after⟩
  · rw [same]
    exact captured
  · rw [after]
    simp only [capture]
    split
    · exact captured
    · rename_i missing
      have different : index ≠ other := by
        rintro rfl
        rw [captured] at missing
        contradiction
      simpa [different] using captured
  · have above : ¬level ≤ index := attached
    simpa [after, detach, above] using captured
  · exact (attached trivial).elim

def CellFrom (low index : Nat) (vars : Variables) : Prop :=
  low ≤ vars.count ∧ ∀ cell, vars.captured index = some cell → low ≤ cell

theorem step_cellFrom {vars : Variables} {low index : Nat} (fresh : vars.CellFrom low index)
    (operation : Operation) : (vars.step operation).1.CellFrom low index := by
  rcases step_cases vars operation with ⟨_, same, count, _⟩ | ⟨other, rfl, after⟩ |
    ⟨level, rfl, after⟩ | ⟨rfl, after⟩
  · rw [CellFrom, same, count]
    exact fresh
  · rw [after]
    simp only [capture]
    split
    · exact fresh
    · refine ⟨Nat.le_succ_of_le fresh.1, ?_⟩
      intro cell owned
      dsimp only at owned
      split at owned
      · simp only [Option.some.injEq] at owned
        rw [← owned]
        exact fresh.1
      · exact fresh.2 cell owned
  · rw [after]
    refine ⟨fresh.1, ?_⟩
    intro cell owned
    simp only [detach] at owned
    split at owned
    · contradiction
    · exact fresh.2 cell owned
  · rw [after]
    exact ⟨fresh.1, by simp [detach]⟩

theorem run_handles (vars : Variables) (operations : List Operation) :
    vars.handles <+: (vars.run operations).handles := by
  induction operations generalizing vars with
  | nil => exact List.prefix_rfl
  | cons operation rest ih => exact (step_handles vars operation).trans (ih _)

theorem run_keeps_cell (vars : Variables) (operations : List Operation) {index cell : Nat}
    (captured : vars.captured index = some cell)
    (attached : ∀ operation ∈ operations, ¬operation.detaches index) :
    (vars.run operations).captured index = some cell := by
  induction operations generalizing vars with
  | nil => exact captured
  | cons operation rest ih =>
      exact ih _ (step_keeps_cell vars operation captured (attached operation (.head _)))
        fun other member => attached other (.tail _ member)

theorem run_cellFrom {vars : Variables} {low index : Nat} (fresh : vars.CellFrom low index)
    (operations : List Operation) : (vars.run operations).CellFrom low index := by
  induction operations generalizing vars with
  | nil => exact fresh
  | cons operation rest ih => exact ih (step_cellFrom fresh operation)

theorem step_detaches {vars : Variables} {operation : Operation} {index : Nat}
    (detaches : operation.detaches index) (alive : vars.alive = true) :
    (vars.step operation).1.CellFrom vars.count index := by
  cases operation with
  | close level =>
      have above : level ≤ index := detaches
      rw [step, if_pos alive]
      exact ⟨Nat.le_refl _, by simp [detach, above]⟩
  | drop =>
      rw [step, if_pos alive]
      exact ⟨Nat.le_refl _, by simp [detach]⟩
  | _ => exact detaches.elim

theorem capture_captured (vars : Variables) (index : Nat) :
    (vars.capture index).2.captured index = some (vars.capture index).1 := by
  cases found : vars.captured index <;> simp [capture, found]

theorem step_capture {vars : Variables} (alive : vars.alive = true) (index : Nat) :
    vars.step (.capture index) =
      ({ (vars.capture index).2 with handles := vars.handles ++ [(vars.capture index).1] },
        .cell ((vars.handles ++ [(vars.capture index).1]).idxOf (vars.capture index).1)) := by
  rw [step, if_pos alive]

theorem step_capture_gone {vars : Variables} (gone : ¬vars.alive = true) (index : Nat) :
    vars.step (.capture index) = (vars, .gone) := by
  rw [step, if_neg gone]

theorem idxOf_ne {handles handles' : List Nat} {first second : Nat} (grown : handles <+: handles')
    (member : first ∈ handles) (different : second ≠ first) :
    handles.idxOf first ≠ (handles' ++ [second]).idxOf second := by
  intro equal
  have known : first ∈ handles' ++ [second] := List.mem_append_left _ (grown.subset member)
  rw [(grown.trans (List.prefix_append _ [second])).idxOf_eq_of_mem member] at equal
  exact different ((List.idxOf_inj known).1 equal).symm

theorem recapture_detached {offset : Nat} {session : Session} {vars : Variables}
    (related : Simulates offset session vars) {cell index : Nat} (member : cell ∈ vars.handles)
    {between : List Operation} {operation : Operation} (present : operation ∈ between)
    (detaches : operation.detaches index) :
    Reply.cell (vars.handles.idxOf cell) ≠ ((vars.run between).step (.capture index)).2 := by
  by_cases alive : (vars.run between).alive = true
  · obtain ⟨before, after, rfl⟩ := List.append_of_mem present
    have split : vars.run (before ++ operation :: after) =
        (((vars.run before).step operation).1).run after := by
      simp [run]
    have alive' : (vars.run before).alive = true := by
      rw [split, run_alive] at alive
      exact ((step_alive _ _).1 alive.1).1
    obtain ⟨_, related'⟩ := related.run before
    have below := related'.known cell ((run_handles vars before).subset member)
    have fresh := run_cellFrom (step_detaches detaches alive') after
    rw [← split] at fresh
    have later : cell < ((vars.run (before ++ operation :: after)).capture index).1 := by
      cases captured : (vars.run (before ++ operation :: after)).captured index with
      | none =>
          simp only [capture, captured]
          exact Nat.lt_of_lt_of_le below fresh.1
      | some other =>
          simp only [capture, captured]
          exact Nat.lt_of_lt_of_le below (fresh.2 other captured)
    rw [step_capture alive]
    intro same
    exact idxOf_ne (run_handles vars _) member (Nat.ne_of_gt later) (Reply.cell.inj same)
  · rw [step_capture_gone alive]
    exact Reply.noConfusion

/-- Capturing a slot twice gives one cell exactly when nothing takes the cell away in between. -/
theorem recapture_iff {offset : Nat} {session : Session} {vars : Variables}
    (related : Simulates offset session vars) (alive : vars.alive = true) (index : Nat)
    (between : List Operation) :
    (vars.step (.capture index)).2 =
        (((vars.step (.capture index)).1.run between).step (.capture index)).2 ↔
      ∀ operation ∈ between, ¬operation.detaches index := by
  have related' := (related.step (.capture index)).1
  have alive' : (vars.step (.capture index)).1.alive = true :=
    (step_alive vars (.capture index)).2 ⟨alive, by simp⟩
  have answer := step_capture alive index
  have owned : (vars.step (.capture index)).1.captured index = some (vars.capture index).1 := by
    rw [answer]
    exact capture_captured vars index
  have handles : (vars.step (.capture index)).1.handles =
      vars.handles ++ [(vars.capture index).1] := by
    rw [answer]
  have reply : (vars.step (.capture index)).2 =
      .cell ((vars.step (.capture index)).1.handles.idxOf (vars.capture index).1) := by
    rw [answer]
  have member : (vars.capture index).1 ∈ (vars.step (.capture index)).1.handles := by
    rw [handles]
    exact List.mem_append_right _ (.head _)
  rw [reply]
  generalize (vars.capture index).1 = cell at *
  generalize (vars.step (.capture index)).1 = middle at *
  constructor
  · intro same operation present detaches
    exact recapture_detached related' member present detaches same
  · intro attached
    have stays : (middle.run between).alive = true :=
      (run_alive middle between).2 ⟨alive', fun present => attached .drop present trivial⟩
    have captured := run_keeps_cell middle between owned attached
    have again : ((middle.run between).capture index).1 = cell := by
      simp [capture, captured]
    have grown := (run_handles middle between).trans (List.prefix_append _ [cell])
    rw [step_capture stays, again, grown.idxOf_eq_of_mem member]

end Variables

/-- A session reads what the reference model reads, and captures a slot twice into one cell exactly
when no close at or below the slot and no drop came in between. -/
theorem session_refines_variables (s : Store) (isMain : Bool) (globals : TableRef)
    (limits : Limits) :
    (∀ operations, (Session.start s isMain globals limits).replies operations =
      Variables.start.replies operations) ∧
    ∀ before index between,
      let replies := (Session.start s isMain globals limits).replies
        (before ++ .capture index :: between ++ [.capture index])
      (∃ first, replies[before.length]? = some (.cell first) ∧
          replies[before.length + between.length + 1]? = some (.cell first)) ↔
        .drop ∉ before ∧ ∀ operation ∈ between, ¬operation.detaches index := by
  have related := simulates_start s isMain globals limits
  refine ⟨fun operations => related.replies operations, ?_⟩
  intro before index between replies
  obtain ⟨_, related'⟩ := related.run before
  have alive := Variables.run_alive Variables.start before
  have first : replies[before.length]? =
      some ((Variables.start.run before).step (.capture index)).2 := by
    have answered := Variables.getElem_replies Variables.start before
      (between ++ [.capture index]) (.capture index)
    rw [← answered, ← related.replies, ← List.cons_append, ← List.append_assoc]
  have second : replies[before.length + between.length + 1]? = some
      ((((Variables.start.run before).step (.capture index)).1.run between).step
        (.capture index)).2 := by
    have answered := Variables.getElem_replies Variables.start
      (before ++ .capture index :: between) [] (.capture index)
    have run : Variables.start.run (before ++ .capture index :: between) =
        ((Variables.start.run before).step (.capture index)).1.run between := by
      simp [Variables.run]
    rw [run, List.length_append, List.length_cons, ← related.replies] at answered
    exact answered
  rw [first, second]
  generalize Variables.start.run before = vars at related' alive
  simp only [Option.some.injEq]
  by_cases live : vars.alive = true
  · have recapture := Variables.recapture_iff related' live index between
    have reply := Variables.step_capture live index
    have undropped : .drop ∉ before := (alive.1 live).2
    rw [← recapture, and_iff_right undropped]
    constructor
    · rintro ⟨cell, same, again⟩
      rw [same, again]
    · intro same
      exact ⟨_, by rw [reply], by rw [← same, reply]⟩
  · have dropped : ¬.drop ∉ before := fun undropped => live (alive.2 ⟨rfl, undropped⟩)
    rw [Variables.step_capture_gone live]
    simp [dropped]

end RegisterVm.Capture
