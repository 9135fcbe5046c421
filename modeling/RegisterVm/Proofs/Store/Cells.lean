import RegisterVm.Machine.Cell
import RegisterVm.Proofs.Store.Slots
import RegisterVm.Proofs.Store.Threads

/-!
Cells and the lists that find them. A thread lists the cell of each captured slot once; closing a
level detaches exactly the listed cells from that slot up, each with the value of its slot.
-/

namespace RegisterVm

namespace Store

structure Listed (s : Store) (t : ThreadRef) : Prop where
  openCell : ∀ index ref, (index, ref) ∈ (s.thread t).openCells →
    s.cells[ref]? = some (.slot t index)
  unique : ((s.thread t).openCells.map Prod.fst).Nodup

structure Linked (s : Store) : Prop where
  listed : ∀ t, s.Listed t
  complete : ∀ ref t index, s.cells[ref]? = some (.slot t index) →
    (index, ref) ∈ (s.thread t).openCells

theorem Listed.bound {s : Store} {t : ThreadRef} (listed : s.Listed t) {index : Nat} {ref : CellRef}
    (member : (index, ref) ∈ (s.thread t).openCells) : ref < s.cells.size := by
  have := listed.openCell index ref member
  exact (Array.getElem?_eq_some_iff.1 this).1

theorem Listed.congr {s s' : Store} {t : ThreadRef} (listed : s.Listed t)
    (lists : (s'.thread t).openCells = (s.thread t).openCells)
    (cells : ∀ index ref, (index, ref) ∈ (s.thread t).openCells → s'.cells[ref]? = s.cells[ref]?) :
    s'.Listed t := by
  refine ⟨?_, ?_⟩
  · intro index ref member
    rw [lists] at member
    rw [cells index ref member]
    exact listed.openCell index ref member
  · rw [lists]
    exact listed.unique

theorem Listed.slot_unique {s : Store} {t : ThreadRef} (listed : s.Listed t) {i j : Nat}
    {ref : CellRef} (first : (i, ref) ∈ (s.thread t).openCells)
    (second : (j, ref) ∈ (s.thread t).openCells) : i = j := by
  have left := listed.openCell i ref first
  have right := listed.openCell j ref second
  rw [left] at right
  simpa using right

theorem cellAt_eq_none {th : Thread} {index : Nat} :
    th.cellAt? index = none ↔ ∀ ref, (index, ref) ∉ th.openCells := by
  simp only [Thread.cellAt?, Option.map_eq_none_iff, List.find?_eq_none, beq_iff_eq]
  constructor
  · intro missing ref member
    exact missing _ member rfl
  · rintro missing ⟨i, ref⟩ member rfl
    exact missing ref member

theorem mem_of_cellAt {th : Thread} {index : Nat} {ref : CellRef}
    (found : th.cellAt? index = some ref) : (index, ref) ∈ th.openCells := by
  obtain ⟨⟨i, other⟩, first, rfl⟩ := Option.map_eq_some_iff.1 found
  have same : i = index := by simpa using List.find?_some first
  subst same
  exact List.mem_of_find?_eq_some first

theorem eq_of_unique {cells : List (Nat × CellRef)} (unique : (cells.map Prod.fst).Nodup)
    {index : Nat} {left right : CellRef} (first : (index, left) ∈ cells)
    (second : (index, right) ∈ cells) : left = right := by
  induction cells with
  | nil => contradiction
  | cons e rest ih =>
      simp only [List.map_cons, List.nodup_cons, List.mem_map, not_exists, not_and] at unique
      rcases List.mem_cons.1 first with rfl | left <;>
        rcases List.mem_cons.1 second with equal | right
      · simpa using equal.symm
      · exact (unique.1 _ right rfl).elim
      · subst equal
        exact (unique.1 _ left rfl).elim
      · exact ih unique.2 left right

theorem cellAt_eq_some {th : Thread} (unique : (th.openCells.map Prod.fst).Nodup) {index : Nat}
    {ref : CellRef} : th.cellAt? index = some ref ↔ (index, ref) ∈ th.openCells := by
  constructor
  · exact mem_of_cellAt
  · intro member
    cases found : th.cellAt? index with
    | none => exact absurd member (cellAt_eq_none.1 found ref)
    | some other => rw [eq_of_unique unique member (mem_of_cellAt found)]

def closeAll (s : Store) (th : Thread) (closing : List (Nat × CellRef)) : Store :=
  closing.foldl (fun s e => s.closeCell e.2 (th.get e.1)) s

theorem threads_closeAll (s : Store) (th : Thread) (closing : List (Nat × CellRef)) :
    (s.closeAll th closing).threads = s.threads := by
  induction closing generalizing s with
  | nil => rfl
  | cons e rest ih => exact ih (s.closeCell e.2 (th.get e.1))

theorem closures_closeAll (s : Store) (th : Thread) (closing : List (Nat × CellRef)) :
    (s.closeAll th closing).closures = s.closures := by
  induction closing generalizing s with
  | nil => rfl
  | cons e rest ih => exact ih (s.closeCell e.2 (th.get e.1))

theorem cells_closeAll_other (s : Store) (th : Thread) (closing : List (Nat × CellRef))
    (ref : CellRef) (other : ∀ e ∈ closing, e.2 ≠ ref) :
    (s.closeAll th closing).cells[ref]? = s.cells[ref]? := by
  induction closing generalizing s with
  | nil => rfl
  | cons e rest ih =>
      have tail := ih (s.closeCell e.2 (th.get e.1)) fun e' member => other e' (.tail _ member)
      rw [closeAll, List.foldl_cons]
      refine tail.trans ?_
      rw [closeCell, Array.getElem?_setIfInBounds, if_neg (other e (.head _))]

theorem size_closeAll (s : Store) (th : Thread) (closing : List (Nat × CellRef)) :
    (s.closeAll th closing).cells.size = s.cells.size := by
  induction closing generalizing s with
  | nil => rfl
  | cons e rest ih => exact (ih (s.closeCell e.2 (th.get e.1))).trans (by simp [closeCell])

theorem cells_closeAll_listed (s : Store) (th : Thread) (closing : List (Nat × CellRef))
    {index : Nat} {ref : CellRef} (bound : ref < s.cells.size) (member : (index, ref) ∈ closing)
    (unique : ∀ i, (i, ref) ∈ closing → i = index) :
    (s.closeAll th closing).cells[ref]? = some (.closed (th.get index)) := by
  induction closing generalizing s with
  | nil => contradiction
  | cons e rest ih =>
      rw [closeAll, List.foldl_cons]
      by_cases later : (index, ref) ∈ rest
      · exact ih (s.closeCell e.2 (th.get e.1)) (by simpa [closeCell] using bound) later
          fun i inner => unique i (.tail _ inner)
      · have first : e = (index, ref) := by
          rcases List.mem_cons.1 member with equal | inner
          · exact equal.symm
          · exact absurd inner later
        subst first
        have other : ∀ e ∈ rest, e.2 ≠ ref := by
          rintro ⟨i, other⟩ inner rfl
          rw [unique i (.tail _ inner)] at inner
          exact later inner
        refine (cells_closeAll_other _ th rest ref other).trans ?_
        simp [closeCell, bound]

def closing (th : Thread) (level : Nat) : List (Nat × CellRef) :=
  th.openCells.filter fun e => level ≤ e.1

theorem mem_closing {th : Thread} {level index : Nat} {ref : CellRef} :
    (index, ref) ∈ closing th level ↔ (index, ref) ∈ th.openCells ∧ level ≤ index := by
  simp [closing]

theorem closeCells_eq (s : Store) (t : ThreadRef) (level : Nat) :
    s.closeCells t level = if (s.thread t).openCells = [] then s else
      (s.closeAll (s.thread t) (closing (s.thread t) level)).modifyThread t fun th =>
        { th with openCells := th.openCells.filter fun e => e.1 < level } := by
  simp only [closeCells, closeAll, closing, List.isEmpty_iff]

theorem closures_closeCells (s : Store) (t : ThreadRef) (level : Nat) :
    (s.closeCells t level).closures = s.closures := by
  rw [closeCells_eq]
  split
  · rfl
  · exact closures_closeAll s _ _

theorem cells_closeCells_closed {s : Store} {t : ThreadRef} {level index : Nat} {ref : CellRef}
    (listed : s.Listed t) (member : (index, ref) ∈ (s.thread t).openCells)
    (above : level ≤ index) :
    (s.closeCells t level).cells[ref]? = some (.closed ((s.thread t).get index)) := by
  rw [closeCells_eq, if_neg (by rintro empty; simp [empty] at member), cells_modifyThread]
  apply cells_closeAll_listed _ _ _ (listed.bound member) (mem_closing.2 ⟨member, above⟩)
  intro i other
  exact listed.slot_unique (mem_closing.1 other).1 member

theorem cells_closeCells_other {s : Store} {t : ThreadRef} {level : Nat} {ref : CellRef}
    (other : ∀ index, (index, ref) ∈ (s.thread t).openCells → index < level) :
    (s.closeCells t level).cells[ref]? = s.cells[ref]? := by
  rw [closeCells_eq]
  split
  · rfl
  · rw [cells_modifyThread]
    apply cells_closeAll_other
    rintro ⟨index, found⟩ member rfl
    have := other index (mem_closing.1 member).1
    have := (mem_closing.1 member).2
    omega

theorem open_closeAll {s : Store} {th : Thread} {closing : List (Nat × CellRef)} {ref : CellRef}
    {owner : ThreadRef} {index : Nat}
    (found : (s.closeAll th closing).cells[ref]? = some (.slot owner index)) :
    s.cells[ref]? = some (.slot owner index) ∧ ∀ e ∈ closing, e.2 ≠ ref := by
  induction closing generalizing s with
  | nil => exact ⟨found, by simp⟩
  | cons e rest ih =>
      rw [closeAll, List.foldl_cons] at found
      obtain ⟨before, others⟩ := ih found
      rw [closeCell, Array.getElem?_setIfInBounds] at before
      split at before
      · split at before <;> simp at before
      · rename_i different
        refine ⟨before, ?_⟩
        intro e' member
        rcases List.mem_cons.1 member with rfl | inner
        · exact different
        · exact others e' inner

/-- A cell that is open after a close was open before, and its slot lies below the level if the
thread is the one concerned. -/
theorem open_closeCells {s : Store} {t : ThreadRef} {level : Nat} {ref : CellRef}
    {owner : ThreadRef} {index : Nat}
    (found : (s.closeCells t level).cells[ref]? = some (.slot owner index)) :
    s.cells[ref]? = some (.slot owner index) ∧
      (owner = t → (index, ref) ∈ (s.thread t).openCells → index < level) := by
  rw [closeCells_eq] at found
  split at found
  · rename_i empty
    refine ⟨found, ?_⟩
    intro _ member
    simp [empty] at member
  · rw [cells_modifyThread] at found
    obtain ⟨before, others⟩ := open_closeAll found
    refine ⟨before, ?_⟩
    intro _ member
    by_contra above
    exact others _ (mem_closing.2 ⟨member, by omega⟩) rfl

theorem size_closeCells (s : Store) (t : ThreadRef) (level : Nat) :
    (s.closeCells t level).cells.size = s.cells.size := by
  rw [closeCells_eq]
  split
  · rfl
  · rw [cells_modifyThread, size_closeAll]

theorem threadCount_closeCells (s : Store) (t : ThreadRef) (level : Nat) :
    (s.closeCells t level).threads.size = s.threads.size := by
  rw [closeCells_eq]
  split
  · rfl
  · rw [threadCount_modifyThread, threads_closeAll]

theorem thread_closeCells (s : Store) (t other : ThreadRef) (level : Nat) :
    (s.closeCells t level).thread other =
      if other = t then
        { s.thread t with openCells := (s.thread t).openCells.filter fun e => e.1 < level }
      else s.thread other := by
  rw [closeCells_eq]
  split
  · rename_i empty
    split
    · rename_i same
      subst same
      cases th : s.thread other
      simp_all
    · rfl
  · rename_i nonempty
    have threads := threads_closeAll s (s.thread t) (closing (s.thread t) level)
    have valid : t < s.threads.size := lt_of_field Thread.openCells nonempty
    have kept : ∀ r,
        (s.closeAll (s.thread t) (closing (s.thread t) level)).thread r = s.thread r := by
      intro r
      rw [thread, threads, thread]
    rw [thread_modifyThread, threads, kept, kept]
    simp [valid]

theorem alike_closeCells (s : Store) (t other : ThreadRef) (level : Nat) :
    ∃ openCells, (s.closeCells t level).thread other = { s.thread other with openCells } := by
  rw [thread_closeCells]
  split
  · rename_i same
    subst same
    exact ⟨_, rfl⟩
  · exact ⟨_, rfl⟩

theorem frames_closeCells (s : Store) (t other : ThreadRef) (level : Nat) :
    ((s.closeCells t level).thread other).frames = (s.thread other).frames := by
  obtain ⟨openCells, thread⟩ := alike_closeCells s t other level
  rw [thread]

theorem mem_openCells_closeCells {s : Store} {t : ThreadRef} {level index : Nat} {ref : CellRef} :
    (index, ref) ∈ ((s.closeCells t level).thread t).openCells ↔
      (index, ref) ∈ (s.thread t).openCells ∧ index < level := by
  rw [thread_closeCells, if_pos rfl]
  simp

theorem Listed.closeCells {s : Store} {t : ThreadRef} (listed : s.Listed t) (level : Nat) :
    (s.closeCells t level).Listed t := by
  refine ⟨?_, ?_⟩
  · intro index ref member
    obtain ⟨before, below⟩ := mem_openCells_closeCells.1 member
    rw [cells_closeCells_other]
    · exact listed.openCell index ref before
    · intro i other
      rw [listed.slot_unique other before]
      exact below
  · rw [thread_closeCells, if_pos rfl]
    exact listed.unique.sublist (List.filter_sublist.map _)

theorem captureSlot_known {s : Store} {t : ThreadRef} {index : Nat} {ref : CellRef}
    (found : (s.thread t).cellAt? index = some ref) : s.captureSlot t index = (ref, s) := by
  simp [captureSlot, found]

def withFreshCell (s : Store) (t : ThreadRef) (index : Nat) : Store :=
  { s with cells := s.cells.push (.slot t index) }.modifyThread t fun th =>
    { th with openCells := (index, s.cells.size) :: th.openCells }

theorem captureSlot_fresh {s : Store} {t : ThreadRef} {index : Nat}
    (missing : (s.thread t).cellAt? index = none) :
    s.captureSlot t index = (s.cells.size, s.withFreshCell t index) := by
  simp [captureSlot, missing, newCell, withFreshCell]

theorem cells_withFreshCell (s : Store) (t : ThreadRef) (index : Nat) (ref : CellRef) :
    (s.withFreshCell t index).cells[ref]? =
      if ref = s.cells.size then some (.slot t index) else s.cells[ref]? := by
  rw [withFreshCell, cells_modifyThread, Array.getElem?_push]

theorem thread_withFreshCell (s : Store) {t : ThreadRef} (index : Nat)
    (valid : t < s.threads.size) (other : ThreadRef) :
    (s.withFreshCell t index).thread other =
      if other = t then
        { s.thread t with openCells := (index, s.cells.size) :: (s.thread t).openCells }
      else s.thread other := by
  rw [withFreshCell, thread_modifyThread]
  simp only [valid, and_true]
  rfl

theorem Listed.withFreshCell {s : Store} {t : ThreadRef} {index : Nat} (listed : s.Listed t)
    (valid : t < s.threads.size) (missing : (s.thread t).cellAt? index = none) :
    (s.withFreshCell t index).Listed t := by
  refine ⟨?_, ?_⟩
  · intro i ref member
    rw [thread_withFreshCell s index valid, if_pos rfl] at member
    rw [cells_withFreshCell]
    rcases List.mem_cons.1 member with equal | inner
    · simp only [Prod.mk.injEq] at equal
      rw [if_pos equal.2, equal.1]
    · have below := listed.bound inner
      rw [if_neg (Nat.ne_of_lt below)]
      exact listed.openCell i ref inner
  · rw [thread_withFreshCell s index valid, if_pos rfl, List.map_cons, List.nodup_cons]
    refine ⟨?_, listed.unique⟩
    intro present
    obtain ⟨⟨i, ref⟩, member, rfl⟩ := List.mem_map.1 present
    exact cellAt_eq_none.1 missing ref member

theorem thread_captureSlot (s : Store) (t : ThreadRef) (index : Nat) (other : ThreadRef) :
    ∃ openCells, ((s.captureSlot t index).2.thread other) = { s.thread other with openCells } := by
  cases captured : (s.thread t).cellAt? index with
  | some ref =>
      rw [captureSlot_known captured]
      exact ⟨_, rfl⟩
  | none =>
      rw [captureSlot_fresh captured, withFreshCell, thread_modifyThread]
      split
      · rename_i same
        rw [same.1]
        exact ⟨_, rfl⟩
      · exact ⟨_, rfl⟩

theorem readCell_slot {s : Store} {ref : CellRef} {t : ThreadRef} {index : Nat}
    (found : s.cells[ref]? = some (.slot t index)) : s.readCell ref = (s.thread t).get index := by
  simp [readCell, found]

theorem readCell_closed {s : Store} {ref : CellRef} {value : Value}
    (found : s.cells[ref]? = some (.closed value)) : s.readCell ref = value := by
  simp [readCell, found]

theorem writeCell_slot {s : Store} {ref : CellRef} {t : ThreadRef} {index : Nat} (value : Value)
    (found : s.cells[ref]? = some (.slot t index)) :
    s.writeCell ref value = s.modifyThread t fun th => th.put index value := by
  simp [writeCell, found]

theorem writeCell_closed {s : Store} {ref : CellRef} {old : Value} (value : Value)
    (found : s.cells[ref]? = some (.closed old)) :
    s.writeCell ref value = s.closeCell ref value := by
  simp [writeCell, closeCell, found]

end Store

end RegisterVm
