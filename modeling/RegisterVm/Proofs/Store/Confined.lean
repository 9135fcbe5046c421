import RegisterVm.Proofs.Store.Cells

/-!
What a thread may change while it runs. Its own stack changes from some slot up, its own top and its
own frames change; other threads stay as they are, new threads have not started, and no closed cell
opens again.
-/

namespace RegisterVm

namespace Thread

structure Reworked (low : Nat) (th th' : Thread) : Prop where
  fields : th' = { th with stack := th'.stack, top := th'.top, frames := th'.frames }
  slots : ∀ index, index < low → th'.get index = th.get index

structure Steady (low : Nat) (th th' : Thread) : Prop where
  slots : ∀ index, index < low → th'.get index = th.get index
  held : th'.held = th.held
  pinned : th'.pinned = th.pinned
  yielding : th'.yielding = th.yielding
  isMain : th'.isMain = th.isMain
  status : th'.status = th.status
  limits : th'.limits = th.limits

theorem Reworked.refl (low : Nat) (th : Thread) : Reworked low th th := ⟨rfl, fun _ _ => rfl⟩

theorem Reworked.trans {low : Nat} {a b c : Thread} (first : Reworked low a b)
    (second : Reworked low b c) : Reworked low a c := by
  refine ⟨?_, ?_⟩
  · rw [second.fields, first.fields]
  · intro index below
    rw [second.slots index below, first.slots index below]

theorem Reworked.openCells {low : Nat} {th th' : Thread} (reworked : Reworked low th th') :
    th'.openCells = th.openCells := by
  rw [reworked.fields]

theorem Reworked.steady {low : Nat} {th th' : Thread} (reworked : Reworked low th th') :
    Steady low th th' := by
  refine ⟨reworked.slots, ?_, ?_, ?_, ?_, ?_, ?_⟩ <;> rw [reworked.fields]

theorem Steady.refl (low : Nat) (th : Thread) : Steady low th th :=
  ⟨fun _ _ => rfl, rfl, rfl, rfl, rfl, rfl, rfl⟩

theorem Steady.trans {low : Nat} {a b c : Thread} (first : Steady low a b)
    (second : Steady low b c) : Steady low a c where
  slots index below := (second.slots index below).trans (first.slots index below)
  held := second.held.trans first.held
  pinned := second.pinned.trans first.pinned
  yielding := second.yielding.trans first.yielding
  isMain := second.isMain.trans first.isMain
  status := second.status.trans first.status
  limits := second.limits.trans first.limits

theorem Steady.mono {low high : Nat} {th th' : Thread} (steady : Steady high th th')
    (bound : low ≤ high) : Steady low th th' :=
  { steady with slots := fun index below => steady.slots index (by omega) }

theorem Steady.isYieldable {low : Nat} {th th' : Thread} (steady : Steady low th th') :
    th'.isYieldable = th.isYieldable := by
  rw [Thread.isYieldable, Thread.isYieldable, steady.isMain, steady.pinned]

section Operations

variable (th : Thread)

theorem reworked_put {low index : Nat} (value : Value) (above : low ≤ index) :
    Reworked low th (th.put index value) :=
  ⟨rfl, fun other below => by rw [get_put, if_neg (by omega)]⟩

theorem reworked_withTop (low top : Nat) : Reworked low th (th.withTop top) :=
  ⟨rfl, fun _ _ => rfl⟩

theorem reworked_clear {low start : Nat} (stop : Nat) (above : low ≤ start) :
    Reworked low th (th.clear start stop) :=
  ⟨rfl, fun _ below => get_clear_below th (by omega)⟩

theorem reworked_reserve (low needed : Nat) : Reworked low th (th.reserve needed) := by
  refine ⟨?_, fun _ _ => get_reserve th _ _⟩
  simp only [reserve]
  split <;> rfl

theorem reworked_moveSlots {low target : Nat} (source count : Nat) (above : low ≤ target) :
    Reworked low th (th.moveSlots source target count) := by
  refine ⟨?_, fun _ below => get_moveSlots_below th _ _ _ (by omega)⟩
  simp only [moveSlots]
  split <;> rfl

theorem reworked_putAll {low start : Nat} (values : List Value) (above : low ≤ start) :
    Reworked low th (th.putAll start values) := by
  induction values generalizing th start with
  | nil => exact .refl low th
  | cons value rest ih =>
      exact (reworked_put th value above).trans (ih (th.put start value) (by omega))

@[simp] theorem frames_put (index : Nat) (value : Value) :
    (th.put index value).frames = th.frames := rfl

@[simp] theorem top_put (index : Nat) (value : Value) : (th.put index value).top = th.top := rfl

@[simp] theorem frames_withTop (top : Nat) : (th.withTop top).frames = th.frames := rfl

@[simp] theorem top_withTop (top : Nat) : (th.withTop top).top = top := rfl

@[simp] theorem get_withTop (top index : Nat) : (th.withTop top).get index = th.get index := rfl

@[simp] theorem frames_clear (start stop : Nat) : (th.clear start stop).frames = th.frames := rfl

@[simp] theorem frames_reserve (needed : Nat) : (th.reserve needed).frames = th.frames := by
  simp only [reserve]
  split <;> rfl

@[simp] theorem top_reserve (needed : Nat) : (th.reserve needed).top = th.top := by
  simp only [reserve]
  split <;> rfl

@[simp] theorem frames_moveSlots (source target count : Nat) :
    (th.moveSlots source target count).frames = th.frames := by
  simp only [moveSlots]
  split <;> rfl

@[simp] theorem frames_putAll (start : Nat) (values : List Value) :
    (th.putAll start values).frames = th.frames := by
  induction values generalizing th start with
  | nil => rfl
  | cons value rest ih => rw [putAll, ih, frames_put]

@[simp] theorem top_putAll (start : Nat) (values : List Value) :
    (th.putAll start values).top = th.top := by
  induction values generalizing th start with
  | nil => rfl
  | cons value rest ih => rw [putAll, ih, top_put]

end Operations

end Thread

namespace Store

structure Unstarted (th : Thread) : Prop where
  frames : th.frames = []
  openCells : th.openCells = []
  held : th.held = false
  pinned : th.pinned = 0
  yielding : th.yielding = false
  status : th.status = .fresh
  isMain : th.isMain = false

structure CellsFrom (t : ThreadRef) (low : Nat) (s s' : Store) : Prop where
  grown : s.cells.size ≤ s'.cells.size
  old : ∀ ref owner index, ref < s.cells.size → s'.cells[ref]? = some (.slot owner index) →
    s.cells[ref]? = some (.slot owner index)
  fresh : ∀ ref owner index, s.cells.size ≤ ref → s'.cells[ref]? = some (.slot owner index) →
    owner = t ∧ low ≤ index

theorem CellsFrom.of_eq {t : ThreadRef} {low : Nat} {s s' : Store} (same : s'.cells = s.cells) :
    CellsFrom t low s s' := by
  refine ⟨Nat.le_of_eq (by rw [same]), ?_, ?_⟩
  · intro ref owner index _ found
    rwa [same] at found
  · intro ref owner index beyond found
    rw [same, Array.getElem?_eq_none beyond] at found
    contradiction

theorem CellsFrom.trans {t : ThreadRef} {low : Nat} {a b c : Store} (first : CellsFrom t low a b)
    (second : CellsFrom t low b c) : CellsFrom t low a c := by
  refine ⟨Nat.le_trans first.grown second.grown, ?_, ?_⟩
  · intro ref owner index bound found
    exact first.old ref owner index bound
      (second.old ref owner index (Nat.lt_of_lt_of_le bound first.grown) found)
  · intro ref owner index beyond found
    by_cases bound : ref < b.cells.size
    · exact first.fresh ref owner index beyond (second.old ref owner index bound found)
    · exact second.fresh ref owner index (Nat.not_lt.1 bound) found

theorem CellsFrom.mono {t : ThreadRef} {low high : Nat} {s s' : Store}
    (cells : CellsFrom t high s s') (bound : low ≤ high) : CellsFrom t low s s' := by
  refine ⟨cells.grown, cells.old, ?_⟩
  intro ref owner index beyond found
  have := cells.fresh ref owner index beyond found
  exact ⟨this.1, by omega⟩

structure Local (t : ThreadRef) (low : Nat) (s s' : Store) : Prop where
  grown : s.threads.size ≤ s'.threads.size
  others : ∀ r, r ≠ t → r < s.threads.size → s'.thread r = s.thread r
  created : ∀ r, r ≠ t → s.threads.size ≤ r → r < s'.threads.size → Unstarted (s'.thread r)
  cells : CellsFrom t low s s'
  linked : s.Linked → s'.Linked

structure Confined (t : ThreadRef) (low : Nat) (s s' : Store) : Prop extends Local t low s s' where
  own : (s.thread t).Steady low (s'.thread t)

namespace Local

variable {t : ThreadRef} {low : Nat}

theorem refl (s : Store) : Local t low s s where
  grown := Nat.le_refl _
  others _ _ _ := rfl
  created _ _ beyond bound := absurd bound (Nat.not_lt.2 beyond)
  cells := .of_eq rfl
  linked := id

theorem trans {a b c : Store} (first : Local t low a b) (second : Local t low b c) :
    Local t low a c where
  grown := Nat.le_trans first.grown second.grown
  others r different bound :=
    (second.others r different (Nat.lt_of_lt_of_le bound first.grown)).trans
      (first.others r different bound)
  created r different beyond bound := by
    by_cases middle : r < b.threads.size
    · rw [second.others r different middle]
      exact first.created r different beyond middle
    · exact second.created r different (Nat.not_lt.1 middle) bound
  cells := first.cells.trans second.cells
  linked linked := second.linked (first.linked linked)

theorem mono {high : Nat} {s s' : Store} (inside : Local t high s s') (bound : low ≤ high) :
    Local t low s s' :=
  { inside with cells := inside.cells.mono bound }

end Local

namespace Confined

variable {t : ThreadRef} {low : Nat}

theorem refl (s : Store) : Confined t low s s := ⟨.refl s, .refl low _⟩

theorem trans {a b c : Store} (first : Confined t low a b) (second : Confined t low b c) :
    Confined t low a c :=
  ⟨first.toLocal.trans second.toLocal, first.own.trans second.own⟩

theorem mono {high : Nat} {s s' : Store} (confined : Confined t high s s') (bound : low ≤ high) :
    Confined t low s s' :=
  ⟨confined.toLocal.mono bound, confined.own.mono bound⟩

end Confined

theorem Linked.congr {s s' : Store} (linked : s.Linked) (cells : s'.cells = s.cells)
    (lists : ∀ t, (s'.thread t).openCells = (s.thread t).openCells) : s'.Linked where
  listed t := (linked.listed t).congr (lists t) fun _ _ _ => by rw [cells]
  complete ref t index found := by
    rw [lists]
    exact linked.complete ref t index (by rwa [cells] at found)

theorem confined_heap {t : ThreadRef} {low : Nat} {s s' : Store} (cells : s'.cells = s.cells)
    (threads : s'.threads = s.threads) : Confined t low s s' := by
  have same : ∀ r, s'.thread r = s.thread r := by
    intro r
    rw [thread, threads, thread]
  refine {
    grown := Nat.le_of_eq (by rw [threads])
    others := fun r _ _ => same r
    created := fun r _ beyond bound => ?_
    own := by rw [same]; exact .refl low _
    cells := .of_eq cells
    linked := fun linked => linked.congr cells fun r => by rw [same] }
  rw [threads] at bound
  exact absurd bound (Nat.not_lt.2 beyond)

theorem local_modifyThread {t : ThreadRef} {low : Nat} {s : Store} {f : Thread → Thread}
    (lists : (f (s.thread t)).openCells = (s.thread t).openCells) :
    Local t low s (s.modifyThread t f) where
  grown := Nat.le_of_eq (threadCount_modifyThread s t f).symm
  others r different _ := thread_modifyThread_other s f different
  created r different beyond bound := by
    rw [threadCount_modifyThread] at bound
    exact absurd bound (Nat.not_lt.2 beyond)
  cells := .of_eq rfl
  linked linked := linked.congr rfl fun r => by
    rw [thread_modifyThread]
    split
    · rename_i same
      rw [same.1, lists]
    · rfl

theorem confined_modifyThread {t : ThreadRef} {low : Nat} {s : Store} {f : Thread → Thread}
    (steady : (s.thread t).Steady low (f (s.thread t)))
    (lists : (f (s.thread t)).openCells = (s.thread t).openCells) :
    Confined t low s (s.modifyThread t f) where
  toLocal := local_modifyThread lists
  own := by
    rw [thread_modifyThread]
    split
    · exact steady
    · exact .refl low _

theorem confined_reworked {t : ThreadRef} {low : Nat} {s : Store} {f : Thread → Thread}
    (reworked : (s.thread t).Reworked low (f (s.thread t))) :
    Confined t low s (s.modifyThread t f) :=
  confined_modifyThread reworked.steady reworked.openCells

theorem Linked.newThread {s : Store} (linked : s.Linked) {th : Thread}
    (uncaptured : th.openCells = []) : (s.newThread th).2.Linked := by
  refine linked.congr rfl fun r => ?_
  rw [thread_newThread]
  split
  · rename_i same
    rw [uncaptured, thread_invalid s (Nat.le_of_eq same.symm)]
    rfl
  · rfl

theorem local_newThread {t : ThreadRef} {low : Nat} {s : Store} {th : Thread}
    (unstarted : Unstarted th) : Local t low s (s.newThread th).2 where
  grown := by simp [Store.newThread]
  others r _ bound := by rw [thread_newThread, if_neg (Nat.ne_of_lt bound)]
  created r _ beyond bound := by
    have last : r = s.threads.size := by
      simp only [Store.newThread, Array.size_push] at bound
      exact Nat.le_antisymm (Nat.le_of_lt_succ bound) beyond
    rw [thread_newThread, if_pos last]
    exact unstarted
  cells := .of_eq rfl
  linked linked := linked.newThread unstarted.openCells

theorem confined_newThread {t : ThreadRef} {low : Nat} {s : Store} {th : Thread}
    (valid : t < s.threads.size) (unstarted : Unstarted th) :
    Confined t low s (s.newThread th).2 where
  toLocal := local_newThread unstarted
  own := by
    rw [thread_newThread, if_neg (Nat.ne_of_lt valid)]
    exact .refl low _

theorem Linked.newCell {s : Store} (linked : s.Linked) (value : Value) :
    (s.newCell (.closed value)).2.Linked where
  listed t := by
    refine (linked.listed t).congr rfl fun index ref member => ?_
    simp only [Store.newCell, Array.getElem?_push]
    rw [if_neg (Nat.ne_of_lt ((linked.listed t).bound member))]
  complete ref t index found := by
    simp only [Store.newCell, Array.getElem?_push] at found
    split at found
    · simp at found
    · exact linked.complete ref t index found

theorem linked_empty : Store.empty.Linked where
  listed t := by
    refine ⟨?_, ?_⟩ <;> rw [thread_invalid _ (Nat.zero_le t)]
    · intro index ref member
      contradiction
    · exact List.nodup_nil
  complete ref t index found := by simp [Store.empty] at found

theorem Linked.closeCells {s : Store} (linked : s.Linked) (t : ThreadRef) (level : Nat) :
    (s.closeCells t level).Linked where
  listed r := by
    by_cases same : r = t
    · subst same
      exact (linked.listed r).closeCells level
    · refine (linked.listed r).congr ?_ ?_
      · rw [thread_closeCells, if_neg same]
      · intro index ref member
        apply cells_closeCells_other
        intro i other
        have left := (linked.listed r).openCell index ref member
        have right := (linked.listed t).openCell i ref other
        rw [left] at right
        simp only [Option.some.injEq, Cell.slot.injEq] at right
        exact absurd right.1 same
  complete ref r index found := by
    obtain ⟨before, apart⟩ := open_closeCells found
    have member := linked.complete ref r index before
    by_cases same : r = t
    · subst same
      exact mem_openCells_closeCells.2 ⟨member, apart rfl member⟩
    · rw [thread_closeCells, if_neg same]
      exact member

theorem confined_closeCells (s : Store) (t : ThreadRef) {low level : Nat} :
    Confined t low s (s.closeCells t level) where
  grown := Nat.le_of_eq (threadCount_closeCells s t level).symm
  others r different _ := by rw [thread_closeCells, if_neg different]
  created r _ beyond bound := by
    rw [threadCount_closeCells] at bound
    exact absurd bound (Nat.not_lt.2 beyond)
  own := by
    rw [thread_closeCells, if_pos rfl]
    exact ⟨fun _ _ => rfl, rfl, rfl, rfl, rfl, rfl, rfl⟩
  cells := by
    refine ⟨Nat.le_of_eq (size_closeCells s t level).symm, ?_, ?_⟩
    · intro ref owner index _ found
      exact (open_closeCells found).1
    · intro ref owner index beyond found
      have bound := (Array.getElem?_eq_some_iff.1 (open_closeCells found).1).1
      exact absurd bound (Nat.not_lt.2 beyond)
  linked linked := linked.closeCells t level

theorem Linked.captureSlot {s : Store} (linked : s.Linked) {t : ThreadRef}
    (valid : t < s.threads.size) (index : Nat) : (s.captureSlot t index).2.Linked := by
  cases captured : (s.thread t).cellAt? index with
  | some ref =>
      rw [captureSlot_known captured]
      exact linked
  | none =>
      rw [captureSlot_fresh captured]
      refine ⟨?_, ?_⟩
      · intro r
        by_cases same : r = t
        · subst same
          exact (linked.listed r).withFreshCell valid captured
        · refine (linked.listed r).congr ?_ ?_
          · rw [thread_withFreshCell s index valid, if_neg same]
          · intro i ref member
            rw [cells_withFreshCell, if_neg (Nat.ne_of_lt ((linked.listed r).bound member))]
      · intro ref r i found
        rw [cells_withFreshCell] at found
        rw [thread_withFreshCell s index valid]
        split at found
        · rename_i last
          simp only [Option.some.injEq, Cell.slot.injEq] at found
          rw [if_pos found.1.symm, last, found.2]
          exact .head _
        · have member := linked.complete ref r i found
          by_cases same : r = t
          · subst same
            rw [if_pos rfl]
            exact .tail _ member
          · rw [if_neg same]
            exact member

theorem confined_captureSlot {s : Store} {t : ThreadRef} {low index : Nat}
    (valid : t < s.threads.size) (above : low ≤ index) :
    Confined t low s (s.captureSlot t index).2 := by
  cases captured : (s.thread t).cellAt? index with
  | some ref =>
      rw [captureSlot_known captured]
      exact .refl s
  | none =>
      have linked := fun linked : s.Linked => linked.captureSlot valid index
      rw [captureSlot_fresh captured] at linked ⊢
      refine {
        grown := by simp [withFreshCell]
        others := fun r different _ => by rw [thread_withFreshCell s index valid, if_neg different]
        created := fun r _ beyond bound => ?_
        cells := ⟨by simp [withFreshCell], ?_, ?_⟩
        linked := linked
        own := ?_ }
      · simp only [withFreshCell, threadCount_modifyThread] at bound
        exact absurd bound (Nat.not_lt.2 beyond)
      · intro ref owner i bound found
        rwa [cells_withFreshCell, if_neg (Nat.ne_of_lt bound)] at found
      · intro ref owner i beyond found
        rw [cells_withFreshCell] at found
        split at found
        · simp only [Option.some.injEq, Cell.slot.injEq] at found
          exact ⟨found.1.symm, found.2 ▸ above⟩
        · rw [Array.getElem?_eq_none beyond] at found
          contradiction
      · rw [thread_withFreshCell s index valid, if_pos rfl]
        exact ⟨fun _ _ => rfl, rfl, rfl, rfl, rfl, rfl, rfl⟩

theorem open_writeCell {s : Store} {cell : CellRef} {value : Value} {ref : CellRef}
    {t : ThreadRef} {index : Nat} :
    (s.writeCell cell value).cells[ref]? = some (.slot t index) ↔
      s.cells[ref]? = some (.slot t index) := by
  simp only [writeCell]
  split
  · rw [cells_modifyThread]
  · rename_i closed
    rw [Array.getElem?_setIfInBounds]
    by_cases same : cell = ref
    · subst same
      rw [if_pos rfl]
      constructor
      · intro found
        split at found <;> simp at found
      · intro found
        exact absurd found (closed t index)
    · rw [if_neg same]

theorem size_writeCell (s : Store) (cell : CellRef) (value : Value) :
    (s.writeCell cell value).cells.size = s.cells.size := by
  simp only [writeCell]
  split
  · rfl
  · simp

theorem threadCount_writeCell (s : Store) (cell : CellRef) (value : Value) :
    (s.writeCell cell value).threads.size = s.threads.size := by
  simp only [writeCell]
  split
  · exact threadCount_modifyThread s _ _
  · rfl

theorem thread_writeCell (s : Store) (cell : CellRef) (value : Value) (t : ThreadRef) :
    ∃ stack, (s.writeCell cell value).thread t = { s.thread t with stack } := by
  simp only [writeCell]
  split
  · rw [thread_modifyThread]
    split
    · rename_i same
      rw [same.1]
      exact ⟨_, rfl⟩
    · exact ⟨_, rfl⟩
  · exact ⟨_, rfl⟩

theorem le_size_writeCell (s : Store) (cell : CellRef) (value : Value) (t : ThreadRef) :
    (s.thread t).stack.size ≤ ((s.writeCell cell value).thread t).stack.size := by
  simp only [writeCell]
  split
  · rw [thread_modifyThread]
    split
    · rename_i same
      rw [same.1]
      exact Thread.le_size_putSlot _ _ _
    · exact Nat.le_refl _
  · exact Nat.le_refl _

theorem get_writeCell {s : Store} {cell : CellRef} {value : Value} {t : ThreadRef} {index : Nat}
    (changed : ((s.writeCell cell value).thread t).get index ≠ (s.thread t).get index) :
    s.cells[cell]? = some (.slot t index) ∧
      ((s.writeCell cell value).thread t).get index = value := by
  simp only [writeCell] at changed ⊢
  split at changed
  · rename_i owner i found
    rw [thread_modifyThread] at changed ⊢
    split at changed
    · rename_i same
      rw [Thread.get_put, same.1] at changed
      split at changed
      · rename_i slot
        rw [if_pos same, Thread.get_put, if_pos slot, found, same.1, slot]
        exact ⟨rfl, rfl⟩
      · exact absurd rfl changed
    · exact absurd rfl changed
  · exact absurd rfl changed

theorem Linked.writeCell {s : Store} (linked : s.Linked) (cell : CellRef) (value : Value) :
    (s.writeCell cell value).Linked where
  listed t := by
    obtain ⟨stack, thread⟩ := thread_writeCell s cell value t
    refine ⟨?_, ?_⟩ <;> rw [thread]
    · intro index ref member
      exact open_writeCell.2 ((linked.listed t).openCell index ref member)
    · exact (linked.listed t).unique
  complete ref t index found := by
    obtain ⟨stack, thread⟩ := thread_writeCell s cell value t
    rw [thread]
    exact linked.complete ref t index (open_writeCell.1 found)

end Store

end RegisterVm
