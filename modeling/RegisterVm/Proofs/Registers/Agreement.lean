import RegisterVm.Machine.Execute
import RegisterVm.Proofs.Machine.Results
import RegisterVm.Proofs.Store.Cells

/-!
Stores that agree but for what some slots of one thread hold. What is done to both in the same way
leaves stores that agree, if it reads none of these slots; a slot that it writes is then the same in
both.
-/

namespace RegisterVm

namespace Thread

/-- Threads that differ in the slots of `d` alone, and in the size of the stack. -/
structure Agree (d : Nat → Prop) (th th' : Thread) : Prop where
  fields : ∃ stack, th' = { th with stack }
  slots : ∀ index, ¬d index → th'.get index = th.get index

abbrev Outside (d : Nat → Prop) (start count : Nat) (index : Nat) : Prop :=
  d index ∧ ¬(start ≤ index ∧ index < start + count)

namespace Agree

variable {d d' : Nat → Prop} {th th' : Thread}

theorem refl (th : Thread) : th.Agree d th := ⟨⟨th.stack, rfl⟩, fun _ _ => rfl⟩

theorem mono (agree : th.Agree d th') (wider : ∀ index, d index → d' index) : th.Agree d' th' :=
  ⟨agree.fields, fun index apart => agree.slots index fun member => apart (wider index member)⟩

theorem field {α : Type} (agree : th.Agree d th') {f : Thread → α}
    (blind : ∀ stack, f { th with stack } = f th) : f th' = f th := by
  obtain ⟨stack, rfl⟩ := agree.fields
  exact blind stack

theorem update (agree : th.Agree d th') {f : Thread → Thread}
    (kept : ∀ th : Thread, (f th).stack = th.stack)
    (blind : ∀ (th : Thread) stack, f { th with stack } = { f th with stack }) :
    (f th).Agree d (f th') := by
  obtain ⟨⟨stack, rfl⟩, slots⟩ := agree
  refine ⟨⟨stack, blind th stack⟩, fun index apart => ?_⟩
  rw [get, get, kept, kept]
  exact slots index apart

theorem withTop (agree : th.Agree d th') (top : Nat) : (th.withTop top).Agree d (th'.withTop top) :=
  agree.update (f := fun th => th.withTop top) (fun _ => rfl) fun _ _ => rfl

theorem pushFrame (agree : th.Agree d th') (frame : Frame) :
    (th.pushFrame frame).Agree d (th'.pushFrame frame) :=
  agree.update (f := fun th => th.pushFrame frame) (fun _ => rfl) fun _ _ => rfl

theorem markTail (agree : th.Agree d th') : th.markTail.Agree d th'.markTail := by
  refine agree.update (fun th => ?_) fun th stack => ?_
  · rw [Thread.markTail]
    split <;> rfl
  · obtain ⟨_, _, frames⟩ := th
    cases frames <;> rfl

theorem put (agree : th.Agree d th') (index : Nat) (value : Value) :
    (th.put index value).Agree (Outside d index 1) (th'.put index value) := by
  obtain ⟨⟨stack, rfl⟩, slots⟩ := agree
  refine ⟨⟨_, rfl⟩, fun other apart => ?_⟩
  rw [get_put, get_put]
  split
  · rfl
  · exact slots other fun member => apart ⟨member, by omega⟩

theorem putAll (agree : th.Agree d th') (start : Nat) (values : List Value) :
    (th.putAll start values).Agree (Outside d start values.length) (th'.putAll start values) := by
  induction values generalizing d th th' start with
  | nil => exact agree.mono fun index member => ⟨member, by simp⟩
  | cons value rest ih =>
      refine (ih (agree.put start value) (start + 1)).mono ?_
      rintro index ⟨⟨member, first⟩, others⟩
      refine ⟨member, ?_⟩
      rw [List.length_cons]
      omega

theorem clear (agree : th.Agree d th') (start stop : Nat) {stop' : Nat} (same : stop' = stop) :
    (th.clear start stop).Agree d (th'.clear start stop') := by
  subst same
  obtain ⟨⟨stack, rfl⟩, slots⟩ := agree
  refine ⟨⟨_, rfl⟩, fun index apart => ?_⟩
  rw [get_clear, get_clear]
  split
  · rfl
  · exact slots index apart

theorem reserve (agree : th.Agree d th') (needed : Nat) :
    (th.reserve needed).Agree d (th'.reserve needed) := by
  obtain ⟨⟨stack, rfl⟩, slots⟩ := agree
  have left := (Looks.reserve th needed).fields
  have right := (Looks.reserve { th with stack } needed).fields
  obtain ⟨first, left⟩ := left
  obtain ⟨second, right⟩ := right
  refine ⟨⟨second, by rw [right, left]⟩, fun index apart => ?_⟩
  rw [get_reserve, get_reserve]
  exact slots index apart

end Agree

theorem copySlots_common {d : Nat → Prop} {stack stack' : Array Value} {source target count : Nat}
    (common : ∀ index, ¬d index → stack'.getD index .nil = stack.getD index .nil)
    (unread : ∀ index, source ≤ index → index < source + count → ¬d index)
    (room : target + count ≤ stack.size) (room' : target + count ≤ stack'.size) :
    ∀ index, ¬Outside d target count index →
      (copySlots stack' source target count).getD index .nil =
        (copySlots stack source target count).getD index .nil := by
  induction count generalizing d stack stack' source target with
  | zero =>
      intro index apart
      exact common index fun member => apart ⟨member, by omega⟩
  | succ count ih =>
      intro index apart
      rw [copySlots, copySlots]
      have first := common source (unread source (Nat.le_refl _) (by omega))
      refine ih (d := Outside d target 1) ?_ ?_ (by simpa using (by omega))
        (by simpa using (by omega)) index ?_
      · intro other outside
        simp only [Array.getD_eq_getD_getElem?, Array.getElem?_setIfInBounds] at first ⊢
        by_cases here : target = other
        · subst here
          rw [if_pos rfl, if_pos rfl, if_pos (by omega), if_pos (by omega), first]
        · rw [if_neg here, if_neg here, ← Array.getD_eq_getD_getElem?,
            ← Array.getD_eq_getD_getElem?]
          exact common other fun member => outside ⟨member, by omega⟩
      · rintro other lower upper ⟨member, -⟩
        exact unread other (by omega) (by omega) member
      · rintro ⟨⟨member, first⟩, rest⟩
        exact apart ⟨member, by omega⟩

def place (th : Thread) (p : Prototype) (slot arguments : Nat) : Thread :=
  if 0 < (argumentPlan p slot arguments).extras then
    (th.moveSlots (slot + 1) (argumentPlan p slot arguments).base p.parameters).clear (slot + 1)
      (slot + 1 + p.parameters)
  else if p.parameters < arguments then
    th.clear (slot + 1 + p.parameters) (slot + 1 + arguments)
  else th

namespace Agree

variable {d : Nat → Prop} {th th' : Thread}

theorem moveSlots (agree : th.Agree d th') (target : Nat) {source count : Nat}
    (unread : ∀ index, source ≤ index → index < source + count → ¬d index) :
    (th.moveSlots source target count).Agree (Outside d target count)
      (th'.moveSlots source target count) := by
  obtain ⟨⟨stack, rfl⟩, slots⟩ := agree
  simp only [Thread.moveSlots, Bool.or_eq_true, beq_iff_eq]
  split
  · rename_i still
    refine ⟨⟨_, rfl⟩, fun index apart => ?_⟩
    by_cases member : d index
    · have inside : target ≤ index ∧ index < target + count := by
        by_contra outside
        exact apart ⟨member, outside⟩
      exact absurd member (unread index (by omega) (by omega))
    · exact slots index member
  · refine ⟨⟨_, rfl⟩, ?_⟩
    have room := (le_size_growTo th.stack (max source target + count)).2
    have room' := (le_size_growTo stack (max source target + count)).2
    refine copySlots_common ?_ unread (by omega) (by omega)
    intro index apart
    rw [getD_growTo, getD_growTo]
    exact slots index apart

theorem top (agree : th.Agree d th') : th'.top = th.top :=
  agree.field (f := Thread.top) fun _ => rfl

theorem frames (agree : th.Agree d th') : th'.frames = th.frames :=
  agree.field (f := Thread.frames) fun _ => rfl

theorem arrange (agree : th.Agree d th') (p : Prototype) {slot arguments : Nat}
    (unread : ∀ index, slot ≤ index → index ≤ slot + arguments → ¬d index) :
    (th.arrange p slot arguments).Agree d (th'.arrange p slot arguments) := by
  have placed : (th.place p slot arguments).Agree d (th'.place p slot arguments) := by
    simp only [place]
    split
    · rename_i extras
      have fewer : p.parameters ≤ arguments := by
        simp only [argumentPlan] at extras
        split at extras
        · simp only [] at extras
          omega
        · exact absurd extras (Nat.lt_irrefl 0)
      refine ((agree.moveSlots _ fun index lower upper => ?_).clear _ _ rfl).mono fun _ => And.left
      exact unread index (by omega) (by omega)
    · split
      · exact agree.clear _ _ rfl
      · exact agree
  exact placed.clear _ _ (congrArg (max _) placed.top)

theorem enterScript (agree : th.Agree d th') (p : Prototype) (callee : Value)
    {slot arguments : Nat} (target : Nat) (wanted : Option Nat)
    (unread : ∀ index, slot ≤ index → index ≤ slot + arguments → ¬d index) :
    (th.enterScript p callee slot arguments target wanted).Agree d
      (th'.enterScript p callee slot arguments target wanted) := by
  simp only [Thread.enterScript]
  rw [agree.field (f := isYieldable) fun _ => rfl]
  exact ((agree.arrange p unread).pushFrame _).withTop _

theorem enterNative (agree : th.Agree d th') (callee : Value) (slot arguments target : Nat)
    (wanted : Option Nat) :
    (th.enterNative callee slot arguments target wanted).Agree d
      (th'.enterNative callee slot arguments target wanted) := by
  simp only [Thread.enterNative]
  rw [agree.field (f := isYieldable) fun _ => rfl]
  exact (agree.pushFrame _).withTop _

theorem withFrames (agree : th.Agree d th') (frames : List Frame) :
    ({ th with frames } : Thread).Agree d { th' with frames } :=
  agree.update (f := fun th => { th with frames }) (fun _ => rfl) fun _ _ => rfl

theorem finish (agree : th.Agree d th') {source count : Nat}
    (unread : ∀ index, source ≤ index → index < source + count → ¬d index) :
    (th.finish source count).Agree d (th'.finish source count) := by
  simp only [Thread.finish]
  rw [agree.frames]
  cases th.frames with
  | nil => exact agree
  | cons f rest =>
      dsimp only
      have inside : ∀ index, source ≤ index → index < source + min count (f.wanted.getD count) →
          ¬d index := fun index lower upper => unread index lower (by omega)
      have moved := ((agree.withFrames rest).moveSlots f.target inside).mono fun _ => And.left
      have vacated := moved.clear (f.target + min count (f.wanted.getD count))
        (f.target + f.wanted.getD count) rfl
      have cleared := vacated.clear (max (f.target + f.wanted.getD count) f.slot) _
        (congrArg (max · f.top) vacated.top)
      split
      · split <;> exact cleared.withTop _
      · exact cleared.withTop _

end Agree

end Thread

namespace Store

/-- Stores that differ in the slots of `d` of thread `t` alone, and in the size of its stack. -/
structure Agree (t : ThreadRef) (d : Nat → Prop) (s s' : Store) : Prop where
  rest : ∃ threads, s' = { s with threads }
  count : s'.threads.size = s.threads.size
  others : ∀ r, r ≠ t → s'.thread r = s.thread r
  thread : (s.thread t).Agree d (s'.thread t)

def Uncaptured (t : ThreadRef) (d : Nat → Prop) (s : Store) : Prop :=
  ∀ (ref : CellRef) (index : Nat), s.cells[ref]? = some (.slot t index) → ¬d index

theorem Uncaptured.get_writeCell {t : ThreadRef} {d : Nat → Prop} {s : Store}
    (uncaptured : s.Uncaptured t d) {index : Nat} (member : d index) (ref : CellRef)
    (value : Value) : ((s.writeCell ref value).thread t).get index = (s.thread t).get index := by
  simp only [Store.writeCell]
  split
  · rename_i r place found
    by_cases own : t = r
    · subst own
      refine field_modifyThread (fun th => th.get index) s t t _ fun th => ?_
      have apart : index ≠ place := by
        rintro rfl
        exact uncaptured ref index found member
      rw [Thread.get_put, if_neg apart]
    · rw [thread_modifyThread_other _ _ own]
  · rfl

namespace Agree

variable {t : ThreadRef} {d d' : Nat → Prop} {s s' : Store}

theorem mono (agree : s.Agree t d s') (wider : ∀ index, d index → d' index) : s.Agree t d' s' :=
  { agree with thread := agree.thread.mono wider }

theorem field {α : Type} (agree : s.Agree t d s') {f : Store → α}
    (blind : ∀ threads, f { s with threads } = f s) : f s' = f s := by
  obtain ⟨threads, rfl⟩ := agree.rest
  exact blind threads

theorem heap (agree : s.Agree t d s') {f : Store → Store}
    (kept : ∀ s : Store, (f s).threads = s.threads)
    (blind : ∀ (s : Store) threads, f { s with threads } = { f s with threads }) :
    (f s).Agree t d (f s') := by
  have same (s : Store) (r : ThreadRef) : (f s).thread r = s.thread r := by
    rw [Store.thread, kept, Store.thread]
  refine ⟨?_, by rw [kept, kept, agree.count], fun r other => ?_, ?_⟩
  · obtain ⟨threads, rfl⟩ := agree.rest
    exact ⟨threads, blind s threads⟩
  · rw [same, same, agree.others r other]
  · rw [same, same]
    exact agree.thread

theorem modifyThread (agree : s.Agree t d s') {f g : Thread → Thread}
    (step : (f (s.thread t)).Agree d' (g (s'.thread t))) :
    (s.modifyThread t f).Agree t d' (s'.modifyThread t g) := by
  refine ⟨?_, ?_, fun r other => ?_, ?_⟩
  · obtain ⟨threads, rfl⟩ := agree.rest
    exact ⟨_, rfl⟩
  · rw [threadCount_modifyThread, threadCount_modifyThread, agree.count]
  · rw [thread_modifyThread_other _ _ other, thread_modifyThread_other _ _ other,
      agree.others r other]
  · rw [thread_modifyThread, thread_modifyThread, agree.count]
    split
    · exact step
    · rename_i invalid
      have beyond : s.threads.size ≤ t := Nat.not_lt.1 fun valid => invalid ⟨rfl, valid⟩
      rw [thread_invalid s beyond, thread_invalid s' (agree.count ▸ beyond)]
      exact .refl _

theorem modifyOther (agree : s.Agree t d s') {r : ThreadRef} (other : r ≠ t)
    (f : Thread → Thread) : (s.modifyThread r f).Agree t d (s'.modifyThread r f) := by
  refine ⟨?_, ?_, fun r' apart => ?_, ?_⟩
  · obtain ⟨threads, rfl⟩ := agree.rest
    exact ⟨_, rfl⟩
  · rw [threadCount_modifyThread, threadCount_modifyThread, agree.count]
  · rw [thread_modifyThread, thread_modifyThread, agree.count, agree.others r other,
      agree.others r' apart]
  · rw [thread_modifyThread_other _ _ other.symm, thread_modifyThread_other _ _ other.symm]
    exact agree.thread

theorem cells (agree : s.Agree t d s') : s'.cells = s.cells :=
  agree.field (f := Store.cells) fun _ => rfl

theorem readCell (agree : s.Agree t d s') (uncaptured : s.Uncaptured t d) (ref : CellRef) :
    s'.readCell ref = s.readCell ref := by
  simp only [Store.readCell, agree.cells]
  cases found : s.cells[ref]? with
  | none => rfl
  | some cell =>
      cases cell with
      | closed value => rfl
      | slot r index =>
          dsimp only
          by_cases own : r = t
          · subst own
            exact agree.thread.slots index (uncaptured ref index found)
          · rw [agree.others r own]

theorem closeCell (agree : s.Agree t d s') (ref : CellRef) (value : Value) :
    (s.closeCell ref value).Agree t d (s'.closeCell ref value) :=
  agree.heap (f := fun s => s.closeCell ref value) (fun _ => rfl) fun _ _ => rfl

theorem writeCell (agree : s.Agree t d s') (ref : CellRef) (value : Value) :
    (s.writeCell ref value).Agree t d (s'.writeCell ref value) := by
  have closed := agree.closeCell ref value
  simp only [Store.closeCell] at closed
  simp only [Store.writeCell]
  rw [agree.cells] at closed ⊢
  cases s.cells[ref]? with
  | none => exact closed
  | some cell =>
      cases cell with
      | closed _ => exact closed
      | slot r index =>
          dsimp only
          by_cases own : r = t
          · subst own
            exact agree.modifyThread ((agree.thread.put index value).mono fun _ => And.left)
          · exact agree.modifyOther own _

theorem closeAll (agree : s.Agree t d s') {th th' : Thread} (threads : th.Agree d th')
    (closing : List (Nat × CellRef)) (outside : ∀ e ∈ closing, ¬d e.1) :
    (s.closeAll th closing).Agree t d (s'.closeAll th' closing) := by
  induction closing generalizing s s' with
  | nil => exact agree
  | cons e rest ih =>
      have first : (s.closeCell e.2 (th.get e.1)).Agree t d (s'.closeCell e.2 (th'.get e.1)) := by
        rw [threads.slots e.1 (outside e (.head _))]
        exact agree.closeCell _ _
      exact ih first fun e' member => outside e' (.tail _ member)

theorem closeCells (agree : s.Agree t d s') (listed : s.Listed t) (uncaptured : s.Uncaptured t d)
    (level : Nat) : (s.closeCells t level).Agree t d (s'.closeCells t level) := by
  have lists : (s'.thread t).openCells = (s.thread t).openCells :=
    agree.thread.field (f := Thread.openCells) fun _ => rfl
  have same : closing (s'.thread t) level = closing (s.thread t) level := by
    rw [closing, closing, lists]
  have kept (s : Store) (th : Thread) (closing : List (Nat × CellRef)) :
      (s.closeAll th closing).thread t = s.thread t := by
    rw [Store.thread, threads_closeAll, Store.thread]
  rw [closeCells_eq, closeCells_eq, same, lists]
  split
  · exact agree
  · refine modifyThread (agree.closeAll agree.thread _ fun e member => ?_) ?_
    · exact uncaptured e.2 e.1 (listed.openCell e.1 e.2 (mem_closing.1 member).1)
    · rw [kept, kept]
      exact agree.thread.update (f := fun th =>
        { th with openCells := th.openCells.filter fun e => e.1 < level }) (fun _ => rfl)
          fun _ _ => rfl

theorem captureSlot (agree : s.Agree t d s') (index : Nat) :
    (s'.captureSlot t index).1 = (s.captureSlot t index).1 ∧
      (s.captureSlot t index).2.Agree t d (s'.captureSlot t index).2 := by
  have known : (s'.thread t).cellAt? index = (s.thread t).cellAt? index :=
    agree.thread.field (f := fun th => th.cellAt? index) fun _ => rfl
  cases captured : (s.thread t).cellAt? index with
  | some ref =>
      rw [captureSlot_known captured, captureSlot_known (known.trans captured)]
      exact ⟨rfl, agree⟩
  | none =>
      rw [captureSlot_fresh captured, captureSlot_fresh (known.trans captured)]
      have pushed : ({ s with cells := s.cells.push (.slot t index) } : Store).Agree t d
          { s' with cells := s'.cells.push (.slot t index) } :=
        agree.heap (f := fun s => { s with cells := s.cells.push (.slot t index) }) (fun _ => rfl)
          fun _ _ => rfl
      refine ⟨congrArg Array.size agree.cells, ?_⟩
      rw [withFreshCell, withFreshCell, agree.cells]
      rw [agree.cells] at pushed
      exact modifyThread pushed (pushed.thread.update (f := fun th =>
        { th with openCells := (index, s.cells.size) :: th.openCells }) (fun _ => rfl)
          fun _ _ => rfl)

end Agree

end Store

end RegisterVm
