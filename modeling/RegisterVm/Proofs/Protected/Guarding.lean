import RegisterVm.Proofs.Machine.Above

/-!
A call in progress. What it found on entry stays below everything that is done until it ends: the
frames, the slots below its own except for assignments through cells, and the count of calls that no
yield may leave.
-/

namespace RegisterVm

/-- What a call that is in progress leaves as it is. -/
structure Guarding where
  thread : ThreadRef
  slot : Nat
  frames : List Frame
  pinned : Nat
  under : List Activity

/-- How many frames of a thread the activities have to find again. -/
def waiting (t : ThreadRef) : List Activity → Nat
  | [] => 0
  | .native r _ :: below => waiting t below + if r = t then 1 else 0
  | _ :: below => waiting t below

def pins (t : ThreadRef) : List Activity → Nat
  | [] => 0
  | .collect r _ :: below | .guard r _ _ :: below => pins t below + if r = t then 1 else 0
  | _ :: below => pins t below

namespace Guarding

/-- Slots of a running thread that the call is not concerned with. -/
def low (g : Guarding) (t : ThreadRef) : Nat := if t = g.thread then g.slot else 0

inductive Clear (g : Guarding) (count : Nat) : List Activity → Prop where
  | nil : Clear g count []
  | script {t : ThreadRef} {floor : Nat} {below : List Activity} (valid : t < count)
      (deep : t = g.thread → g.frames.length + waiting g.thread below ≤ floor)
      (clear : Clear g count below) : Clear g count (.script t floor :: below)
  | native {t : ThreadRef} {next : Pending} {below : List Activity} (valid : t < count)
      (clear : Clear g count below) : Clear g count (.native t next :: below)
  | collect {t : ThreadRef} {place : Nat} {below : List Activity} (valid : t < count)
      (above : g.low t ≤ place) (clear : Clear g count below) :
      Clear g count (.collect t place :: below)
  | guard {t : ThreadRef} {place depth : Nat} {below : List Activity} (valid : t < count)
      (above : g.low t ≤ place)
      (deep : t = g.thread → g.frames.length + waiting g.thread below ≤ depth)
      (clear : Clear g count below) : Clear g count (.guard t place depth :: below)
  | resumption {t : ThreadRef} {below : List Activity} (other : t ≠ g.thread)
      (clear : Clear g count below) : Clear g count (.resumption t :: below)

/-- What holds of the store while activities `above` are on top of the call; `values` are those of
the slots below its own. -/
structure Holds (g : Guarding) (values : Nat → Value) (above : List Activity) (s : Store) :
    Prop where
  linked : s.Linked
  held : (s.thread g.thread).held = true
  clear : g.Clear s.threads.size above
  mark : (s.thread g.thread).Above g.slot g.frames
  enough : g.frames.length + waiting g.thread above ≤ (s.thread g.thread).frames.length
  pinned : (s.thread g.thread).pinned = g.pinned + pins g.thread above
  slots : ∀ index, index < g.slot → (s.thread g.thread).get index = values index

theorem Clear.mono {g : Guarding} {count more : Nat} {above : List Activity}
    (clear : g.Clear count above) (bound : count ≤ more) : g.Clear more above := by
  induction clear with
  | nil => exact .nil
  | script valid deep _ ih => exact .script (Nat.lt_of_lt_of_le valid bound) deep ih
  | native valid _ ih => exact .native (Nat.lt_of_lt_of_le valid bound) ih
  | collect valid above _ ih => exact .collect (Nat.lt_of_lt_of_le valid bound) above ih
  | guard valid above deep _ ih => exact .guard (Nat.lt_of_lt_of_le valid bound) above deep ih
  | resumption other _ ih => exact .resumption other ih

namespace Holds

variable {g : Guarding} {values : Nat → Value} {above : List Activity} {s s' : Store}

theorem valid (holds : g.Holds values above s) : g.thread < s.threads.size :=
  Store.lt_of_held holds.held

theorem other (holds : g.Holds values above s) {t : ThreadRef} {low : Nat}
    (different : t ≠ g.thread) (inside : s.Local t low s') : g.Holds values above s' := by
  have same := inside.others g.thread (Ne.symm different) holds.valid
  exact {
    linked := inside.linked holds.linked
    held := by rw [same]; exact holds.held
    clear := holds.clear.mono inside.grown
    mark := by rw [same]; exact holds.mark
    enough := by rw [same]; exact holds.enough
    pinned := by rw [same]; exact holds.pinned
    slots := by rw [same]; exact holds.slots }

theorem own (holds : g.Holds values above s) (confined : s.Confined g.thread g.slot s')
    (mark : (s'.thread g.thread).Above g.slot g.frames)
    (enough : g.frames.length + waiting g.thread above ≤ (s'.thread g.thread).frames.length) :
    g.Holds values above s' where
  linked := confined.linked holds.linked
  held := confined.own.held.trans holds.held
  clear := holds.clear.mono confined.grown
  mark := mark
  enough := enough
  pinned := confined.own.pinned.trans holds.pinned
  slots index below := (confined.own.slots index below).trans (holds.slots index below)

theorem calm (holds : g.Holds values above s) {t : ThreadRef} {low : Nat} (bound : g.low t ≤ low)
    (calm : Calm t low s s') : g.Holds values above s' := by
  by_cases same : t = g.thread
  · subst same
    rw [Guarding.low, if_pos rfl] at bound
    have top := calm.top
    refine holds.own (calm.confined.mono bound) (holds.mark.of_same calm.frames (by omega)) ?_
    rw [calm.frames]
    exact holds.enough
  · exact holds.other same calm.confined.toLocal

theorem pushed (holds : g.Holds values above s) {t : ThreadRef} {low : Nat} {f : Frame}
    (bound : g.low t ≤ low) (owned : t = g.thread → f.Owned g.slot)
    (pushed : s.Pushed t low f s') : g.Holds values above s' := by
  by_cases same : t = g.thread
  · subst same
    rw [Guarding.low, if_pos rfl] at bound
    have enough := holds.enough
    refine holds.own (pushed.confined.mono bound) ?_ ?_
    · exact .of_pushed holds.mark.stacked (owned rfl) pushed.frames pushed.top
    · rw [pushed.frames, List.length_cons]
      omega
  · exact holds.other same pushed.confined.toLocal

theorem finished (holds : g.Holds values above s) {t : ThreadRef}
    (deep : t = g.thread →
      g.frames.length + waiting g.thread above + 1 ≤ (s.thread g.thread).frames.length)
    (finished : s.Finished t (g.low t) s') : g.Holds values above s' := by
  cases finished with
  | kept calm reason => exact holds.calm (Nat.le_refl _) calm
  | dropped f below head returned popped cells =>
      by_cases same : t = g.thread
      · subst same
        rw [Guarding.low, if_pos rfl] at popped
        have deep := deep rfl
        rw [head, List.length_cons] at deep
        obtain ⟨-, stacked, -⟩ := holds.mark.pop head (by omega)
        refine holds.own popped.confined (.of_popped stacked popped.frames popped.top) ?_
        rw [popped.frames]
        omega
      · exact holds.other same popped.confined.toLocal

theorem assigned (holds : g.Holds values above s) (cell : CellRef) (value : Value) :
    g.Holds (((s.writeCell cell value).thread g.thread).get) above (s.writeCell cell value) := by
  obtain ⟨stack, thread⟩ := Store.thread_writeCell s cell value g.thread
  exact {
    linked := holds.linked.writeCell cell value
    held := by rw [thread]; exact holds.held
    clear := by rw [Store.threadCount_writeCell]; exact holds.clear
    mark := by rw [thread]; exact ⟨holds.mark.stacked, holds.mark.top⟩
    enough := by rw [thread]; exact holds.enough
    pinned := by rw [thread]; exact holds.pinned
    slots := fun _ _ => rfl }

end Holds

end Guarding

end RegisterVm
