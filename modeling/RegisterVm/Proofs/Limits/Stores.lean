import RegisterVm.Proofs.Limits.Threads
import RegisterVm.Prototype.Builder

/-!
A store within the limits. All of its threads keep to them, and so does every captured slot; the
functions in it name only registers of their own, and the frames that wait have them all.
-/

namespace RegisterVm

namespace Instruction

/-- One past the highest register that is assigned, or read through A and the counts. -/
def pastNamed (i : Instruction) (op : Opcode) : Nat :=
  match op with
  | .jump | .extraArg | .setTabCell | .eq | .lt | .le => 0
  | .loadNil => i.a + i.b + 1
  | .selfCall | .iterLoop => i.a + 2
  | .call => i.a + max (max i.b (i.c - 1)) 1
  | .tailCall => i.a + max i.b 1
  | .ret | .vararg => i.a + (i.b - 1)
  | .setList => i.a + i.b + 1
  | .forLoop => i.a + 4
  | .forPrep => i.a + 3
  | .iterCall => i.a + 3 + i.c
  | _ => i.a + 1

def named (i : Instruction) : Nat :=
  match i.opcode? with
  | some op => max (i.pastNamed op) (i.pastSource op)
  | none => 0

end Instruction

/-- The instructions of a function and the captures of the functions nested in it name registers of
its window only. -/
inductive Prototype.Enclosed : Prototype → Prop where
  | mk {p : Prototype} (code : ∀ i ∈ p.code, i.named ≤ p.window)
      (captures : ∀ child ∈ p.children, ∀ c ∈ child.captures, c.fromRegister = true →
        c.index.toNat < p.window)
      (children : ∀ child ∈ p.children, child.Enclosed) : p.Enclosed

theorem Prototype.Enclosed.code {p : Prototype} (enclosed : p.Enclosed) :
    ∀ i ∈ p.code, i.named ≤ p.window := by
  cases enclosed with
  | mk code => exact code

theorem Prototype.Enclosed.captures {p : Prototype} (enclosed : p.Enclosed) :
    ∀ child ∈ p.children, ∀ c ∈ child.captures, c.fromRegister = true →
      c.index.toNat < p.window := by
  cases enclosed with
  | mk _ captures => exact captures

theorem Prototype.Enclosed.children {p : Prototype} (enclosed : p.Enclosed) :
    ∀ child ∈ p.children, child.Enclosed := by
  cases enclosed with
  | mk _ _ children => exact children

theorem Prototype.enclosed_empty : Prototype.empty.Enclosed := by
  refine ⟨?_, ?_, ?_⟩ <;> simp [empty]

def Frame.Holds (s : Store) (f : Frame) (ref : ClosureRef) : Prop :=
  f.base + (s.closure ref).prototype.frameSize ≤ f.top

/-- The function of a script frame exists, and the frame has its registers. -/
def Frame.Seated (s : Store) (f : Frame) : Prop :=
  ∀ ref, f.callee = .closure ref → ref < s.closures.size ∧ f.Holds s ref

def Frame.Perched (s : Store) (f : Frame) : Prop :=
  ∀ ref, f.callee = .closure ref → f.Holds s ref

namespace Store

structure Extends (s s' : Store) : Prop where
  grown : s.closures.size ≤ s'.closures.size
  kept : ∀ ref, ref < s.closures.size → s'.closure ref = s.closure ref

structure Fits (limits : Limits) (s : Store) : Prop where
  threads : ∀ t, t < s.threads.size → (s.thread t).Fits limits
  cells : ∀ (ref : CellRef) (t : ThreadRef) (index : Nat),
    s.cells[ref]? = some (.slot t index) → index < limits.slots
  enclosed : ∀ ref, (s.closure ref).prototype.Enclosed
  waiting : ∀ t, ∀ f ∈ (s.thread t).frames.tail, f.Seated s

def Seats (s : Store) (t : ThreadRef) : Prop := ∀ f ∈ (s.thread t).frames, f.Seated s

structure Spares (t : ThreadRef) (s s' : Store) : Prop where
  extended : s.Extends s'
  others : ∀ r, r ≠ t → (s'.thread r).frames <:+ (s.thread r).frames

structure Safe (limits : Limits) (t : ThreadRef) (start s : Store) : Prop where
  fits : s.Fits limits
  spares : start.Spares t s
  seats : s.Seats t

end Store

variable {limits : Limits} {s s' : Store} {t : ThreadRef}

theorem Store.Extends.of_eq (same : s'.closures = s.closures) : s.Extends s' := by
  refine ⟨Nat.le_of_eq (by rw [same]), fun ref _ => ?_⟩
  rw [Store.closure, same, Store.closure]

theorem Store.Extends.refl (s : Store) : s.Extends s := .of_eq rfl

theorem Store.Extends.trans {s'' : Store} (first : s.Extends s') (second : s'.Extends s'') :
    s.Extends s'' where
  grown := Nat.le_trans first.grown second.grown
  kept ref bound :=
    (second.kept ref (Nat.lt_of_lt_of_le bound first.grown)).trans (first.kept ref bound)

theorem Store.extends_newClosure (s : Store) (c : Closure) : s.Extends (s.newClosure c).2 := by
  refine ⟨by simp [newClosure], fun ref bound => ?_⟩
  simp [closure, newClosure, Array.getD_eq_getD_getElem?, Array.getElem?_push, Nat.ne_of_lt bound]

namespace Frame

variable {f : Frame}

theorem Seated.extend (seated : f.Seated s) (extended : s.Extends s') : f.Seated s' := by
  intro ref callee
  obtain ⟨bound, holds⟩ := seated ref callee
  refine ⟨Nat.lt_of_lt_of_le bound extended.grown, ?_⟩
  rw [Frame.Holds, extended.kept ref bound]
  exact holds

theorem Seated.perched (seated : f.Seated s) : f.Perched s := fun ref callee =>
  (seated ref callee).2

theorem seated_of_callee (callee : ∀ ref, f.callee ≠ .closure ref) : f.Seated s :=
  fun ref same => absurd same (callee ref)

theorem Typed.seated (typed : f.Typed) (native : f.kind = .native) : f.Seated s := by
  refine seated_of_callee fun ref callee => ?_
  rw [Frame.Typed, callee] at typed
  simp [native] at typed

end Frame

namespace Store

theorem Spares.refl (t : ThreadRef) (s : Store) : s.Spares t s :=
  ⟨.refl s, fun _ _ => List.suffix_refl _⟩

theorem Spares.trans {s'' : Store} (first : s.Spares t s') (second : s'.Spares t s'') :
    s.Spares t s'' where
  extended := first.extended.trans second.extended
  others r different := (second.others r different).trans (first.others r different)

theorem Spares.of_local {low : Nat} (inside : s.Local t low s') (extended : s.Extends s') :
    s.Spares t s' := by
  refine ⟨extended, fun r different => ?_⟩
  by_cases known : r < s.threads.size
  · exact suffix_of_eq (congrArg Thread.frames (inside.others r different known))
  · by_cases made : r < s'.threads.size
    · rw [(inside.created r different (Nat.not_lt.1 known) made).frames]
      exact List.nil_suffix
    · rw [thread_invalid s' (Nat.not_lt.1 made)]
      exact List.nil_suffix

theorem spares_modifyThread (s : Store) (t : ThreadRef) (f : Thread → Thread) :
    s.Spares t (s.modifyThread t f) :=
  ⟨.of_eq rfl, fun _ different =>
    suffix_of_eq (congrArg Thread.frames (thread_modifyThread_other s f different))⟩

theorem Seats.extend (seats : s.Seats t) (extended : s.Extends s')
    (frames : (s'.thread t).frames <:+ (s.thread t).frames) : s'.Seats t :=
  fun f member => (seats f (frames.mem member)).extend extended

namespace Fits

theorem modifyThread (fits : s.Fits limits) {f : Thread → Thread}
    (own : (s.thread t).Fits limits → (f (s.thread t)).Fits limits)
    (waiting : t < s.threads.size → ∀ g ∈ (f (s.thread t)).frames.tail, g.Seated s) :
    (s.modifyThread t f).Fits limits where
  threads r valid := by
    rw [threadCount_modifyThread] at valid
    rw [thread_modifyThread]
    split
    · rename_i same
      exact own (fits.threads t same.2)
    · exact fits.threads r valid
  cells := fits.cells
  enclosed := fits.enclosed
  waiting r := by
    rw [thread_modifyThread]
    split
    · rename_i same
      exact waiting same.2
    · exact fits.waiting r

theorem adjust (fits : s.Fits limits) {f : Thread → Thread}
    (own : (s.thread t).Fits limits → (f (s.thread t)).Fits limits)
    (frames : (f (s.thread t)).frames = (s.thread t).frames) :
    (s.modifyThread t f).Fits limits :=
  fits.modifyThread own fun _ => frames ▸ fits.waiting t

theorem mark (fits : s.Fits limits) {f : Thread → Thread}
    (limited : ∀ th, (f th).limits = th.limits) (frames : ∀ th, (f th).frames = th.frames)
    (stack : ∀ th, (f th).stack = th.stack) (top : ∀ th, (f th).top = th.top) :
    (s.modifyThread t f).Fits limits := by
  refine fits.adjust (fun own => own.of_stack (limited _) (frames _) ?_ ?_) (frames _)
  · rw [stack]
    exact own.stack
  · rw [top]
    exact own.top

theorem load (fits : s.Fits limits) (cells : s'.cells = s.cells) (threads : s'.threads = s.threads)
    (extended : s.Extends s') (enclosed : ∀ ref, (s'.closure ref).prototype.Enclosed) :
    s'.Fits limits := by
  have thread : ∀ t, s'.thread t = s.thread t := fun t => by rw [Store.thread, threads, Store.thread]
  refine ⟨fun t valid => ?_, ?_, enclosed, fun t => ?_⟩
  · rw [thread]
    rw [threads] at valid
    exact fits.threads t valid
  · rw [cells]
    exact fits.cells
  · rw [thread]
    exact fun f member => (fits.waiting t f member).extend extended

theorem heap (fits : s.Fits limits) (cells : s'.cells = s.cells) (threads : s'.threads = s.threads)
    (closures : s'.closures = s.closures) : s'.Fits limits := by
  refine fits.load cells threads (.of_eq closures) fun ref => ?_
  rw [Store.closure, closures, ← Store.closure]
  exact fits.enclosed ref

theorem closeCells (fits : s.Fits limits) (t : ThreadRef) (level : Nat) :
    (s.closeCells t level).Fits limits := by
  have thread := fun r => thread_closeCells s t r level
  have closures := closures_closeCells s t level
  refine ⟨fun r valid => ?_, ?_, fun ref => ?_, fun r => ?_⟩
  · rw [threadCount_closeCells] at valid
    rw [thread]
    split
    · rename_i same
      have own := fits.threads t (same ▸ valid)
      exact own.of_stack rfl rfl own.stack own.top
    · exact fits.threads r valid
  · intro ref r index found
    exact fits.cells ref r index (open_closeCells found).1
  · rw [Store.closure, closures, ← Store.closure]
    exact fits.enclosed ref
  · have frames : ((s.closeCells t level).thread r).frames = (s.thread r).frames := by
      rw [thread]
      split
      · rename_i same
        rw [same]
      · rfl
    rw [frames]
    exact fun f member => (fits.waiting r f member).extend (.of_eq closures)

theorem withCells (fits : s.Fits limits) {cells : Array Cell}
    (bounded : ∀ (ref : CellRef) (t : ThreadRef) (index : Nat),
      cells[ref]? = some (.slot t index) → index < limits.slots) :
    ({ s with cells } : Store).Fits limits :=
  ⟨fits.threads, bounded, fits.enclosed, fits.waiting⟩

theorem captureSlot (fits : s.Fits limits) {index : Nat} (bound : index < limits.slots) :
    (s.captureSlot t index).2.Fits limits := by
  cases captured : (s.thread t).cellAt? index with
  | some ref =>
      rw [captureSlot_known captured]
      exact fits
  | none =>
      rw [captureSlot_fresh captured, withFreshCell]
      refine mark (fits.withCells ?_) (fun _ => rfl) (fun _ => rfl) (fun _ => rfl) fun _ => rfl
      intro ref r i found
      rw [Array.getElem?_push] at found
      split at found
      · obtain ⟨-, rfl⟩ : t = r ∧ index = i := by simpa using found
        exact bound
      · exact fits.cells ref r i found

theorem newClosure (fits : s.Fits limits) {c : Closure} (enclosed : c.prototype.Enclosed) :
    (s.newClosure c).2.Fits limits := by
  have extended := extends_newClosure s c
  refine ⟨fits.threads, fits.cells, fun ref => ?_, fun r f member => ?_⟩
  · by_cases known : ref < s.closures.size
    · rw [extended.kept ref known]
      exact fits.enclosed ref
    · simp only [Store.newClosure, closure, Array.getD_eq_getD_getElem?, Array.getElem?_push]
      split
      · exact enclosed
      · rw [Array.getElem?_eq_none (Nat.not_lt.1 known)]
        exact Prototype.enclosed_empty
  · exact (fits.waiting r f member).extend extended

theorem newThread (fits : s.Fits limits) {th : Thread} (own : th.Fits limits)
    (frames : th.frames = []) : (s.newThread th).2.Fits limits := by
  refine ⟨fun r valid => ?_, fits.cells, fits.enclosed, fun r f member => ?_⟩
  · rw [thread_newThread]
    split
    · exact own
    · rename_i other
      refine fits.threads r (Nat.lt_of_le_of_ne (Nat.le_of_lt_succ ?_) other)
      simpa [Store.newThread] using valid
  · rw [thread_newThread] at member
    split at member
    · simp [frames] at member
    · exact fits.waiting r f member

theorem writeCell (fits : s.Fits limits) (cell : CellRef) (value : Value) :
    (s.writeCell cell value).Fits limits := by
  simp only [Store.writeCell]
  split
  · rename_i found
    exact fits.adjust (fun own => own.put value (fits.cells _ _ _ found)) rfl
  · refine fits.withCells fun ref r i found => ?_
    rw [Array.getElem?_setIfInBounds] at found
    split at found
    · split at found <;> simp at found
    · exact fits.cells ref r i found

end Fits

namespace Safe

variable {start : Store}

theorem refl (fits : s.Fits limits) (seats : s.Seats t) : Safe limits t s s :=
  ⟨fits, .refl t s, seats⟩

theorem adjust (safe : Safe limits t start s) {f : Thread → Thread}
    (own : (s.thread t).Fits limits → (f (s.thread t)).Fits limits)
    (frames : (f (s.thread t)).frames = (s.thread t).frames) :
    Safe limits t start (s.modifyThread t f) := by
  refine ⟨safe.fits.adjust own frames, safe.spares.trans (spares_modifyThread s t f),
    safe.seats.extend (.of_eq rfl) (suffix_of_eq ?_)⟩
  rw [thread_modifyThread]
  split
  · exact frames
  · rfl

theorem keep (safe : Safe limits t start s) (fits : s'.Fits limits)
    (closures : s'.closures = s.closures)
    (frames : ∀ r, (s'.thread r).frames = (s.thread r).frames) : Safe limits t start s' :=
  ⟨fits, safe.spares.trans ⟨.of_eq closures, fun r _ => suffix_of_eq (frames r)⟩,
    safe.seats.extend (.of_eq closures) (suffix_of_eq (frames t))⟩

theorem heap (safe : Safe limits t start s) (cells : s'.cells = s.cells)
    (threads : s'.threads = s.threads) (closures : s'.closures = s.closures) :
    Safe limits t start s' := by
  refine safe.keep (safe.fits.heap cells threads closures) closures fun r => ?_
  rw [Store.thread, threads, Store.thread]

theorem closeCells (safe : Safe limits t start s) (level : Nat) :
    Safe limits t start (s.closeCells t level) :=
  safe.keep (safe.fits.closeCells t level) (closures_closeCells s t level)
    fun r => frames_closeCells s t r level

theorem captureSlot (safe : Safe limits t start s) {index : Nat} (bound : index < limits.slots) :
    Safe limits t start (s.captureSlot t index).2 := by
  refine safe.keep (safe.fits.captureSlot bound) ?_ fun r => ?_
  · cases captured : (s.thread t).cellAt? index with
    | some ref => rw [captureSlot_known captured]
    | none =>
        rw [captureSlot_fresh captured]
        rfl
  · obtain ⟨openCells, captured⟩ := thread_captureSlot s t index r
    rw [captured]

theorem writeCell (safe : Safe limits t start s) (cell : CellRef) (value : Value) :
    Safe limits t start (s.writeCell cell value) := by
  refine safe.keep (safe.fits.writeCell cell value) ?_ fun r => ?_
  · simp only [Store.writeCell]
    split <;> rfl
  · obtain ⟨stack, written⟩ := thread_writeCell s cell value r
    rw [written]

theorem newClosure (safe : Safe limits t start s) {c : Closure} (enclosed : c.prototype.Enclosed) :
    Safe limits t start (s.newClosure c).2 := by
  have extended := extends_newClosure s c
  exact ⟨safe.fits.newClosure enclosed,
    safe.spares.trans ⟨extended, fun r _ => List.suffix_refl _⟩,
    safe.seats.extend extended (List.suffix_refl _)⟩

end Safe

end Store

end RegisterVm
