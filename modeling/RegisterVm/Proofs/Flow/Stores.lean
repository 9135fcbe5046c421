import RegisterVm.Proofs.Limits.Stores

/-!
Frames on their code. A frame begins at the first instruction of its function; in code that ends in a
return every instruction but a return has another behind it. Here are the actions that leave every
frame on its code, and that do not fail for want of an instruction.
-/

namespace RegisterVm

namespace Prototype

variable {p : Prototype} {pc : Nat} {i : Instruction}

theorem code_pos (returns : p.endsInReturn) : 0 < p.code.size := by
  by_contra empty
  have none : p.code.back? = none := by
    rw [Array.back?_eq_none_iff]
    exact Array.size_eq_zero_iff.1 (Nat.eq_zero_of_not_pos empty)
  simp [endsInReturn, none] at returns

theorem next_inside (returns : p.endsInReturn) (found : p.code[pc]? = some i)
    (goes : i.opcode? ≠ some .ret) : pc + 1 < p.code.size := by
  obtain ⟨inside, rfl⟩ := Array.getElem?_eq_some_iff.1 found
  by_contra last
  obtain rfl : pc = p.code.size - 1 := by omega
  rw [endsInReturn, Array.back?_eq_getElem?, found, Option.bind_some, beq_iff_eq] at returns
  exact goes returns

end Prototype

def Frame.OnCode (s : Store) (f : Frame) : Prop :=
  ∀ ref, f.callee = .closure ref → f.pc = 0 ∨ ref < s.closures.size ∧
    ((s.closure ref).prototype.endsInReturn → f.pc < (s.closure ref).prototype.code.size)

def Thread.Stays (th th' : Thread) : Prop :=
  ∀ g ∈ th'.frames, g.pc = 0 ∨ ∃ f ∈ th.frames, f.callee = g.callee ∧ f.pc = g.pc

namespace Store

def OnCode (s : Store) : Prop := ∀ t, ∀ f ∈ (s.thread t).frames, f.OnCode s

structure Upholds (start s : Store) : Prop where
  extended : start.Extends s
  onCode : s.OnCode

end Store

def Error.Stray (e : Error) : Prop := ∃ pc, e = Machine.pastEnd pc

theorem Error.not_stray {message : String} (other : message.toList.head? ≠ some 'p') :
    ¬(Error.invalid message).Stray := by
  rintro ⟨pc, same⟩
  refine other ?_
  rw [Error.invalid.inj same]
  simp

variable {s s' start : Store} {t : ThreadRef}

namespace Frame.OnCode

variable {f g : Frame}

theorem of_first (first : f.pc = 0) : f.OnCode s := fun _ _ => .inl first

theorem congr (onCode : f.OnCode s) (callee : f.callee = g.callee) (pc : f.pc = g.pc) :
    g.OnCode s := by
  intro ref called
  rw [← pc]
  exact onCode ref (callee.trans called)

theorem extend (onCode : f.OnCode s) (extended : s.Extends s') : f.OnCode s' := by
  intro ref callee
  refine (onCode ref callee).imp_right fun ⟨known, inside⟩ => ?_
  rw [extended.kept ref known]
  exact ⟨Nat.lt_of_lt_of_le known extended.grown, inside⟩

theorem lt_size {ref : ClosureRef} (onCode : f.OnCode s) (callee : f.callee = .closure ref)
    (returns : (s.closure ref).prototype.endsInReturn) :
    f.pc < (s.closure ref).prototype.code.size := by
  rcases onCode ref callee with first | ⟨-, inside⟩
  · exact first ▸ Prototype.code_pos returns
  · exact inside returns

end Frame.OnCode

namespace Thread

variable {th th' : Thread}

theorem Stays.of_suffix (suffix : th'.frames <:+ th.frames) : th.Stays th' :=
  fun g member => .inr ⟨g, suffix.mem member, rfl, rfl⟩

theorem Stays.of_eq (frames : th'.frames = th.frames) : th.Stays th' :=
  .of_suffix (suffix_of_eq frames)

theorem Stays.pushed {f : Frame} (frames : th'.frames = f :: th.frames) (first : f.pc = 0) :
    th.Stays th' := by
  intro g member
  rw [frames] at member
  rcases List.mem_cons.1 member with rfl | member
  · exact .inl first
  · exact .inr ⟨g, member, rfl, rfl⟩

theorem stays_enterScript (th : Thread) (p : Prototype) (callee : Value)
    (slot arguments target : Nat) (wanted : Option Nat) :
    th.Stays (th.enterScript p callee slot arguments target wanted) :=
  .pushed (congrArg (List.cons _) (frames_arrange th p slot arguments)) rfl

theorem stays_enterNative (th : Thread) (callee : Value) (slot arguments target : Nat)
    (wanted : Option Nat) : th.Stays (th.enterNative callee slot arguments target wanted) :=
  .pushed rfl rfl

theorem stays_markTail (th : Thread) : th.Stays th.markTail := by
  simp only [markTail]
  split
  · rename_i f rest head
    intro g member
    rcases List.mem_cons.1 member with rfl | member
    · exact .inr ⟨f, by simp [head], rfl, rfl⟩
    · exact .inr ⟨g, by simp [head, member], rfl, rfl⟩
  · exact .of_eq rfl

theorem stays_finish (th : Thread) (source n : Nat) : th.Stays (th.finish source n) := by
  cases head : th.frames with
  | nil => exact .of_eq (by rw [finish_nil th head])
  | cons f rest =>
      refine .of_suffix ?_
      rw [frames_finish th head, head]
      exact List.suffix_cons f rest

end Thread

namespace Store

theorem OnCode.keep (onCode : s.OnCode) (extended : s.Extends s')
    (frames : ∀ r, (s'.thread r).frames <:+ (s.thread r).frames) : s'.OnCode :=
  fun r f member => (onCode r f ((frames r).mem member)).extend extended

theorem OnCode.modifyThread (onCode : s.OnCode) {f : Thread → Thread}
    (own : ∀ g ∈ (f (s.thread t)).frames, g.OnCode s) : (s.modifyThread t f).OnCode := by
  intro r g member
  rw [thread_modifyThread] at member
  split at member
  · exact (own g member).extend (.of_eq rfl)
  · exact (onCode r g member).extend (.of_eq rfl)

theorem OnCode.stays (onCode : s.OnCode) {f : Thread → Thread}
    (stays : (s.thread t).Stays (f (s.thread t))) : (s.modifyThread t f).OnCode := by
  refine onCode.modifyThread fun g member => ?_
  rcases stays g member with first | ⟨h, standing, callee, pc⟩
  · exact .of_first first
  · exact (onCode t h standing).congr callee pc

namespace Upholds

theorem refl (onCode : s.OnCode) : s.Upholds s := ⟨.refl s, onCode⟩

theorem keep (upholds : start.Upholds s) (closures : s'.closures = s.closures)
    (frames : ∀ r, (s'.thread r).frames = (s.thread r).frames) : start.Upholds s' :=
  ⟨upholds.extended.trans (.of_eq closures),
    upholds.onCode.keep (.of_eq closures) fun r => suffix_of_eq (frames r)⟩

theorem heap (upholds : start.Upholds s) (closures : s'.closures = s.closures)
    (threads : s'.threads = s.threads) : start.Upholds s' :=
  upholds.keep closures fun r => by rw [Store.thread, threads, Store.thread]

theorem stays (upholds : start.Upholds s) {f : Thread → Thread}
    (stays : (s.thread t).Stays (f (s.thread t))) : start.Upholds (s.modifyThread t f) :=
  ⟨upholds.extended.trans (.of_eq rfl), upholds.onCode.stays stays⟩

theorem closeCells (upholds : start.Upholds s) (t : ThreadRef) (level : Nat) :
    start.Upholds (s.closeCells t level) :=
  upholds.keep (closures_closeCells s t level) fun r => frames_closeCells s t r level

theorem captureSlot (upholds : start.Upholds s) (t : ThreadRef) (index : Nat) :
    start.Upholds (s.captureSlot t index).2 := by
  refine upholds.keep ?_ fun r => ?_
  · cases captured : (s.thread t).cellAt? index with
    | some ref => rw [captureSlot_known captured]
    | none =>
        rw [captureSlot_fresh captured]
        rfl
  · obtain ⟨openCells, captured⟩ := thread_captureSlot s t index r
    rw [captured]

theorem writeCell (upholds : start.Upholds s) (cell : CellRef) (value : Value) :
    start.Upholds (s.writeCell cell value) := by
  refine upholds.keep ?_ fun r => ?_
  · simp only [Store.writeCell]
    split <;> rfl
  · obtain ⟨stack, written⟩ := thread_writeCell s cell value r
    rw [written]

theorem newClosure (upholds : start.Upholds s) (c : Closure) :
    start.Upholds (s.newClosure c).2 :=
  ⟨upholds.extended.trans (extends_newClosure s c),
    upholds.onCode.keep (extends_newClosure s c) fun _ => List.suffix_refl _⟩

end Upholds

end Store

/-- From a store that has come from `start` the action leads to one that has. What it returns meets
`post`, and it does not fail for want of an instruction. -/
def Sure {α : Type} (start : Store) (x : Action α) (post : α → Prop) : Prop :=
  ∀ s, start.Upholds s → match x s with
    | .ok a s' => start.Upholds s' ∧ post a
    | .error e s' => start.Upholds s' ∧ ¬e.Stray

namespace Sure

variable {α β : Type} {post : α → Prop}

theorem pure {a : α} (holds : post a) : Sure start (Pure.pure a) post :=
  fun _ before => ⟨before, holds⟩

theorem bind {x : Action α} {f : α → Action β} {mid : α → Prop} {post : β → Prop}
    (first : Sure start x mid) (second : ∀ a, mid a → Sure start (f a) post) :
    Sure start (x >>= f) post := by
  intro s before
  have after := first s before
  simp only [Bind.bind, EStateM.bind]
  cases result : x s with
  | ok a s' =>
      rw [result] at after
      exact second a after.2 s' after.1
  | error e s' =>
      rw [result] at after
      exact after

theorem any_bind {x : Action α} {f : α → Action β} {post : β → Prop}
    (first : Sure start x Any) (second : ∀ a, Sure start (f a) post) :
    Sure start (x >>= f) post :=
  first.bind fun a _ => second a

theorem pure_any {a : α} : Sure start (Pure.pure a) Any := pure trivial

theorem ite {c : Prop} [Decidable c] {x y : Action α} (left : Sure start x post)
    (right : Sure start y post) : Sure start (if c then x else y) post := by
  split
  · exact left
  · exact right

theorem leads {x : Action α} (sure : Sure start x post) (before : start.Upholds s) :
    Leads x s (fun a s' => start.Upholds s' ∧ post a) start.Upholds := by
  have after := sure s before
  simp only [Leads]
  cases result : x s with
  | ok a s' =>
      rw [result] at after
      exact after
  | error e s' =>
      rw [result] at after
      exact after.1

theorem look {f : Store → α} : Sure start (look f) Any := fun _ before => ⟨before, trivial⟩

theorem lookThread {f : Thread → α} : Sure start (lookThread t f) Any := look

theorem modify {f : Store → Store} (step : ∀ s, start.Upholds s → start.Upholds (f s)) :
    Sure start (modify f : Action Unit) Any :=
  fun s before => ⟨step s before, trivial⟩

theorem modifyGet {f : Store → α × Store} (step : ∀ s, start.Upholds s → start.Upholds (f s).2) :
    Sure start (modifyGet f : Action α) Any :=
  fun s before => ⟨step s before, trivial⟩

theorem modifyThread {f : Thread → Thread} (stays : ∀ th : Thread, th.Stays (f th)) :
    Sure start (modifyThread t f) Any :=
  modify fun _ before => before.stays (stays _)

theorem typeError {message : String} : Sure start (typeError t message : Action α) post :=
  fun _ before => ⟨before, fun ⟨_, same⟩ => nomatch same⟩

theorem overflowError : Sure start (overflowError t : Action α) post :=
  fun _ before => ⟨before, fun ⟨_, same⟩ => nomatch same⟩

theorem invalid {message : String} (other : message.toList.head? ≠ some 'p') :
    Sure start (invalid message : Action α) post :=
  fun _ before => ⟨before, Error.not_stray other⟩

theorem reserve {needed : Nat} : Sure start (reserve t needed) Any := by
  refine lookThread.any_bind fun fits => ?_
  split
  · exact modifyThread fun th => .of_eq (Thread.frames_reserve th needed)
  · exact overflowError

theorem enterCall (slot arguments target : Nat) (wanted : Option Nat) :
    Sure start (enterCall t slot arguments target wanted) Any := by
  refine lookThread.any_bind fun deep => ite overflowError ?_
  refine lookThread.any_bind fun callee => ?_
  split
  · refine look.any_bind fun p => reserve.any_bind fun _ => ?_
    refine (modifyThread fun th => ?_).any_bind fun _ => pure_any
    exact th.stays_enterScript p _ slot arguments target wanted
  · refine look.any_bind fun body => reserve.any_bind fun _ => ?_
    refine (modifyThread fun th => ?_).any_bind fun _ => pure_any
    exact th.stays_enterNative _ slot arguments target wanted
  · exact typeError

end Sure

end RegisterVm
