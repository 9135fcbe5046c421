import RegisterVm.Proofs.Limits.Calls
import RegisterVm.Proofs.Machine.Instructions

/-!
Instructions that name only registers of their frame's window keep to the limits. What they assign
lies in the frame, and what they work on above it they have reserved.
-/

namespace RegisterVm

namespace Context

variable {limits : Limits} {x : Context} {below : List Frame} {start s s' : Store}

structure Owns (x : Context) (limits : Limits) : Prop where
  frame : x.frame.Fits limits
  script : x.frame.kind = .script
  window : x.frame.base + x.prototype.window ≤ x.frame.top
  enclosed : x.prototype.Enclosed

structure Housed (x : Context) (limits : Limits) (below : List Frame) (start s : Store) :
    Prop extends x.Live below s where
  safe : Store.Safe limits x.thread start s

inductive Lands (x : Context) (limits : Limits) (below : List Frame) (start : Store) :
    Flow → Store → Prop where
  | next {s : Store} (pc : Int) (housed : x.Housed limits below start s) :
      Lands x limits below start (.next pc) s
  | entered {s : Store} {callee : Entered} (f : Frame) {under : List Frame}
      (fits : s.Fits limits) (spares : start.Spares x.thread s)
      (frames : (s.thread x.thread).frames = f :: under) (kind : f.kind = callee.kind)
      (perched : f.Perched s) (deep : below.length ≤ under.length) :
      Lands x limits below start (.entered callee) s
  | returned {s : Store} (safe : Store.Safe limits x.thread start s)
      (spare : ∀ caller rest, (s.thread x.thread).frames = caller :: rest →
        caller.kind = .native → (s.thread x.thread).top < limits.slots) :
      Lands x limits below start .returned s

namespace Owns

variable (owns : x.Owns limits)

include owns

theorem slot_lt_top {register : Nat} (named : register < x.prototype.window) :
    x.slot register < x.frame.top := by
  have := owns.window
  simp only [slot]
  omega

theorem slot_lt_slots {register : Nat} (named : register < x.prototype.window) :
    x.slot register < limits.slots :=
  Nat.lt_of_lt_of_le (owns.slot_lt_top named) owns.frame.within

end Owns

namespace Housed

theorem fits (housed : x.Housed limits below start s) : s.Fits limits := housed.safe.fits

theorem adjust (housed : x.Housed limits below start s) {f : Thread → Thread}
    (own : (s.thread x.thread).Fits limits → (f (s.thread x.thread)).Fits limits)
    (frames : (f (s.thread x.thread)).frames = (s.thread x.thread).frames) :
    x.Housed limits below start (s.modifyThread x.thread f) where
  valid := by simpa using housed.valid
  head := by
    rw [Store.thread_modifyThread_self s f housed.valid, frames]
    exact housed.head
  safe := housed.safe.adjust own frames

theorem heap (housed : x.Housed limits below start s) (cells : s'.cells = s.cells)
    (threads : s'.threads = s.threads) (closures : s'.closures = s.closures) :
    x.Housed limits below start s' where
  valid := by rw [threads]; exact housed.valid
  head := by
    rw [Store.thread, threads, ← Store.thread]
    exact housed.head
  safe := housed.safe.heap cells threads closures

theorem reserve (housed : x.Housed limits below start s) (needed : Nat) :
    x.Housed limits below start (s.modifyThread x.thread fun th => th.reserve needed) :=
  housed.adjust (fun own => own.reserve needed) (Thread.frames_reserve _ _)

theorem closeCells (housed : x.Housed limits below start s) (level : Nat) :
    x.Housed limits below start (s.closeCells x.thread level) where
  valid := by
    rw [Store.threadCount_closeCells]
    exact housed.valid
  head := by
    rw [Store.thread_closeCells, if_pos rfl]
    exact housed.head
  safe := housed.safe.closeCells level

theorem captureSlot (housed : x.Housed limits below start s) {index : Nat}
    (bound : index < limits.slots) :
    x.Housed limits below start (s.captureSlot x.thread index).2 := by
  obtain ⟨openCells, captured⟩ := Store.thread_captureSlot s x.thread index x.thread
  obtain ⟨pc, head⟩ := housed.head
  have head : ((s.captureSlot x.thread index).2.thread x.thread).frames =
      { x.frame with pc } :: below := by rw [captured, head]
  exact ⟨⟨Store.lt_of_frames head, pc, head⟩, housed.safe.captureSlot bound⟩

theorem writeCell (housed : x.Housed limits below start s) (cell : CellRef) (value : Value) :
    x.Housed limits below start (s.writeCell cell value) := by
  obtain ⟨stack, written⟩ := Store.thread_writeCell s cell value x.thread
  obtain ⟨pc, head⟩ := housed.head
  have head : ((s.writeCell cell value).thread x.thread).frames =
      { x.frame with pc } :: below := by rw [written, head]
  exact ⟨⟨Store.lt_of_frames head, pc, head⟩, housed.safe.writeCell cell value⟩

theorem leave (housed : x.Housed limits below start s) {f : Thread → Thread}
    (own : (s.thread x.thread).Fits limits → (f (s.thread x.thread)).Fits limits)
    (frames : (f (s.thread x.thread)).frames = below) :
    Store.Safe limits x.thread start (s.modifyThread x.thread f) := by
  obtain ⟨pc, head⟩ := housed.head
  have seats := housed.safe.seats
  rw [Store.Seats, head] at seats
  refine ⟨housed.safe.fits.modifyThread own fun _ => ?_,
    housed.safe.spares.trans (Store.spares_modifyThread _ _ _), ?_⟩
  · rw [frames]
    exact fun g member => seats g (.tail _ (List.mem_of_mem_tail member))
  · rw [Store.Seats, Store.thread_modifyThread_self s f housed.valid, frames]
    exact fun g member => (seats g (.tail _ member)).extend (.of_eq rfl)

theorem own (housed : x.Housed limits below start s) : (s.thread x.thread).Fits limits :=
  housed.fits.threads x.thread housed.valid

end Housed

theorem safe_of_housed (s : Store) (housed : x.Housed limits below start s) :
    Store.Safe limits x.thread start s := housed.safe

theorem lands_of_keeps {action : Action Flow}
    (keeps : Keeps (x.Housed limits below start) action Goes)
    (housed : x.Housed limits below start s) :
    Leads action s (x.Lands limits below start) (Store.Safe limits x.thread start) := by
  refine (keeps.leads housed).mono ?_ safe_of_housed
  rintro flow s' ⟨housed, goes⟩
  cases flow with
  | next pc => exact .next pc housed
  | entered => exact goes.elim
  | returned => exact goes.elim

variable (owns : x.Owns limits)

include owns

theorem keeps_assign {register : Nat} (value : Value)
    (named : register + 1 ≤ x.prototype.window) :
    Keeps (x.Housed limits below start) (x.setRegister register value) Goes := by
  refine Keeps.any_bind ?_ fun _ => .pure trivial
  exact Keeps.modifyThread fun s housed =>
    housed.adjust (fun own => own.put value (owns.slot_lt_slots named)) rfl

section Calls

theorem lands_enterCall (housed : x.Housed limits below start s) {slot target : Nat}
    (arguments : Nat) (wanted : Option Nat) (deliver : target ≤ slot) :
    Leads (enterCall x.thread slot arguments target wanted) s
      (fun callee s' => x.Lands limits below start (.entered callee) s')
      (Store.Safe limits x.thread start) := by
  obtain ⟨pc, head⟩ := housed.head
  refine (housed.fits.leads_enterCall housed.valid housed.safe.seats arguments deliver
    fun _ => ⟨_, _, head, owns.script⟩).mono ?_ ?_
  · rintro callee s' ⟨fits, spares, f, frames, kind, perched⟩
    refine .entered f fits (housed.safe.spares.trans spares) frames kind perched ?_
    rw [head]
    exact Nat.le_succ _
  · rintro s' rfl
    exact housed.safe

theorem lands_enterHandler (housed : x.Housed limits below start s) (handler : Value)
    (values : List Value) (target : Option Nat) (deliver : ∀ slot ∈ target, slot < x.frame.top) :
    Leads (x.enterHandler handler values target) s (x.Lands limits below start)
      (Store.Safe limits x.thread start) := by
  refine .lookThread_bind ?_
  have above : x.frame.top ≤ max x.frame.top (s.thread x.thread).top := Nat.le_max_left _ _
  generalize max x.frame.top (s.thread x.thread).top = slot at above
  refine .reserve_fits_bind (fun granted => .modifyThread_bind ?_) housed.safe
  have granted := Nat.le_trans (housed.own.le_maxStack granted) limits.maxStack_le_slots
  have laid : x.Housed limits below start
      ((s.modifyThread x.thread fun th => th.reserve (slot + 1 + values.length)).modifyThread
        x.thread fun th =>
          (th.putAll slot (handler :: values)).withTop (slot + 1 + values.length)) := by
    refine (housed.reserve _).adjust (fun own => (own.putAll _ ?_).withTop granted) (by simp)
    rw [List.length_cons]
    omega
  generalize Store.modifyThread _ _ _ = s₁ at laid ⊢
  cases target with
  | some target =>
      refine (lands_enterCall owns laid _ _ ?_).bind fun _ _ lands => .pure lands
      exact Nat.le_trans (Nat.le_of_lt (deliver target rfl)) above
  | none =>
      exact (lands_enterCall owns laid _ _ (Nat.le_refl slot)).bind fun _ _ lands => .pure lands

theorem lands_getField (housed : x.Housed limits below start s) (object key : Value)
    {register : Nat} (named : register + 1 ≤ x.prototype.window) :
    Leads (x.getField object key register) s (x.Lands limits below start)
      (Store.Safe limits x.thread start) := by
  refine .look_bind ?_
  split
  · exact lands_of_keeps (keeps_assign owns _ named) housed
  · refine lands_enterHandler owns housed _ _ _ ?_
    rintro slot ⟨⟩
    exact owns.slot_lt_top named
  · exact .typeError housed.safe

theorem lands_setField (housed : x.Housed limits below start s) (object key value : Value) :
    Leads (x.setField object key value) s (x.Lands limits below start)
      (Store.Safe limits x.thread start) := by
  refine .look_bind ?_
  split
  · split
    · exact .typeError housed.safe
    · exact .modify_bind (.pure (.next _ (housed.heap rfl rfl rfl)))
  · exact lands_enterHandler owns housed _ _ _ (by simp)
  · exact .typeError housed.safe

theorem lands_operatorHandler (housed : x.Housed limits below start s) (op : Opcode)
    (left right : Value) {register : Nat} (named : register + 1 ≤ x.prototype.window) :
    Leads (x.operatorHandler op left right register) s (x.Lands limits below start)
      (Store.Safe limits x.thread start) := by
  refine .look_bind ?_
  split
  · refine lands_enterHandler owns housed _ _ _ ?_
    rintro slot ⟨⟩
    exact owns.slot_lt_top named
  · exact .typeError housed.safe

theorem lands_binary (housed : x.Housed limits below start s) (op : Opcode) (i : Instruction)
    (named : i.a + 1 ≤ x.prototype.window) :
    Leads (x.binary op i) s (x.Lands limits below start) (Store.Safe limits x.thread start) := by
  refine (keeps_operand i.b).leads_bind housed safe_of_housed fun left s housed _ => ?_
  refine (keeps_operand i.c).leads_bind housed safe_of_housed fun right s housed _ => ?_
  split
  · exact lands_of_keeps (keeps_assign owns _ named) housed
  · exact lands_operatorHandler owns housed _ _ _ named

theorem lands_unary (housed : x.Housed limits below start s) (op : Opcode) (i : Instruction)
    (named : i.a + 1 ≤ x.prototype.window) :
    Leads (x.unary op i) s (x.Lands limits below start) (Store.Safe limits x.thread start) := by
  refine (keeps_register i.b).leads_bind housed safe_of_housed fun operand s housed _ => ?_
  split
  · exact lands_of_keeps (keeps_assign owns _ named) housed
  · exact lands_operatorHandler owns housed _ _ _ named

omit owns in
theorem leads_countAbove_within {α : Type} {operand first : Nat} {k : Nat → Action α}
    {ok : α → Store → Prop} {failed : Store → Prop} (own : (s.thread x.thread).Fits limits)
    (named : first + (operand - 1) ≤ limits.slots)
    (rest : ∀ count, first + count ≤ limits.slots → Leads (k count) s ok failed) :
    Leads (x.countAbove operand first >>= k) s ok failed := by
  simp only [countAbove]
  split
  · exact rest _ named
  · refine .lookThread_bind (rest _ ?_)
    have := own.top
    omega

theorem lands_call (housed : x.Housed limits below start s) (a b : Nat) (wanted : Option Nat)
    (named : a + max b 1 ≤ x.prototype.window) :
    Leads (x.call a b wanted) s (x.Lands limits below start) (Store.Safe limits x.thread start) := by
  have window := owns.window
  have within := owns.frame.within
  refine leads_countAbove_within housed.own (by simp only [slot]; omega) fun arguments bound => ?_
  refine .modifyThread_bind ?_
  have laid := housed.adjust (f := fun th => th.withTop (x.slot a + 1 + arguments))
    (fun own => own.withTop bound) rfl
  exact (lands_enterCall owns laid _ _ (Nat.le_refl _)).bind fun _ _ lands => .pure lands

theorem lands_iterCall (housed : x.Housed limits below start s) (i : Instruction) :
    Leads (x.iterCall i) s (x.Lands limits below start) (Store.Safe limits x.thread start) := by
  refine .reserve_fits_bind (fun granted => .modifyThread_bind ?_) housed.safe
  have granted := Nat.le_trans (housed.own.le_maxStack granted) limits.maxStack_le_slots
  have laid : x.Housed limits below start
      ((s.modifyThread x.thread fun th => th.reserve (x.slot (i.a + 3) + 3)).modifyThread
        x.thread fun th =>
          (th.putAll (x.slot (i.a + 3)) [th.get (x.slot i.a), th.get (x.slot i.a + 1),
            th.get (x.slot i.a + 2)]).withTop (x.slot (i.a + 3) + 3)) :=
    (housed.reserve _).adjust (fun own => (own.putAll _ granted).withTop granted) (by simp)
  exact (lands_enterCall owns laid _ _ (Nat.le_refl _)).bind fun _ _ lands => .pure lands

theorem lands_ret (housed : x.Housed limits below start s) (a b : Nat)
    (named : a + (b - 1) ≤ x.prototype.window) :
    Leads (x.ret a b) s (x.Lands limits below start) (Store.Safe limits x.thread start) := by
  have window := owns.window
  have target := owns.frame.target
  have base := owns.frame.base
  have within := owns.frame.within
  have source : x.frame.base ≤ x.slot a := Nat.le_add_right _ _
  refine leads_countAbove_within housed.own (by simp only [slot]; omega) fun count bound => ?_
  refine .modify_bind (.modifyThread_bind (.pure ?_))
  have housed := housed.closeCells x.frame.base
  generalize s.closeCells x.thread x.frame.base = s₁ at housed
  obtain ⟨pc, head⟩ := housed.head
  have ended := Thread.frames_finish _ head (x.slot a) count
  have deliver : x.frame.target + count < x.slot a + count := by omega
  refine .returned (housed.leave (fun own => ?_) ended) ?_
  · exact own.finish head (fun _ => bound) (by dsimp only; omega)
  · rw [Store.thread_modifyThread_self _ _ housed.valid, ended]
    rintro caller rest rfl native
    rcases housed.own.top_finish head (x.slot a) count with top | ⟨_, _, same, script, -⟩
    · rw [top]
      dsimp only
      omega
    · obtain ⟨rfl, -⟩ := List.cons.inj same
      rw [native] at script
      contradiction

theorem lands_tailCall (housed : x.Housed limits below start s) (a b : Nat)
    (named : a + max b 1 ≤ x.prototype.window) :
    Leads (x.tailCall a b) s (x.Lands limits below start) (Store.Safe limits x.thread start) := by
  have window := owns.window
  have base := owns.frame.base
  have within := owns.frame.within
  have place : x.frame.slot ≤ x.slot a := by simp only [slot]; omega
  simp only [tailCall, register, getSlot]
  refine .lookThread_bind ?_
  split
  · refine leads_countAbove_within housed.own (by simp only [slot]; omega) fun arguments bound => ?_
    refine .modify_bind (.lookThread_bind ?_)
    have housed := housed.closeCells x.frame.base
    generalize s.closeCells x.thread x.frame.base = s₁ at housed
    obtain ⟨pc, head⟩ := housed.head
    simp only [head, List.isEmpty_cons, Bool.false_eq_true, if_false]
    refine .modifyThread_bind ?_
    have left := (vacate_cons head (x.slot a) arguments).2.1
    have safe := housed.leave (f := fun th => vacate th (x.slot a) arguments)
      (fun own => own.vacate head place bound) left
    have thread := Store.thread_modifyThread_self s₁
      (fun th => vacate th (x.slot a) arguments) housed.valid
    have valid : x.thread < (s₁.modifyThread x.thread fun th =>
        vacate th (x.slot a) arguments).threads.size := by simpa using housed.valid
    have asked := housed.own.asked
    rw [← thread] at left
    rw [head] at asked
    generalize s₁.modifyThread x.thread _ = s₂ at safe left valid ⊢
    refine ((safe.fits.leads_enterCall valid safe.seats arguments owns.frame.target ?_).mono
      (fun _ _ admits => admits) ?_).bind ?_
    · rw [left]
      exact asked.1
    · rintro _ rfl
      exact safe
    · rintro callee s₃ ⟨fits, spares, f, frames, kind, perched⟩
      rw [left] at frames
      have marked : (s₃.thread x.thread).markTail =
          { s₃.thread x.thread with frames := { f with isTail := true } :: below } := by
        simp only [Thread.markTail, frames]
      have own := Store.thread_modifyThread_self s₃ Thread.markTail (Store.lt_of_frames frames)
      rw [marked] at own
      refine .modifyThread_bind (.pure (.entered { f with isTail := true } ?_
        (safe.spares.trans (spares.trans (Store.spares_modifyThread _ _ _))) ?_ kind perched
        (Nat.le_refl _)))
      · refine fits.modifyThread (fun own => own.markTail) fun _ => ?_
        have waiting := fits.waiting x.thread
        rw [frames] at waiting
        rw [marked]
        exact waiting
      · rw [own]
  · exact lands_call owns housed _ _ _ named

end Calls

section Stays

theorem keeps_assign_loop (i : Instruction) (named : i.a + 4 ≤ x.prototype.window) :
    Keeps (x.Housed limits below start) (x.forLoop i) Goes := by
  refine (keeps_register i.a).bind fun index _ => ?_
  refine (keeps_register (i.a + 1)).bind fun limit _ => ?_
  refine (keeps_register (i.a + 2)).bind fun step _ => ?_
  split
  · extract_lets index continues
    refine Keeps.ite ?_ (.pure trivial)
    refine (keeps_assign owns _ (by omega)).bind fun _ _ => ?_
    exact (keeps_assign owns _ (by omega)).bind fun _ _ => .pure trivial
  · exact .typeError

theorem keeps_assign_bounds (i : Instruction) (named : i.a + 3 ≤ x.prototype.window) :
    Keeps (x.Housed limits below start) (x.forPrep i) Goes := by
  refine (keeps_loopNumber _ _).bind fun start _ => ?_
  refine (keeps_loopNumber _ _).bind fun limit _ => ?_
  refine (keeps_loopNumber _ _).bind fun step _ => ?_
  refine (keeps_assign owns _ (by omega)).bind fun _ _ => ?_
  refine (keeps_assign owns _ (by omega)).bind fun _ _ => ?_
  exact (keeps_assign owns _ (by omega)).bind fun _ _ => .pure trivial

theorem keeps_assign_length (i : Instruction) (named : i.a + 1 ≤ x.prototype.window) :
    Keeps (x.Housed limits below start) (x.length i) Goes := by
  refine (keeps_register i.b).bind fun operand _ => ?_
  split
  · exact keeps_assign owns _ named
  · exact Keeps.look.bind fun _ _ => keeps_assign owns _ named
  · exact .typeError

theorem keeps_housed_flush (source count block : Nat) (pc : Int) :
    Keeps (x.Housed limits below start)
      (do
        match ← getSlot x.thread source with
        | .table ref =>
          let th ← lookThread x.thread fun th => th
          modify fun s => s.modifyTable ref fun t =>
            storeItems th (source + 1) ((block - 1) * itemsPerFlush + 1) count t
          modifyThread x.thread fun th => th.withTop x.frame.top
          return .next pc
        | other => typeError x.thread (indexFailure other)) Goes := by
  refine Keeps.lookThread.bind fun items _ => ?_
  split
  · refine Keeps.lookThread.bind fun th _ => ?_
    refine (Keeps.modify fun s housed => housed.heap rfl rfl rfl).bind fun _ _ => ?_
    refine (Keeps.modifyThread fun s housed => ?_).bind fun _ _ => .pure trivial
    exact housed.adjust (fun own => own.withTop owns.frame.within) rfl
  · exact .typeError

theorem keeps_housed_setList (i : Instruction) :
    Keeps (x.Housed limits below start) (x.setList i) Goes := by
  refine Keeps.ite (Keeps.pure_any.bind fun count _ => ?_)
      (Keeps.lookThread.bind fun count _ => ?_) <;>
    exact Keeps.ite (Keeps.pure_any.bind fun block _ => keeps_housed_flush owns _ _ _ _)
      ((keeps_extraWord _).bind fun block _ => keeps_housed_flush owns _ _ _ _)

theorem lands_vararg (housed : x.Housed limits below start s) (i : Instruction)
    (named : i.a + (i.b - 1) ≤ x.prototype.window) :
    Leads (x.vararg i) s (x.Lands limits below start) (Store.Safe limits x.thread start) := by
  have window := owns.window
  have within := owns.frame.within
  have copies : ∀ {s : Store} (values : Thread → List Value),
      (∀ th, x.slot i.a + (values th).length ≤ limits.slots) → x.Housed limits below start s →
      Leads (do
        modifyThread x.thread fun th => th.putAll (x.slot i.a) (values th)
        return .next x.pc) s (x.Lands limits below start) (Store.Safe limits x.thread start) :=
    fun values bound housed => .modifyThread_bind (.pure (.next _
      (housed.adjust (fun own => own.putAll _ (bound _)) (by simp))))
  simp only [vararg]
  split
  · refine copies _ (fun th => ?_) housed
    simp only [List.length_map, List.length_range, slot]
    omega
  · refine .reserve_fits_bind (fun granted => .modifyThread_bind ?_) housed.safe
    have granted := Nat.le_trans (housed.own.le_maxStack granted) limits.maxStack_le_slots
    refine copies _ (fun th => ?_) ((housed.reserve _).adjust (fun own => own.withTop granted) rfl)
    simpa using granted

theorem keeps_housed_captures (captures : List Capture) (cells : Array CellRef)
    (named : ∀ c ∈ captures, c.fromRegister = true → c.index.toNat < x.prototype.window) :
    Keeps (x.Housed limits below start) (x.captureCells captures cells) Any := by
  induction captures generalizing cells with
  | nil => exact .pure trivial
  | cons c rest ih =>
      have ih := fun cells => ih cells fun c member => named c (.tail _ member)
      simp only [captureCells]
      split
      · rename_i local'
        refine (Keeps.modifyGet fun s housed => ?_).bind fun ref _ => ih _
        exact housed.captureSlot (owns.slot_lt_slots (named c (.head _) local'))
      · split
        · exact Keeps.pure_any.bind fun ref _ => ih _
        · exact Keeps.any_bind .invalid fun ref => ih _

theorem keeps_housed_closure (i : Instruction) (named : i.a + 1 ≤ x.prototype.window) :
    Keeps (x.Housed limits below start) (x.makeClosure i) Goes := by
  simp only [makeClosure]
  split
  · exact .invalid
  · rename_i child found
    have member : child ∈ x.prototype.children := Array.mem_of_getElem? found
    refine (keeps_housed_captures owns _ _ fun c captured => ?_).bind fun cells _ => ?_
    · exact owns.enclosed.captures child member c (Array.mem_toList_iff.1 captured)
    · refine (Keeps.modifyGet fun s housed => ?_).bind fun ref _ => keeps_assign owns _ named
      exact ⟨⟨housed.valid, housed.head⟩,
        housed.safe.newClosure (owns.enclosed.children child member)⟩

end Stays

/-- An instruction that names only registers of its frame's window keeps to the limits. -/
theorem lands_execute (housed : x.Housed limits below start s) (op : Opcode) (i : Instruction)
    (named : i.pastNamed op ≤ x.prototype.window) :
    Leads (x.execute op i) s (x.Lands limits below start) (Store.Safe limits x.thread start) := by
  have stays : ∀ {action : Action Flow}, Keeps (x.Housed limits below start) action Goes →
      Leads action s (x.Lands limits below start) (Store.Safe limits x.thread start) :=
    fun keeps => lands_of_keeps keeps housed
  cases op with
  | move => exact stays ((keeps_register _).bind fun _ _ => keeps_assign owns _ named)
  | loadK => exact stays (keeps_assign owns _ named)
  | loadKX =>
      exact stays ((keeps_extraWord _).bind fun _ _ =>
        (keeps_assign owns _ named).bind fun _ _ => .pure trivial)
  | loadBool => exact stays ((keeps_assign owns _ named).bind fun _ _ => .pure trivial)
  | loadNil =>
      refine .modifyThread_bind (.pure (.next _ (housed.adjust (fun own => own.clear _ _) rfl)))
  | getCell => exact stays ((keeps_readCell _).bind fun _ _ => keeps_assign owns _ named)
  | getTabCell =>
      refine (keeps_readCell _).leads_bind housed safe_of_housed fun object s housed _ => ?_
      refine (keeps_operand _).leads_bind housed safe_of_housed fun key s housed _ => ?_
      exact lands_getField owns housed _ _ named
  | getTable =>
      refine (keeps_register _).leads_bind housed safe_of_housed fun object s housed _ => ?_
      refine (keeps_operand _).leads_bind housed safe_of_housed fun key s housed _ => ?_
      exact lands_getField owns housed _ _ named
  | setTabCell =>
      refine (keeps_readCell _).leads_bind housed safe_of_housed fun object s housed _ => ?_
      refine (keeps_operand _).leads_bind housed safe_of_housed fun key s housed _ => ?_
      refine (keeps_operand _).leads_bind housed safe_of_housed fun value s housed _ => ?_
      exact lands_setField owns housed _ _ _
  | setCell =>
      refine stays ((keeps_register _).bind fun value _ => (keeps_cell _).bind fun ref _ => ?_)
      refine (Keeps.modify fun s housed => ?_).bind fun _ _ => .pure trivial
      exact housed.writeCell ref value
  | setTable =>
      refine (keeps_register _).leads_bind housed safe_of_housed fun object s housed _ => ?_
      refine (keeps_operand _).leads_bind housed safe_of_housed fun key s housed _ => ?_
      refine (keeps_operand _).leads_bind housed safe_of_housed fun value s housed _ => ?_
      exact lands_setField owns housed _ _ _
  | newTable =>
      refine stays ((Keeps.modifyGet fun s housed => ?_).bind fun ref _ =>
        keeps_assign owns _ named)
      exact housed.heap rfl rfl rfl
  | selfCall =>
      have named : i.a + 2 ≤ x.prototype.window := named
      refine (keeps_register _).leads_bind housed safe_of_housed fun object s housed _ => ?_
      refine (keeps_operand _).leads_bind housed safe_of_housed fun key s housed _ => ?_
      refine (keeps_assign owns _ named).leads_bind housed safe_of_housed fun _ s housed _ => ?_
      exact lands_getField owns housed _ _ (by omega)
  | add | sub | mul | mod | pow | div | intDiv | bitAnd | bitOr | bitXor | shiftLeft
  | shiftRight => exact lands_binary owns housed _ i named
  | neg | bitNot => exact lands_unary owns housed _ i named
  | logicalNot => exact stays ((keeps_register _).bind fun _ _ => keeps_assign owns _ named)
  | length => exact stays (keeps_assign_length owns i named)
  | concat => exact stays ((keeps_concatFrom _ _ _).bind fun _ _ => keeps_assign owns _ named)
  | jump =>
      simp only [execute]
      split
      · exact .modify_bind (.pure (.next _ (housed.closeCells _)))
      · exact .pure (.next _ housed)
  | eq => exact stays (keeps_compare i fun left right => some (left.same right))
  | lt => exact stays (keeps_compare i lessThan?)
  | le => exact stays (keeps_compare i lessEqual?)
  | test => exact stays ((keeps_register _).bind fun _ _ => .pure trivial)
  | testSet =>
      refine stays ((keeps_register _).bind fun value _ => ?_)
      exact Keeps.ite (.pure trivial) (keeps_assign owns _ named)
  | call =>
      have named : i.a + max (max i.b (i.c - 1)) 1 ≤ x.prototype.window := named
      exact lands_call owns housed _ _ _ (by omega)
  | tailCall => exact lands_tailCall owns housed _ _ named
  | ret => exact lands_ret owns housed _ _ named
  | forLoop => exact stays (keeps_assign_loop owns i named)
  | forPrep => exact stays (keeps_assign_bounds owns i named)
  | iterCall => exact lands_iterCall owns housed i
  | iterLoop =>
      have named : i.a + 2 ≤ x.prototype.window := named
      refine stays ((keeps_register _).bind fun control _ => Keeps.ite (.pure trivial) ?_)
      exact (keeps_assign owns _ (by omega)).bind fun _ _ => .pure trivial
  | setList => exact stays (keeps_housed_setList owns i)
  | closure => exact stays (keeps_housed_closure owns i named)
  | vararg => exact lands_vararg owns housed i named
  | extraArg => exact stays .invalid

end Context

end RegisterVm
