import RegisterVm.Proofs.Machine.Calls

/-!
What an instruction does to its thread, one lemma for each kind of instruction. It goes on in its
frame, pushes a frame, gives its frame up for another or ends it; a failure leaves its frame or,
when a tail call has given it up, the frames below.
-/

namespace RegisterVm

def Frame.floor (f : Frame) : Nat := min f.base f.top

def Frame.reach (f : Frame) : Nat := min f.slot f.target

theorem Frame.Owned.low_le_floor {low : Nat} {f : Frame} (owned : f.Owned low) : low ≤ f.floor := by
  have := owned.low_lt_base
  have := owned.low_le_top
  simp only [Frame.floor]
  omega

theorem Frame.Owned.low_le_reach {low : Nat} {f : Frame} (owned : f.Owned low) : low ≤ f.reach := by
  have := owned.slot
  have := owned.target
  simp only [Frame.reach]
  omega

theorem Frame.Owned.floor_eq {low : Nat} {f : Frame} (owned : f.Owned low) : f.floor = f.base :=
  Nat.min_eq_left owned.top

namespace Context

structure Live (x : Context) (below : List Frame) (s : Store) : Prop where
  valid : x.thread < s.threads.size
  head : ∃ pc, (s.thread x.thread).frames = { x.frame with pc } :: below

/-- How the instruction has left its frame, from store `start`; it gives the frame up for another
only if it `tails`. -/
inductive Went (x : Context) (below : List Frame) (start : Store) (tails : Prop) :
    Flow → Store → Prop where
  | next {s : Store} (pc : Int) (within : Within x.thread x.frame.floor start s) :
      Went x below start tails (.next pc) s
  | entered {s : Store} {callee : Entered} {place destination : Nat} (f : Frame)
      (fresh : f.Fresh (start.thread x.thread).isYieldable place destination callee)
      (above : x.frame.floor ≤ place) (deliver : x.frame.floor ≤ destination)
      (delivers : f.Delivers) (pushed : start.Pushed x.thread x.frame.floor f s) :
      Went x below start tails (.entered callee) s
  | replaced {s : Store} {callee : Entered} (f : Frame)
      (fresh : f.Fresh (start.thread x.thread).isYieldable x.frame.slot x.frame.target callee)
      (confined : start.Confined x.thread x.frame.slot s)
      (frames : (s.thread x.thread).frames = f :: below) (top : (s.thread x.thread).top = f.top)
      (cells : s.cells = (start.closeCells x.thread x.frame.base).cells)
      (wanted : f.wanted = x.frame.wanted) (room : (s.thread x.thread).Holds f)
      (calls : tails) : Went x below start tails (.entered callee) s
  | returned {s : Store} (popped : start.Popped x.thread x.frame.reach below s)
      (cells : s.cells = (start.closeCells x.thread x.frame.base).cells) :
      Went x below start tails .returned s

/-- What a failing instruction has left, from store `start`. -/
inductive Fell (x : Context) (below : List Frame) (start : Store) : Store → Prop where
  | stayed {s : Store} (within : Within x.thread x.frame.floor start s) : Fell x below start s
  | vacated {s : Store} (confined : start.Confined x.thread x.frame.slot s)
      (frames : (s.thread x.thread).frames = below)
      (top : x.frame.slot ≤ (s.thread x.thread).top)
      (cells : s.cells = (start.closeCells x.thread x.frame.base).cells) : Fell x below start s

variable {x : Context} {below : List Frame} {start s : Store} {inv : Store → Prop} {tails : Prop}

theorem floor_le_slot (x : Context) (register : Nat) : x.frame.floor ≤ x.slot register := by
  simp only [slot, Frame.floor]
  omega

theorem keeps_register (i : Nat) : Keeps inv (x.register i) Any := by
  simp only [register, getSlot]
  exact Keeps.lookThread.any

theorem keeps_operand (i : Nat) : Keeps inv (x.operand i) Any := by
  simp only [operand]
  split
  · exact .pure trivial
  · exact keeps_register _

theorem keeps_cell (index : Nat) : Keeps inv (x.cell index) Any := by
  simp only [cell]
  split
  · exact .pure trivial
  · exact .invalid

theorem keeps_readCell (index : Nat) : Keeps inv (x.readCell index) Any :=
  (keeps_cell index).bind fun _ _ => Keeps.look.any

theorem keeps_extraWord (user : String) : Keeps inv (x.extraWord user) Any := by
  simp only [extraWord]
  split
  · exact .pure trivial
  · exact .invalid

theorem leads_countAbove {α : Type} {operand first : Nat} {k : Nat → Action α}
    {ok : α → Store → Prop} {failed : Store → Prop} (rest : ∀ count, Leads (k count) s ok failed) :
    Leads (x.countAbove operand first >>= k) s ok failed := by
  simp only [countAbove]
  split
  · exact rest _
  · exact .lookThread_bind (rest _)

theorem keeps_concatFrom (count first : Nat) (line : String) :
    Keeps inv (x.concatFrom count first line) Any := by
  induction count generalizing first line with
  | zero => exact .pure trivial
  | succ count ih =>
      refine (keeps_register first).bind fun value _ => ?_
      split
      · exact ih _ _
      · exact .typeError

theorem keeps_loopNumber (register : Nat) (what : String) :
    Keeps inv (x.loopNumber register what) Any := by
  refine (keeps_register register).bind fun value _ => ?_
  split
  · exact .pure trivial
  · exact .typeError

def Goes : Flow → Prop
  | .next _ => True
  | _ => False

abbrev Quiet (x : Context) (start : Store) : Store → Prop := Calm x.thread x.frame.floor start

theorem keeps_setRegister (i : Nat) (value : Value) :
    Keeps (x.Quiet start) (x.setRegister i value) Goes := by
  refine Keeps.any_bind ?_ fun _ => .pure trivial
  exact Keeps.modifyThread fun s calm => calm.put value (x.floor_le_slot i)

theorem leads_of_keeps {action : Action Flow} (keeps : Keeps (x.Quiet start) action Goes)
    (calm : x.Quiet start s) :
    Leads action s (x.Went below start tails) (x.Fell below start) := by
  refine (keeps.leads calm).mono ?_ fun s' after => .stayed after.within
  rintro flow s' ⟨after, goes⟩
  cases flow with
  | next pc => exact .next pc after.within
  | entered => exact goes.elim
  | returned => exact goes.elim

theorem leads_enterHandler (live : x.Live below start) (handler : Value) (values : List Value)
    (target : Option Nat) (deliver : ∀ slot ∈ target, x.frame.floor ≤ slot)
    (calm : x.Quiet start s) :
    Leads (x.enterHandler handler values target) s (x.Went below start tails)
      (x.Fell below start) := by
  refine .lookThread_bind ?_
  have above : x.frame.floor ≤ max x.frame.top (s.thread x.thread).top := by
    simp only [Frame.floor]
    omega
  generalize max x.frame.top (s.thread x.thread).top = slot at above
  refine .reserve_bind (.modifyThread_bind ?_) (.stayed calm.within)
  have laid : x.Quiet start
      ((s.modifyThread x.thread fun th => th.reserve (slot + 1 + values.length)).modifyThread
        x.thread fun th =>
          (th.putAll slot (handler :: values)).withTop (slot + 1 + values.length)) := by
    refine (calm.reserve _).modifyThread ?_ (by simp) (.inr ?_)
    · exact (Thread.reworked_putAll _ _ above).trans (Thread.reworked_withTop _ _ _)
    · rw [Thread.top_withTop]
      omega
  have valid := Nat.lt_of_lt_of_le live.valid laid.confined.grown
  have yieldable := laid.confined.own.isYieldable
  generalize Store.modifyThread _ _ _ = s₁ at laid valid yieldable
  have enters : ∀ destination wanted, x.frame.floor ≤ destination →
      (destination ≤ slot ∨ wanted = some 1) →
      Leads (enterCall x.thread slot values.length destination wanted) s₁
        (fun callee s' => x.Went below start tails (.entered callee) s') (x.Fell below start) := by
    intro destination wanted deliver single
    refine (leads_enterCall _ _ _ valid above).mono ?_ ?_
    · rintro callee s' ⟨f, fresh, takes, pushed⟩
      rw [yieldable] at fresh
      refine .entered f fresh above deliver ?_ (pushed.after laid)
      rwa [Frame.Delivers, fresh.target, fresh.slot, takes]
    · rintro s' rfl
      exact .stayed laid.within
  cases target with
  | some target =>
      exact (enters _ _ (deliver target rfl) (.inr rfl)).bind fun _ _ went => .pure went
  | none => exact (enters _ _ above (.inl (Nat.le_refl _))).bind fun _ _ went => .pure went

theorem leads_getField (live : x.Live below start) (object key : Value) (register : Nat)
    (calm : x.Quiet start s) :
    Leads (x.getField object key register) s (x.Went below start tails) (x.Fell below start) := by
  refine .look_bind ?_
  split
  · exact leads_of_keeps (keeps_setRegister _ _) calm
  · refine leads_enterHandler live _ _ _ ?_ calm
    rintro slot ⟨⟩
    exact x.floor_le_slot register
  · exact .typeError (.stayed calm.within)

theorem leads_setField (live : x.Live below start) (object key value : Value)
    (calm : x.Quiet start s) :
    Leads (x.setField object key value) s (x.Went below start tails) (x.Fell below start) := by
  refine .look_bind ?_
  split
  · split
    · exact .typeError (.stayed calm.within)
    · have stored : x.Quiet start (s.setRaw ‹_› key value) := calm.heap rfl rfl
      exact .modify_bind (.pure (.next _ stored.within))
  · exact leads_enterHandler live _ _ _ (by simp) calm
  · exact .typeError (.stayed calm.within)

theorem leads_operatorHandler (live : x.Live below start) (op : Opcode) (left right : Value)
    (register : Nat) (calm : x.Quiet start s) :
    Leads (x.operatorHandler op left right register) s (x.Went below start tails)
      (x.Fell below start) := by
  refine .look_bind ?_
  split
  · refine leads_enterHandler live _ _ _ ?_ calm
    rintro slot ⟨⟩
    exact x.floor_le_slot register
  · exact .typeError (.stayed calm.within)

theorem fell_of_quiet (s : Store) (calm : x.Quiet start s) : x.Fell below start s :=
  .stayed calm.within

theorem leads_binary (live : x.Live below start) (op : Opcode) (i : Instruction)
    (calm : x.Quiet start s) :
    Leads (x.binary op i) s (x.Went below start tails) (x.Fell below start) := by
  refine (keeps_operand i.b).leads_bind calm fell_of_quiet fun left s calm _ => ?_
  refine (keeps_operand i.c).leads_bind calm fell_of_quiet fun right s calm _ => ?_
  split
  · exact leads_of_keeps (keeps_setRegister _ _) calm
  · exact leads_operatorHandler live _ _ _ _ calm

theorem leads_unary (live : x.Live below start) (op : Opcode) (i : Instruction)
    (calm : x.Quiet start s) :
    Leads (x.unary op i) s (x.Went below start tails) (x.Fell below start) := by
  refine (keeps_register i.b).leads_bind calm fell_of_quiet fun operand s calm _ => ?_
  split
  · exact leads_of_keeps (keeps_setRegister _ _) calm
  · exact leads_operatorHandler live _ _ _ _ calm

theorem keeps_length (i : Instruction) : Keeps (x.Quiet start) (x.length i) Goes := by
  refine (keeps_register i.b).bind fun operand _ => ?_
  split
  · exact keeps_setRegister _ _
  · exact Keeps.look.bind fun _ _ => keeps_setRegister _ _
  · exact .typeError

theorem keeps_compare (i : Instruction) (relation : Value → Value → Option Bool) :
    Keeps inv (x.compare i relation) Goes := by
  refine (keeps_operand i.b).bind fun left _ => ?_
  refine (keeps_operand i.c).bind fun right _ => ?_
  split
  · exact .pure trivial
  · exact .typeError

theorem keeps_forLoop (i : Instruction) : Keeps (x.Quiet start) (x.forLoop i) Goes := by
  refine (keeps_register i.a).bind fun index _ => ?_
  refine (keeps_register (i.a + 1)).bind fun limit _ => ?_
  refine (keeps_register (i.a + 2)).bind fun step _ => ?_
  split
  · extract_lets index continues
    refine Keeps.ite ?_ (.pure trivial)
    refine (keeps_setRegister _ _).bind fun _ _ => ?_
    exact (keeps_setRegister _ _).bind fun _ _ => .pure trivial
  · exact .typeError

theorem keeps_forPrep (i : Instruction) : Keeps (x.Quiet start) (x.forPrep i) Goes := by
  refine (keeps_loopNumber _ _).bind fun start _ => ?_
  refine (keeps_loopNumber _ _).bind fun limit _ => ?_
  refine (keeps_loopNumber _ _).bind fun step _ => ?_
  refine (keeps_setRegister _ _).bind fun _ _ => ?_
  refine (keeps_setRegister _ _).bind fun _ _ => ?_
  exact (keeps_setRegister _ _).bind fun _ _ => .pure trivial

theorem quiet_withTop {top : Thread → Nat} (calm : x.Quiet start s)
    (above : ∀ th, x.frame.floor ≤ top th) :
    x.Quiet start (s.modifyThread x.thread fun th => th.withTop (top th)) := by
  refine Calm.modifyThread calm (Thread.reworked_withTop _ _ _) rfl (.inr ?_)
  rw [Thread.top_withTop]
  exact above _

theorem keeps_flush (source count block : Nat) (pc : Int) :
    Keeps (x.Quiet start)
      (do
        match ← getSlot x.thread source with
        | .table ref =>
          let th ← lookThread x.thread fun th => th
          modify fun s => s.modifyTable ref fun t =>
            storeItems th (source + 1) ((block - 1) * itemsPerFlush + 1) count t
          modifyThread x.thread fun th => th.withTop x.frame.top
          return .next pc
        | other => typeError x.thread (indexFailure other)) Goes := by
  refine Keeps.lookThread.bind fun items _ => ?_
  split
  · refine Keeps.lookThread.bind fun th _ => ?_
    refine (Keeps.modify fun s calm => calm.heap rfl rfl).bind fun _ _ => ?_
    refine (Keeps.modifyThread fun s calm => quiet_withTop calm fun _ => ?_).bind fun _ _ =>
      .pure trivial
    exact Nat.min_le_right _ _
  · exact .typeError

theorem keeps_setList (i : Instruction) : Keeps (x.Quiet start) (x.setList i) Goes := by
  refine Keeps.ite (Keeps.pure_any.bind fun count _ => ?_)
      (Keeps.lookThread.bind fun count _ => ?_) <;>
    exact Keeps.ite (Keeps.pure_any.bind fun block _ => keeps_flush _ _ _ _)
      ((keeps_extraWord _).bind fun block _ => keeps_flush _ _ _ _)

theorem keeps_vararg (i : Instruction) : Keeps (x.Quiet start) (x.vararg i) Goes := by
  have above := x.floor_le_slot i.a
  have copy : ∀ values : Thread → List Value, Keeps (x.Quiet start)
      (do
        modifyThread x.thread fun th => th.putAll (x.slot i.a) (values th)
        return .next x.pc) Goes := by
    refine fun values => (Keeps.modifyThread fun s calm => ?_).bind fun _ _ => .pure trivial
    exact calm.modifyThread (Thread.reworked_putAll _ _ above) (by simp) (.inl (by simp))
  refine Keeps.ite (Keeps.pure_any.bind fun _ _ => copy _) ?_
  refine (Keeps.reserve fun s calm => calm.reserve _).bind fun _ _ => ?_
  refine (Keeps.modifyThread fun s calm => quiet_withTop calm fun _ => ?_).bind fun _ _ =>
    Keeps.pure_any.bind fun _ _ => copy _
  exact Nat.le_trans above (Nat.le_add_right _ _)

theorem leads_enterRegister (live : x.Live below start) {place : Nat} (arguments : Nat)
    (wanted : Option Nat) (above : x.frame.floor ≤ place) (calm : x.Quiet start s) :
    Leads (enterCall x.thread place arguments place wanted >>= fun callee =>
      return .entered callee) s (x.Went below start tails) (x.Fell below start) := by
  have valid := Nat.lt_of_lt_of_le live.valid calm.confined.grown
  have enters : Leads (enterCall x.thread place arguments place wanted) s
      (fun callee s' => x.Went below start tails (.entered callee) s') (x.Fell below start) := by
    refine (leads_enterCall _ _ _ valid above).mono ?_ ?_
    · rintro callee s' ⟨f, fresh, -, pushed⟩
      rw [calm.confined.own.isYieldable] at fresh
      exact .entered f fresh above above fresh.delivers (pushed.after calm)
    · rintro s' rfl
      exact .stayed calm.within
  exact enters.bind fun _ _ went => .pure went

theorem leads_call (live : x.Live below start) (a b : Nat) (wanted : Option Nat)
    (calm : x.Quiet start s) :
    Leads (x.call a b wanted) s (x.Went below start tails) (x.Fell below start) := by
  refine leads_countAbove fun arguments => ?_
  have above := x.floor_le_slot a
  refine .modifyThread_bind (leads_enterRegister live _ _ above (quiet_withTop calm fun _ => ?_))
  omega

theorem leads_iterCall (live : x.Live below start) (i : Instruction) (calm : x.Quiet start s) :
    Leads (x.iterCall i) s (x.Went below start tails) (x.Fell below start) := by
  have above := x.floor_le_slot (i.a + 3)
  refine .reserve_bind (.modifyThread_bind (leads_enterRegister live _ _ above ?_))
    (.stayed calm.within)
  refine (calm.reserve _).modifyThread ?_ (by simp) (.inr ?_)
  · exact (Thread.reworked_putAll _ _ above).trans (Thread.reworked_withTop _ _ _)
  · rw [Thread.top_withTop]
    omega

theorem leads_ret (live : x.Live below start) (a b : Nat) :
    Leads (x.ret a b) start (x.Went below start tails) (x.Fell below start) := by
  obtain ⟨pc, head⟩ := live.head
  refine leads_countAbove fun count => ?_
  refine .modify_bind (.modifyThread_bind (.pure (.returned ?_ rfl)))
  have closed := Store.thread_closeCells start x.thread x.thread x.frame.base
  rw [if_pos rfl] at closed
  have valid : x.thread < (start.closeCells x.thread x.frame.base).threads.size := by
    rw [Store.threadCount_closeCells]
    exact live.valid
  have inner : ((start.closeCells x.thread x.frame.base).thread x.thread).frames =
      { x.frame with pc } :: below := by
    rw [closed]
    exact head
  exact .after (Store.confined_closeCells _ _)
    (Store.popped_finish valid inner (Nat.min_le_left _ _) (Nat.min_le_right _ _) rfl)

theorem vacate_cons {th : Thread} {f : Frame} (head : th.frames = f :: below)
    (slot arguments : Nat) :
    th.Reworked f.slot (vacate th slot arguments) ∧ (vacate th slot arguments).frames = below ∧
      f.slot ≤ (vacate th slot arguments).top := by
  simp only [vacate, head, Thread.frames_withTop, Thread.frames_clear, Thread.frames_moveSlots,
    Thread.top_withTop, true_and]
  refine ⟨?_, by omega⟩
  refine .trans ?_ (Thread.reworked_withTop _ _ _)
  refine .trans ?_ (Thread.reworked_clear _ _ (by omega))
  have dropped : th.Reworked f.slot { th with frames := below, top := slot + 1 + arguments } :=
    ⟨rfl, fun _ _ => rfl⟩
  exact dropped.trans (Thread.reworked_moveSlots _ _ _ (Nat.le_refl _))

theorem leads_tailCall_closure (live : x.Live below start) (a b : Nat) {ref : ClosureRef}
    (callee : (start.thread x.thread).get (x.slot a) = .closure ref) (calls : tails) :
    Leads (x.tailCall a b) start
      (fun flow s => x.Went below start tails flow s ∧
        s.cells = (start.closeCells x.thread x.frame.base).cells)
      (fun s => x.Fell below start s ∧
        s.cells = (start.closeCells x.thread x.frame.base).cells) := by
  obtain ⟨pc, head⟩ := live.head
  have closed := Store.thread_closeCells start x.thread x.thread x.frame.base
  rw [if_pos rfl] at closed
  have valid : x.thread < (start.closeCells x.thread x.frame.base).threads.size := by
    rw [Store.threadCount_closeCells]
    exact live.valid
  have inner : ((start.closeCells x.thread x.frame.base).thread x.thread).frames =
      { x.frame with pc } :: below := by
    rw [closed]
    exact head
  simp only [tailCall, register, getSlot]
  refine .lookThread_bind ?_
  rw [callee]
  refine leads_countAbove fun arguments => .modify_bind (.lookThread_bind ?_)
  simp only [inner, List.isEmpty_cons, Bool.false_eq_true, if_false]
  refine .modifyThread_bind ?_
  obtain ⟨reworked, frames, top⟩ := vacate_cons inner (x.slot a) arguments
  have confined : start.Confined x.thread x.frame.slot
      ((start.closeCells x.thread x.frame.base).modifyThread x.thread fun th =>
        vacate th (x.slot a) arguments) :=
    (Store.confined_closeCells _ _).trans (Store.confined_reworked reworked)
  have same := Store.thread_modifyThread_self _ (fun th => vacate th (x.slot a) arguments) valid
  have cells : ((start.closeCells x.thread x.frame.base).modifyThread x.thread fun th =>
      vacate th (x.slot a) arguments).cells = (start.closeCells x.thread x.frame.base).cells := rfl
  have count := Nat.lt_of_lt_of_le live.valid confined.grown
  rw [← same] at frames top
  generalize Store.modifyThread _ _ _ = vacated at confined frames top cells count ⊢
  have enters : Leads (enterCall x.thread x.frame.slot arguments x.frame.target x.frame.wanted)
      vacated
      (fun callee s => x.Went below start tails (.entered callee) (s.modifyThread x.thread
        Thread.markTail) ∧ s.cells = (start.closeCells x.thread x.frame.base).cells)
      (fun s => x.Fell below start s ∧
        s.cells = (start.closeCells x.thread x.frame.base).cells) := by
    refine (leads_enterCall _ _ _ count (Nat.le_refl _)).mono ?_ ?_
    · rintro callee s ⟨f, fresh, wanted, pushed⟩
      rw [confined.own.isYieldable] at fresh
      have valid := Nat.lt_of_lt_of_le count pushed.confined.grown
      have marked : (s.thread x.thread).markTail =
          { s.thread x.thread with frames := { f with isTail := true } :: below } := by
        simp only [Thread.markTail, pushed.frames, frames]
      refine ⟨.replaced { f with isTail := true } ⟨fresh.slot, fresh.target, fresh.base, fresh.top,
        fresh.kind, fresh.typed, fresh.yieldable⟩ ?_ ?_ ?_ ?_ wanted ?_ calls,
        pushed.cells.trans cells⟩
      · refine (confined.trans pushed.confined).trans (Store.confined_reworked ?_)
        rw [marked]
        exact Thread.reworked_frames _ _
      · rw [Store.thread_modifyThread_self _ _ valid, marked]
      · rw [Store.thread_modifyThread_self _ _ valid, marked]
        exact pushed.top
      · exact pushed.cells.trans cells
      · rw [Store.thread_modifyThread_self _ _ valid, marked]
        exact ⟨pushed.room.exist, pushed.room.granted⟩
    · rintro s rfl
      exact ⟨.vacated confined frames top cells, cells⟩
  exact enters.bind fun _ _ went => .modifyThread_bind (.pure went)

theorem leads_tailCall (live : x.Live below start) (a b : Nat)
    (calls : ∀ ref, (start.thread x.thread).get (x.slot a) = .closure ref → tails) :
    Leads (x.tailCall a b) start (x.Went below start tails) (x.Fell below start) := by
  by_cases closure : ∃ ref, (start.thread x.thread).get (x.slot a) = .closure ref
  · obtain ⟨ref, callee⟩ := closure
    exact (leads_tailCall_closure live a b callee (calls ref callee)).mono (fun _ _ went => went.1)
      fun _ fell => fell.1
  · simp only [tailCall, register, getSlot]
    refine .lookThread_bind ?_
    split
    · rename_i ref callee
      exact absurd ⟨ref, callee⟩ closure
    · exact leads_call live _ _ _ (.refl _ _ _)

abbrev Capturing (x : Context) (start : Store) : Store → Prop :=
  Within x.thread x.frame.floor start

theorem keeps_captureCells (live : x.Live below start) (captures : List Capture)
    (cells : Array CellRef) : Keeps (x.Capturing start) (x.captureCells captures cells) Any := by
  induction captures generalizing cells with
  | nil => exact .pure trivial
  | cons c rest ih =>
      simp only [captureCells]
      split
      · refine (Keeps.modifyGet fun s within => ?_).bind fun ref _ => ih _
        exact within.captureSlot (Nat.lt_of_lt_of_le live.valid within.confined.grown)
          (x.floor_le_slot _)
      · split
        · exact Keeps.pure_any.bind fun ref _ => ih _
        · exact Keeps.any_bind .invalid fun ref => ih _

theorem leads_makeClosure (live : x.Live below start) (i : Instruction) :
    Leads (x.makeClosure i) start (x.Went below start tails) (x.Fell below start) := by
  have made : Keeps (x.Capturing start) (x.makeClosure i) Goes := by
    simp only [makeClosure]
    split
    · exact .invalid
    · refine (keeps_captureCells live _ _).bind fun cells _ => ?_
      refine (Keeps.modifyGet fun s within => within.heap rfl rfl).bind fun ref _ => ?_
      refine Keeps.any_bind ?_ fun _ => .pure trivial
      exact Keeps.modifyThread fun s within =>
        within.modifyThread (Thread.reworked_put _ _ (x.floor_le_slot _)) rfl (.inl rfl)
  refine (made.leads (.refl _ _ _)).mono ?_ fun s after => .stayed after
  rintro flow s ⟨after, goes⟩
  cases flow with
  | next pc => exact .next pc after
  | entered => exact goes.elim
  | returned => exact goes.elim

theorem leads_jump (i : Instruction) :
    Leads (x.execute .jump i) start (x.Went below start tails) (x.Fell below start) := by
  simp only [execute]
  split
  · exact .modify_bind (.pure (.next _ ((Within.refl _ _ _).closeCells _)))
  · exact .pure (.next _ (.refl _ _ _))

theorem keeps_move (i : Instruction) : Keeps (x.Quiet start) (x.execute .move i) Goes :=
  (keeps_register _).bind fun _ _ => keeps_setRegister _ _

theorem keeps_loadKX (i : Instruction) : Keeps (x.Quiet start) (x.execute .loadKX i) Goes := by
  refine (keeps_extraWord _).bind fun index _ => ?_
  exact (keeps_setRegister _ _).bind fun _ _ => .pure trivial

theorem keeps_loadNil (i : Instruction) : Keeps (x.Quiet start) (x.execute .loadNil i) Goes := by
  refine (Keeps.modifyThread fun s calm => ?_).bind fun _ _ => .pure trivial
  exact calm.modifyThread (Thread.reworked_clear _ _ (x.floor_le_slot _)) rfl (.inl rfl)

theorem keeps_newTable (i : Instruction) : Keeps (x.Quiet start) (x.execute .newTable i) Goes := by
  refine (Keeps.modifyGet fun s calm => calm.heap rfl rfl).bind fun ref _ => ?_
  exact keeps_setRegister _ _

theorem keeps_testSet (i : Instruction) : Keeps (x.Quiet start) (x.execute .testSet i) Goes := by
  refine (keeps_register _).bind fun value _ => ?_
  exact Keeps.ite (.pure trivial) (keeps_setRegister _ _)

theorem keeps_iterLoop (i : Instruction) : Keeps (x.Quiet start) (x.execute .iterLoop i) Goes := by
  refine (keeps_register _).bind fun control _ => ?_
  refine Keeps.ite (.pure trivial) ?_
  exact (keeps_setRegister _ _).bind fun _ _ => .pure trivial

/-- Every instruction but an assignment to a captured variable goes on in its frame, enters a call,
gives its frame up to one or returns. -/
theorem leads_execute (live : x.Live below start) (op : Opcode) (i : Instruction)
    (other : op ≠ .setCell)
    (calls : op = .tailCall → ∀ ref, (start.thread x.thread).get (x.slot i.a) = .closure ref →
      tails) :
    Leads (x.execute op i) start (x.Went below start tails) (x.Fell below start) := by
  have calm : x.Quiet start start := .refl _ _ _
  have stays : ∀ {action : Action Flow}, Keeps (x.Quiet start) action Goes →
      Leads action start (x.Went below start tails) (x.Fell below start) :=
    fun keeps => leads_of_keeps keeps calm
  cases op with
  | setCell => exact absurd rfl other
  | move => exact stays (keeps_move i)
  | loadK => exact stays (keeps_setRegister _ _)
  | loadKX => exact stays (keeps_loadKX i)
  | loadBool => exact stays ((keeps_setRegister _ _).bind fun _ _ => .pure trivial)
  | loadNil => exact stays (keeps_loadNil i)
  | getCell => exact stays ((keeps_readCell _).bind fun _ _ => keeps_setRegister _ _)
  | getTabCell =>
      refine (keeps_readCell _).leads_bind calm fell_of_quiet fun object s calm _ => ?_
      refine (keeps_operand _).leads_bind calm fell_of_quiet fun key s calm _ => ?_
      exact leads_getField live _ _ _ calm
  | getTable =>
      refine (keeps_register _).leads_bind calm fell_of_quiet fun object s calm _ => ?_
      refine (keeps_operand _).leads_bind calm fell_of_quiet fun key s calm _ => ?_
      exact leads_getField live _ _ _ calm
  | setTabCell =>
      refine (keeps_readCell _).leads_bind calm fell_of_quiet fun object s calm _ => ?_
      refine (keeps_operand _).leads_bind calm fell_of_quiet fun key s calm _ => ?_
      refine (keeps_operand _).leads_bind calm fell_of_quiet fun value s calm _ => ?_
      exact leads_setField live _ _ _ calm
  | setTable =>
      refine (keeps_register _).leads_bind calm fell_of_quiet fun object s calm _ => ?_
      refine (keeps_operand _).leads_bind calm fell_of_quiet fun key s calm _ => ?_
      refine (keeps_operand _).leads_bind calm fell_of_quiet fun value s calm _ => ?_
      exact leads_setField live _ _ _ calm
  | newTable => exact stays (keeps_newTable i)
  | selfCall =>
      refine (keeps_register _).leads_bind calm fell_of_quiet fun object s calm _ => ?_
      refine (keeps_operand _).leads_bind calm fell_of_quiet fun key s calm _ => ?_
      refine (keeps_setRegister _ _).leads_bind calm fell_of_quiet fun _ s calm _ => ?_
      exact leads_getField live _ _ _ calm
  | add | sub | mul | mod | pow | div | intDiv | bitAnd | bitOr | bitXor | shiftLeft
  | shiftRight => exact leads_binary live _ i calm
  | neg | bitNot => exact leads_unary live _ i calm
  | logicalNot => exact stays ((keeps_register _).bind fun _ _ => keeps_setRegister _ _)
  | length => exact stays (keeps_length i)
  | concat => exact stays ((keeps_concatFrom _ _ _).bind fun _ _ => keeps_setRegister _ _)
  | jump => exact leads_jump i
  | eq => exact stays (keeps_compare i fun left right => some (left.same right))
  | lt => exact stays (keeps_compare i lessThan?)
  | le => exact stays (keeps_compare i lessEqual?)
  | test => exact stays ((keeps_register _).bind fun _ _ => .pure trivial)
  | testSet => exact stays (keeps_testSet i)
  | call => exact leads_call live _ _ _ calm
  | tailCall => exact leads_tailCall live _ _ (calls rfl)
  | ret => exact leads_ret live _ _
  | forLoop => exact stays (keeps_forLoop i)
  | forPrep => exact stays (keeps_forPrep i)
  | iterCall => exact leads_iterCall live i calm
  | iterLoop => exact stays (keeps_iterLoop i)
  | setList => exact stays (keeps_setList i)
  | closure => exact leads_makeClosure live i
  | vararg => exact stays (keeps_vararg i)
  | extraArg => exact stays .invalid

def Remains (flow : Flow) : Prop := flow ≠ .returned

theorem keeps_setRegister_remains (i : Nat) (value : Value) :
    Keeps (fun _ => True) (x.setRegister i value) Remains :=
  Keeps.always.any_bind fun _ => .pure nofun

theorem keeps_enterHandler (handler : Value) (values : List Value) (target : Option Nat) :
    Keeps (fun _ => True) (x.enterHandler handler values target) Remains := by
  refine Keeps.always.any_bind fun _ => Keeps.always.any_bind fun _ =>
    Keeps.always.any_bind fun _ => ?_
  split <;> exact Keeps.always.any_bind fun _ => .pure nofun

theorem keeps_getField (object key : Value) (register : Nat) :
    Keeps (fun _ => True) (x.getField object key register) Remains := by
  refine Keeps.always.any_bind fun lookup => ?_
  split
  · exact keeps_setRegister_remains _ _
  · exact keeps_enterHandler _ _ _
  · exact .typeError

theorem keeps_setField (object key value : Value) :
    Keeps (fun _ => True) (x.setField object key value) Remains := by
  refine Keeps.always.any_bind fun lookup => ?_
  split
  · split
    · exact .typeError
    · exact Keeps.always.any_bind fun _ => .pure nofun
  · exact keeps_enterHandler _ _ _
  · exact .typeError

theorem keeps_operatorHandler (op : Opcode) (left right : Value) (register : Nat) :
    Keeps (fun _ => True) (x.operatorHandler op left right register) Remains := by
  refine Keeps.always.any_bind fun handler => ?_
  split
  · exact keeps_enterHandler _ _ _
  · exact .typeError

theorem keeps_binary (op : Opcode) (i : Instruction) :
    Keeps (fun _ => True) (x.binary op i) Remains := by
  refine Keeps.always.any_bind fun left => Keeps.always.any_bind fun right => ?_
  split
  · exact keeps_setRegister_remains _ _
  · exact keeps_operatorHandler _ _ _ _

theorem keeps_unary (op : Opcode) (i : Instruction) :
    Keeps (fun _ => True) (x.unary op i) Remains := by
  refine Keeps.always.any_bind fun operand => ?_
  split
  · exact keeps_setRegister_remains _ _
  · exact keeps_operatorHandler _ _ _ _

theorem keeps_call (a b : Nat) (wanted : Option Nat) :
    Keeps (fun _ => True) (x.call a b wanted) Remains :=
  Keeps.always.any_bind fun _ => Keeps.always.any_bind fun _ => Keeps.always.any_bind fun _ =>
    .pure nofun

theorem keeps_tailCall (a b : Nat) : Keeps (fun _ => True) (x.tailCall a b) Remains := by
  refine Keeps.always.any_bind fun callee => ?_
  split
  · refine Keeps.always.any_bind fun _ => Keeps.always.any_bind fun _ =>
      Keeps.always.any_bind fun _ => .ite .invalid ?_
    exact Keeps.always.any_bind fun _ => Keeps.always.any_bind fun _ =>
      Keeps.always.any_bind fun _ => .pure nofun
  · exact keeps_call _ _ _

theorem leads_remains (op : Opcode) (i : Instruction) (other : op ≠ .ret) (s : Store) :
    Leads (x.execute op i) s (fun flow _ => Remains flow) (fun _ => True) := by
  have stays : ∀ {action : Action Flow}, Keeps (x.Quiet s) action Goes →
      Leads action s (fun flow _ => Remains flow) (fun _ => True) := by
    intro action keeps
    refine (keeps.leads (.refl _ _ _)).mono ?_ fun _ _ => trivial
    rintro flow _ ⟨-, goes⟩ rfl
    exact goes
  have leaves : ∀ {action : Action Flow}, Keeps (fun _ => True) action Remains →
      Leads action s (fun flow _ => Remains flow) (fun _ => True) :=
    fun keeps => (keeps.leads trivial).mono (fun _ _ after => after.2) fun _ _ => trivial
  cases op with
  | ret => exact absurd rfl other
  | move => exact stays (keeps_move i)
  | loadK => exact stays (keeps_setRegister _ _)
  | loadKX => exact stays (keeps_loadKX i)
  | loadBool => exact stays ((keeps_setRegister _ _).bind fun _ _ => .pure trivial)
  | loadNil => exact stays (keeps_loadNil i)
  | getCell => exact stays ((keeps_readCell _).bind fun _ _ => keeps_setRegister _ _)
  | getTabCell | getTable =>
      exact leaves (Keeps.always.any_bind fun _ => Keeps.always.any_bind fun _ =>
        keeps_getField _ _ _)
  | setTabCell | setTable =>
      exact leaves (Keeps.always.any_bind fun _ => Keeps.always.any_bind fun _ =>
        Keeps.always.any_bind fun _ => keeps_setField _ _ _)
  | setCell =>
      exact leaves (Keeps.always.any_bind fun _ => Keeps.always.any_bind fun _ =>
        Keeps.always.any_bind fun _ => .pure nofun)
  | newTable => exact stays (keeps_newTable i)
  | selfCall =>
      exact leaves (Keeps.always.any_bind fun _ => Keeps.always.any_bind fun _ =>
        Keeps.always.any_bind fun _ => keeps_getField _ _ _)
  | add | sub | mul | mod | pow | div | intDiv | bitAnd | bitOr | bitXor | shiftLeft
  | shiftRight => exact leaves (keeps_binary _ i)
  | neg | bitNot => exact leaves (keeps_unary _ i)
  | logicalNot => exact stays ((keeps_register _).bind fun _ _ => keeps_setRegister _ _)
  | length => exact stays (keeps_length i)
  | concat => exact stays ((keeps_concatFrom _ _ _).bind fun _ _ => keeps_setRegister _ _)
  | jump =>
      refine leaves ?_
      simp only [execute]
      split
      · exact Keeps.always.any_bind fun _ => .pure nofun
      · exact .pure nofun
  | eq => exact stays (keeps_compare i fun left right => some (left.same right))
  | lt => exact stays (keeps_compare i lessThan?)
  | le => exact stays (keeps_compare i lessEqual?)
  | test => exact stays ((keeps_register _).bind fun _ _ => .pure trivial)
  | testSet => exact stays (keeps_testSet i)
  | call => exact leaves (keeps_call _ _ _)
  | tailCall => exact leaves (keeps_tailCall _ _)
  | forLoop => exact stays (keeps_forLoop i)
  | forPrep => exact stays (keeps_forPrep i)
  | iterCall =>
      exact leaves (Keeps.always.any_bind fun _ => Keeps.always.any_bind fun _ =>
        Keeps.always.any_bind fun _ => .pure nofun)
  | iterLoop => exact stays (keeps_iterLoop i)
  | setList => exact stays (keeps_setList i)
  | closure =>
      refine leaves ?_
      simp only [execute, makeClosure]
      split
      · exact .invalid
      · exact Keeps.always.any_bind fun _ => Keeps.always.any_bind fun _ =>
          keeps_setRegister_remains _ _
  | vararg => exact stays (keeps_vararg i)
  | extraArg => exact stays .invalid

theorem execute_setCell (x : Context) (i : Instruction) (s : Store) :
    x.execute .setCell i s =
      match x.closure.cells[i.b]? with
      | some ref => .ok (.next x.pc) (s.writeCell ref ((s.thread x.thread).get (x.slot i.a)))
      | none => .error (.invalid ("no upvalue " ++ toString i.b)) s := by
  simp only [execute, register, getSlot, cell]
  cases x.closure.cells[i.b]? with
  | some ref => rfl
  | none => rfl

end Context

end RegisterVm
