import RegisterVm.Proofs.Flow.Instructions
import RegisterVm.Proofs.Machine.Steps

/-!
Every step of a machine leaves all frames on their code. Most steps only drop frames or enter calls;
the turn of a script moves its innermost frame, and fetches outside the code only where the
instruction that has been run sends the frame there.
-/

namespace RegisterVm

variable {s start : Store} {t : ThreadRef} {activities rest : List Activity} {f : Frame}
  {below : List Frame}

def Prototype.Misleads (p : Prototype) (pc : Nat) (e : Error) : Prop :=
  ∃ i op target, p.code[pc]? = some i ∧ i.opcode? = some op ∧
    target ∈ i.targets op (pc + 1 : Nat) ∧ ¬(0 ≤ target ∧ target < p.code.size) ∧
    e = Machine.pastEnd target

structure Machine.Tracked (p : Prototype) (pc : Nat) (m : Machine) : Prop where
  onCode : m.store.OnCode
  strays : p.endsInReturn → ∀ e, m.control = .fail e → e.Stray → p.Misleads pc e

namespace Machine.Tracked

variable {p : Prototype} {pc : Nat}

theorem run (onCode : s.OnCode) : Tracked p pc ⟨s, activities, .run⟩ := ⟨onCode, nofun⟩

theorem enter (onCode : s.OnCode) (body : NativeBody) : Tracked p pc ⟨s, activities, .enter t body⟩ :=
  ⟨onCode, nofun⟩

theorem fail (onCode : s.OnCode) {e : Error} (other : ¬e.Stray) :
    Tracked p pc ⟨s, activities, .fail e⟩ := by
  refine ⟨onCode, fun _ e' fails stray => absurd stray ?_⟩
  exact Control.fail.inj fails ▸ other

end Machine.Tracked

theorem Context.leads_stays {x : Context} (live : x.Live below s) (op : Opcode) (i : Instruction) :
    Leads (x.execute op i) s (fun flow s' => ∀ pc, flow = .next pc →
      ∃ current, (s'.thread x.thread).frames = { x.frame with pc := current } :: below)
      (fun _ => True) := by
  obtain ⟨current, head⟩ := live.head
  -- An assignment to a captured variable may write into any thread; all others keep to their own.
  by_cases assigns : op = .setCell
  · subst assigns
    simp only [Leads, execute_setCell]
    cases x.closure.cells[i.b]? with
    | none => trivial
    | some cell =>
        intro _ _
        obtain ⟨stack, written⟩ := Store.thread_writeCell s cell
          ((s.thread x.thread).get (x.slot i.a)) x.thread
        exact ⟨current, by rw [written, head]⟩
  · have went : Leads (x.execute op i) s (x.Went below s True) (x.Fell below s) :=
      leads_execute live op i assigns fun _ _ _ => trivial
    refine went.mono ?_ fun _ _ => trivial
    rintro flow s' went pc rfl
    cases went with
    | next _ within => exact ⟨current, within.frames.trans head⟩

theorem Store.OnCode.leads_ret (onCode : s.OnCode) (head : (s.thread t).frames = f :: below)
    (pc next : Nat) (closure : Closure) (a b : Nat) :
    Leads (Context.ret ⟨t, f, closure, next⟩ a b) (s.modifyThread t fun th => th.setPc pc)
      (fun flow s' => flow = .returned ∧ s'.OnCode) (fun _ => False) := by
  refine Context.leads_countAbove fun count => .modify_bind (.modifyThread_bind (.pure ⟨rfl, ?_⟩))
  refine onCode.keep (.of_eq (Store.closures_closeCells _ _ _)) fun r => ?_
  have valid := Store.lt_of_frames head
  by_cases same : r = t
  · subst same
    have closed : (((s.modifyThread r fun th => th.setPc pc).closeCells r f.base).thread r).frames =
        { f with pc } :: below := by
      rw [Store.frames_closeCells, Machine.thread_setPc valid head]
    rw [Store.thread_modifyThread_self _ _ (Store.lt_of_frames closed),
      Thread.frames_finish _ closed, head]
    exact List.suffix_cons f below
  · refine suffix_of_eq ?_
    rw [Store.thread_modifyThread_other _ _ same, Store.frames_closeCells,
      Store.thread_modifyThread_other _ _ same]

namespace Machine

theorem perform_onCode {α : Type} {action : Action α} {post : α → Prop}
    {k : Store → α → Machine} (onCode : s.OnCode) (sure : Sure s action post)
    (goes : ∀ a s', s'.OnCode → post a → (k s' a).store.OnCode) :
    (perform s activities action k).store.OnCode :=
  perform_elim (p := fun m => m.store.OnCode) (sure.leads (.refl onCode))
    (fun a s' after => goes a s' after.1.onCode after.2) fun _ _ after => after.onCode

section Calls

theorem sure_enterFrom (slot arguments : Nat) (wanted : Option Nat) :
    Sure start (enterFrom t slot arguments wanted) Any :=
  Sure.lookThread.any_bind fun _ =>
    (Sure.enterCall _ _ _ _).any_bind fun _ => .pure_any

theorem sure_layOut (callee : Value) (values : Array Value) :
    Sure start (layOut t callee values) Any := by
  refine Sure.lookThread.any_bind fun slot => Sure.reserve.any_bind fun _ => ?_
  exact (Sure.modifyThread fun th => .of_eq (by simp)).any_bind fun _ => .pure_any

theorem sure_layOutEntry (values : Array Value) : Sure start (layOutEntry t values) Any :=
  Sure.reserve.any_bind fun _ => .modifyThread fun th => .of_eq (by simp)

theorem sure_deliverYield (values : Array Value) : Sure start (deliverYield t values) Any := by
  refine (Sure.modifyThread fun _ => .of_eq (by rfl)).any_bind fun _ => ?_
  refine Sure.lookThread.any_bind fun base => Sure.reserve.any_bind fun _ => ?_
  refine .modifyThread fun th => ?_
  have laid : ((th.putAll base values.toList).withTop (base + values.size)).frames = th.frames := by
    simp
  rw [Thread.Stays, ← laid]
  exact Thread.stays_finish _ _ _

theorem sure_finishNative (count : Nat) : Sure start (finishNative t count) Any := by
  refine .modifyThread fun th => ?_
  split
  · exact .of_eq rfl
  · exact Thread.stays_finish th _ _

theorem sure_takeResults (slot : Nat) : Sure start (takeResults t slot) Any :=
  Sure.lookThread.any_bind fun _ =>
    (Sure.modifyThread fun _ => .of_eq (by rfl)).any_bind fun _ => .pure_any

variable (onCode : s.OnCode)

include onCode

theorem beginCall_onCode (slot arguments : Nat) (wanted : Option Nat) :
    (beginCall s activities t slot arguments wanted).store.OnCode := by
  refine perform_onCode onCode (sure_enterFrom slot arguments wanted) ?_
  rintro ⟨floor, callee⟩ s' after -
  cases callee <;> exact after

theorem mark_onCode {f : Thread → Thread} (frames : ∀ th, (f th).frames = th.frames) :
    (s.modifyThread t f).OnCode :=
  onCode.stays (.of_eq (frames _))

theorem beginGuardedCall_onCode (slot arguments : Nat) :
    (beginGuardedCall s activities t slot arguments).store.OnCode :=
  beginCall_onCode (mark_onCode (f := pin) onCode fun _ => rfl) _ _ _

theorem beginValueCall_onCode (callee : Value) (values : Array Value) :
    (beginValueCall s activities t callee values).store.OnCode :=
  perform_onCode onCode (sure_layOut callee values) fun _ _ after _ =>
    beginCall_onCode (mark_onCode (f := pin) after fun _ => rfl) _ _ _

theorem beginResumption_onCode (values : Array Value) :
    (beginResumption s activities t values).store.OnCode := by
  have woken : (s.modifyThread t fun th => { th with status := .running, held := true }).OnCode :=
    mark_onCode onCode fun _ => rfl
  simp only [beginResumption]
  split
  · refine perform_onCode woken (sure_layOutEntry values) fun _ s₁ laid _ => ?_
    refine perform_onCode laid (Sure.enterCall _ _ _ _) fun callee s₂ entered _ => ?_
    cases callee <;> exact entered
  · refine perform_onCode woken (sure_deliverYield values) fun _ s₁ delivered _ => ?_
    split <;> exact delivered
  · exact onCode
  · exact onCode

theorem settle_onCode (outcome : NativeOutcome) :
    (settle s activities t outcome).store.OnCode := by
  cases outcome with
  | returns count => exact perform_onCode onCode (sure_finishNative count) fun _ _ after _ => after
  | calls callee values restoring next =>
      simp only [settle]
      split <;> exact beginValueCall_onCode onCode callee values
  | protects slot arguments next => exact beginGuardedCall_onCode onCode slot arguments
  | resumes co values next => exact beginResumption_onCode onCode values

end Calls

section Natives

structure Idles (t : ThreadRef) (start s : Store) : Prop extends Calm t 0 start s where
  closures : s.closures = start.closures

namespace Idles

theorem refl (t : ThreadRef) (s : Store) : Idles t s s := ⟨.refl t 0 s, rfl⟩

theorem onCode (idles : Idles t start s) (onCode : start.OnCode) : s.OnCode := by
  have spares := Store.Spares.of_local idles.confined.toLocal (.of_eq idles.closures)
  refine onCode.keep spares.extended fun r => ?_
  by_cases same : r = t
  · exact same ▸ suffix_of_eq idles.frames
  · exact spares.others r same

theorem of_keeps {α : Type} {action : Action α} {post : α → Prop}
    (calm : Keeps (Calm t 0 start) action post)
    (same : Keeps (fun s => s.closures = start.closures) action Any) :
    Keeps (Idles t start) action post := fun _ idles =>
  ((calm.leads idles.toCalm).and (same.leads idles.closures)).mono
    (fun _ _ after => ⟨⟨after.1.1, after.2.1⟩, after.1.2⟩) fun _ after => ⟨after.1, after.2⟩

theorem keeps_push (value : Value) : Keeps (Idles t start) (push t value) Any := by
  refine of_keeps (Calm.keeps_push (Nat.zero_le _) value) ?_
  refine Keeps.lookThread.bind fun top _ => ?_
  exact (Keeps.reserve fun _ same => same).bind fun _ _ => Keeps.modifyThread fun _ same => same

theorem keeps_newCoroutine (valid : t < start.threads.size) (entry : Value) :
    Keeps (Idles t start) (Coroutine.newCoroutine t entry) Any :=
  of_keeps (Coroutine.keeps_newCoroutine valid entry) (Keeps.modifyGet fun _ same => same)

theorem permits (valid : t < start.threads.size) : Permits t 0 start (Idles t start) where
  calm := toCalm
  heap idles cells threads closures :=
    ⟨idles.toCalm.heap cells threads, closures.trans idles.closures⟩
  push := keeps_push
  newCoroutine := keeps_newCoroutine valid

theorem keeps_pcallResults (success : Bool) :
    Keeps (Idles t start) (Basic.pcallResults t success) (Leaves t start True) := by
  refine of_keeps (Basic.keeps_pcallResults (Nat.zero_le _) success) ?_
  refine Keeps.lookThread.bind fun base _ => Keeps.lookThread.bind fun count _ => ?_
  exact (Keeps.modifyThread fun _ same => same).bind fun _ _ => Keeps.pure_any

end Idles

theorem native_onCode (onCode : s.OnCode) {action : Action NativeOutcome}
    (keeps : Keeps (Idles t s) action (Leaves t s True)) :
    (perform s activities action fun s outcome => settle s activities t outcome).store.OnCode :=
  perform_elim (p := fun m => m.store.OnCode) (keeps.leads (.refl t s))
    (fun outcome _ after => settle_onCode (after.1.onCode onCode) outcome)
    fun _ _ after => after.onCode onCode

theorem enter_onCode (onCode : s.OnCode) (valid : t < s.threads.size) (body : NativeBody) :
    (perform s activities (body.enter .bare t) fun s outcome =>
      settle s activities t outcome).store.OnCode := by
  by_cases yields : body = .builtin .yield
  · subst yields
    refine perform_elim (p := fun m => m.store.OnCode) (leads_yieldArguments t s) ?_ ?_
    · rintro outcome s' ⟨-, yielded⟩
      have marked : s'.OnCode := by
        rw [yielded.store]
        exact mark_onCode onCode fun _ => rfl
      exact settle_onCode marked outcome
    · rintro e s' rfl
      exact onCode
  · exact native_onCode onCode
      (body.keeps_enter yields (Idles.permits valid) fun _ => trivial)

end Natives

section Ends

variable (onCode : s.OnCode)

include onCode

theorem unwind_onCode (level depth : Nat) : (s.unwind t level depth).OnCode := by
  refine ((Store.Upholds.refl onCode).closeCells t level).onCode.stays (.of_suffix ?_)
  exact List.drop_suffix _ _

theorem endResumption_onCode : (endResumption s rest t).store.OnCode := by
  simp only [endResumption]
  split <;> exact mark_onCode onCode fun _ => rfl

theorem succeed_onCode {top : Activity} {values : Array Value}
    (real : Real ⟨s, top :: rest, .done values⟩) :
    (succeed .bare s top rest values).store.OnCode := by
  cases top with
  | script t floor =>
      simp only [succeed]
      split <;> exact onCode
  | native t next =>
      exact native_onCode onCode (next.keeps_succeed (Idles.permits real)
        (fun _ => Idles.keeps_pcallResults) values)
  | collect t slot =>
      exact perform_onCode onCode (sure_takeResults slot) fun _ _ after _ => after
  | restore => exact onCode
  | guard => exact mark_onCode (f := unpin) onCode fun _ => rfl
  | resumption t => exact endResumption_onCode onCode

theorem failTop_onCode {top : Activity} {e : Error} (real : Real ⟨s, top :: rest, .fail e⟩) :
    (failTop .bare s top rest e).store.OnCode := by
  cases top with
  | script => exact onCode
  | native t next =>
      exact native_onCode onCode (next.keeps_fail (Idles.permits real) e)
  | collect => exact mark_onCode (f := unpin) onCode fun _ => rfl
  | restore => exact unwind_onCode onCode _ _
  | guard t slot depth =>
      have unpinned : (s.modifyThread t unpin).OnCode := mark_onCode onCode fun _ => rfl
      simp only [failTop]
      split
      · exact mark_onCode (f := fun th => (th.put slot e.value).withTop (slot + 1))
          (unwind_onCode unpinned slot depth) fun _ => rfl
      · exact unpinned
  | resumption t =>
      refine ((Store.Upholds.refl onCode).closeCells t 0).onCode.stays (.of_suffix ?_)
      exact List.nil_suffix

end Ends

section Running

variable (onCode : s.OnCode) (head : (s.thread t).frames = f :: below)

include onCode head

theorem setPc_onCode {pc : Nat} (inside : ∀ ref, f.callee = .closure ref → ref < s.closures.size ∧
      ((s.closure ref).prototype.endsInReturn → pc < (s.closure ref).prototype.code.size)) :
    (s.modifyThread t fun th => th.setPc pc).OnCode := by
  refine onCode.modifyThread fun g member => ?_
  rw [Thread.setPc_cons head] at member
  rcases List.mem_cons.1 member with rfl | member
  · exact fun ref callee => .inr (inside ref callee)
  · exact onCode t g (by simp [head, member])

variable {ref : ClosureRef} (callee : f.callee = .closure ref)

include callee

theorem goTo_tracked {p : Prototype} {i : Instruction} {op : Opcode} {at' : Nat}
    (known : ref < s.closures.size) (own : (s.closure ref).prototype = p)
    (code : p.code[at']? = some i) (opcode : i.opcode? = some op) (goes : op ≠ .ret) {pc : Int}
    (heads : pc = (at' + 1 : Nat) ∨ pc ∈ i.targets op (at' + 1 : Nat)) :
    Tracked p at' (goTo s activities t p.code.size (at' + 1) pc) := by
  simp only [goTo]
  split
  · rename_i inside
    simp only [Bool.and_eq_true, decide_eq_true_eq] at inside
    split
    · exact .run onCode
    · refine .run (setPc_onCode onCode head fun ref' callee' => ?_)
      obtain rfl := Value.closure.inj (callee.symm.trans callee')
      refine ⟨known, fun _ => ?_⟩
      rw [own]
      omega
  · rename_i outside
    simp only [Bool.and_eq_true, decide_eq_true_eq] at outside
    refine ⟨onCode, fun returns e fails _ => ?_⟩
    obtain rfl : pastEnd pc = e := Control.fail.inj fails
    have behind := Prototype.next_inside returns code fun same => goes (by simpa [opcode] using same)
    rcases heads with rfl | target
    · omega
    · exact ⟨i, op, pc, code, opcode, target, outside, rfl⟩

omit head in
theorem execute_tracked {i : Instruction} {op : Opcode} {closure : Closure}
    (head : (s.thread t).frames = { f with pc := f.pc + 1 } :: below) (known : ref < s.closures.size)
    (own : s.closure ref = closure) (code : closure.prototype.code[f.pc]? = some i)
    (opcode : i.opcode? = some op) (goes : op ≠ .ret) :
    Tracked closure.prototype f.pc
      (perform s activities (Context.execute ⟨t, f, closure, f.pc + 1⟩ op i) fun s flow =>
        match flow with
        | .next pc => goTo s activities t closure.prototype.code.size (f.pc + 1) pc
        | .entered .script => ⟨s, activities, .run⟩
        | .entered (.native body) => ⟨s, activities, .enter t body⟩
        | .returned => ⟨s, activities, .run⟩) := by
  have live : Context.Live ⟨t, f, closure, f.pc + 1⟩ below s :=
    ⟨Store.lt_of_frames head, f.pc + 1, head⟩
  have sure := Context.sure_execute (x := ⟨t, f, closure, f.pc + 1⟩) op i goes s (.refl onCode)
  have stays := Context.leads_stays live op i
  simp only [Leads] at stays
  simp only [perform]
  cases result : Context.execute ⟨t, f, closure, f.pc + 1⟩ op i s with
  | ok flow s' =>
      rw [result] at sure stays
      obtain ⟨upholds, heads⟩ := sure
      cases flow with
      | next pc =>
          obtain ⟨current, head⟩ := stays pc rfl
          have kept := upholds.extended.kept ref known
          exact goTo_tracked upholds.onCode head callee
            (Nat.lt_of_lt_of_le known upholds.extended.grown) (by rw [kept, own]) code opcode goes
            (heads pc rfl)
      | entered callee =>
          cases callee with
          | script => exact .run upholds.onCode
          | native body => exact .enter upholds.onCode body
      | returned => exact .run upholds.onCode
  | error e s' =>
      rw [result] at sure
      exact .fail sure.1.onCode sure.2

theorem runInstruction_tracked : Tracked (s.closure ref).prototype f.pc
    (runInstruction s activities t f (s.closure ref)) := by
  simp only [runInstruction]
  split
  · rename_i missing
    refine ⟨onCode, fun returns _ _ _ => ?_⟩
    have inside := (onCode t f (by simp [head])).lt_size callee returns
    rw [Array.getElem?_eq_getElem inside] at missing
    contradiction
  · rename_i i code
    have known : ref < s.closures.size := by
      by_contra unknown
      simp [Store.closure, Array.getElem?_eq_none (Nat.not_lt.1 unknown), Prototype.empty] at code
    -- There may be nothing behind a return: its frame is off the code until it is dropped.
    by_cases returns : i.opcode? = some .ret
    · simp only [returns]
      refine perform_elim (p := Tracked _ _)
        (onCode.leads_ret head (f.pc + 1) (f.pc + 1) (s.closure ref) i.a i.b) ?_
        fun _ _ impossible => impossible.elim
      rintro _ s' ⟨rfl, after⟩
      exact .run after
    · have advanced : (s.modifyThread t fun th => th.setPc (f.pc + 1)).OnCode := by
        refine setPc_onCode onCode head fun ref' callee' => ?_
        obtain rfl := Value.closure.inj (callee.symm.trans callee')
        exact ⟨known, fun ends => Prototype.next_inside ends code returns⟩
      have moved := thread_setPc (Store.lt_of_frames head) head (f.pc + 1)
      split
      · exact .fail advanced (Error.not_stray (by simp))
      · rename_i op opcode
        exact execute_tracked advanced callee (by rw [moved]) known rfl code opcode
          fun same => returns (by rw [opcode, same])

end Running

theorem runScript_onCode (onCode : s.OnCode) (rest : List Activity) (t : ThreadRef) (floor : Nat) :
    (runScript s rest t floor).store.OnCode := by
  have turn := runScript_turn s rest t floor
  generalize runScript s rest t floor = next at turn ⊢
  cases turn with
  | spent => exact onCode
  | runs head inside callee => exact (runInstruction_tracked onCode head callee).onCode
  | astray => exact onCode

theorem step_onCode {m : Machine} (onCode : m.store.OnCode) (real : m.Real) :
    (m.step .bare).store.OnCode := by
  obtain ⟨s, activities, control⟩ := m
  cases control with
  | enter t body => exact enter_onCode onCode real body
  | run =>
      cases activities with
      | nil => exact onCode
      | cons top rest =>
          cases top with
          | script t floor => exact runScript_onCode onCode rest t floor
          | _ => exact onCode
  | done values =>
      cases activities with
      | nil => exact onCode
      | cons top rest => exact succeed_onCode onCode real
  | fail e =>
      cases activities with
      | nil => exact onCode
      | cons top rest => exact failTop_onCode onCode real

end Machine

end RegisterVm
