import RegisterVm.Proofs.Coroutine.Idle
import RegisterVm.Proofs.Flow.Steps
import RegisterVm.Proofs.Lifetime.Reachable
import RegisterVm.Proofs.Prototype.Canonical

/-!
Functions that were loaded run within their code. That the code ends in a return keeps a frame from
walking off the end, in every machine that a host can come to; only an instruction that points outside
the code itself sends its frame there.
-/

namespace RegisterVm

open Relation

variable {limits : Limits} {s : Store}

namespace Machine

def Preserves (m m' : Machine) : Prop :=
  Next m m' ∧ (m.activities = [] → m'.activities = [] → m.store.Extends m'.store)

def Hosted (limits : Limits) : Machine → Prop := ReflTransGen Preserves (initial limits)

def Runs (m : Machine) (p : Prototype) (pc : Nat) : Prop :=
  ∃ t floor rest f below ref, m.activities = .script t floor :: rest ∧ m.control = .run ∧
    (m.store.thread t).frames = f :: below ∧ floor ≤ below.length ∧ f.callee = .closure ref ∧
    (m.store.closure ref).prototype = p ∧ f.pc = pc

variable {m m' : Machine} {p : Prototype} {pc : Nat}

theorem Hosted.reachable (hosted : m.Hosted limits) : m.Reachable limits :=
  hosted.lift id fun _ _ preserves => preserves.1

theorem onCode_initial (limits : Limits) : (initial limits).store.OnCode := by
  intro t f member
  have thread := Store.thread_newThread (Store.empty.newTable .empty).2 (.new true 0 limits) t
  change f ∈ (((Store.empty.newTable .empty).2.newThread (.new true 0 limits)).2.thread t).frames
    at member
  rw [thread] at member
  split at member
  · exact absurd member List.not_mem_nil
  · rw [Store.thread_invalid _ (Nat.zero_le t)] at member
    exact absurd member List.not_mem_nil

theorem newCoroutine_onCode (onCode : s.OnCode) (globals : TableRef) (limits : Limits)
    (entry : Value) : (s.newCoroutine globals limits entry).2.OnCode := by
  intro r f member
  rw [Store.newCoroutine, Store.thread_newThread] at member
  split at member
  · exact absurd member List.not_mem_nil
  · exact (onCode r f member).extend (.of_eq rfl)

theorem setHeld_onCode (onCode : s.OnCode) (t : ThreadRef) (held : Bool) :
    (Engine.setHeld s t held).OnCode :=
  mark_onCode (f := fun th => { th with held }) onCode fun _ => rfl

theorem Preserves.onCode (preserves : Preserves m m') (healthy : m.Healthy)
    (onCode : m.store.OnCode) : m'.store.OnCode := by
  obtain ⟨next, extended⟩ := preserves
  cases next with
  | step m => exact step_onCode onCode healthy.real
  | drop m t => exact ((Store.Upholds.refl onCode).closeCells t 0).onCode
  | @heap s s' control cells threads =>
      refine onCode.keep (extended rfl rfl) fun r => suffix_of_eq ?_
      rw [Store.thread, threads, Store.thread]
  | newCell => exact onCode.keep (.of_eq rfl) fun _ => List.suffix_refl _
  | newCoroutine globals limits entry => exact newCoroutine_onCode onCode globals limits entry
  | call main free callee arguments =>
      exact beginValueCall_onCode (setHeld_onCode onCode _ true) callee arguments
  | release main => exact setHeld_onCode onCode _ false
  | resume free arguments => exact beginResumption_onCode onCode arguments

theorem Hosted.onCode (hosted : m.Hosted limits) : m.store.OnCode := by
  induction hosted with
  | refl => exact onCode_initial limits
  | tail earlier preserves ih => exact preserves.onCode (Hosted.reachable earlier).healthy ih

theorem Runs.tracked (runs : m.Runs p pc) (onCode : m.store.OnCode) :
    Tracked p pc (m.step .bare) ∧ (p.endsInReturn → pc < p.code.size) := by
  obtain ⟨s, activities, control⟩ := m
  obtain ⟨t, floor, rest, f, below, ref, rfl, rfl, head, inside, callee, rfl, rfl⟩ := runs
  refine ⟨?_, (onCode t f (by simp [head])).lt_size callee⟩
  change Tracked _ _ (runScript s rest t floor)
  rw [runScript_eq rest head inside callee]
  exact runInstruction_tracked onCode head callee

end Machine

theorem Prototype.endsInReturn_of_decoded {bytes : List UInt8} {p q : Prototype} {depth : Nat}
    (accepted : decode bytes = .ok p) (nests : p.Nests depth q) : q.endsInReturn := by
  obtain ⟨f, strip, ⟨readable, -⟩, rfl⟩ := decode_ok.mp accepted
  obtain ⟨-, g, sound, rfl⟩ := readable.nests nests
  exact sound.returns

namespace Machine

/-- Wherever the run of an accepted function has come to, there is an instruction to run. The next one
to be run is outside the code only if this one points there. -/
theorem decoded_fetches {m : Machine} (hosted : m.Hosted limits) {bytes : List UInt8}
    {p q : Prototype} {depth pc : Nat} (accepted : Prototype.decode bytes = .ok p)
    (nests : p.Nests depth q) (runs : m.Runs q pc) :
    pc < q.code.size ∧
      ∀ e, (m.step .bare).control = .fail e → e.Stray → q.Misleads pc e := by
  have returns := Prototype.endsInReturn_of_decoded accepted nests
  obtain ⟨tracked, inside⟩ := runs.tracked hosted.onCode
  exact ⟨inside returns, tracked.strays returns⟩

def leapingForm : Form :=
  ⟨[.asbx .jump 0 1, .abc .ret 0 1 0], [], 0, 0, 2, 0, 0, [], [], "", [], [], []⟩

def leapingBytes : List UInt8 := Binary.signature ++ [Binary.version, 0] ++ leapingForm.bytes

def leaping : Prototype :=
  { Prototype.empty with
    code := #[.asbx .jump 0 1, .abc .ret 0 1 0]
    window := 2 }

theorem decode_leaping : Prototype.decode leapingBytes = .ok leaping := by
  have sound : leapingForm.Sound := by
    refine ⟨by decide, ⟨by decide, nofun⟩, by decide, by decide, by decide, by decide, by decide,
      by decide, by decide, ?_⟩
    rw [Form.prototype_eq]
    decide
  refine Prototype.decode_ok.mpr ⟨leapingForm, 0, ⟨⟨sound, nofun⟩, rfl⟩, ?_⟩
  rw [Form.prototype_eq]
  rfl

def leapingCall : Machine :=
  beginRestoringCall (Engine.setHeld ((Vm.new .standard).load leaping).2.store 0 true) [] 0
    (.closure 0) #[]

theorem leapingCall_hosted : leapingCall.Hosted .standard := by
  have globals : Preserves (initial .standard)
      ⟨((initial .standard).store.newCell (.closed (.table 0))).2, [], .done #[]⟩ :=
    ⟨.newCell _, fun _ _ => .of_eq rfl⟩
  have loaded : Preserves ⟨((initial .standard).store.newCell (.closed (.table 0))).2, [], .done #[]⟩
      ⟨((Vm.new .standard).load leaping).2.store, [], .done #[]⟩ :=
    ⟨.heap rfl rfl, fun _ _ => Store.extends_newClosure _ ⟨leaping, #[0]⟩⟩
  exact ((ReflTransGen.single globals).tail loaded).tail ⟨.call rfl rfl _ _, fun _ => nofun⟩

theorem decoded_fetches_leaping :
    0 < leaping.code.size ∧ (leapingCall.step .bare).control = .fail (pastEnd 2) ∧
      leaping.Misleads 0 (pastEnd 2) := by
  have runs : leapingCall.Runs leaping 0 :=
    ⟨0, 0, _, _, _, 0, rfl, rfl, rfl, Nat.le_refl _, rfl, rfl, rfl⟩
  obtain ⟨inside, misleads⟩ := decoded_fetches leapingCall_hosted decode_leaping (.here _) runs
  exact ⟨inside, rfl, misleads _ rfl ⟨2, rfl⟩⟩

/-- What was loaded leaves its code in its first step. -/
theorem loaded_leaps : ∃ callee vm, (Vm.new .standard).loadBinary leapingBytes = .ok (callee, vm) ∧
    (vm.call .standard callee #[]).1 = .failed (pastEnd 2) := by
  refine ⟨_, _, by rw [Vm.loadBinary, decode_leaping], ?_⟩
  rfl

end Machine

end RegisterVm
