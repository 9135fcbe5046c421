import RegisterVm.Proofs.Call.Arguments
import RegisterVm.Proofs.Call.Below

/-!
The arguments beyond the parameters of a variadic function, which stay below its registers. As long
as the function runs it can have them copied; what it finds are the arguments, but for those whose
slot a captured variable stands for and that have been assigned to since.
-/

namespace RegisterVm

def Instruction.spreads (i : Instruction) (extras : Nat) : Nat :=
  if i.b = 0 then extras else i.b - 1

namespace Context

variable {x : Context} {s : Store} {i : Instruction}

def extras (x : Context) (th : Thread) : List Value :=
  th.values (x.frame.base - x.frame.extras) x.frame.extras

structure Copied (x : Context) (i : Instruction) (values : List Value) (th th' : Thread) :
    Prop where
  top : th'.top = if i.b = 0 then x.slot i.a + values.length else th.top
  registers : ∀ k, k < i.spreads values.length → th'.get (x.slot i.a + k) = values.getD k .nil
  others : ∀ index, index < x.slot i.a ∨ x.slot i.a + i.spreads values.length ≤ index →
    th'.get index = th.get index

theorem length_extras (x : Context) (th : Thread) : (x.extras th).length = x.frame.extras :=
  Thread.length_values _ _ _

def spread (x : Context) (target count : Nat) (th : Thread) : Thread :=
  th.putAll target ((List.range count).map fun k =>
    if k < x.frame.extras then th.get (x.frame.base - x.frame.extras + k) else .nil)

theorem get_spread (x : Context) (target count : Nat) (th : Thread) (index : Nat) :
    (x.spread target count th).get index =
      if target ≤ index ∧ index < target + count then (x.extras th).getD (index - target) .nil
      else th.get index := by
  rw [spread, Thread.get_putAll, List.length_map, List.length_range]
  split
  · rename_i inside
    have bound : index - target < count := by omega
    rw [extras, Thread.getD_values_eq]
    simp [List.getD_eq_getElem?_getD, bound]
  · rfl

theorem copied_spread {th th' : Thread}
    (slots : ∀ index, th'.get index = th.get index)
    (top : th'.top = if i.b = 0 then x.slot i.a + x.frame.extras else th.top) :
    x.Copied i (x.extras th) th (x.spread (x.slot i.a) (i.spreads x.frame.extras) th') := by
  have same : x.extras th' = x.extras th := Thread.values_congr slots _ _
  refine ⟨?_, ?_, ?_⟩ <;> rw [length_extras]
  · rw [spread, Thread.top_putAll, top]
  · intro k bound
    rw [get_spread, if_pos (by omega), Nat.add_sub_cancel_left, same]
  · intro index outside
    rw [get_spread, if_neg (by omega), slots]

theorem vararg_eq (x : Context) (i : Instruction) : x.vararg i = (do
    if i.b = 0 then
      reserve x.thread (x.slot i.a + x.frame.extras)
      modifyThread x.thread fun th => th.withTop (x.slot i.a + x.frame.extras)
    modifyThread x.thread (x.spread (x.slot i.a) (i.spreads x.frame.extras))
    return .next x.pc : Action Flow) := by
  by_cases all : i.b = 0
  · simp only [vararg, all, Instruction.spreads]
    rfl
  · have given : (i.b != 0) = true := by simpa using all
    simp only [vararg, given, all, Instruction.spreads]
    rfl

theorem vararg_copies (i : Instruction) (valid : x.thread < s.threads.size) :
    (i.b = 0 ∧ (s.thread x.thread).limits.maxStack < x.slot i.a + x.frame.extras ∧
      ∃ text s', x.vararg i s = .error (.overflow text) s') ∨
    ∃ s', x.vararg i s = .ok (.next x.pc) s' ∧
      (s'.thread x.thread).frames = (s.thread x.thread).frames ∧
      x.Copied i (x.extras (s.thread x.thread)) (s.thread x.thread) (s'.thread x.thread) := by
  by_cases all : i.b = 0
  · by_cases fits : x.slot i.a + x.frame.extras ≤ (s.thread x.thread).limits.maxStack
    · right
      refine ⟨((s.modifyThread x.thread fun th =>
        th.reserve (x.slot i.a + x.frame.extras)).modifyThread x.thread fun th =>
          th.withTop (x.slot i.a + x.frame.extras)).modifyThread x.thread
            (x.spread (x.slot i.a) (i.spreads x.frame.extras)), ?_, ?_⟩
      · simp only [vararg_eq, all, bind, EStateM.bind, if_true, reserve_ok _ fits]
        rfl
      · rw [Store.thread_modifyThread_self _ _ (by simpa using valid),
          Store.thread_modifyThread_self _ _ (by simpa using valid),
          Store.thread_modifyThread_self _ _ valid]
        refine ⟨?_, copied_spread (fun index => ?_) (if_pos all).symm⟩
        · rw [spread, Thread.frames_putAll, Thread.frames_withTop, Thread.frames_reserve]
        · rw [Thread.get_withTop, Thread.get_reserve]
    · left
      have refused : (s.thread x.thread).fits (x.slot i.a + x.frame.extras) = false :=
        decide_eq_false fits
      refine ⟨all, Nat.not_le.1 fits, s.place x.thread 0 ++ "stack overflow", s, ?_⟩
      simp only [vararg_eq, all, bind, EStateM.bind, if_true, reserve, lookThread, look, refused]
      rfl
  · right
    refine ⟨s.modifyThread x.thread (x.spread (x.slot i.a) (i.spreads x.frame.extras)), ?_, ?_⟩
    · simp only [vararg_eq, all, if_false]
      rfl
    · rw [Store.thread_modifyThread_self _ _ valid]
      exact ⟨Thread.frames_putAll _ _ _, copied_spread (fun _ => rfl) (if_neg all).symm⟩

end Context

namespace Machine

variable {m m' : Machine} {x : Context} {below : List Frame} {i : Instruction}

/-- The next step, a vararg instruction, copies the extra arguments, or it asks for more slots than
the limit allows. -/
theorem Executes.spreads (executes : m.Executes x below .vararg i) :
    (i.b = 0 ∧ (m.store.thread x.thread).limits.maxStack < x.slot i.a + x.frame.extras ∧
      ∃ text, (m.step .bare).control = .fail (.overflow text)) ∨
    ((m.step .bare).store.thread x.thread).frames = { x.frame with pc := x.pc } :: below ∧
      x.Copied i (x.extras (m.store.thread x.thread)) (m.store.thread x.thread)
        ((m.step .bare).store.thread x.thread) := by
  have moves := executes.moves
  have same : x.extras ((m.advanced x).thread x.thread) = x.extras (m.store.thread x.thread) :=
    Thread.values_congr moves.slots _ _
  rw [← moves.limits]
  refine (Context.vararg_copies i moves.valid).imp ?_ ?_
  · rintro ⟨all, exceeds, text, s', failed⟩
    refine ⟨all, exceeds, text, ?_⟩
    rw [executes.step, perform, show x.execute .vararg i = x.vararg i from rfl, failed]
  · rintro ⟨s', done, frames, copied⟩
    have store : (m.step .bare).store = s' := by
      rw [executes.step, perform, show x.execute .vararg i = x.vararg i from rfl, done]
      simp only [follow, goTo]
      split
      · rw [if_pos (by simp)]
      · rfl
    rw [store]
    rw [same] at copied
    refine ⟨frames.trans executes.frames, ?_, copied.registers, fun index outside => ?_⟩
    · rw [copied.top, moves.top]
    · rw [copied.others index outside, moves.slots]

theorem Executes.frame_eq {op : Opcode} {g : Frame} (executes : m.Executes x below op i)
    (standing : Standing (m.store.thread x.thread).frames g below) :
    ∃ pc, x.frame = { g with pc } := by
  rw [executes.head] at standing
  rcases Standing.cons_iff.1 standing with ⟨pc, same, -⟩ | inner
  · exact ⟨pc, same⟩
  · exact absurd inner.length_lt (Nat.lt_irrefl _)

/-- A vararg instruction finds the arguments `extras` that its frame's call has left below the base
of the frame, each as it was passed or as it has been assigned last. -/
structure FindsExtras (c : ScriptCall) (g : Frame) (below : List Frame) (path : Nat → Machine)
    (n : Nat) (x : Context) (i : Instruction) (extras : List Value) : Prop where
  length : extras.length =
    if c.prototype.isVararg then c.arguments.length - c.prototype.parameters else 0
  stored : ∀ k, k < extras.length → Stored c.thread (g.base - extras.length + k) path n
    (c.arguments.getD (c.prototype.parameters + k) .nil) (extras.getD k .nil)
  copied : (i.b = 0 ∧
      ((path n).store.thread c.thread).limits.maxStack < x.slot i.a + extras.length ∧
      ∃ text, ((path n).step .bare).control = .fail (.overflow text)) ∨
    (((path n).step .bare).store.thread c.thread).frames = { g with pc := x.pc } :: below ∧
      x.Copied i extras ((path n).store.thread c.thread)
        (((path n).step .bare).store.thread c.thread)

theorem Opens.findsExtras {c : ScriptCall} {g : Frame} {path : Nat → Machine} {n : Nat}
    (opens : (path 0).Opens c g below) (healthy : (path 0).Healthy)
    (lives : Lives c.thread g below path n) (own : x.thread = c.thread)
    (executes : (path n).Executes x below .vararg i) :
    FindsExtras c g below path n x i (x.extras ((path n).store.thread c.thread)) := by
  have receives := opens.receives
  have spreads := executes.spreads
  obtain ⟨pc, frame⟩ := executes.frame_eq (own ▸ lives.stands n (Nat.le_refl n))
  have count : (x.extras ((path n).store.thread c.thread)).length = g.extras := by
    rw [Context.length_extras, frame]
  refine ⟨?_, fun k extra => ?_, ?_⟩ <;> rw [count]
  · exact receives.extras
  · rw [count] at extra
    have base := receives.base
    have here : (x.extras ((path n).store.thread c.thread)).getD k .nil =
        ((path n).store.thread c.thread).get (g.base - g.extras + k) := by
      rw [Context.extras, frame]
      exact Thread.getD_values _ _ extra
    rw [← receives.beyond k extra, here]
    exact lives.stored healthy opens.script (by omega)
  · rwa [own, frame] at spreads

/-- However a closure is called, it finds its arguments: the first ones in its registers as it
begins, and those beyond its parameters whenever it asks for them while its frame is active. It is
not called only where its thread lacks frames or slots. -/
theorem call_passes_arguments {limits : Limits} {c : ScriptCall} (reachable : m.Reachable limits)
    (calls : m.Calls m' c) :
    ((∃ text, m'.control = .fail (.overflow text)) ∧
      (m'.store.thread c.thread).Lacks c.room) ∨
    ∃ g below, m'.Opens c g below ∧
      ∀ (path : Nat → Machine) (n : Nat), path 0 = m' → Lives c.thread g below path n →
        ∀ (x : Context) (i : Instruction), x.thread = c.thread →
          (path n).Executes x below .vararg i →
            ∃ extras, FindsExtras c g below path n x i extras := by
  have healthy := reachable.healthy
  refine (calls.called healthy).imp_right ?_
  rintro ⟨g, below, opens⟩
  refine ⟨g, below, opens, ?_⟩
  rintro path n rfl lives x i own executes
  exact ⟨_, opens.findsExtras (calls.next.proceeds healthy).healthy lives own executes⟩

def spreadingPrototype : Prototype :=
  { Prototype.empty with
    code := #[.abc .move 1 0 0, .abc .call 1 1 1, .abc .vararg 1 2 0, .abc .ret 1 2 0]
    parameters := 1
    isVararg := true
    window := 4 }

def assigningPrototype : Prototype :=
  { Prototype.empty with
    code := #[.abc .loadBool 0 0 0, .abc .setCell 0 0 0, .abc .ret 0 1 0]
    captures := #[⟨"variable", true, 3⟩]
    window := 2 }

def passingPrototype : Prototype :=
  { Prototype.empty with
    code := #[.abx .closure 1 0, .abx .closure 2 1, .abc .loadBool 3 1 0, .abc .call 1 3 2,
      .abc .ret 1 2 0]
    children := #[spreadingPrototype, assigningPrototype]
    window := 8 }

/-- A host has made the passing function and has called it, and it is about to do its call. -/
def passing : Machine :=
  (beginRestoringCall (Engine.setHeld
    ((Vm.new .standard).store.newClosure ⟨passingPrototype, #[]⟩).2 0 true) [] 0 (.closure 0)
    #[]).after .bare 3

def passingFrame : Frame := { Frame.script (.closure 0) 0 1 9 with pc := 4 }

def passed : ScriptCall := ⟨0, 2, 1, spreadingPrototype, [.closure 2, .boolean true]⟩

def passedFrame : Frame := { Frame.script (.closure 1) 2 5 9 with extras := 1, wanted := some 1 }

def spreadingContext : Context :=
  ⟨0, { passedFrame with pc := 2 }, ⟨spreadingPrototype, #[]⟩, 3⟩

theorem passing_reachable : passing.Reachable .standard := by
  have made : Reachable .standard
      ⟨((Vm.new .standard).store.newClosure ⟨passingPrototype, #[]⟩).2, [], .done #[]⟩ :=
    .single (.heap rfl rfl)
  have called : Reachable .standard (beginRestoringCall (Engine.setHeld
      ((Vm.new .standard).store.newClosure ⟨passingPrototype, #[]⟩).2 0 true) [] 0 (.closure 0)
      #[]) := made.tail (.call rfl rfl _ _)
  exact ((called.tail (.step _)).tail (.step _)).tail (.step _)

theorem passing_executes :
    passing.Executes ⟨0, { passingFrame with pc := 3 }, ⟨passingPrototype, #[]⟩, 4⟩ [] .call
      (.abc .call 1 3 2) :=
  ⟨⟨0, _, rfl, Nat.le_refl 0⟩, rfl, rfl, ⟨0, rfl, rfl⟩, rfl, rfl, rfl⟩

theorem passing_calls : passing.Calls (passing.step .bare) passed := .instruction passing_executes rfl

theorem passed_opens : (passing.step .bare).Opens passed passedFrame [passingFrame] := by
  obtain ⟨-, lacks⟩ | ⟨g, below, opens⟩ := passing_calls.called passing_reachable.healthy
  · exact absurd lacks (by decide)
  · obtain ⟨rfl, rfl⟩ := List.cons.inj (opens.frames.symm.trans rfl)
    exact opens

theorem not_tailCalls {t : ThreadRef} {f : Frame} {ref : ClosureRef}
    (callee : f.callee = .closure ref)
    (none : ∀ i ∈ (m.store.closure ref).prototype.code, i.opcode? ≠ some .tailCall) :
    ¬m.TailCalls t f below := by
  rintro ⟨-, -, pc, -, -, -, -, own, i, target, same, code, opcode, -⟩
  obtain rfl : ref = own := by simpa [callee] using same
  exact none i (Array.mem_of_getElem? code) opcode

theorem passed_lives : Lives 0 passedFrame [passingFrame] ((passing.step .bare).after .bare) 5 := by
  refine ⟨fun k _ => .step _, fun k upto => ?_, fun k bound calls => ?_⟩
  · match k, upto with
    | 0, _ => exact ⟨[], 0, rfl⟩
    | 1, _ => exact ⟨[], 1, rfl⟩
    | 2, _ => exact ⟨[_], 2, rfl⟩
    | 3, _ => exact ⟨[_], 2, rfl⟩
    | 4, _ => exact ⟨[_], 2, rfl⟩
    | 5, _ => exact ⟨[], 2, rfl⟩
  · refine absurd calls (not_tailCalls rfl ?_)
    clear calls
    revert k
    decide

theorem passed_executes : ((passing.step .bare).after .bare 5).Executes spreadingContext [passingFrame]
    .vararg (.abc .vararg 1 2 0) :=
  ⟨⟨0, _, rfl, Nat.zero_le _⟩, rfl, rfl, ⟨1, rfl, rfl⟩, rfl, rfl, rfl⟩

theorem call_passes_arguments_assigned :
    passing.Reachable .standard ∧ passing.Calls (passing.step .bare) passed ∧
      (passing.step .bare).Opens passed passedFrame [passingFrame] ∧
      Lives 0 passedFrame [passingFrame] ((passing.step .bare).after .bare) 5 ∧
      ((passing.step .bare).after .bare 5).Executes spreadingContext [passingFrame] .vararg
        (.abc .vararg 1 2 0) ∧
      ∃ extras, FindsExtras passed passedFrame [passingFrame] ((passing.step .bare).after .bare) 5
        spreadingContext (.abc .vararg 1 2 0) extras := by
  refine ⟨passing_reachable, passing_calls, passed_opens, passed_lives, passed_executes, ?_⟩
  obtain ⟨-, lacks⟩ | ⟨g, below, opens, finds⟩ :=
    call_passes_arguments passing_reachable passing_calls
  · exact absurd lacks (by decide)
  · obtain ⟨rfl, rfl⟩ := List.cons.inj (opens.frames.symm.trans passed_opens.frames)
    exact finds _ 5 rfl passed_lives spreadingContext _ rfl passed_executes

/-- What a vararg instruction writes need not be the argument that was passed: the slot of an extra
argument may be one that a captured variable stands for. -/
theorem extra_argument_overwritten :
    passing.Reachable .standard ∧ passing.Calls (passing.step .bare) passed ∧
      (passing.step .bare).Opens passed passedFrame [passingFrame] ∧
      Lives 0 passedFrame [passingFrame] ((passing.step .bare).after .bare) 5 ∧
      ((passing.step .bare).after .bare 5).Executes spreadingContext [passingFrame] .vararg
        (.abc .vararg 1 2 0) ∧
      (((passing.step .bare).after .bare 5).step .bare).control = .run ∧
      ((((passing.step .bare).after .bare 5).step .bare).store.thread 0).get (spreadingContext.slot 1) =
        .boolean false ∧
      passed.arguments.getD passed.prototype.parameters .nil = .boolean true :=
  ⟨passing_reachable, passing_calls, passed_opens, passed_lives, passed_executes, rfl, rfl,
    rfl⟩

end Machine

end RegisterVm
