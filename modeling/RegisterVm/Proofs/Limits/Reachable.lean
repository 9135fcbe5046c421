import RegisterVm.Proofs.Lifetime.Reachable
import RegisterVm.Proofs.Limits.Steps

/-!
Every thread keeps to its limits, in every machine that a host can come to which gives its threads
those limits and loads functions that name only registers of their own.
-/

namespace RegisterVm

open Relation

variable {limits : Limits} {s s' : Store} {t : ThreadRef}

/-- No function has changed, all of them name only registers of their own, and all threads have the
limits. -/
structure Store.Complies (limits : Limits) (s s' : Store) : Prop where
  extended : s.Extends s'
  enclosed : ∀ ref, (s'.closure ref).prototype.Enclosed
  limited : ∀ t, t < s'.threads.size → (s'.thread t).limits = limits

namespace Machine

/-- What may happen to a machine under a host that complies between its runs. -/
def Follows (limits : Limits) (m m' : Machine) : Prop :=
  Next m m' ∧ (m.activities = [] → m'.activities = [] → m.store.Complies limits m'.store)

def Governed (limits : Limits) : Machine → Prop := ReflTransGen (Follows limits) (initial limits)

end Machine

def Store.overflow (s : Store) (t : ThreadRef) : Error :=
  .overflow (s.place t 0 ++ "stack overflow")

/-- What exceeds the limits of a thread fails and changes nothing. -/
structure Store.Refuses (limits : Limits) (s : Store) (t : ThreadRef) : Prop where
  depth : ∀ slot arguments target wanted, limits.maxDepth ≤ (s.thread t).frames.length →
    enterCall t slot arguments target wanted s = .error (s.overflow t) s
  script : ∀ slot arguments target wanted ref, (s.thread t).get slot = .closure ref →
    limits.maxStack < (argumentPlan (s.closure ref).prototype slot arguments).base +
      (s.closure ref).prototype.frameSize + scratchSlots →
    enterCall t slot arguments target wanted s = .error (s.overflow t) s
  native : ∀ slot arguments target wanted ref, (s.thread t).get slot = .native ref →
    limits.maxStack < slot + 1 + arguments + nativeSlots →
    enterCall t slot arguments target wanted s = .error (s.overflow t) s
  slots : ∀ needed, limits.maxStack < needed → ∀ {α : Type} (k : Unit → Action α),
    (reserve t needed >>= k) s = .error (s.overflow t) s

namespace Machine

/-- All threads keep to the limits. -/
structure Limited (limits : Limits) (m : Machine) : Prop where
  frames : ∀ t, t < m.store.threads.size →
    (m.store.thread t).frames.length ≤ limits.maxDepth
  slots : ∀ t, t < m.store.threads.size →
    (m.store.thread t).stack.size ≤ max limits.maxStack initialSlots
  refuses : ∀ t, t < m.store.threads.size → m.store.Refuses limits t

end Machine

theorem reserve_refused (own : (s.thread t).limits = limits) {needed : Nat}
    (exceeds : limits.maxStack < needed) : reserve t needed s = .error (s.overflow t) s := by
  have refused : (s.thread t).fits needed = false := by
    rw [Thread.fits, own]
    exact decide_eq_false (Nat.not_le.2 exceeds)
  simp only [reserve, lookThread, look, bind, EStateM.bind, refused]
  rfl

section EnterCall

variable {slot arguments target : Nat} {wanted : Option Nat} {ref : ClosureRef}

theorem enterCall_deep (own : (s.thread t).limits = limits)
    (full : limits.maxDepth ≤ (s.thread t).frames.length) :
    enterCall t slot arguments target wanted s = .error (s.overflow t) s := by
  have deep : (s.thread t).limits.maxDepth ≤ (s.thread t).depth := by rwa [own]
  simp only [enterCall, lookThread, look, bind, EStateM.bind, deep, decide_true, if_true]
  rfl

theorem enterCall_script_refused (own : (s.thread t).limits = limits)
    (callee : (s.thread t).get slot = .closure ref)
    (exceeds : limits.maxStack < (argumentPlan (s.closure ref).prototype slot arguments).base +
      (s.closure ref).prototype.frameSize + scratchSlots) :
    enterCall t slot arguments target wanted s = .error (s.overflow t) s := by
  by_cases full : limits.maxDepth ≤ (s.thread t).frames.length
  · exact enterCall_deep own full
  · have shallow : ¬(s.thread t).limits.maxDepth ≤ (s.thread t).depth := by rwa [own]
    simp only [enterCall, getSlot, lookThread, look, bind, EStateM.bind, shallow, decide_false,
      Bool.false_eq_true, if_false, callee, reserve_refused own exceeds]

theorem enterCall_native_refused (own : (s.thread t).limits = limits)
    (callee : (s.thread t).get slot = .native ref)
    (exceeds : limits.maxStack < slot + 1 + arguments + nativeSlots) :
    enterCall t slot arguments target wanted s = .error (s.overflow t) s := by
  by_cases full : limits.maxDepth ≤ (s.thread t).frames.length
  · exact enterCall_deep own full
  · have shallow : ¬(s.thread t).limits.maxDepth ≤ (s.thread t).depth := by rwa [own]
    simp only [enterCall, getSlot, lookThread, look, bind, EStateM.bind, shallow, decide_false,
      Bool.false_eq_true, if_false, callee, reserve_refused own exceeds]

end EnterCall

theorem Store.refuses (own : (s.thread t).limits = limits) : s.Refuses limits t where
  depth _ _ _ _ full := enterCall_deep own full
  script _ _ _ _ _ callee exceeds := enterCall_script_refused own callee exceeds
  native _ _ _ _ _ callee exceeds := enterCall_native_refused own callee exceeds
  slots _ exceeds _ k := by simp only [bind, EStateM.bind, reserve_refused own exceeds]

namespace Machine

variable {m m' : Machine} {activities : List Activity}

theorem Fitting.idle {control : Control} (fitting : Fitting limits ⟨s, [], control⟩)
    (healthy : Healthy ⟨s, [], control⟩) : s.Orderly limits := by
  refine ⟨fitting.fits, fun r => (fitting.seats r).resolve_right fun poised => ?_⟩
  have goes := healthy.idle.2
  cases poised
  simp at goes

theorem Fitting.rest (orderly : s.Orderly limits) (control : Control) :
    Fitting limits ⟨s, [], control⟩ :=
  ⟨orderly.fits, nofun, fun r => .inl (orderly.seats r), fun _ => nofun⟩

theorem orderly_setHeld (orderly : s.Orderly limits) (t : ThreadRef) (held : Bool) :
    (Engine.setHeld s t held).Orderly limits :=
  orderly.mark (fun _ => rfl) (fun _ => rfl) (fun _ => rfl) fun _ => rfl

theorem orderly_empty (limits : Limits) : Store.empty.Orderly limits := by
  have frames : ∀ t, (Store.empty.thread t).frames = [] := by
    intro t
    rw [Store.thread_invalid Store.empty (Nat.zero_le t)]
    rfl
  refine ⟨⟨fun t valid => absurd valid (Nat.not_lt_zero t), fun ref t index found => ?_,
    fun _ => Prototype.enclosed_empty, fun t f member => ?_⟩, fun t f member => ?_⟩
  · simp [Store.empty] at found
  · simp [frames] at member
  · simp [frames] at member

theorem orderly_newThread (orderly : s.Orderly limits) {th : Thread} (own : th.Fits limits)
    (frames : th.frames = []) : (s.newThread th).2.Orderly limits := by
  refine ⟨orderly.fits.newThread own frames, fun r f member => ?_⟩
  rw [Store.thread_newThread] at member
  split at member
  · simp [frames] at member
  · exact orderly.seats r f member

theorem fitting_initial (limits : Limits) : Fitting limits (initial limits) := by
  have globals : (Store.empty.newTable .empty).2.Orderly limits :=
    ⟨(orderly_empty limits).fits.heap rfl rfl rfl, (orderly_empty limits).seats⟩
  exact .rest (orderly_newThread globals (Thread.fits_new true _ limits) rfl) _

theorem Poised.congr {r : ThreadRef} {control : Control}
    (poised : Poised r ⟨s, activities, control⟩)
    (frames : (s'.thread r).frames = (s.thread r).frames) (same : s'.closures = s.closures) :
    Poised r ⟨s', activities, control⟩ := by
  have extended : s.Extends s' := .of_eq same
  cases poised with
  | running head perched inside =>
      refine .running (frames.trans head) (fun ref callee => ?_) inside
      rw [Frame.Holds, Store.closure, same, ← Store.closure]
      exact perched ref callee
  | entering => exact .entering
  | failing own suffix seated expects =>
      exact .failing own (frames ▸ suffix) (fun f member => (seated f member).extend extended)
        expects

theorem Fitting.drop (fitting : Fitting limits m) (t : ThreadRef) : Fitting limits (m.drop t) := by
  obtain ⟨s, activities, control⟩ := m
  have closures := Store.closures_closeCells s t 0
  have thread : ∀ r, ((s.dropThread t).thread r).frames = (s.thread r).frames ∧
      ((s.dropThread t).thread r).top = (s.thread r).top := by
    intro r
    obtain ⟨openCells, thread⟩ := Store.alike_closeCells s t r 0
    rw [Store.dropThread, thread]
    exact ⟨rfl, rfl⟩
  refine ⟨fitting.fits.closeCells t 0, fitting.placed, fun r => ?_, fun goes r awaited f below => ?_⟩
  · rcases fitting.seats r with seats | poised
    · exact .inl (seats.extend (.of_eq closures) (suffix_of_eq (thread r).1))
    · exact .inr (poised.congr (thread r).1 closures)
  · rw [drop, (thread r).1, (thread r).2]
    exact fitting.room goes r awaited f below

theorem Follows.fitting (follows : Follows limits m m') (healthy : m.Healthy)
    (fitting : Fitting limits m) : Fitting limits m' := by
  obtain ⟨next, complies⟩ := follows
  have none : ∀ a ∈ ([] : List Activity), a.Placed limits := by simp
  cases next with
  | step m => exact fitting.step healthy
  | drop m t => exact fitting.drop t
  | @heap s s' control cells threads =>
      obtain ⟨extended, enclosed, -⟩ := complies rfl rfl
      have orderly := fitting.idle healthy
      refine .rest ⟨orderly.fits.load cells threads extended enclosed, fun r => ?_⟩ control
      refine (orderly.seats r).extend extended (suffix_of_eq ?_)
      rw [Store.thread, threads, Store.thread]
  | @newCell s control value =>
      have orderly := fitting.idle healthy
      have fits : (s.newCell (.closed value)).2.Fits limits := by
        refine orderly.fits.withCells fun ref r index found => ?_
        rw [Array.getElem?_push] at found
        split at found
        · cases found
        · exact orderly.fits.cells ref r index found
      exact .rest ⟨fits, orderly.seats⟩ control
  | @newCoroutine s control globals limits' entry =>
      have orderly := fitting.idle healthy
      obtain ⟨-, -, limited⟩ := complies rfl rfl
      obtain rfl : limits' = limits := by
        have own := limited s.threads.size (by simp [Store.newCoroutine, Store.newThread])
        rw [Store.newCoroutine, Store.thread_newThread, if_pos rfl] at own
        exact own
      exact .rest (orderly_newThread orderly (Thread.fits_coroutine globals limits' entry) rfl) control
  | @call s control t main free callee arguments =>
      exact beginRestoringCall_fitting (orderly_setHeld (fitting.idle healthy) t true) none
        (by simpa [Engine.setHeld] using Store.lt_of_main main) callee arguments
  | @release s control t main =>
      exact .rest (orderly_setHeld (fitting.idle healthy) t false) control
  | resume free arguments => exact beginResumption_fitting (fitting.idle healthy) none arguments

theorem Governed.reachable (governed : m.Governed limits) : m.Reachable limits :=
  governed.lift id fun _ _ follows => follows.1

theorem Governed.fitting (governed : m.Governed limits) : Fitting limits m := by
  induction governed with
  | refl => exact fitting_initial limits
  | tail earlier follows ih => exact follows.fitting (Governed.reachable earlier).healthy ih

/-- In every machine that a complying host can come to all threads keep to the limits. -/
theorem limited_of_governed (governed : m.Governed limits) : m.Limited limits := by
  have fits := governed.fitting.fits
  exact ⟨fun t valid => (fits.threads t valid).depth, fun t valid => (fits.threads t valid).stack,
    fun t valid => Store.refuses (fits.threads t valid).own⟩

def nestingPrototype : Prototype :=
  { Prototype.empty with
    code := #[.abc .call 0 1 1, .abc .ret 0 1 0]
    parameters := 1
    window := 1 }

theorem nestingPrototype_enclosed : nestingPrototype.Enclosed := by
  refine ⟨?_, ?_, ?_⟩
  · decide
  · simp [nestingPrototype, Prototype.empty]
  · simp [nestingPrototype, Prototype.empty]

def shallowLimits : Limits := ⟨60, 1⟩

def nestingCall : Machine :=
  beginRestoringCall (Engine.setHeld
    ((Vm.new shallowLimits).store.newClosure ⟨nestingPrototype, #[]⟩).2 0 true) [] 0 (.closure 0)
      #[.closure 0]

theorem limited_of_governed_nesting :
    nestingCall.Governed shallowLimits ∧ (nestingCall.store.thread 0).frames.length = 1 ∧
      (∃ text, (nestingCall.step .bare).control = .fail (.overflow text)) ∧
      nestingCall.Limited shallowLimits := by
  have fits : ((Vm.new shallowLimits).store.newClosure ⟨nestingPrototype, #[]⟩).2.Fits
      shallowLimits := (fitting_initial shallowLimits).fits.newClosure nestingPrototype_enclosed
  have made : Follows shallowLimits (initial shallowLimits)
      ⟨((Vm.new shallowLimits).store.newClosure ⟨nestingPrototype, #[]⟩).2, [], .done #[]⟩ :=
    ⟨.heap rfl rfl, fun _ _ => ⟨Store.extends_newClosure _ _, fits.enclosed,
      fun t valid => (fits.threads t valid).own⟩⟩
  have called : nestingCall.Governed shallowLimits :=
    (ReflTransGen.single made).tail ⟨.call rfl rfl _ _, fun _ => nofun⟩
  exact ⟨called, rfl, ⟨_, rfl⟩, limited_of_governed called⟩

end Machine

end RegisterVm
