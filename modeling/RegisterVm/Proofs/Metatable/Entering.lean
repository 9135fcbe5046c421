import RegisterVm.Proofs.Call.Opening

/-!
The entering of a handler. The handler is called on the values that its event is about, above
everything that the interrupted frame uses, unless the thread lacks frames or slots.
-/

namespace RegisterVm

inductive Store.Starts (s : Store) (th : Thread) (h : Frame) (arguments : List Value) :
    Value → Entered → Prop where
  | script {ref : ClosureRef} (receives : h.Receives (s.closure ref).prototype arguments th) :
      Starts s th h arguments (.closure ref) .script
  | native {ref : NativeRef} (receives : th.values h.base (h.top - h.base) = arguments) :
      Starts s th h arguments (.native ref) (.native (s.native ref).body)

theorem Store.Starts.congr {s s' : Store} {th : Thread} {h : Frame} {arguments : List Value}
    {function : Value} {callee : Entered} (starts : s.Starts th h arguments function callee)
    (closures : s.closures = s'.closures) (natives : s.natives = s'.natives) :
    s'.Starts th h arguments function callee := by
  cases starts with
  | script receives =>
      rw [Store.closure, closures] at receives
      exact .script receives
  | native receives =>
      rw [Store.native, natives]
      exact .native receives

theorem Store.Starts.isFunction {s : Store} {th : Thread} {h : Frame} {arguments : List Value}
    {function : Value} {callee : Entered} (starts : s.Starts th h arguments function callee) :
    function.isFunction = true := by
  cases starts <;> rfl

theorem leads_enterCall_starts {s : Store} {t : ThreadRef} (slot count target : Nat)
    (wanted : Option Nat) (valid : t < s.threads.size) :
    Leads (enterCall t slot count target wanted) s
      (fun callee s' => ∃ h, (s'.thread t).frames = h :: (s.thread t).frames ∧
        h.callee = (s.thread t).get slot ∧
        s.Starts (s'.thread t) h ((s.thread t).values (slot + 1) count) h.callee callee)
      fun _ => True := by
  by_cases script : ∃ ref, (s.thread t).get slot = .closure ref
  · obtain ⟨ref, callee⟩ := script
    have affords := enterCall_affords count target wanted valid callee rfl (Nat.le_refl _)
    simp only [Affords] at affords
    simp only [Leads]
    cases result : enterCall t slot count target wanted s with
    | error e s' => trivial
    | ok entered s' =>
        rw [result] at affords
        obtain ⟨rfl, h, opens⟩ := affords
        refine ⟨h, opens.frames, opens.callee.trans callee.symm, ?_⟩
        rw [opens.callee]
        exact .script opens.receives
  · refine .lookThread_bind ?_
    split
    · exact .overflowError trivial
    · refine .lookThread_bind ?_
      split
      · rename_i ref callee
        exact absurd ⟨ref, callee⟩ script
      · rename_i ref callee
        refine .look_bind (.reserve_bind (.modifyThread_bind (.pure ?_)) trivial)
        generalize slot + 1 + count + nativeSlots = needed
        rw [Store.thread_modifyThread_self _ _ (by simpa using valid),
          Store.thread_modifyThread_self _ _ valid, callee]
        refine ⟨_, congrArg (List.cons _) (Thread.frames_reserve _ _), rfl, .native ?_⟩
        refine (Thread.values_congr (Thread.get_reserve _ _) _ _).trans ?_
        change (s.thread t).values (slot + 1) (slot + 1 + count - (slot + 1)) = _
        rw [Nat.add_sub_cancel_left]
      · exact .typeError trivial

def Store.demand (s : Store) (function : Value) (slot count : Nat) : Nat :=
  match function with
  | .closure ref =>
    let p := (s.closure ref).prototype
    (argumentPlan p slot count).base + p.frameSize + scratchSlots
  | _ => slot + 1 + count + nativeSlots

/-- The action fails just if thread `t` of store `start` lacks frames or slots, and then with an
overflow. -/
def Refuses {α : Type} (t : ThreadRef) (needed : Nat) (start : Store) (x : Action α) (s : Store) :
    Prop :=
  match x s with
  | .ok _ _ => ¬(start.thread t).Lacks needed
  | .error e _ => (start.thread t).Lacks needed ∧
    e = .overflow (start.place t 0 ++ "stack overflow")

namespace Refuses

variable {α β : Type} {t : ThreadRef} {needed : Nat} {start s : Store}

theorem bind_pure {x : Action α} (f : α → β) (refuses : Refuses t needed start x s) :
    Refuses t needed start (x >>= fun a => Pure.pure (f a)) s := by
  simp only [Refuses, Bind.bind, EStateM.bind] at refuses ⊢
  cases result : x s with
  | ok a s' | error e s' =>
      rw [result] at refuses
      exact refuses

theorem lookThread_bind {f : Thread → α} {k : α → Action β}
    (rest : Refuses t needed start (k (f (s.thread t))) s) :
    Refuses t needed start (lookThread t f >>= k) s := rest

theorem modifyThread_bind {f : Thread → Thread} {k : Unit → Action β}
    (rest : Refuses t needed start (k ()) (s.modifyThread t f)) :
    Refuses t needed start (modifyThread t f >>= k) s := rest

theorem overflowError (lacks : (start.thread t).Lacks needed)
    (same : s.place t 0 = start.place t 0) :
    Refuses t needed start (overflowError t : Action α) s :=
  ⟨lacks, congrArg (fun place => Error.overflow (place ++ "stack overflow")) same⟩

theorem reserve_bind {asked : Nat} {k : Unit → Action β} (same : s.place t 0 = start.place t 0)
    (refused : (s.thread t).limits.maxStack < asked → (start.thread t).Lacks needed)
    (granted : asked ≤ (s.thread t).limits.maxStack →
      Refuses t needed start (k ()) (s.modifyThread t fun th => th.reserve asked)) :
    Refuses t needed start (reserve t asked >>= k) s := by
  by_cases fits : asked ≤ (s.thread t).limits.maxStack
  · have rest := granted fits
    simp only [Refuses, Bind.bind, EStateM.bind, reserve_ok asked fits] at rest ⊢
    exact rest
  · have unfit : (s.thread t).fits asked = false := decide_eq_false fits
    have lacks := refused (Nat.not_le.1 fits)
    simp only [Refuses, reserve, lookThread, look, Bind.bind, EStateM.bind, unfit]
    exact overflowError (α := β) lacks same

end Refuses

theorem Store.place_congr {s s' : Store} {t : ThreadRef} (closures : s'.closures = s.closures)
    (frames : (s'.thread t).frames = (s.thread t).frames) (level : Nat) :
    s'.place t level = s.place t level := by
  simp only [place, framePlace, closure, closures, frames]

theorem enterCall_refuses {s : Store} {t : ThreadRef} {slot : Nat} {function : Value}
    (count target : Nat) (wanted : Option Nat) (callee : (s.thread t).get slot = function)
    (callable : function.isFunction = true) :
    Refuses t (s.demand function slot count) s (enterCall t slot count target wanted) s := by
  by_cases deep : (s.thread t).limits.maxDepth ≤ (s.thread t).depth
  · simp only [Refuses, enterCall, lookThread, look, bind, EStateM.bind, deep, decide_true, if_true]
    exact Refuses.overflowError (α := Entered) (.inl deep) rfl
  · have affords : s.demand function slot count ≤ (s.thread t).limits.maxStack →
        ¬(s.thread t).Lacks (s.demand function slot count) := by
      rintro fits (full | exceeds)
      · exact deep full
      · exact Nat.not_le.2 exceeds fits
    simp only [Refuses, enterCall, getSlot, lookThread, look, bind, EStateM.bind, deep,
      decide_false, Bool.false_eq_true, if_false, callee]
    cases function with
    | closure ref | native ref => exact Refuses.reserve_bind rfl .inr affords
    | _ => cases callable

namespace Context

variable {x : Context} {s : Store}

/-- Frame `h` has been pushed to run a handler on its arguments, from `slot` up. -/
structure Pushed (x : Context) (s : Store) (slot : Nat) (target : Option Nat) (handler : Value)
    (arguments : List Value) (callee : Entered) (h : Frame) (s' : Store) : Prop where
  fresh : h.Fresh (s.thread x.thread).isYieldable slot (target.getD slot) callee
  wanted : h.wanted = some (target.elim 0 fun _ => 1)
  function : h.callee = handler
  pushed : s.Pushed x.thread slot h s'
  starts : s.Starts (s'.thread x.thread) h arguments handler callee

def handlerSlot (x : Context) (s : Store) : Nat := max x.frame.top (s.thread x.thread).top

def handlerRoom (x : Context) (s : Store) (handler : Value) (arguments : List Value) : Nat :=
  max (x.handlerSlot s + 1 + arguments.length)
    (s.demand handler (x.handlerSlot s) arguments.length)

def handed (x : Context) (s : Store) (handler : Value) (arguments : List Value) : Store :=
  (s.modifyThread x.thread fun th =>
    th.reserve (x.handlerSlot s + 1 + arguments.length)).modifyThread x.thread fun th =>
      (th.putAll (x.handlerSlot s) (handler :: arguments)).withTop
        (x.handlerSlot s + 1 + arguments.length)

theorem laidOut_handed (handler : Value) (arguments : List Value)
    (valid : x.thread < s.threads.size) :
    s.LaidOut x.thread (x.handlerSlot s) handler arguments (x.handed s handler arguments) :=
  .reserved valid (.of_putAll (by simpa using valid) _ _ _ _ rfl)

theorem calm_handed (x : Context) (s : Store) (handler : Value) (arguments : List Value) :
    Calm x.thread (x.handlerSlot s) s (x.handed s handler arguments) := by
  refine ((Calm.refl x.thread _ s).reserve _).modifyThread ?_ (by simp) (.inr ?_)
  · exact (Thread.reworked_putAll _ _ (Nat.le_refl _)).trans (Thread.reworked_withTop _ _ _)
  · rw [Thread.top_withTop]
    omega

theorem leads_enterHandler_pushed (x : Context) (handler : Value) (arguments : List Value)
    (target : Option Nat) (valid : x.thread < s.threads.size) :
    Leads (x.enterHandler handler arguments target) s
      (fun flow s' => ∃ callee h, flow = .entered callee ∧
        x.Pushed s (x.handlerSlot s) target handler arguments callee h s') fun _ => True := by
  have laid := x.laidOut_handed handler arguments valid
  have calm := x.calm_handed s handler arguments
  have enters : ∀ destination wanted, Leads (enterCall x.thread (x.handlerSlot s) arguments.length
      destination wanted) (x.handed s handler arguments) (fun callee s' => ∃ h,
        h.Fresh (s.thread x.thread).isYieldable (x.handlerSlot s) destination callee ∧
          h.wanted = wanted ∧ h.callee = handler ∧ s.Pushed x.thread (x.handlerSlot s) h s' ∧
            s.Starts (s'.thread x.thread) h arguments handler callee) fun _ => True := by
    intro destination wanted
    refine ((leads_enterCall arguments.length destination wanted laid.valid
      (Nat.le_refl _)).and (leads_enterCall_starts (x.handlerSlot s) arguments.length destination
        wanted laid.valid)).mono ?_ fun _ _ => trivial
    rintro callee s' ⟨⟨h, fresh, takes, pushed⟩, g, frames, function, starts⟩
    obtain ⟨rfl, -⟩ := List.cons.inj (pushed.frames.symm.trans frames)
    rw [laid.callee] at function
    rw [calm.confined.own.isYieldable] at fresh
    refine ⟨h, fresh, takes, function, pushed.after calm, ?_⟩
    rw [laid.arguments, function] at starts
    exact starts.congr laid.closures rfl
  refine .lookThread_bind (.reserve_bind (.modifyThread_bind ?_) trivial)
  cases target with
  | some target =>
      refine (enters target (some 1)).bind ?_
      rintro callee s' ⟨h, fresh, takes, function, pushed, starts⟩
      exact .pure ⟨callee, h, rfl, fresh, takes, function, pushed, starts⟩
  | none =>
      refine (enters (x.handlerSlot s) (some 0)).bind ?_
      rintro callee s' ⟨h, fresh, takes, function, pushed, starts⟩
      exact .pure ⟨callee, h, rfl, fresh, takes, function, pushed, starts⟩

theorem enterHandler_refuses (arguments : List Value) (target : Option Nat)
    (valid : x.thread < s.threads.size) {handler : Value} (callable : handler.isFunction = true) :
    Refuses x.thread (x.handlerRoom s handler arguments) s
      (x.enterHandler handler arguments target) s := by
  refine .lookThread_bind (.reserve_bind rfl
    (fun exceeds => .inr (Nat.lt_of_lt_of_le exceeds (Nat.le_max_left _ _))) fun fits =>
      .modifyThread_bind ?_)
  have laid := x.laidOut_handed handler arguments valid
  have limits := (x.calm_handed s handler arguments).confined.own.limits
  -- The slots that the arguments need are there, so that only what the callee needs counts.
  have same : ((x.handed s handler arguments).thread x.thread).Lacks
      ((x.handed s handler arguments).demand handler (x.handlerSlot s) arguments.length) ↔
        (s.thread x.thread).Lacks (x.handlerRoom s handler arguments) := by
    have demand : (x.handed s handler arguments).demand handler (x.handlerSlot s)
        arguments.length = s.demand handler (x.handlerSlot s) arguments.length := rfl
    have fits : x.handlerSlot s + 1 + arguments.length ≤ (s.thread x.thread).limits.maxStack := fits
    simp only [Thread.Lacks, limits, laid.frames, demand, handlerRoom]
    omega
  have enters : ∀ destination wanted, Refuses x.thread (x.handlerRoom s handler arguments) s
      (enterCall x.thread (x.handlerSlot s) arguments.length destination wanted)
        (x.handed s handler arguments) := by
    intro destination wanted
    have refuses := enterCall_refuses arguments.length destination wanted laid.callee callable
    simpa only [Refuses, same, Store.place_congr laid.closures laid.frames] using refuses
  cases target with
  | some target => exact (enters target (some 1)).bind_pure Flow.entered
  | none => exact (enters (x.handlerSlot s) (some 0)).bind_pure Flow.entered

/-- The action has the handler called on `arguments`: the frame that runs it is on top, and its
first result will go to the target. Nothing else happens but an overflow, if the thread lacks the
frames or the slots. -/
def CallsHandler (x : Context) (s : Store) (handler : Value) (arguments : List Value)
    (target : Option Nat) (action : Action Flow) : Prop :=
  match action s with
  | .ok flow s' => ¬(s.thread x.thread).Lacks (x.handlerRoom s handler arguments) ∧
    ∃ callee h, flow = .entered callee ∧
      x.Pushed s (x.handlerSlot s) target handler arguments callee h s'
  | .error e _ => (s.thread x.thread).Lacks (x.handlerRoom s handler arguments) ∧
    e = .overflow (s.place x.thread 0 ++ "stack overflow")

theorem enterHandler_calls (arguments : List Value) (target : Option Nat)
    (valid : x.thread < s.threads.size) {handler : Value} (callable : handler.isFunction = true) :
    x.CallsHandler s handler arguments target (x.enterHandler handler arguments target) := by
  have refuses := enterHandler_refuses arguments target valid callable
  have pushed := x.leads_enterHandler_pushed handler arguments target valid
  simp only [Refuses, Leads] at refuses pushed
  simp only [CallsHandler]
  cases result : x.enterHandler handler arguments target s with
  | ok flow s' =>
      rw [result] at refuses pushed
      exact ⟨refuses, pushed⟩
  | error e s' =>
      rw [result] at refuses
      exact refuses

end Context

end RegisterVm
