import RegisterVm.Proofs.Call.Tail

/-!
The opening of a script frame. Whatever enters a closure lays the function and its arguments out on
a thread first; the closure then receives them, unless the thread lacks frames or slots.
-/

namespace RegisterVm

/-- The call of a closure: where its function comes to lie, and what it is called with. -/
structure ScriptCall where
  thread : ThreadRef
  slot : Nat
  closure : ClosureRef
  prototype : Prototype
  arguments : List Value

def ScriptCall.room (c : ScriptCall) : Nat :=
  c.slot + 1 + c.arguments.length + c.prototype.frameSize + scratchSlots

/-- The thread has all the frames that its limit allows, or the limit allows fewer slots than are
needed. -/
def Thread.Lacks (th : Thread) (needed : Nat) : Prop :=
  th.limits.maxDepth ≤ th.frames.length ∨ th.limits.maxStack < needed

instance (th : Thread) (needed : Nat) : Decidable (th.Lacks needed) :=
  inferInstanceAs (Decidable (_ ∨ _))

/-- The action ends as `post` says, or it fails for what thread `t` lacks. -/
def Affords {α : Type} (t : ThreadRef) (needed : Nat) (x : Action α) (s : Store)
    (post : α → Store → Prop) : Prop :=
  match x s with
  | .ok a s' => post a s'
  | .error e s' => (∃ text, e = .overflow text) ∧ (s'.thread t).Lacks needed

namespace Affords

variable {α β : Type} {s : Store} {t : ThreadRef} {needed : Nat}

theorem bind {x : Action α} {k : α → Action β} {mid : α → Store → Prop} {post : β → Store → Prop}
    (first : Affords t needed x s mid)
    (second : ∀ a s', mid a s' → Affords t needed (k a) s' post) :
    Affords t needed (x >>= k) s post := by
  simp only [Affords, Bind.bind, EStateM.bind] at first ⊢
  cases result : x s with
  | ok a s' =>
      rw [result] at first
      exact second a s' first
  | error e s' =>
      rw [result] at first
      exact first

theorem look_bind {f : Store → α} {k : α → Action β} {post : β → Store → Prop}
    (rest : Affords t needed (k (f s)) s post) :
    Affords t needed (RegisterVm.look f >>= k) s post := rest

theorem lookThread_bind {f : Thread → α} {k : α → Action β} {post : β → Store → Prop}
    (rest : Affords t needed (k (f (s.thread t))) s post) :
    Affords t needed (lookThread t f >>= k) s post := rest

theorem modifyThread_bind {f : Thread → Thread} {k : Unit → Action β} {post : β → Store → Prop}
    (rest : Affords t needed (k ()) (s.modifyThread t f) post) :
    Affords t needed (RegisterVm.modifyThread t f >>= k) s post := rest

theorem overflowError {post : α → Store → Prop} (lacks : (s.thread t).Lacks needed) :
    Affords t needed (overflowError t : Action α) s post := ⟨⟨_, rfl⟩, lacks⟩

theorem reserve_bind {asked : Nat} {k : Unit → Action β} {post : β → Store → Prop}
    (bound : asked ≤ needed)
    (granted : (s.thread t).fits asked = true →
      Affords t needed (k ()) (s.modifyThread t fun th => th.reserve asked) post) :
    Affords t needed (reserve t asked >>= k) s post := by
  have first : Affords t needed (reserve t asked) s fun _ s' => (s.thread t).fits asked = true ∧
      s' = s.modifyThread t fun th => th.reserve asked := by
    refine lookThread_bind ?_
    split
    · rename_i fits
      exact ⟨fits, rfl⟩
    · rename_i exceeds
      have more : ¬asked ≤ (s.thread t).limits.maxStack := fun fits => exceeds (decide_eq_true fits)
      exact overflowError (.inr (by omega))
  refine first.bind ?_
  rintro _ _ ⟨fits, rfl⟩
  exact granted fits

end Affords

structure Store.Opens (s : Store) (c : ScriptCall) (g : Frame) (below : List Frame) : Prop where
  frames : (s.thread c.thread).frames = g :: below
  slot : g.slot = c.slot
  callee : g.callee = .closure c.closure
  script : g.kind = .script
  receives : g.Receives c.prototype c.arguments (s.thread c.thread)

theorem enterCall_affords {s : Store} {t : ThreadRef} {slot needed : Nat} {ref : ClosureRef}
    (count target : Nat) (wanted : Option Nat) (valid : t < s.threads.size)
    (callee : (s.thread t).get slot = .closure ref) {c : ScriptCall}
    (called : c = ⟨t, slot, ref, (s.closure ref).prototype, (s.thread t).values (slot + 1) count⟩)
    (bound : c.room ≤ needed) :
    Affords t needed (enterCall t slot count target wanted) s fun entered s' =>
      entered = .script ∧ ∃ g, s'.Opens c g (s.thread t).frames := by
  subst called
  by_cases admits : (s.thread t).Admits (s.closure ref).prototype slot count
  · obtain ⟨s', entered, -, -, frames, receives⟩ :=
      enterCall_receives count target wanted valid callee admits
    rw [Affords, entered]
    exact ⟨rfl, _, frames, rfl, rfl, rfl, receives⟩
  · -- What is not admitted is refused before anything is done.
    have base : (argumentPlan (s.closure ref).prototype slot count).base ≤ slot + 1 + count := by
      simp only [argumentPlan]
      split <;> dsimp only <;> omega
    refine .lookThread_bind ?_
    split
    · rename_i deep
      exact .overflowError (.inl (of_decide_eq_true deep))
    · rename_i shallow
      refine .lookThread_bind ?_
      simp only [callee]
      refine .look_bind (.reserve_bind ?_ fun fits => absurd ⟨?_, ?_⟩ admits)
      · simp only [ScriptCall.room, Thread.length_values] at bound
        omega
      · exact Nat.not_le.1 fun deep => shallow (decide_eq_true deep)
      · simpa [Thread.fits] using fits

theorem Thread.values_putAll (th : Thread) (slot : Nat) (values : List Value) :
    (th.putAll slot values).values slot values.length = values := by
  apply List.ext_getElem
  · exact Thread.length_values _ _ _
  · intro place _ inside
    simp only [Thread.values, List.getElem_map, List.getElem_range]
    rw [Thread.get_putAll, if_pos (by omega), Nat.add_sub_cancel_left,
      List.getD_eq_getElem?_getD, List.getElem?_eq_getElem inside, Option.getD_some]

structure Store.LaidOut (t : ThreadRef) (slot : Nat) (callee : Value) (arguments : List Value)
    (s s' : Store) : Prop where
  valid : t < s'.threads.size
  closures : s'.closures = s.closures
  frames : (s'.thread t).frames = (s.thread t).frames
  callee : (s'.thread t).get slot = callee
  arguments : (s'.thread t).values (slot + 1) arguments.length = arguments

def Store.callOf (s : Store) (t : ThreadRef) (slot : Nat) (ref : ClosureRef)
    (arguments : List Value) : ScriptCall :=
  ⟨t, slot, ref, (s.closure ref).prototype, arguments⟩

namespace Store.LaidOut

variable {s s' : Store} {t : ThreadRef} {slot : Nat} {callee : Value} {arguments : List Value}

theorem of_modifyThread {f : Thread → Thread} (valid : t < s.threads.size)
    (frames : (f (s.thread t)).frames = (s.thread t).frames)
    (found : (f (s.thread t)).get slot = callee)
    (values : (f (s.thread t)).values (slot + 1) arguments.length = arguments) :
    s.LaidOut t slot callee arguments (s.modifyThread t f) := by
  refine ⟨by simpa using valid, rfl, ?_, ?_, ?_⟩ <;> rw [thread_modifyThread_self s f valid]
  · exact frames
  · exact found
  · exact values

theorem after {f : Thread → Thread} (valid : t < s.threads.size)
    (frames : (f (s.thread t)).frames = (s.thread t).frames)
    (laid : (s.modifyThread t f).LaidOut t slot callee arguments s') :
    s.LaidOut t slot callee arguments s' := by
  refine { laid with frames := laid.frames.trans ?_ }
  rw [thread_modifyThread_self s _ valid, frames]

theorem reserved {needed : Nat} (valid : t < s.threads.size)
    (laid : (s.modifyThread t fun th => th.reserve needed).LaidOut t slot callee arguments s') :
    s.LaidOut t slot callee arguments s' :=
  laid.after valid (Thread.frames_reserve _ _)

theorem of_putAll (valid : t < s.threads.size) (slot top : Nat) (callee : Value)
    (arguments : List Value) {f : Thread → Thread}
    (puts : f (s.thread t) = ((s.thread t).putAll slot (callee :: arguments)).withTop top) :
    s.LaidOut t slot callee arguments (s.modifyThread t f) := by
  apply of_modifyThread valid <;> rw [puts]
  · exact Thread.frames_putAll _ _ _
  · rw [Thread.get_withTop, Thread.get_putAll, if_pos (by simp), Nat.sub_self]
    rfl
  · exact Thread.values_putAll ((s.thread t).put slot callee) (slot + 1) arguments

theorem enters {ref : ClosureRef} (laid : s.LaidOut t slot (.closure ref) arguments s')
    (target : Nat) (wanted : Option Nat) :
    Affords t (s.callOf t slot ref arguments).room
      (enterCall t slot arguments.length target wanted) s' fun entered s'' =>
        entered = .script ∧ ∃ g, s''.Opens (s.callOf t slot ref arguments) g
          (s.thread t).frames := by
  rw [← laid.frames]
  refine enterCall_affords _ target wanted laid.valid laid.callee ?_ (Nat.le_refl _)
  rw [laid.arguments, closure, laid.closures]
  rfl

end Store.LaidOut

def Flow.Opens (c : ScriptCall) (waiting : List Frame) (flow : Flow) (s : Store) : Prop :=
  flow = .entered .script ∧ ∃ g, s.Opens c g waiting

namespace Context

variable {x : Context} {s : Store} {ref : ClosureRef} {below : List Frame} {i : Instruction}

theorem call_affords (a b : Nat) (wanted : Option Nat) (valid : x.thread < s.threads.size)
    (callee : (s.thread x.thread).get (x.slot a) = .closure ref) {arguments : List Value}
    (called : (s.thread x.thread).values (x.slot a + 1)
      ((s.thread x.thread).countAbove b (x.slot a + 1)) = arguments) :
    Affords x.thread (s.callOf x.thread (x.slot a) ref arguments).room (x.call a b wanted) s
      (Flow.Opens (s.callOf x.thread (x.slot a) ref arguments) (s.thread x.thread).frames) := by
  rw [Affords, call_eq]
  generalize (s.thread x.thread).countAbove b (x.slot a + 1) = count at called
  have laid : s.LaidOut x.thread (x.slot a) (.closure ref) arguments
      (s.modifyThread x.thread fun th => th.withTop (x.slot a + 1 + count)) := by
    refine .of_modifyThread valid rfl callee ?_
    rw [← called, Thread.length_values]
    rfl
  have enters := laid.enters (x.slot a) wanted
  rw [show arguments.length = count by rw [← called, Thread.length_values]] at enters
  refine Affords.bind enters ?_
  rintro _ s' ⟨rfl, opens⟩
  exact ⟨rfl, opens⟩

theorem tailCall_affords (a b : Nat) (live : x.Live below s) (down : x.frame.slot ≤ x.slot a)
    (callee : (s.thread x.thread).get (x.slot a) = .closure ref) {arguments : List Value}
    (called : (s.thread x.thread).values (x.slot a + 1)
      ((s.thread x.thread).countAbove b (x.slot a + 1)) = arguments) :
    Affords x.thread (s.callOf x.thread x.frame.slot ref arguments).room (x.tailCall a b) s
      (Flow.Opens (s.callOf x.thread x.frame.slot ref arguments) below) := by
  obtain ⟨s₁, vacated, moves⟩ := tailCall_vacates (b := b) live down callee rfl
  have enters := enterCall_affords ((s.thread x.thread).countAbove b (x.slot a + 1)) x.frame.target
    x.frame.wanted vacated.valid (vacated.function.trans callee)
    (c := s.callOf x.thread x.frame.slot ref arguments)
    (by rw [vacated.values, called, Store.callOf, Store.closure, Store.closure, vacated.closures])
    (Nat.le_refl _)
  rw [Affords, moves]
  refine Affords.bind enters ?_
  rintro _ s' ⟨rfl, g, opens⟩
  rw [vacated.frames] at opens
  have frames : (s'.thread x.thread).frames = g :: below := opens.frames
  have marked : (s'.modifyThread x.thread Thread.markTail).thread x.thread =
      { s'.thread x.thread with frames := { g with isTail := true } :: below } := by
    rw [Store.thread_modifyThread_self _ _ (Store.lt_of_frames frames)]
    simp only [Thread.markTail, frames]
  refine .modifyThread_bind ⟨rfl, { g with isTail := true }, ?_, opens.slot, opens.callee,
    opens.script, ?_⟩
  · exact congrArg Thread.frames marked
  · exact opens.receives.marked.congr fun index => congrArg (fun th => th.get index) marked

theorem iterCall_affords (valid : x.thread < s.threads.size)
    (callee : (s.thread x.thread).get (x.slot i.a) = .closure ref) {arguments : List Value}
    (called : (s.thread x.thread).values (x.slot i.a + 1) 2 = arguments) :
    Affords x.thread (s.callOf x.thread (x.slot (i.a + 3)) ref arguments).room (x.iterCall i) s
      (Flow.Opens (s.callOf x.thread (x.slot (i.a + 3)) ref arguments)
        (s.thread x.thread).frames) := by
  subst called
  refine .reserve_bind ?_ fun _ => .modifyThread_bind ?_
  · simp only [ScriptCall.room, Store.callOf, Thread.length_values]
    omega
  · have same : ∀ index, ((s.modifyThread x.thread fun th =>
        th.reserve (x.slot (i.a + 3) + 3)).thread x.thread).get index =
          (s.thread x.thread).get index := by
      intro index
      rw [Store.thread_modifyThread_self s _ valid, Thread.get_reserve]
    refine Affords.bind ((Store.LaidOut.reserved valid (.of_putAll (by simpa using valid)
      (x.slot (i.a + 3)) (x.slot (i.a + 3) + 3) (.closure ref)
      ((s.thread x.thread).values (x.slot i.a + 1) 2) ?_)).enters _ _) ?_
    · simp only [same, callee]
      rfl
    · rintro _ s' ⟨rfl, opens⟩
      exact ⟨rfl, opens⟩

theorem enterHandler_affords (valid : x.thread < s.threads.size) (values : List Value)
    (target : Option Nat) :
    Affords x.thread
      (s.callOf x.thread (max x.frame.top (s.thread x.thread).top) ref values).room
      (x.enterHandler (.closure ref) values target) s
      (Flow.Opens (s.callOf x.thread (max x.frame.top (s.thread x.thread).top) ref values)
        (s.thread x.thread).frames) := by
  refine .lookThread_bind ?_
  generalize max x.frame.top (s.thread x.thread).top = slot
  have laid : s.LaidOut x.thread slot (.closure ref) values
      ((s.modifyThread x.thread fun th => th.reserve (slot + 1 + values.length)).modifyThread
        x.thread fun th => (th.putAll slot (.closure ref :: values)).withTop
          (slot + 1 + values.length)) :=
    .reserved valid (.of_putAll (by simpa using valid) _ _ _ _ rfl)
  refine .reserve_bind ?_ fun _ => .modifyThread_bind ?_
  · simp only [ScriptCall.room, Store.callOf]
    omega
  · cases target with
    | none =>
        refine (laid.enters _ _).bind ?_
        rintro _ s' ⟨rfl, opens⟩
        exact ⟨rfl, opens⟩
    | some target =>
        refine (laid.enters _ _).bind ?_
        rintro _ s' ⟨rfl, opens⟩
        exact ⟨rfl, opens⟩

end Context

end RegisterVm
