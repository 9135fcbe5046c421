import RegisterVm.Machine.Step
import RegisterVm.Proofs.Machine.Keeps

/-!
Entering and leaving calls. A call that is entered pushes one frame above its slot and a call that
cannot be entered changes nothing; a call that ends pops its frame and delivers its results from the
frame's target up.
-/

namespace RegisterVm

structure Frame.Owned (low : Nat) (f : Frame) : Prop where
  slot : low ≤ f.slot
  target : low ≤ f.target
  base : f.slot < f.base
  top : f.base ≤ f.top

theorem Frame.Owned.mono {low high : Nat} {f : Frame} (owned : f.Owned high) (bound : low ≤ high) :
    f.Owned low :=
  { owned with slot := Nat.le_trans bound owned.slot, target := Nat.le_trans bound owned.target }

theorem Frame.Owned.low_lt_base {low : Nat} {f : Frame} (owned : f.Owned low) : low < f.base :=
  Nat.lt_of_le_of_lt owned.slot owned.base

theorem Frame.Owned.low_le_top {low : Nat} {f : Frame} (owned : f.Owned low) : low ≤ f.top :=
  Nat.le_trans (Nat.le_of_lt owned.low_lt_base) owned.top

/-- The results of a call go to its slot or below, unless there is at most one. -/
def Frame.Delivers (f : Frame) : Prop := f.target ≤ f.slot ∨ f.wanted = some 1

def Frame.Typed (f : Frame) : Prop :=
  match f.callee with
  | .closure _ => f.kind = .script
  | .native _ => f.kind = .native
  | _ => False

def Entered.kind : Entered → FrameKind
  | .script => .script
  | .native _ => .native

structure Frame.Fresh (f : Frame) (mayYield : Bool) (place destination : Nat)
    (entered : Entered) : Prop where
  slot : f.slot = place
  target : f.target = destination
  base : place < f.base
  top : f.base ≤ f.top
  kind : f.kind = entered.kind
  typed : f.Typed
  yieldable : f.yieldable = mayYield

theorem Frame.Fresh.owned {f : Frame} {mayYield : Bool} {place destination low : Nat}
    {entered : Entered} (fresh : f.Fresh mayYield place destination entered) (above : low ≤ place)
    (deliver : low ≤ destination) : f.Owned low where
  slot := by rw [fresh.slot]; exact above
  target := by rw [fresh.target]; exact deliver
  base := by rw [fresh.slot]; exact fresh.base
  top := fresh.top

structure Frame.Formed (f : Frame) : Prop where
  typed : f.Typed
  owned : f.Owned 0
  delivers : f.Delivers

theorem Frame.Fresh.formed {f : Frame} {mayYield : Bool} {place destination : Nat}
    {entered : Entered} (fresh : f.Fresh mayYield place destination entered)
    (delivers : f.Delivers) : f.Formed :=
  ⟨fresh.typed, fresh.owned (Nat.zero_le _) (Nat.zero_le _), delivers⟩

theorem Frame.Fresh.delivers {f : Frame} {mayYield : Bool} {place : Nat} {entered : Entered}
    (fresh : f.Fresh mayYield place place entered) : f.Delivers :=
  .inl (Nat.le_of_eq (fresh.target.trans fresh.slot.symm))

theorem argumentPlan_base (p : Prototype) (slot arguments : Nat) :
    slot < (argumentPlan p slot arguments).base ∧
      (argumentPlan p slot arguments).base ≤ (argumentPlan p slot arguments).firstFree := by
  simp only [argumentPlan]
  split <;> constructor <;> dsimp only <;> omega

namespace Thread

variable {low : Nat} (th : Thread)

theorem reworked_arrange {slot : Nat} (p : Prototype) (arguments : Nat) (above : low ≤ slot) :
    Reworked low th (th.arrange p slot arguments) := by
  have plan := argumentPlan_base p slot arguments
  simp only [arrange]
  refine Reworked.trans ?_ (reworked_clear _ _ (by omega))
  split
  · exact (reworked_moveSlots _ _ _ (by omega)).trans (reworked_clear _ _ (by omega))
  · split
    · exact reworked_clear _ _ (by omega)
    · exact .refl low th

theorem le_size_arrange (p : Prototype) (slot arguments : Nat) :
    th.stack.size ≤ (th.arrange p slot arguments).stack.size := by
  simp only [arrange, size_clear]
  split
  · rw [size_clear]
    exact le_size_moveSlots _ _ _ _
  · split
    · exact Nat.le_of_eq (size_clear _ _ _).symm
    · exact Nat.le_refl _

@[simp] theorem frames_arrange (p : Prototype) (slot arguments : Nat) :
    (th.arrange p slot arguments).frames = th.frames := by
  simp only [arrange, frames_clear]
  split
  · simp
  · split <;> simp

theorem reworked_frames (frames : List Frame) : Reworked low th { th with frames } :=
  ⟨rfl, fun _ _ => rfl⟩

theorem reworked_enterScript {slot : Nat} (p : Prototype) (callee : Value) (arguments target : Nat)
    (wanted : Option Nat) (above : low ≤ slot) :
    Reworked low th (th.enterScript p callee slot arguments target wanted) :=
  ((reworked_arrange th p arguments above).trans (reworked_frames _ _)).trans
    (reworked_withTop _ _ _)

theorem reworked_enterNative (slot : Nat) (callee : Value) (arguments target : Nat)
    (wanted : Option Nat) :
    Reworked low th (th.enterNative callee slot arguments target wanted) :=
  (reworked_frames th _).trans (reworked_withTop _ _ _)

def Shallow (th : Thread) : Prop := th.frames.length ≤ th.limits.maxDepth

theorem Shallow.of_le {th th' : Thread} (shallow : th.Shallow) (limits : th'.limits = th.limits)
    (fewer : th'.frames.length ≤ th.frames.length) : th'.Shallow := by
  rw [Shallow, limits]
  exact Nat.le_trans fewer shallow

theorem Shallow.of_suffix {th th' : Thread} (shallow : th.Shallow)
    (limits : th'.limits = th.limits) (suffix : th'.frames <:+ th.frames) : th'.Shallow :=
  shallow.of_le limits suffix.length_le

structure Holds (th : Thread) (f : Frame) : Prop where
  exist : f.top ≤ th.stack.size
  granted : f.kind = .native → f.top + nativeSlots ≤ th.limits.maxStack

structure Pushes (enter : Thread → Thread) (f : Frame) : Prop where
  frames : (enter th).frames = f :: th.frames
  top : (enter th).top = f.top
  room : f.top ≤ th.stack.size → f.top ≤ (enter th).stack.size

theorem enterScript_frame (p : Prototype) (ref : ClosureRef) (slot arguments target : Nat)
    (wanted : Option Nat) :
    ∃ f : Frame, f.Fresh th.isYieldable slot target .script ∧ f.wanted = wanted ∧
      f.top = (argumentPlan p slot arguments).base + p.frameSize ∧
      th.Pushes (·.enterScript p (.closure ref) slot arguments target wanted) f := by
  have plan := argumentPlan_base p slot arguments
  refine ⟨_, ?_, ?_, ?_, congrArg (List.cons _) (frames_arrange th p slot arguments), rfl, ?_⟩
  · exact ⟨rfl, rfl, plan.1, Nat.le_add_right _ _, rfl, rfl, rfl⟩
  · rfl
  · rfl
  · exact fun room => Nat.le_trans room (le_size_arrange th p slot arguments)

theorem enterNative_frame (ref : NativeRef) (body : NativeBody) (slot arguments target : Nat)
    (wanted : Option Nat) :
    ∃ f : Frame, f.Fresh th.isYieldable slot target (.native body) ∧ f.wanted = wanted ∧
      f.top = slot + 1 + arguments ∧
      th.Pushes (·.enterNative (.native ref) slot arguments target wanted) f := by
  refine ⟨_, ?_, ?_, ?_, rfl, rfl, id⟩
  · exact ⟨rfl, rfl, Nat.lt_succ_self _, Nat.le_add_right _ _, rfl, rfl, rfl⟩
  · rfl
  · rfl

theorem reworked_finish {f : Frame} {rest : List Frame} (head : th.frames = f :: rest)
    (slot : low ≤ f.slot) (target : low ≤ f.target) (source n : Nat) :
    Reworked low th (th.finish source n) := by
  simp only [finish, head]
  have delivered : ∀ copied wanted high,
      Reworked low th (((({ th with frames := rest } : Thread).moveSlots source f.target
        copied).clear (f.target + copied) (f.target + wanted)).clear
          (max (f.target + wanted) f.slot) high) := by
    intro copied wanted high
    refine (reworked_frames th rest).trans ?_
    refine (reworked_moveSlots _ source copied target).trans ?_
    exact (reworked_clear _ _ (by omega)).trans (reworked_clear _ _ (by omega))
  split
  · split
    · exact (delivered _ _ _).trans (reworked_withTop _ _ _)
    · exact (delivered _ _ _).trans (reworked_withTop _ _ _)
  · exact (delivered _ _ _).trans (reworked_withTop _ _ _)

theorem frames_finish {f : Frame} {rest : List Frame} (head : th.frames = f :: rest)
    (source n : Nat) : (th.finish source n).frames = rest := by
  simp only [finish, head]
  split
  · split <;> simp
  · simp

theorem finish_nil (empty : th.frames = []) (source n : Nat) : th.finish source n = th := by
  simp only [finish, empty]

theorem top_finish {f : Frame} {rest : List Frame} (head : th.frames = f :: rest)
    (source n : Nat) :
    f.target ≤ (th.finish source n).top ∨
      ∃ caller below, rest = caller :: below ∧ (th.finish source n).top = caller.top := by
  simp only [finish, head]
  split
  · rename_i caller below _
    split
    · exact .inr ⟨caller, below, rfl, rfl⟩
    · exact .inl (Nat.le_add_right _ _)
  · exact .inl (Nat.le_add_right _ _)

end Thread

/-- A call has pushed a frame. -/
structure Store.Pushed (t : ThreadRef) (low : Nat) (f : Frame) (s s' : Store) : Prop where
  confined : s.Confined t low s'
  cells : s'.cells = s.cells
  frames : (s'.thread t).frames = f :: (s.thread t).frames
  top : (s'.thread t).top = f.top
  room : (s'.thread t).Holds f
  shallow : (s'.thread t).Shallow

structure Store.Popped (t : ThreadRef) (low : Nat) (below : List Frame) (s s' : Store) : Prop where
  confined : s.Confined t low s'
  frames : (s'.thread t).frames = below
  top : low ≤ (s'.thread t).top ∨
    ∃ caller rest, below = caller :: rest ∧ (s'.thread t).top = caller.top

namespace Store

variable {t : ThreadRef} {low : Nat} {s : Store}

theorem Pushed.after {start s' : Store} {f : Frame} (calm : Calm t low start s)
    (pushed : s.Pushed t low f s') : start.Pushed t low f s' where
  confined := calm.confined.trans pushed.confined
  cells := pushed.cells.trans calm.cells
  frames := by rw [pushed.frames, calm.frames]
  top := pushed.top
  room := pushed.room
  shallow := pushed.shallow

theorem Popped.after {start s' : Store} {below : List Frame} (confined : start.Confined t low s)
    (popped : s.Popped t low below s') : start.Popped t low below s' :=
  { popped with confined := confined.trans popped.confined }

theorem pushed_modifyThread (valid : t < s.threads.size) {f : Frame} {enter : Thread → Thread}
    (reworked : (s.thread t).Reworked low (enter (s.thread t)))
    (pushes : (s.thread t).Pushes enter f) (room : (s.thread t).Holds f)
    (free : (s.thread t).frames.length < (s.thread t).limits.maxDepth) :
    s.Pushed t low f (s.modifyThread t enter) where
  confined := confined_reworked reworked
  cells := rfl
  frames := by rw [thread_modifyThread_self s _ valid, pushes.frames]
  top := by rw [thread_modifyThread_self s _ valid, pushes.top]
  room := by
    rw [thread_modifyThread_self s _ valid]
    exact ⟨pushes.room room.exist, reworked.steady.limits ▸ room.granted⟩
  shallow := by
    rw [thread_modifyThread_self s _ valid, Thread.Shallow, pushes.frames, reworked.steady.limits]
    exact free

theorem popped_finish (valid : t < s.threads.size) {f : Frame} {below : List Frame}
    (head : (s.thread t).frames = f :: below) (slot : low ≤ f.slot) (target : low ≤ f.target)
    {leave : Thread → Thread} {source n : Nat}
    (leaves : leave (s.thread t) = (s.thread t).finish source n) :
    s.Popped t low below (s.modifyThread t leave) where
  confined := confined_reworked (leaves ▸ Thread.reworked_finish _ head slot target _ _)
  frames := by rw [thread_modifyThread_self s _ valid, leaves, Thread.frames_finish _ head]
  top := by
    rw [thread_modifyThread_self s _ valid, leaves]
    rcases Thread.top_finish _ head source n with above | caller
    · exact .inl (Nat.le_trans target above)
    · exact .inr caller

end Store

/-- A call enters its frame or leaves the store alone. -/
theorem leads_enterCall {t : ThreadRef} {slot low : Nat} (arguments target : Nat)
    (wanted : Option Nat) {s : Store} (valid : t < s.threads.size) (above : low ≤ slot) :
    Leads (enterCall t slot arguments target wanted) s
      (fun entered s' => ∃ f : Frame, f.Fresh (s.thread t).isYieldable slot target entered ∧
        f.wanted = wanted ∧ s.Pushed t low f s')
      (fun s' => s' = s) := by
  have push : ∀ {needed : Nat} {enter : Thread → Thread} {entered : Entered},
      ¬(s.thread t).limits.maxDepth ≤ (s.thread t).depth → (s.thread t).fits needed = true →
      (∀ th : Thread, th.Reworked low (enter th) ∧ ∃ f : Frame,
        f.Fresh th.isYieldable slot target entered ∧ f.wanted = wanted ∧ f.top ≤ needed ∧
          (f.kind = .native → f.top + nativeSlots = needed) ∧ th.Pushes enter f) →
      ∃ f : Frame, f.Fresh (s.thread t).isYieldable slot target entered ∧ f.wanted = wanted ∧
        s.Pushed t low f ((s.modifyThread t fun th => th.reserve needed).modifyThread t enter) := by
    intro needed enter entered free fits enters
    have calm := (Calm.refl t low s).reserve needed
    obtain ⟨reworked, f, fresh, takes, bound, granted, pushes⟩ :=
      enters ((s.modifyThread t fun th => th.reserve needed).thread t)
    refine ⟨f, ?_, takes, .after calm
      (Store.pushed_modifyThread (by simpa using valid) reworked pushes ?_ ?_)⟩
    · rwa [Thread.isYieldable, calm.confined.own.isMain, calm.confined.own.pinned] at fresh
    · refine ⟨?_, fun native => ?_⟩
      · rw [Store.thread_modifyThread_self s _ valid]
        exact Nat.le_trans bound (Thread.le_size_reserve _ fits)
      · rw [calm.confined.own.limits, granted native]
        simpa [Thread.fits] using fits
    · rw [calm.frames, calm.confined.own.limits]
      exact Nat.not_le.1 free
  refine .lookThread_bind ?_
  split
  · exact .overflowError rfl
  · rename_i free
    rw [decide_eq_true_iff] at free
    refine .lookThread_bind ?_
    split
    · refine .look_bind (.reserve_fits_bind (fun fits => ?_) rfl)
      refine .modifyThread_bind (.pure (push free fits fun th => ⟨?_, ?_⟩))
      · exact Thread.reworked_enterScript th _ _ _ _ _ above
      · obtain ⟨f, fresh, takes, top, pushes⟩ :=
          Thread.enterScript_frame th _ _ slot arguments target wanted
        refine ⟨f, fresh, takes, top ▸ Nat.le_add_right _ _, fun native => ?_, pushes⟩
        cases native.symm.trans fresh.kind
    · refine .look_bind (.reserve_fits_bind (fun fits => ?_) rfl)
      refine .modifyThread_bind (.pure (push free fits fun th => ⟨?_, ?_⟩))
      · exact Thread.reworked_enterNative th _ _ _ _ _
      · obtain ⟨f, fresh, takes, top, pushes⟩ :=
          Thread.enterNative_frame th _ _ slot arguments target wanted
        exact ⟨f, fresh, takes, top ▸ Nat.le_add_right _ _, fun _ => top ▸ rfl, pushes⟩
    · exact .typeError rfl

theorem Machine.leads_enterFrom {t : ThreadRef} {place low : Nat} (arguments : Nat)
    (wanted : Option Nat) {s : Store} (valid : t < s.threads.size) (above : low ≤ place) :
    Leads (enterFrom t place arguments wanted) s
      (fun result s' => result.1 = (s.thread t).frames.length ∧ ∃ f : Frame,
        f.Fresh (s.thread t).isYieldable place place result.2 ∧ s.Pushed t low f s')
      (fun s' => s' = s) :=
  .lookThread_bind ((leads_enterCall arguments place wanted valid above).bind
    fun _ _ ⟨f, fresh, _, pushed⟩ => .pure ⟨rfl, f, fresh, pushed⟩)

theorem leads_layOut (t : ThreadRef) (callee : Value) (arguments : Array Value) (s : Store) :
    Leads (layOut t callee arguments) s
      (fun slot s' => slot = (s.thread t).top ∧ Calm t slot s s' ∧
        (t < s.threads.size → slot < (s'.thread t).top))
      (fun s' => s' = s) := by
  refine .lookThread_bind (.reserve_bind (.modifyThread_bind (.pure ⟨rfl, ?_, ?_⟩)) rfl)
  · refine ((Calm.refl t _ s).reserve _).modifyThread ?_ ?_ (.inr ?_)
    · exact (Thread.reworked_putAll _ _ (Nat.le_refl _)).trans (Thread.reworked_withTop _ _ _)
    · simp
    · rw [Thread.top_withTop]
      omega
  · intro valid
    rw [Store.thread_modifyThread_self _ _ (by simpa using valid), Thread.top_withTop]
    omega

inductive Store.Finished (t : ThreadRef) (low : Nat) (s s' : Store) : Prop where
  | kept (calm : Calm t low s s')
      (reason : (s.thread t).yielding = true ∨ (s.thread t).frames = [])
  | dropped (f : Frame) (below : List Frame) (head : (s.thread t).frames = f :: below)
      (returned : (s.thread t).yielding = false) (popped : s.Popped t low below s')
      (cells : s'.cells = s.cells)

theorem leads_finishNative {t : ThreadRef} {low : Nat} {s : Store} (valid : t < s.threads.size)
    (owned : ∀ f below, (s.thread t).frames = f :: below → low ≤ f.slot ∧ low ≤ f.target)
    (count : Nat) : Leads (finishNative t count) s (fun _ s' => s.Finished t low s')
      (fun _ => False) := by
  refine .modifyThread ?_
  cases returned : (s.thread t).yielding with
  | true =>
      refine .kept ?_ (.inl returned)
      refine (Calm.refl t low s).modifyThread ?_ ?_ ?_ <;> rw [if_pos returned]
      · exact .refl low _
      · exact .inl rfl
  | false =>
      cases frames : (s.thread t).frames with
      | nil =>
          refine .kept ?_ (.inr frames)
          refine (Calm.refl t low s).modifyThread ?_ ?_ ?_ <;>
            simp only [returned, Bool.false_eq_true, if_false, Thread.finish_nil _ frames]
          · exact .refl low _
          · exact .inl trivial
      | cons f below =>
          obtain ⟨slot, target⟩ := owned f below frames
          refine .dropped f below frames returned ?_ rfl
          exact Store.popped_finish valid frames slot target (if_neg (by simp [returned]))

end RegisterVm
