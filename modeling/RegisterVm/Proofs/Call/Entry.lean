import RegisterVm.Proofs.Call.Ending

/-!
What a script closure finds when its call begins: the arguments in its first registers, nil in the
others, and the arguments beyond its parameters below the base of its frame.
-/

namespace RegisterVm

namespace Thread

theorem getD_copySlots_up (stack : Array Value) {source target count : Nat}
    (apart : source + count ≤ target) (room : target + count ≤ stack.size) (index : Nat) :
    (copySlots stack source target count).getD index .nil =
      if target ≤ index ∧ index < target + count then
        stack.getD (source + (index - target)) .nil
      else stack.getD index .nil := by
  induction count generalizing stack source target with
  | zero => rw [copySlots, if_neg (by omega)]
  | succ count ih =>
      rw [copySlots, ih _ (by omega) (by simpa using (by omega : target + 1 + count ≤ stack.size))]
      simp only [Array.getD_eq_getD_getElem?, Array.getElem?_setIfInBounds]
      -- The slot just written is read by no later copy: they all read further down.
      by_cases first : index = target
      · subst first
        rw [if_neg (by omega), if_pos rfl, if_pos (by omega), if_pos (by omega), Nat.sub_self,
          Nat.add_zero]
        rfl
      · by_cases inside : target + 1 ≤ index ∧ index < target + 1 + count
        · have place : source + 1 + (index - (target + 1)) = source + (index - target) := by omega
          rw [if_pos inside, if_neg (by omega), if_pos (by omega), place]
        · rw [if_neg inside, if_neg (by omega), if_neg (by omega)]

theorem get_moveSlots_up (th : Thread) {source target count : Nat} (apart : source + count ≤ target)
    (index : Nat) : (th.moveSlots source target count).get index =
      if target ≤ index ∧ index < target + count then th.get (source + (index - target))
      else th.get index := by
  simp only [moveSlots, Bool.or_eq_true, beq_iff_eq]
  split
  · rw [if_neg (by omega)]
  · have room := (le_size_growTo th.stack (max source target + count)).2
    simp only [get]
    rw [getD_copySlots_up _ apart (by omega)]
    split <;> exact getD_growTo _ _ _

theorem getD_values_eq (th : Thread) (start count place : Nat) :
    (th.values start count).getD place .nil =
      if place < count then th.get (start + place) else .nil := by
  split
  · rename_i inside
    exact th.getD_values start inside
  · rename_i outside
    have missing : (th.values start count)[place]? = none :=
      List.getElem?_eq_none (by rw [length_values]; omega)
    rw [List.getD_eq_getElem?_getD, missing]
    rfl

theorem values_congr {th th' : Thread} (same : ∀ index, th'.get index = th.get index)
    (start count : Nat) : th'.values start count = th.values start count := by
  simp only [values, same]

section Arrange

variable (th : Thread) (p : Prototype) {slot arguments : Nat}

theorem get_arrange_low {index : Nat} (low : index ≤ slot) :
    (th.arrange p slot arguments).get index = th.get index := by
  have plan := argumentPlan_base p slot arguments
  simp only [arrange]
  rw [get_clear_below _ (by omega)]
  split
  · rw [get_clear_below _ (by omega), get_moveSlots_below _ _ _ _ (by omega)]
  · split
    · rw [get_clear_below _ (by omega)]
    · rfl

theorem get_arrange_register {i : Nat} (inside : i < p.frameSize) :
    (th.arrange p slot arguments).get ((argumentPlan p slot arguments).base + i) =
      if i < p.parameters ∧ i < arguments then th.get (slot + 1 + i) else .nil := by
  simp only [arrange, argumentPlan]
  by_cases moves : p.isVararg = true ∧ p.parameters < arguments
  · have shifts : (p.isVararg && decide (p.parameters < arguments)) = true := by simpa using moves
    have some : 0 < arguments - p.parameters := by omega
    simp only [shifts, if_true, some]
    rw [get_clear, get_clear, get_moveSlots_up _ (by omega)]
    by_cases parameter : i < p.parameters
    · rw [if_neg (by omega), if_neg (by omega), if_pos (by omega), if_pos (by omega),
        Nat.add_sub_cancel_left]
    · rw [if_pos (by omega), if_neg (by omega)]
  · have stays : (p.isVararg && decide (p.parameters < arguments)) = false := by simpa using moves
    simp only [stays, Bool.false_eq_true, if_false, Nat.lt_irrefl]
    rw [get_clear]
    by_cases argument : i < p.parameters ∧ i < arguments
    · rw [if_neg (by omega), if_pos argument]
      split
      · rw [get_clear_below _ (by omega)]
      · rfl
    · rw [if_pos (by omega), if_neg argument]

theorem get_arrange_extra {k : Nat} (extra : k < (argumentPlan p slot arguments).extras) :
    (th.arrange p slot arguments).get ((argumentPlan p slot arguments).base -
      (argumentPlan p slot arguments).extras + k) = th.get (slot + 1 + (p.parameters + k)) := by
  simp only [argumentPlan] at extra
  by_cases moves : p.isVararg = true ∧ p.parameters < arguments
  · have shifts : (p.isVararg && decide (p.parameters < arguments)) = true := by simpa using moves
    have some : 0 < arguments - p.parameters := by omega
    simp only [shifts, if_true] at extra
    have place : slot + 1 + arguments - (arguments - p.parameters) + k =
        slot + 1 + (p.parameters + k) := by omega
    simp only [arrange, argumentPlan, shifts, if_true, some, place]
    rw [get_clear_below _ (by omega), get_clear, if_neg (by omega),
      get_moveSlots_below _ _ _ _ (by omega)]
  · have stays : (p.isVararg && decide (p.parameters < arguments)) = false := by simpa using moves
    simp [stays] at extra

end Arrange

def scriptFrame (th : Thread) (p : Prototype) (callee : Value) (slot arguments target : Nat)
    (wanted : Option Nat) : Frame :=
  let plan := argumentPlan p slot arguments
  { callee, kind := .script, slot, base := plan.base, top := plan.base + p.frameSize, pc := 0,
    extras := plan.extras, wanted, target, isTail := false, yieldable := th.isYieldable }

end Thread

/-- What a frame holds when a closure of prototype `p` starts to run in it. -/
structure Frame.Receives (f : Frame) (p : Prototype) (arguments : List Value) (th : Thread) :
    Prop where
  start : f.pc = 0
  size : f.top = f.base + p.frameSize
  base : f.slot + f.extras < f.base
  extras : f.extras = if p.isVararg then arguments.length - p.parameters else 0
  callee : th.get f.slot = f.callee
  registers : ∀ i, i < p.frameSize →
    th.get (f.base + i) = if i < p.parameters then arguments.getD i .nil else .nil
  beyond : ∀ k, k < f.extras →
    th.get (f.base - f.extras + k) = arguments.getD (p.parameters + k) .nil

theorem argumentPlan_extras (p : Prototype) (slot arguments : Nat) :
    (argumentPlan p slot arguments).extras = (if p.isVararg then arguments - p.parameters else 0) ∧
      slot + (argumentPlan p slot arguments).extras < (argumentPlan p slot arguments).base ∧
      (argumentPlan p slot arguments).extras ≤ arguments - p.parameters := by
  simp only [argumentPlan]
  cases variadic : p.isVararg with
  | false => exact ⟨rfl, Nat.lt_succ_self slot, Nat.zero_le _⟩
  | true =>
      by_cases more : p.parameters < arguments
      · simp only [more, decide_true, Bool.and_self, ↓reduceIte, true_and]
        omega
      · simp only [more, decide_false, Bool.and_false, Bool.false_eq_true, ↓reduceIte]
        omega

namespace Thread

variable (th : Thread) (p : Prototype) {callee : Value} {slot : Nat} (arguments target : Nat)
  (wanted : Option Nat)

theorem frames_enterScript :
    (th.enterScript p callee slot arguments target wanted).frames =
      th.scriptFrame p callee slot arguments target wanted :: th.frames :=
  congrArg (List.cons _) (frames_arrange th p slot arguments)

theorem enterScript_receives (found : th.get slot = callee) :
    (th.scriptFrame p callee slot arguments target wanted).Receives p
      (th.values (slot + 1) arguments)
      (th.enterScript p callee slot arguments target wanted) := by
  obtain ⟨extras, base, fewer⟩ := argumentPlan_extras p slot arguments
  refine ⟨rfl, rfl, base, ?_, ?_, ?_, ?_⟩
  · rw [length_values]
    exact extras
  · exact (th.get_arrange_low p (Nat.le_refl slot)).trans found
  · intro i inside
    have register :
        (th.arrange p slot arguments).get ((argumentPlan p slot arguments).base + i) = _ :=
      th.get_arrange_register p inside
    refine Eq.trans register ?_
    rw [getD_values_eq]
    by_cases parameter : i < p.parameters
    · by_cases given : i < arguments
      · rw [if_pos ⟨parameter, given⟩, if_pos parameter, if_pos given]
      · rw [if_neg (by omega), if_pos parameter, if_neg given]
    · rw [if_neg (by omega), if_neg parameter]
  · intro k extra
    have inside : k < (argumentPlan p slot arguments).extras := extra
    refine (th.get_arrange_extra p inside).trans ?_
    rw [getD_values_eq, if_pos (by omega)]

end Thread

structure Thread.Admits (th : Thread) (p : Prototype) (slot arguments : Nat) : Prop where
  shallow : th.frames.length < th.limits.maxDepth
  fits : (argumentPlan p slot arguments).base + p.frameSize + scratchSlots ≤ th.limits.maxStack

section EnterCall

variable {s : Store} {t : ThreadRef} {slot : Nat} {ref : ClosureRef} (arguments target : Nat)
  (wanted : Option Nat)

theorem enterCall_script (callee : (s.thread t).get slot = .closure ref)
    (admits : (s.thread t).Admits (s.closure ref).prototype slot arguments) :
    enterCall t slot arguments target wanted s = .ok .script
      ((s.modifyThread t fun th => th.reserve
        ((argumentPlan (s.closure ref).prototype slot arguments).base +
          (s.closure ref).prototype.frameSize + scratchSlots)).modifyThread t fun th =>
            th.enterScript (s.closure ref).prototype (.closure ref) slot arguments target
              wanted) := by
  have shallow : ¬(s.thread t).limits.maxDepth ≤ (s.thread t).depth :=
    Nat.not_le.2 admits.shallow
  simp only [enterCall, getSlot, lookThread, look, bind, EStateM.bind, shallow, decide_false,
    Bool.false_eq_true, if_false, callee, reserve_ok _ admits.fits]
  rfl

/-- A call of a closure that the limits admit leaves the closure with its arguments. -/
theorem enterCall_receives (valid : t < s.threads.size)
    (callee : (s.thread t).get slot = .closure ref)
    (admits : (s.thread t).Admits (s.closure ref).prototype slot arguments) :
    ∃ s', enterCall t slot arguments target wanted s = .ok .script s' ∧
      s'.cells = s.cells ∧ t < s'.threads.size ∧
      (s'.thread t).frames = (s.thread t).scriptFrame (s.closure ref).prototype (.closure ref) slot
        arguments target wanted :: (s.thread t).frames ∧
      ((s.thread t).scriptFrame (s.closure ref).prototype (.closure ref) slot arguments target
        wanted).Receives (s.closure ref).prototype ((s.thread t).values (slot + 1) arguments)
          (s'.thread t) := by
  refine ⟨_, enterCall_script arguments target wanted callee admits, rfl, by simpa using valid, ?_⟩
  generalize (argumentPlan (s.closure ref).prototype slot arguments).base +
    (s.closure ref).prototype.frameSize + scratchSlots = needed
  have looks := Thread.Looks.reserve (s.thread t) needed
  have thread : ((s.modifyThread t fun th => th.reserve needed).modifyThread t fun th =>
      th.enterScript (s.closure ref).prototype (.closure ref) slot arguments target wanted).thread
        t = ((s.thread t).reserve needed).enterScript (s.closure ref).prototype (.closure ref) slot
          arguments target wanted := by
    rw [Store.thread_modifyThread_self _ _ (by simpa using valid),
      Store.thread_modifyThread_self _ _ valid]
  have frame : ((s.thread t).reserve needed).scriptFrame (s.closure ref).prototype (.closure ref)
      slot arguments target wanted = (s.thread t).scriptFrame (s.closure ref).prototype
        (.closure ref) slot arguments target wanted := by
    obtain ⟨stack, same⟩ := looks.fields
    rw [same]
    rfl
  have receives := ((s.thread t).reserve needed).enterScript_receives (s.closure ref).prototype
    arguments target wanted ((looks.slots slot).trans callee)
  rw [frame, Thread.values_congr looks.slots] at receives
  rw [thread]
  refine ⟨?_, receives⟩
  rw [Thread.frames_enterScript, frame, looks.frames]

end EnterCall

end RegisterVm
