import RegisterVm.Proofs.Machine.Calls

/-!
A thread within its limits: how many frames and slots it has, and where its frames lie. Assigning a
slot extends the stack without asking, so each lemma says up to where the stack is worked on.
-/

namespace RegisterVm

theorem suffix_of_eq {frames frames' : List Frame} (same : frames' = frames) :
    frames' <:+ frames :=
  same ▸ List.suffix_refl _

def Limits.slots (limits : Limits) : Nat := max limits.maxStack initialSlots

structure Frame.Fits (limits : Limits) (f : Frame) : Prop where
  target : f.target ≤ f.slot
  base : f.slot < f.base
  top : f.base ≤ f.top
  within : f.top ≤ limits.slots
  granted : f.kind = .native → f.top + nativeSlots ≤ limits.maxStack

def Asked : List Frame → Prop
  | [] => True
  | f :: below =>
    (f.wanted ≠ none → ∃ caller rest, below = caller :: rest ∧ caller.kind = .script) ∧ Asked below

structure Thread.Fits (limits : Limits) (th : Thread) : Prop where
  own : th.limits = limits
  depth : th.frames.length ≤ limits.maxDepth
  stack : th.stack.size ≤ limits.slots
  top : th.top ≤ limits.slots
  frames : ∀ f ∈ th.frames, f.Fits limits
  asked : Asked th.frames

theorem Limits.maxStack_le_slots (limits : Limits) : limits.maxStack ≤ limits.slots :=
  Nat.le_max_left _ _

theorem Asked.suffix {frames base : List Frame} (asked : Asked frames) (suffix : base <:+ frames) :
    Asked base := by
  induction frames with
  | nil =>
      rw [List.suffix_nil.1 suffix]
      trivial
  | cons f below ih =>
      rcases List.suffix_cons_iff.1 suffix with rfl | inner
      · exact asked
      · exact ih asked.2 inner

namespace Thread

section Sizes

variable (th : Thread)

theorem size_put (index : Nat) (value : Value) :
    (th.put index value).stack.size = max th.stack.size (index + 1) := by
  simp only [put, putSlot]
  split
  · rw [Array.size_setIfInBounds]
    omega
  · simp only [Array.size_push, Array.size_append, Array.size_replicate]
    omega

theorem size_putAll_le (start : Nat) (values : List Value) :
    (th.putAll start values).stack.size ≤ max th.stack.size (start + values.length) := by
  induction values generalizing th start with
  | nil => exact Nat.le_max_left _ _
  | cons value rest ih =>
      have later := ih (th.put start value) (start + 1)
      rw [size_put] at later
      simp only [putAll, List.length_cons]
      omega

theorem size_growTo (stack : Array Value) (size : Nat) :
    (growTo stack size).size = max stack.size size := by
  simp only [growTo]
  split
  · omega
  · simp only [Array.size_append, Array.size_replicate]
    omega

theorem size_moveSlots_le {slots : Nat} (stack : th.stack.size ≤ slots) {source target count : Nat}
    (room : 0 < count → max source target + count ≤ slots) :
    (th.moveSlots source target count).stack.size ≤ slots := by
  simp only [moveSlots]
  split
  · exact stack
  · rename_i moves
    have some : 0 < count := by
      rw [Bool.or_eq_true, beq_iff_eq] at moves
      omega
    rw [size_copySlots, size_growTo]
    exact Nat.max_le.2 ⟨stack, room some⟩

theorem size_reserve_le (needed : Nat) :
    (th.reserve needed).stack.size ≤ max th.stack.size th.limits.maxStack := by
  simp only [reserve]
  split
  · exact Nat.le_max_left _ _
  · rw [size_growTo]
    omega

end Sizes

namespace Fits

variable {limits : Limits} {th : Thread}

theorem of_stack {th' : Thread} (fits : th.Fits limits) (same : th'.limits = th.limits)
    (frames : th'.frames = th.frames) (stack : th'.stack.size ≤ limits.slots)
    (top : th'.top ≤ limits.slots) : th'.Fits limits where
  own := same.trans fits.own
  depth := by rw [frames]; exact fits.depth
  stack := stack
  top := top
  frames := by rw [frames]; exact fits.frames
  asked := by rw [frames]; exact fits.asked

theorem withFrames (fits : th.Fits limits) {frames : List Frame}
    (depth : frames.length ≤ limits.maxDepth) (formed : ∀ f ∈ frames, f.Fits limits)
    (asked : Asked frames) : ({ th with frames } : Thread).Fits limits :=
  ⟨fits.own, depth, fits.stack, fits.top, formed, asked⟩

theorem keep (fits : th.Fits limits) {frames : List Frame} (suffix : frames <:+ th.frames) :
    ({ th with frames } : Thread).Fits limits :=
  fits.withFrames (Nat.le_trans suffix.length_le fits.depth)
    (fun f member => fits.frames f (suffix.mem member)) (fits.asked.suffix suffix)

theorem put (fits : th.Fits limits) {index : Nat} (value : Value) (bound : index < limits.slots) :
    (th.put index value).Fits limits := by
  refine fits.of_stack rfl rfl ?_ fits.top
  rw [size_put]
  exact Nat.max_le.2 ⟨fits.stack, bound⟩

theorem withTop (fits : th.Fits limits) {top : Nat} (bound : top ≤ limits.slots) :
    (th.withTop top).Fits limits :=
  fits.of_stack rfl rfl fits.stack bound

theorem clear (fits : th.Fits limits) (start stop : Nat) : (th.clear start stop).Fits limits :=
  fits.of_stack rfl rfl (by rw [size_clear]; exact fits.stack) fits.top

theorem putAll (fits : th.Fits limits) {start : Nat} (values : List Value)
    (bound : start + values.length ≤ limits.slots) : (th.putAll start values).Fits limits := by
  have kept : Reworked 0 th (th.putAll start values) := reworked_putAll th values (Nat.zero_le _)
  refine fits.of_stack kept.steady.limits (frames_putAll th _ _) ?_ ?_
  · exact Nat.le_trans (size_putAll_le th start values) (Nat.max_le.2 ⟨fits.stack, bound⟩)
  · rw [top_putAll]
    exact fits.top

theorem moveSlots (fits : th.Fits limits) {source target count : Nat}
    (room : 0 < count → max source target + count ≤ limits.slots) :
    (th.moveSlots source target count).Fits limits := by
  have kept : Reworked 0 th (th.moveSlots source target count) :=
    reworked_moveSlots th _ _ (Nat.zero_le _)
  refine fits.of_stack kept.steady.limits (frames_moveSlots th _ _ _)
    (size_moveSlots_le th fits.stack room) ?_
  rw [Thread.moveSlots]
  split <;> exact fits.top

theorem reserve (fits : th.Fits limits) (needed : Nat) : (th.reserve needed).Fits limits := by
  have kept : Reworked 0 th (th.reserve needed) := reworked_reserve th 0 needed
  refine fits.of_stack kept.steady.limits (frames_reserve th _) ?_ ?_
  · refine Nat.le_trans (size_reserve_le th needed) (Nat.max_le.2 ⟨fits.stack, ?_⟩)
    rw [fits.own]
    exact limits.maxStack_le_slots
  · rw [top_reserve]
    exact fits.top

theorem le_maxStack (fits : th.Fits limits) {needed : Nat} (granted : th.fits needed = true) :
    needed ≤ limits.maxStack := by
  rw [← fits.own]
  simpa [Thread.fits] using granted

theorem pushFrame (fits : th.Fits limits) {f : Frame} (room : th.frames.length < limits.maxDepth)
    (formed : f.Fits limits)
    (asks : f.wanted ≠ none → ∃ caller rest, th.frames = caller :: rest ∧ caller.kind = .script) :
    (th.pushFrame f).Fits limits :=
  fits.withFrames room (List.forall_mem_cons.2 ⟨formed, fits.frames⟩) ⟨asks, fits.asked⟩

theorem arrange (fits : th.Fits limits) {p : Prototype} {slot arguments : Nat}
    (room : (argumentPlan p slot arguments).base + p.frameSize ≤ limits.slots) :
    (th.arrange p slot arguments).Fits limits := by
  have plan := argumentPlan_base p slot arguments
  have window : p.parameters ≤ p.frameSize := Nat.le_max_right _ _
  simp only [Thread.arrange]
  refine clear ?_ _ _
  split
  · exact (fits.moveSlots fun _ => by omega).clear _ _
  · split
    · exact fits.clear _ _
    · exact fits

section Entering

variable {slot arguments target : Nat} {wanted : Option Nat} (fits : th.Fits limits)
  (room : th.frames.length < limits.maxDepth) (deliver : target ≤ slot)
  (asks : wanted ≠ none → ∃ caller rest, th.frames = caller :: rest ∧ caller.kind = .script)

include fits room deliver asks

theorem enterScript {p : Prototype} {callee : Value}
    (granted : (argumentPlan p slot arguments).base + p.frameSize ≤ limits.slots) :
    (th.enterScript p callee slot arguments target wanted).Fits limits := by
  have plan := argumentPlan_base p slot arguments
  refine ((fits.arrange granted).pushFrame ?_ ?_ ?_).withTop granted
  · rwa [frames_arrange]
  · exact ⟨deliver, plan.1, Nat.le_add_right _ _, granted, nofun⟩
  · rwa [frames_arrange]

theorem enterNative {callee : Value}
    (granted : slot + 1 + arguments + nativeSlots ≤ limits.maxStack) :
    (th.enterNative callee slot arguments target wanted).Fits limits := by
  have within : slot + 1 + arguments ≤ limits.slots :=
    Nat.le_trans (Nat.le_trans (Nat.le_add_right _ _) granted) limits.maxStack_le_slots
  refine (fits.pushFrame room ?_ asks).withTop within
  exact ⟨deliver, Nat.lt_succ_self _, Nat.le_add_right _ _, within, fun _ => granted⟩

end Entering

theorem top_finish (fits : th.Fits limits) {f : Frame} {rest : List Frame}
    (head : th.frames = f :: rest) (source n : Nat) :
    (th.finish source n).top = f.target + n ∨
      ∃ caller below, rest = caller :: below ∧ caller.kind = .script ∧
        (th.finish source n).top = caller.top := by
  have asked := fits.asked
  rw [head] at asked
  simp only [Thread.finish, head]
  cases wanted : f.wanted with
  | none => exact .inl rfl
  | some count =>
      obtain ⟨caller, below, rfl, script⟩ := asked.1 (by simp [wanted])
      refine .inr ⟨caller, below, rfl, script, ?_⟩
      simp only [script, top_withTop]

theorem finish (fits : th.Fits limits) {f : Frame} {rest : List Frame}
    (head : th.frames = f :: rest) {source n : Nat}
    (supplied : 0 < n → source + n ≤ limits.slots) (delivered : f.target + n ≤ limits.slots) :
    (th.finish source n).Fits limits := by
  have top : (th.finish source n).top ≤ limits.slots := by
    rcases fits.top_finish head source n with same | ⟨caller, below, rfl, -, same⟩
    · omega
    · rw [same]
      exact (fits.frames caller (by simp [head])).within
  have moved : (({ th with frames := rest } : Thread).moveSlots source f.target
      (min n (f.wanted.getD n))).Fits limits :=
    (fits.keep (head ▸ List.suffix_cons f rest)).moveSlots fun some => by omega
  have shape : ∃ start stop vacated high, th.finish source n =
      (((({ th with frames := rest } : Thread).moveSlots source f.target
        (min n (f.wanted.getD n))).clear start stop).clear vacated high).withTop
          (th.finish source n).top := by
    simp only [Thread.finish, head]
    split
    · split <;> exact ⟨_, _, _, _, rfl⟩
    · exact ⟨_, _, _, _, rfl⟩
  obtain ⟨start, stop, vacated, high, shape⟩ := shape
  rw [shape]
  exact ((moved.clear start stop).clear vacated high).withTop top

theorem vacate (fits : th.Fits limits) {f : Frame} {rest : List Frame}
    (head : th.frames = f :: rest) {slot arguments : Nat} (above : f.slot ≤ slot)
    (bound : slot + 1 + arguments ≤ limits.slots) :
    (Context.vacate th slot arguments).Fits limits := by
  simp only [Context.vacate, head]
  have kept := (fits.keep (head ▸ List.suffix_cons f rest)).withTop bound
  exact ((kept.moveSlots fun _ => by omega).clear _ _).withTop (by omega)

theorem rehead (fits : th.Fits limits) {f g : Frame} {rest : List Frame}
    (head : th.frames = f :: rest) (formed : f.Fits limits → g.Fits limits)
    (wanted : g.wanted = f.wanted) : ({ th with frames := g :: rest } : Thread).Fits limits := by
  have frames := fits.frames
  have depth := fits.depth
  have asked := fits.asked
  rw [head] at frames depth asked
  obtain ⟨own, others⟩ := List.forall_mem_cons.1 frames
  exact fits.withFrames depth (List.forall_mem_cons.2 ⟨formed own, others⟩)
    ⟨wanted ▸ asked.1, asked.2⟩

theorem markTail (fits : th.Fits limits) : th.markTail.Fits limits := by
  simp only [Thread.markTail]
  split
  · rename_i head
    exact fits.rehead head (fun f => ⟨f.target, f.base, f.top, f.within, f.granted⟩) rfl
  · exact fits

theorem setPc (fits : th.Fits limits) (pc : Nat) : (th.setPc pc).Fits limits := by
  simp only [Thread.setPc]
  split
  · rename_i head
    exact fits.rehead head (fun f => ⟨f.target, f.base, f.top, f.within, f.granted⟩) rfl
  · exact fits

end Fits

end Thread

end RegisterVm
