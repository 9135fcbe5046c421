import RegisterVm.Proofs.Machine.Calls

/-!
What the end of a call leaves of the stack, slot by slot: the results lie where the caller wants
them, as many as it wants, and what the call vacates is nil.
-/

namespace RegisterVm

/-- How many results the caller gets of a call that returns `n`. -/
def Frame.takes (f : Frame) (n : Nat) : Nat := f.wanted.getD n

theorem Frame.Delivers.order {f : Frame} (delivers : f.Delivers) {source : Nat}
    (above : f.slot ≤ source) (n : Nat) : f.target ≤ source ∨ min n (f.takes n) ≤ 1 := by
  rcases delivers with down | single
  · exact .inl (Nat.le_trans down above)
  · right
    rw [Frame.takes, single]
    exact Nat.min_le_right n 1

namespace Thread

theorem getD_copySlots (stack : Array Value) {source target count : Nat} (down : target ≤ source)
    (room : target + count ≤ stack.size) (index : Nat) :
    (copySlots stack source target count).getD index .nil =
      if target ≤ index ∧ index < target + count then
        stack.getD (source + (index - target)) .nil
      else stack.getD index .nil := by
  induction count generalizing stack source target with
  | zero => rw [copySlots, if_neg (by omega)]
  | succ count ih =>
      rw [copySlots, ih _ (by omega) (by simpa using (by omega : target + 1 + count ≤ stack.size))]
      simp only [Array.getD_eq_getD_getElem?, Array.getElem?_setIfInBounds]
      -- The slot just written is read by no later copy: they all read further up.
      by_cases first : index = target
      · subst first
        rw [if_neg (by omega), if_pos rfl, if_pos (by omega), if_pos (by omega), Nat.sub_self,
          Nat.add_zero]
        rfl
      · by_cases inside : target + 1 ≤ index ∧ index < target + 1 + count
        · have place : source + 1 + (index - (target + 1)) = source + (index - target) := by omega
          rw [if_pos inside, if_neg (by omega), if_pos (by omega), place]
        · rw [if_neg inside, if_neg (by omega), if_neg (by omega)]

theorem get_moveSlots (th : Thread) {source target count : Nat}
    (order : target ≤ source ∨ count ≤ 1) (index : Nat) :
    (th.moveSlots source target count).get index =
      if target ≤ index ∧ index < target + count then th.get (source + (index - target))
      else th.get index := by
  simp only [moveSlots, Bool.or_eq_true, beq_iff_eq]
  split
  · rename_i still
    split
    · rcases still with rfl | rfl
      · omega
      · congr 1
        omega
    · rfl
  · rename_i moves
    have room := (le_size_growTo th.stack (max source target + count)).2
    simp only [get]
    by_cases down : target ≤ source
    · rw [getD_copySlots _ down (by omega)]
      split <;> exact getD_growTo _ _ _
    · obtain rfl : count = 1 := by omega
      simp only [copySlots, Array.getD_eq_getD_getElem?, Array.getElem?_setIfInBounds]
      by_cases here : target = index
      · subst here
        rw [if_pos rfl, if_pos (by omega), if_pos (by omega), Nat.sub_self, Nat.add_zero,
          ← Array.getD_eq_getD_getElem?, ← Array.getD_eq_getD_getElem?]
        exact getD_growTo _ _ _
      · rw [if_neg here, if_neg (by omega), ← Array.getD_eq_getD_getElem?,
          ← Array.getD_eq_getD_getElem?]
        exact getD_growTo _ _ _

theorem get_putAll (th : Thread) (start : Nat) (values : List Value) (index : Nat) :
    (th.putAll start values).get index =
      if start ≤ index ∧ index < start + values.length then values.getD (index - start) .nil
      else th.get index := by
  induction values generalizing th start with
  | nil =>
      rw [putAll, if_neg]
      simp only [List.length_nil]
      omega
  | cons value rest ih =>
      rw [putAll, ih, get_put]
      simp only [List.length_cons]
      by_cases first : index = start
      · subst first
        rw [if_neg (by omega), if_pos rfl, if_pos (by omega), Nat.sub_self]
        rfl
      · by_cases inside : start + 1 ≤ index ∧ index < start + 1 + rest.length
        · have place : index - start = (index - (start + 1)) + 1 := by omega
          rw [if_pos inside, if_pos (by omega), place]
          rfl
        · rw [if_neg inside, if_neg first, if_neg (by omega)]

section Finish

variable (th : Thread) {f : Frame} {rest : List Frame}

theorem get_finish (head : th.frames = f :: rest) {source n : Nat}
    (order : f.target ≤ source ∨ min n (f.takes n) ≤ 1) (index : Nat) :
    (th.finish source n).get index =
      if f.target ≤ index ∧ index < f.target + f.takes n then
        if index - f.target < n then th.get (source + (index - f.target)) else .nil
      else if max (f.target + f.takes n) f.slot ≤ index ∧ index < max th.top f.top then .nil
      else th.get index := by
  have slots : (th.finish source n).get index =
      ((((({ th with frames := rest } : Thread).moveSlots source f.target
        (min n (f.takes n))).clear (f.target + min n (f.takes n)) (f.target + f.takes n)).clear
          (max (f.target + f.takes n) f.slot) (max th.top f.top)).get index) := by
    have top : ∀ source target count start stop,
        ((({ th with frames := rest } : Thread).moveSlots source target count).clear start
          stop).top = th.top := by
      intro source target count start stop
      simp only [moveSlots]
      split <;> rfl
    simp only [finish, head, top, Frame.takes]
    split
    · split <;> rfl
    · rfl
  rw [slots, get_clear, get_clear, get_moveSlots _ order]
  have same : ∀ i, ({ th with frames := rest } : Thread).get i = th.get i := fun _ => rfl
  simp only [same]
  by_cases result : f.target ≤ index ∧ index < f.target + f.takes n
  · rw [if_neg (by omega), if_pos result]
    by_cases given : index - f.target < n
    · rw [if_neg (by omega), if_pos (by omega), if_pos given]
    · rw [if_pos (by omega), if_neg given]
  · by_cases vacated : max (f.target + f.takes n) f.slot ≤ index ∧ index < max th.top f.top
    · rw [if_pos vacated, if_neg result, if_pos vacated]
    · rw [if_neg vacated, if_neg (by omega), if_neg (by omega), if_neg result, if_neg vacated]

def topAfter (f : Frame) (rest : List Frame) (n : Nat) : Nat :=
  match f.wanted, rest with
  | some _, caller :: _ =>
    match caller.kind with
    | .script => caller.top
    | .native => f.target + f.takes n
  | _, _ => f.target + f.takes n

theorem top_finish_eq (head : th.frames = f :: rest) (source n : Nat) :
    (th.finish source n).top = topAfter f rest n := by
  simp only [finish, head, topAfter, Frame.takes]
  cases f.wanted with
  | none => rfl
  | some wanted =>
      cases rest with
      | nil => rfl
      | cons caller below =>
          cases kind : caller.kind <;> simp only [kind] <;> rfl

end Finish

structure Looks (th th' : Thread) : Prop where
  fields : ∃ stack, th' = { th with stack }
  slots : ∀ index, th'.get index = th.get index

namespace Looks

variable {a b c : Thread}

theorem refl (th : Thread) : Looks th th := ⟨⟨th.stack, rfl⟩, fun _ => rfl⟩

theorem trans (first : Looks a b) (second : Looks b c) : Looks a c := by
  obtain ⟨⟨stack, rfl⟩, slots⟩ := first
  obtain ⟨⟨stack', rfl⟩, slots'⟩ := second
  exact ⟨⟨stack', rfl⟩, fun index => (slots' index).trans (slots index)⟩

theorem frames (looks : Looks a b) : b.frames = a.frames := by
  obtain ⟨stack, rfl⟩ := looks.fields
  rfl

theorem top (looks : Looks a b) : b.top = a.top := by
  obtain ⟨stack, rfl⟩ := looks.fields
  rfl

theorem limits (looks : Looks a b) : b.limits = a.limits := by
  obtain ⟨stack, rfl⟩ := looks.fields
  rfl

theorem yielding (looks : Looks a b) : b.yielding = a.yielding := by
  obtain ⟨stack, rfl⟩ := looks.fields
  rfl

theorem reserve (th : Thread) (needed : Nat) : Looks th (th.reserve needed) := by
  refine ⟨?_, get_reserve th needed⟩
  simp only [Thread.reserve]
  split <;> exact ⟨_, rfl⟩

theorem put (looks : Looks a b) (index : Nat) (value : Value) :
    Looks (a.put index value) (b.put index value) := by
  obtain ⟨⟨stack, rfl⟩, slots⟩ := looks
  refine ⟨⟨_, rfl⟩, fun other => ?_⟩
  rw [get_put, get_put, slots]

theorem withTop (looks : Looks a b) (top : Nat) : Looks (a.withTop top) (b.withTop top) := by
  obtain ⟨⟨stack, rfl⟩, slots⟩ := looks
  exact ⟨⟨stack, rfl⟩, slots⟩

theorem putAll (looks : Looks a b) (start : Nat) (values : List Value) :
    Looks (a.putAll start values) (b.putAll start values) := by
  induction values generalizing a b start with
  | nil => exact looks
  | cons value rest ih => exact ih (looks.put start value) (start + 1)

theorem finish (looks : Looks a b) {f : Frame} {rest : List Frame} (head : a.frames = f :: rest)
    {source n : Nat} (order : f.target ≤ source ∨ min n (f.takes n) ≤ 1) :
    Looks (a.finish source n) (b.finish source n) := by
  have head' := looks.frames.trans head
  have before := (a.reworked_finish head (Nat.zero_le _) (Nat.zero_le _) source n).fields
  have after := (b.reworked_finish head' (Nat.zero_le _) (Nat.zero_le _) source n).fields
  rw [frames_finish b head', top_finish_eq b head'] at after
  rw [frames_finish a head, top_finish_eq a head] at before
  refine ⟨⟨(b.finish source n).stack, ?_⟩, fun index => ?_⟩
  · obtain ⟨stack, rfl⟩ := looks.fields
    rw [before, after]
  · rw [get_finish b head' order, get_finish a head order]
    simp only [looks.slots, looks.top]

end Looks

def deliver (th : Thread) (source : Nat) (values : Array Value) : Thread :=
  ((th.putAll source values.toList).withTop (source + values.size)).finish source values.size

/-- The thread when its innermost call has returned the values. -/
def returning (th : Thread) (values : Array Value) : Thread := th.deliver th.top values

section Deliver

variable (th : Thread) {f : Frame} {below : List Frame}

theorem frames_deliver (head : th.frames = f :: below) (source : Nat) (values : Array Value) :
    (th.deliver source values).frames = below :=
  frames_finish _ (by simpa using head) _ _

theorem top_deliver (head : th.frames = f :: below) (source : Nat) (values : Array Value) :
    (th.deliver source values).top = topAfter f below values.size :=
  top_finish_eq _ (by simpa using head) _ _

theorem reworked_deliver (head : th.frames = f :: below) (source : Nat) (values : Array Value) :
    Reworked 0 th (th.deliver source values) := by
  refine ((reworked_putAll th values.toList (Nat.zero_le source)).trans
    (reworked_withTop _ 0 (source + values.size))).trans ?_
  exact reworked_finish _ (by simpa using head) (Nat.zero_le _) (Nat.zero_le _) _ _

theorem get_deliver (head : th.frames = f :: below) (delivers : f.Delivers) {source : Nat}
    (above : f.slot ≤ source) (values : Array Value) (index : Nat) :
    (th.deliver source values).get index =
      if f.target ≤ index ∧ index < f.target + f.takes values.size then
        values.getD (index - f.target) .nil
      else if max (f.target + f.takes values.size) f.slot ≤ index ∧
          index < max (source + values.size) f.top then .nil
      else if source ≤ index ∧ index < source + values.size then
        values.getD (index - source) .nil
      else th.get index := by
  rw [deliver, get_finish _ (by simpa using head) (delivers.order above values.size)]
  simp only [get_withTop, get_putAll, Array.length_toList, top_withTop]
  have lists : ∀ place, values.toList.getD place .nil = values.getD place .nil := by
    intro place
    simp [Array.getD_eq_getD_getElem?]
  simp only [lists]
  by_cases result : f.target ≤ index ∧ index < f.target + f.takes values.size
  · rw [if_pos result, if_pos result]
    by_cases given : index - f.target < values.size
    · rw [if_pos given, if_pos (by omega), Nat.add_sub_cancel_left]
    · have missing : values.getD (index - f.target) .nil = .nil := by
        simp [Array.getD_eq_getD_getElem?, Nat.not_lt.1 given]
      rw [if_neg given, missing]
  · rw [if_neg result, if_neg result]

theorem get_deliver_result (head : th.frames = f :: below) (delivers : f.Delivers) {source : Nat}
    (above : f.slot ≤ source) (values : Array Value) {place : Nat}
    (taken : place < f.takes values.size) :
    (th.deliver source values).get (f.target + place) = values.getD place .nil := by
  rw [get_deliver th head delivers above, if_pos (by omega), Nat.add_sub_cancel_left]

theorem get_deliver_below (head : th.frames = f :: below) (delivers : f.Delivers) {source : Nat}
    (above : f.slot ≤ source) (values : Array Value) {index : Nat} (low : index < f.slot)
    (other : ¬(f.target ≤ index ∧ index < f.target + f.takes values.size)) :
    (th.deliver source values).get index = th.get index := by
  rw [get_deliver th head delivers above, if_neg other, if_neg (by omega), if_neg (by omega)]

end Deliver

theorem Looks.deliver {a b : Thread} (looks : Looks a b) {f : Frame} {below : List Frame}
    (head : a.frames = f :: below) (delivers : f.Delivers) {source : Nat}
    (above : f.slot ≤ source) (values : Array Value) :
    Looks (a.deliver source values) (b.deliver source values) :=
  ((looks.putAll source values.toList).withTop (source + values.size)).finish (by simpa using head)
    (delivers.order above values.size)

theorem putAll_withTop (th : Thread) (top start : Nat) (values : List Value) :
    (th.withTop top).putAll start values = (th.putAll start values).withTop top := by
  induction values generalizing th start with
  | nil => rfl
  | cons value rest ih => exact ih (th.put start value) (start + 1)

end Thread

def Store.Becomes (t : ThreadRef) (th : Thread) (s s' : Store) : Prop :=
  ∃ th', th.Looks th' ∧ s' = s.modifyThread t fun _ => th'

namespace Store

variable {t : ThreadRef} {s s' s'' : Store} {th th' : Thread}

theorem Becomes.refl (t : ThreadRef) (s : Store) : s.Becomes t (s.thread t) s :=
  ⟨_, .refl _, (s.modifyThread_id t).symm.trans (modifyThread_congr rfl)⟩

theorem Becomes.modifyThread (becomes : s.Becomes t th s') {f : Thread → Thread}
    (looks : ∀ last, th.Looks last → th'.Looks (f last)) :
    s.Becomes t th' (s'.modifyThread t f) := by
  obtain ⟨last, before, rfl⟩ := becomes
  refine ⟨f last, looks last before, ?_⟩
  rw [modifyThread_modifyThread]
  rfl

theorem Becomes.looks (becomes : s.Becomes t th s') (valid : t < s.threads.size) :
    th.Looks (s'.thread t) := by
  obtain ⟨th', looks, rfl⟩ := becomes
  rwa [thread_modifyThread_self s _ valid]

theorem Becomes.valid (becomes : s.Becomes t th s') (valid : t < s.threads.size) :
    t < s'.threads.size := by
  obtain ⟨_, -, rfl⟩ := becomes
  rwa [threadCount_modifyThread]

theorem Becomes.trans (first : s.Becomes t th s') (second : s'.Becomes t th' s'') :
    s.Becomes t th' s'' := by
  obtain ⟨_, -, rfl⟩ := first
  obtain ⟨last, looks, rfl⟩ := second
  exact ⟨last, looks, modifyThread_modifyThread s t _ _⟩

theorem Becomes.alike (becomes : s.Becomes t th s') (looks : th'.Looks th) :
    s.Becomes t th' s' := by
  obtain ⟨last, later, rfl⟩ := becomes
  exact ⟨last, looks.trans later, rfl⟩

end Store

section Natives

variable {t : ThreadRef} {s : Store}

theorem reserve_ok (needed : Nat) (fits : needed ≤ (s.thread t).limits.maxStack) :
    reserve t needed s = .ok () (s.modifyThread t fun th => th.reserve needed) := by
  have granted : (s.thread t).fits needed = true := decide_eq_true fits
  simp only [RegisterVm.reserve, lookThread, look, bind, EStateM.bind, granted, if_true]
  rfl

theorem push_ok (value : Value) (fits : (s.thread t).top + 1 ≤ (s.thread t).limits.maxStack) :
    ∃ s', push t value s = .ok () s' ∧ s.Becomes t
      (((s.thread t).put (s.thread t).top value).withTop ((s.thread t).top + 1)) s' := by
  have made : s.Becomes t (s.thread t)
      (s.modifyThread t fun th => th.reserve ((s.thread t).top + 1)) :=
    (Store.Becomes.refl t s).modifyThread fun last looks => looks.trans (.reserve last _)
  refine ⟨_, ?_, made.modifyThread fun last looks =>
    (looks.put (s.thread t).top value).withTop ((s.thread t).top + 1)⟩
  simp only [push, lookThread, look, bind, EStateM.bind, reserve_ok _ fits]
  rfl

theorem pushAll_ok (values : List Value) (valid : t < s.threads.size)
    (fits : (s.thread t).top + values.length ≤ (s.thread t).limits.maxStack) :
    ∃ s', pushAll t values s = .ok () s' ∧ s.Becomes t
      (((s.thread t).putAll (s.thread t).top values).withTop
        ((s.thread t).top + values.length)) s' := by
  induction values generalizing s with
  | nil => exact ⟨s, rfl, .refl t s⟩
  | cons value rest ih =>
      rw [List.length_cons] at fits
      obtain ⟨s₁, pushed, first⟩ := push_ok value (s := s) (t := t) (by omega)
      have looks := first.looks valid
      have top : (s₁.thread t).top = (s.thread t).top + 1 := looks.top
      have limits : (s₁.thread t).limits = (s.thread t).limits := looks.limits
      obtain ⟨s₂, rested, second⟩ := ih (first.valid valid) (by rw [top, limits]; omega)
      refine ⟨s₂, ?_, first.trans (second.alike ?_)⟩
      · simp only [pushAll, bind, EStateM.bind, pushed, rested]
      · have rests := (looks.putAll ((s.thread t).top + 1) rest).withTop
          ((s.thread t).top + 1 + rest.length)
        rw [Thread.putAll_withTop] at rests
        rw [top, List.length_cons, Nat.add_comm rest.length, ← Nat.add_assoc]
        exact rests

def returnAll (t : ThreadRef) (values : Array Value) : Action NativeOutcome := do
  pushAll t values.toList
  return .returns values.size

theorem Machine.settle_returnAll (activities : List Activity) {f : Frame} {below : List Frame}
    (head : (s.thread t).frames = f :: below) (formed : f.Formed)
    (quiet : (s.thread t).yielding = false) (above : f.slot ≤ (s.thread t).top)
    (values : Array Value)
    (fits : (s.thread t).top + values.size ≤ (s.thread t).limits.maxStack) :
    ∃ s', perform s activities (returnAll t values) (fun s outcome =>
        settle s activities t outcome) = ⟨s', activities, .done #[]⟩ ∧
      s.Becomes t ((s.thread t).returning values) s' := by
  obtain ⟨s₁, pushed, first⟩ := pushAll_ok values.toList (Store.lt_of_frames head)
    (by simpa using fits)
  rw [Array.length_toList] at first
  have finished : s.Becomes t ((s.thread t).returning values) (s₁.modifyThread t fun th =>
      if th.yielding then th
      else th.finish (th.top - min values.size th.top) (min values.size th.top)) :=
    first.modifyThread ?_
  · refine ⟨_, ?_, finished⟩
    simp only [perform, returnAll, bind, EStateM.bind, pushed]
    rfl
  · intro last looks
    have top : last.top = (s.thread t).top + values.size := looks.top
    have quiet : last.yielding = false := by
      rw [looks.yielding, ← quiet]
      exact ((s.thread t).reworked_putAll values.toList (Nat.zero_le _)).steady.yielding
    have count : min values.size last.top = values.size := by omega
    have source : last.top - values.size = (s.thread t).top := by omega
    rw [quiet, if_neg Bool.false_ne_true, count, source]
    have kept : ((((s.thread t).putAll (s.thread t).top values.toList).withTop
        ((s.thread t).top + values.size)).frames) = f :: below := by simpa using head
    exact looks.finish kept (formed.delivers.order above values.size)

end Natives

end RegisterVm
