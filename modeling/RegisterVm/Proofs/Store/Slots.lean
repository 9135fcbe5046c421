import Mathlib.Tactic.Common
import RegisterVm.Machine.Thread

/-!
Reading a slot after the stack has changed. Slots beyond the stack read as nil, so growing the stack
changes no reading.
-/

namespace RegisterVm

namespace Thread

theorem getD_putSlot (stack : Array Value) (index other : Nat) (value : Value) :
    (putSlot stack index value).getD other .nil =
      if other = index then value else stack.getD other .nil := by
  simp only [putSlot, Array.getD_eq_getD_getElem?]
  split
  · rename_i inside
    rw [Array.getElem?_setIfInBounds]
    by_cases target : index = other
    · subst target
      simp [inside]
    · rw [if_neg target, if_neg (Ne.symm target)]
  · rename_i outside
    simp only [Array.getElem?_push, Array.size_append, Array.size_replicate, Array.getElem?_append,
      Array.getElem?_replicate]
    by_cases target : other = index
    · rw [if_pos (by omega), if_pos target]
      rfl
    · rw [if_neg (by omega), if_neg target]
      by_cases low : other < stack.size
      · rw [if_pos low]
      · rw [if_neg low, Array.getElem?_eq_none (by omega)]
        split <;> rfl

@[simp] theorem get_put (th : Thread) (index other : Nat) (value : Value) :
    (th.put index value).get other = if other = index then value else th.get other :=
  getD_putSlot th.stack index other value

theorem getD_clearSlots (stack : Array Value) (start count index : Nat) :
    (clearSlots stack start count).getD index .nil =
      if start ≤ index ∧ index < start + count then .nil else stack.getD index .nil := by
  induction count generalizing stack start with
  | zero =>
      rw [clearSlots, if_neg (by omega)]
  | succ count ih =>
      rw [clearSlots, ih]
      simp only [Array.getD_eq_getD_getElem?, Array.getElem?_setIfInBounds]
      by_cases first : start = index
      · subst first
        have outside : ¬(start + 1 ≤ start ∧ start < start + 1 + count) := by omega
        have inside : start ≤ start ∧ start < start + (count + 1) := by omega
        rw [if_neg outside, if_pos rfl, if_pos inside]
        split <;> rfl
      · rw [if_neg first]
        by_cases inside : start ≤ index ∧ index < start + (count + 1)
        · rw [if_pos (by omega), if_pos inside]
        · rw [if_neg (by omega), if_neg inside]

theorem get_clear (th : Thread) (start stop index : Nat) :
    (th.clear start stop).get index =
      if start ≤ index ∧ index < stop then .nil else th.get index := by
  simp only [clear, get, getD_clearSlots]
  by_cases inside : start ≤ index ∧ index < stop
  · rw [if_pos inside]
    by_cases exists' : index < th.stack.size
    · rw [if_pos (by omega)]
    · rw [if_neg (by omega), Array.getD_eq_getD_getElem?, Array.getElem?_eq_none (by omega)]
      rfl
  · rw [if_neg inside, if_neg (by omega)]

theorem getD_growTo (stack : Array Value) (size index : Nat) :
    (growTo stack size).getD index .nil = stack.getD index .nil := by
  simp only [growTo]
  split
  · rfl
  · simp only [Array.getD_eq_getD_getElem?, Array.getElem?_append, Array.getElem?_replicate]
    split
    · rfl
    · rename_i beyond
      rw [Array.getElem?_eq_none (by omega)]
      split <;> rfl

@[simp] theorem get_reserve (th : Thread) (needed index : Nat) :
    (th.reserve needed).get index = th.get index := by
  simp only [reserve]
  split
  · rfl
  · exact getD_growTo _ _ _

theorem getD_copySlots_below (stack : Array Value) (source target count index : Nat)
    (below : index < target) :
    (copySlots stack source target count).getD index .nil = stack.getD index .nil := by
  induction count generalizing stack source target with
  | zero => rfl
  | succ count ih =>
      rw [copySlots, ih _ _ _ (by omega)]
      simp only [Array.getD_eq_getD_getElem?, Array.getElem?_setIfInBounds]
      rw [if_neg (by omega)]

theorem get_moveSlots_below (th : Thread) (source target count : Nat) {index : Nat}
    (below : index < target) : (th.moveSlots source target count).get index = th.get index := by
  simp only [moveSlots]
  split
  · rfl
  · simp only [get]
    rw [getD_copySlots_below _ _ _ _ _ below, getD_growTo]

theorem get_clear_below (th : Thread) {start stop index : Nat} (below : index < start) :
    (th.clear start stop).get index = th.get index := by
  rw [get_clear, if_neg (by omega)]

@[simp] theorem size_clearSlots (stack : Array Value) (start count : Nat) :
    (clearSlots stack start count).size = stack.size := by
  induction count generalizing stack start with
  | zero => rfl
  | succ count ih => rw [clearSlots, ih, Array.size_setIfInBounds]

@[simp] theorem size_copySlots (stack : Array Value) (source target count : Nat) :
    (copySlots stack source target count).size = stack.size := by
  induction count generalizing stack source target with
  | zero => rfl
  | succ count ih => rw [copySlots, ih, Array.size_setIfInBounds]

theorem le_size_growTo (stack : Array Value) (size : Nat) :
    stack.size ≤ (growTo stack size).size ∧ size ≤ (growTo stack size).size := by
  simp only [growTo]
  split
  · exact ⟨Nat.le_refl _, by assumption⟩
  · simp only [Array.size_append, Array.size_replicate]
    omega

theorem le_size_putSlot (stack : Array Value) (index : Nat) (value : Value) :
    stack.size ≤ (putSlot stack index value).size := by
  simp only [putSlot]
  split
  · exact Nat.le_of_eq Array.size_setIfInBounds.symm
  · simp only [Array.size_push, Array.size_append, Array.size_replicate]
    omega

theorem size_clear (th : Thread) (start stop : Nat) :
    (th.clear start stop).stack.size = th.stack.size := size_clearSlots _ _ _

theorem le_size_moveSlots (th : Thread) (source target count : Nat) :
    th.stack.size ≤ (th.moveSlots source target count).stack.size := by
  simp only [moveSlots]
  split
  · exact Nat.le_refl _
  · simp only [size_copySlots]
    exact (le_size_growTo _ _).1

theorem le_size_reserve (th : Thread) {needed : Nat} (fits : th.fits needed = true) :
    needed ≤ (th.reserve needed).stack.size := by
  have bound : needed ≤ th.limits.maxStack := by simpa [Thread.fits] using fits
  simp only [reserve]
  split
  · assumption
  · exact Nat.le_trans (by omega) (le_size_growTo _ _).2

end Thread

end RegisterVm
