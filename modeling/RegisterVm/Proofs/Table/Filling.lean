import RegisterVm.Proofs.Table.FiniteMap

/-!
Tables that are filled with a list of values. Key after key is assigned; a nil leaves an absent key
or a hole, depending on what has come before it, and both read nil.
-/

namespace RegisterVm.Table

variable {t : Table}

section Slots

def slotCount (t : Table) : Nat := t.items.size + t.entries.size

theorem length_le_slotCount (t : Table) : t.length ≤ t.slotCount := Nat.le_add_right _ _

theorem absorb_slotCount {fuel : Nat} {items items' : Array Value}
    {entries entries' : Array Entry} (drawn : absorb fuel items entries = (items', entries')) :
    items'.size + entries'.size ≤ items.size + entries.size := by
  induction fuel generalizing items entries with
  | zero =>
      simp only [absorb, Prod.mk.injEq] at drawn
      rw [drawn.1, drawn.2]
  | succ fuel ih =>
      simp only [absorb] at drawn
      split at drawn
      · simp only [Prod.mk.injEq] at drawn
        rw [drawn.1, drawn.2]
      · rename_i index found
        have shorter := swapRemove_size (findEntry_some found).1
        split at drawn
        · simp only [Prod.mk.injEq] at drawn
          rw [← drawn.1, ← drawn.2]
          omega
        · have rest := ih drawn
          rw [Array.size_push] at rest
          omega

theorem slotCount_settle (t : Table) (items : Array Value) :
    (t.settle items).slotCount ≤ items.size + t.entries.size := by
  rcases drawn : absorb t.entries.size items t.entries with ⟨items', entries'⟩
  have settled : t.settle items = { t with items := items', entries := entries' } := by
    simp [settle, drawn]
  rw [settled]
  exact absorb_slotCount drawn

theorem slotCount_setEntry (t : Table) (key value : Value) :
    (t.setEntry key value).slotCount ≤ t.slotCount + 1 := by
  simp only [setEntry]
  split
  · simp only [slotCount, Array.size_modify]
    omega
  · split
    · omega
    · simp only [slotCount, Array.size_push]
      omega

theorem slotCount_assign (t : Table) (key value : Value) :
    (t.assign key value).slotCount ≤ t.slotCount + 1 := by
  rcases assign_cases t key value with ⟨n, -, -, equal⟩ | ⟨-, -, equal⟩ | ⟨-, equal⟩ | ⟨-, equal⟩
  · rw [equal]
    simp only [slotCount, Array.size_setIfInBounds]
    omega
  · rw [equal]
    omega
  · have settled := slotCount_settle t (t.items.push value)
    rw [Array.size_push] at settled
    rw [equal, slotCount]
    rw [slotCount] at settled ⊢
    omega
  · rw [equal]
    exact slotCount_setEntry t key value

end Slots

def listed (values : List Value) (key : Value) : Value :=
  (key.position?.bind fun n => values[n - 1]?).getD .nil

structure Filled (t : Table) (values : List Value) : Prop where
  sound : t.Sound
  slots : t.slotCount ≤ values.length
  reads : ∀ key, t.get key = listed values key

theorem filled_empty : empty.Filled [] := by
  refine ⟨Built.empty.sound.2, Nat.le_refl 0, fun key => ?_⟩
  cases named : key.position? with
  | none => simp [get, listed, named, getEntry, empty]
  | some n =>
      have positive := (Value.same_integer_of_position named).1
      simp [get, listed, named, getEntry, empty, show n ≠ 0 by omega]

theorem listed_concat (values : List Value) (value key : Value)
    (small : values.length < 2 ^ 53) :
    listed (values ++ [value]) key =
      if key.same (.integer (values.length + 1 : Nat)) then value else listed values key := by
  have place := Value.position_integer (Nat.succ_pos values.length) small
  simp only [same_iff_position place]
  simp only [listed]
  cases named : key.position? with
  | none => rfl
  | some n =>
      have positive := (Value.same_integer_of_position named).1
      simp only [Option.bind_some, Option.some.injEq, List.getElem?_append]
      by_cases last : n = values.length + 1
      · simp [last]
      · rw [if_neg last]
        by_cases inside : n - 1 < values.length
        · rw [if_pos inside]
        · rw [if_neg inside, List.getElem?_eq_none (by simp; omega),
            List.getElem?_eq_none (by omega)]

theorem Filled.assign {values : List Value} (filled : t.Filled values)
    (small : values.length < 2 ^ 53 - 1) (value : Value) :
    (t.setInteger (values.length + 1 : Nat) value).Filled (values ++ [value]) := by
  have grown := slotCount_assign t (.integer (values.length + 1 : Nat)) value
  have slots := filled.slots
  have length := length_le_slotCount (t.assign (.integer (values.length + 1 : Nat)) value)
  obtain ⟨sound, reads⟩ := assign_correct value filled.sound
    (keyError_integer (values.length + 1 : Nat)) (by omega)
  refine ⟨sound, ?_, fun key => ?_⟩
  · rw [List.length_append, List.length_singleton]
    exact Nat.le_trans grown (by omega)
  · rw [listed_concat values value key (by omega), ← filled.reads]
    exact reads key

theorem filled_foldl {values : List Value} (rest : List Value) (filled : t.Filled values)
    (small : values.length + rest.length < 2 ^ 53) :
    (rest.foldl (fun (state : Table × Int) value =>
      (state.1.setInteger state.2 value, state.2 + 1)) (t, values.length + 1)).1.Filled
        (values ++ rest) := by
  induction rest generalizing t values with
  | nil => simpa using filled
  | cons value rest ih =>
      rw [List.length_cons] at small
      have next := ih (filled.assign (by omega) value) (by simp; omega)
      rw [List.length_append, List.length_singleton, List.append_assoc] at next
      exact next

theorem filled_ofValues {values : Array Value} (small : values.size < 2 ^ 53) :
    (ofValues values).Filled values.toList := by
  have filled := filled_foldl values.toList filled_empty (by simpa using small)
  rw [List.nil_append] at filled
  rw [ofValues, ← Array.foldl_toList]
  exact filled

structure Packed (t : Table) (values : List Value) : Prop where
  items : ∀ k v, values[k]? = some v → t.get (.integer (k + 1 : Nat)) = v
  count : t.get (.string "n") = .integer values.length
  others : ∀ key, key.same (.string "n") = false →
    (∀ k < values.length, key.same (.integer (k + 1 : Nat)) = false) → t.get key = .nil

theorem Filled.packed {values : List Value} (filled : t.Filled values)
    (small : values.length < 2 ^ 53 - 1) :
    (t.setString "n" (.integer values.length)).length < 2 ^ 53 ∧
      (t.setString "n" (.integer values.length)).Packed values := by
  have grown := slotCount_assign t (.string "n") (.integer values.length)
  have slots := filled.slots
  have length := length_le_slotCount (t.assign (.string "n") (.integer values.length))
  have bound : (t.assign (.string "n") (.integer values.length)).length < 2 ^ 53 := by omega
  obtain ⟨-, reads⟩ := assign_correct (.integer values.length) filled.sound (keyError_string "n")
    bound
  refine ⟨bound, fun k v there => ?_, ?_, fun key apart beyond => ?_⟩
  · have inside := (List.getElem?_eq_some_iff.1 there).1
    refine (reads _).trans ?_
    rw [if_neg (by simp [Value.integer, Value.same]), filled.reads, listed,
      Value.position_integer (Nat.succ_pos k) (by omega)]
    simp [there]
  · refine (reads _).trans ?_
    rw [if_pos (by simp [Value.same])]
  · refine (reads key).trans ?_
    rw [if_neg (by simp [apart]), filled.reads, listed]
    cases named : key.position? with
    | none => rfl
    | some n =>
        have positive := (Value.same_integer_of_position named).1
        rw [Option.bind_some, List.getElem?_eq_none, Option.getD_none]
        by_contra inside
        have place := Value.position_integer positive (by omega)
        have equal := Value.same_of_position named place
        have unequal := beyond (n - 1) (by omega)
        rw [show n - 1 + 1 = n by omega, equal] at unequal
        contradiction

end RegisterVm.Table
