import RegisterVm.Proofs.Table.FiniteMap

/-!
Insertion and removal shift the keys of the row and no other. Insertion makes room by moving the
items from its position on up by one; the key that the row gains had no entry, so nothing is hidden
by it. Removal moves them down; the key that the row loses has no entry either, so it reads nil and
nothing is drawn in.
-/

namespace RegisterVm.Table

structure Opened (t : Table) (position : Nat) (v : Value) (t' : Table) : Prop where
  placed : t'.get (.integer position) = v
  moved : ∀ k : Nat, position < k → k ≤ t.length + 1 →
    t'.get (.integer k) = t.get (.integer (k - 1 : Nat))
  kept : ∀ key : Value, (∀ k : Nat, position ≤ k → k ≤ t.length + 1 →
    key.same (.integer k) = false) → t'.get key = t.get key

structure Closed (t : Table) (position : Nat) (t' : Table) : Prop where
  moved : ∀ k : Nat, position ≤ k → k < t.length →
    t'.get (.integer k) = t.get (.integer (k + 1 : Nat))
  vacated : t'.get (.integer t.length) = .nil
  kept : ∀ key : Value, (∀ k : Nat, position ≤ k → k ≤ t.length →
    key.same (.integer k) = false) → t'.get key = t.get key
  length : t'.length + 1 = t.length

variable {t : Table} {position : Nat} {v : Value}

theorem getD_insertIdx {items : Array Value} {index : Nat} (v : Value) (bound : index ≤ items.size)
    (j : Nat) : (items.insertIdxIfInBounds index v).getD j .nil =
      if j < index then items.getD j .nil
      else if j = index then v else items.getD (j - 1) .nil := by
  simp only [Array.insertIdxIfInBounds, dif_pos bound, Array.getD_eq_getD_getElem?,
    Array.getElem?_insertIdx]
  split
  · rfl
  · split
    · rw [if_pos (by omega)]
      rfl
    · rfl

theorem getD_eraseIdx {items : Array Value} {index : Nat} (bound : index < items.size) (j : Nat) :
    (items.eraseIdxIfInBounds index).getD j .nil =
      if j < index then items.getD j .nil else items.getD (j + 1) .nil := by
  simp only [Array.eraseIdxIfInBounds, dif_pos bound, Array.getD_eq_getD_getElem?,
    Array.getElem?_eraseIdx]
  split <;> rfl

theorem get_position {k : Nat} (positive : 0 < k) (small : k < 2 ^ 53) (inside : k ≤ t.length) :
    t.get (.integer k) = t.items.getD (k - 1) .nil :=
  get_row (Value.position_integer positive (Nat.le_of_lt small)) inside

theorem get_items_apart {items : Array Value} {key : Value}
    (agree : ∀ n, key.position? = some n → (n ≤ items.size ↔ n ≤ t.items.size) ∧
      (n ≤ items.size → items.getD (n - 1) .nil = t.items.getD (n - 1) .nil)) :
    { t with items }.get key = t.get key := by
  cases named : key.position? with
  | none => rw [get_entry (by simp [named]), get_entry (by simp [named])]; rfl
  | some n =>
      obtain ⟨both, same⟩ := agree n named
      by_cases inside : n ≤ items.size
      · rw [get_row named inside, get_row named (both.1 inside), same inside]
      · rw [get_entry, get_entry]
        · rfl
        · intro m other
          rw [named, Option.some.injEq] at other
          omega
        · intro m other
          rw [named, Option.some.injEq] at other
          exact other ▸ Nat.lt_of_not_le inside

theorem insert_accepted_iff (t : Table) (position : Nat) (v : Value) :
    (∃ t', t.insert position v = .ok t') ↔ 1 ≤ position ∧ position ≤ t.length + 1 := by
  simp only [insert, length, Bool.or_eq_true, decide_eq_true_eq]
  split
  · simp only [reduceCtorEq, exists_false, false_iff]
    omega
  · simp only [Except.ok.injEq, exists_eq', true_iff]
    omega

theorem le_length_settle (t : Table) (items : Array Value) :
    items.size ≤ (t.settle items).length := by
  rcases drawn : absorb t.entries.size items t.entries with ⟨items', entries'⟩
  simp only [settle, drawn]
  exact absorb_size_le drawn

theorem opened_insert (sound : t.Sound) {t' : Table} (done : t.insert position v = .ok t')
    (bound : t'.length < 2 ^ 53) : t.Opened position v t' := by
  obtain ⟨positive, inside⟩ := (insert_accepted_iff t position v).1 ⟨t', done⟩
  have settled := insert_ok done
  subst settled
  have place : position - 1 ≤ t.items.size := by
    simp only [length] at inside
    omega
  have items := getD_insertIdx v place
  have size : (t.items.insertIdxIfInBounds (position - 1) v).size = t.length + 1 := by
    rw [Array.insertIdxIfInBounds, dif_pos place, Array.size_insertIdx]
    rfl
  generalize t.items.insertIdxIfInBounds (position - 1) v = shifted at *
  have small := Nat.lt_of_le_of_lt (le_length_settle t shifted) bound
  have reads := (settle_correct (sound.weaken (Nat.le_of_eq size)) bound).2
  have item : ∀ {k : Nat}, 0 < k → k ≤ t.length + 1 →
      (t.settle shifted).get (.integer k) = shifted.getD (k - 1) .nil := by
    intro k low high
    rw [reads]
    exact get_position low (by omega) (by simp only [length]; omega)
  refine ⟨?_, fun k low high => ?_, fun key apart => ?_⟩
  · rw [item positive inside, items, if_neg (Nat.lt_irrefl _), if_pos rfl]
  · rw [item (by omega) high, items, if_neg (by omega), if_neg (by omega),
      get_position (by omega) (by omega) (by omega)]
  · rw [reads]
    refine get_items_apart fun n named => ?_
    obtain ⟨low, -, equal⟩ := Value.same_integer_of_position named
    have outside : n < position ∨ t.length + 1 < n := by
      by_contra between
      rw [apart n (by omega) (by omega)] at equal
      contradiction
    simp only [length] at size outside inside
    refine ⟨by omega, fun within => ?_⟩
    rw [items, if_pos (by omega)]

theorem length_assign_nil (t : Table) (key : Value) : (t.assign key .nil).length = t.length := by
  have entry : (t.setEntry key .nil).length = t.length := by
    simp only [setEntry]
    split <;> rfl
  simp only [assign]
  split
  · split
    · exact Array.size_setIfInBounds
    · split
      · rfl
      · exact entry
  · exact entry

theorem opened_append (sound : t.Sound) (small : t.length < 2 ^ 53)
    (bound : (t.setInteger (t.length + 1) v).length < 2 ^ 53) :
    t.Opened (t.length + 1) v (t.setInteger (t.length + 1) v) := by
  have reads := (assign_correct v sound (keyError_integer _) bound).2
  have named := Value.position_integer (Nat.succ_pos t.length) (Nat.succ_le_of_lt small)
  refine ⟨?_, fun k low high => by omega, fun key apart => ?_⟩
  · rw [setInteger, reads, ← Nat.cast_succ, if_pos (Value.same_integer_of_position named).2.2]
  · rw [setInteger, reads, ← Nat.cast_succ, apart _ (Nat.le_refl _) (Nat.le_refl _),
      if_neg Bool.false_ne_true]

/-- The key that the row loses has no entry, so a removal draws nothing in. -/
theorem settle_shorter (sound : t.Sound) (small : t.length < 2 ^ 53) {items : Array Value}
    (size : items.size + 1 = t.length) : t.settle items = { t with items } := by
  have absent : findEntry? t.entries (indexKey (items.size + 1)) = none := by
    rw [Table.findEntry?, Array.findIdx?_eq_none_iff]
    intro e member
    rw [Bool.eq_false_iff]
    intro equal
    have named := (Value.position_congr equal).trans
      (Value.position_integer (Nat.succ_pos _) (by omega))
    have := sound.beyond e member _ named
    omega
  have drawn : absorb t.entries.size items t.entries = (items, t.entries) := by
    cases t.entries.size with
    | zero => rfl
    | succ fuel => simp only [absorb, absent]
  simp only [settle, drawn]

theorem closed_remove (sound : t.Sound) (small : t.length < 2 ^ 53) (positive : 1 ≤ position)
    (inside : position ≤ t.length) :
    ∃ t', t.remove position = .ok (t.get (.integer position), t') ∧ t.Closed position t' := by
  have place : position - 1 < t.items.size := by
    simp only [length] at inside
    omega
  have items := getD_eraseIdx place
  have size : (t.items.eraseIdxIfInBounds (position - 1)).size + 1 = t.length := by
    rw [Array.eraseIdxIfInBounds, dif_pos place, Array.size_eraseIdx, length]
    omega
  refine ⟨{ t with items := t.items.eraseIdxIfInBounds (position - 1) }, ?_, ?_⟩
  · rw [remove, if_neg, if_neg, settle_shorter sound small size,
      get_position positive (by omega) inside]
    · simp only [Bool.or_eq_true, decide_eq_true_eq]
      simp only [length] at inside
      omega
    · simp only [Bool.or_eq_true, Bool.and_eq_true, beq_iff_eq, decide_eq_true_eq]
      simp only [length] at inside
      omega
  · generalize t.items.eraseIdxIfInBounds (position - 1) = shifted at *
    have item : ∀ {k : Nat}, 0 < k → k < t.length →
        { t with items := shifted }.get (.integer k) = shifted.getD (k - 1) .nil := by
      intro k low high
      exact get_position low (by omega) (by simp only [length] at *; omega)
    refine ⟨fun k low high => ?_, ?_, fun key apart => ?_, size⟩
    · rw [item (by omega) high, items, if_neg (by omega),
        get_position (Nat.succ_pos k) (by omega) (by omega)]
      congr 1
      omega
    · have named : (Value.integer t.length).position? = some (shifted.size + 1) := by
        rw [size]
        exact Value.position_integer (by omega) (Nat.le_of_lt small)
      refine get_afterRow (t := { t with items := shifted }) (sound.weaken ?_) named
      simp only [length] at *
      omega
    · refine get_items_apart fun n named => ?_
      obtain ⟨low, -, equal⟩ := Value.same_integer_of_position named
      have outside : n < position ∨ t.length < n := by
        by_contra between
        rw [apart n (by omega) (by omega)] at equal
        contradiction
      simp only [length] at size outside inside
      refine ⟨by omega, fun within => ?_⟩
      rw [items, if_pos (by omega)]

/-- What insertion and removal do to a table. -/
structure Shifts (t : Table) : Prop where
  accepted : ∀ position v, (∃ t', t.insert position v = .ok t') ↔
    1 ≤ position ∧ position ≤ t.length + 1
  inserted : ∀ position v t', t.insert position v = .ok t' → t'.length < 2 ^ 53 →
    t.Opened position v t'
  removed : ∀ position, 1 ≤ position → position ≤ t.length →
    ∃ t', t.remove position = .ok (t.get (.integer position), t') ∧ t.Closed position t'
  insertedNowhere : ∀ position v, ¬(1 ≤ position ∧ position ≤ t.length + 1) →
    t.edit (.insert position v) = t
  removedNothing : ∀ position, ¬(1 ≤ position ∧ position ≤ t.length) →
    t.edit (.remove position) = t

theorem shifts (sound : t.Sound) (small : t.length < 2 ^ 53) : t.Shifts where
  accepted := insert_accepted_iff t
  inserted _ _ _ done bound := opened_insert sound done bound
  removed _ positive inside := closed_remove sound small positive inside
  insertedNowhere position v outside := by
    cases done : t.insert position v with
    | error e => simp only [edit, done]
    | ok t' => exact absurd ((insert_accepted_iff t position v).1 ⟨t', done⟩) outside
  removedNothing position outside := by
    cases done : t.remove position with
    | error e => simp only [edit, done]
    | ok result =>
        obtain ⟨value, t'⟩ := result
        simp only [edit, done]
        simp only [remove, Bool.or_eq_true, Bool.and_eq_true, beq_iff_eq, decide_eq_true_eq] at done
        split at done
        · simp only [Except.ok.injEq, Prod.mk.injEq] at done
          exact done.2.symm
        · split at done
          · contradiction
          · simp only [length] at outside
            omega

end RegisterVm.Table
