import RegisterVm.Table.Basic
import RegisterVm.Proofs.Number.Positions

/-!
Keys of a table. Raw equality is an equivalence on the keys a table accepts, equal keys name the
same array position, and a position below 2^53 has one key. Reading an entry depends only on which
entries there are, not on their order.
-/

namespace RegisterVm

namespace Value

theorem same_symm (a b : Value) : a.same b = b.same a := by
  cases a <;> cases b <;> simp only [same]
  all_goals exact BEq.comm

theorem same_trans {a b c : Value} (first : a.same b = true) (second : b.same c = true) :
    a.same c = true := by
  cases a <;> cases b <;> simp only [same] at first <;> try contradiction
  all_goals cases c <;> simp only [same] at second ⊢ <;> try contradiction
  all_goals exact PartialEquivBEq.trans first second

theorem same_congr {a b : Value} (c : Value) (equal : a.same b = true) : a.same c = b.same c := by
  cases left : b.same c with
  | true => exact same_trans equal left
  | false =>
      rw [Bool.eq_false_iff]
      intro right
      rw [same_symm] at equal
      rw [same_trans equal right] at left
      contradiction

theorem position_congr {a b : Value} (equal : a.same b = true) : a.position? = b.position? := by
  cases a <;> cases b <;> simp only [same] at equal <;> try contradiction
  all_goals first
    | rfl
    | exact Number.position_congr equal

theorem position_integer {n : Nat} (positive : 0 < n) (bound : n ≤ 2 ^ 53) :
    (integer n).position? = some n :=
  Number.position_ofInteger positive bound

theorem same_integer_of_position {k : Value} {n : Nat} (found : k.position? = some n) :
    1 ≤ n ∧ n < 2 ^ 64 ∧ k.same (integer n) = true := by
  cases k with
  | number f => exact Number.position_sound found
  | _ => simp [position?] at found

theorem same_of_position {a b : Value} {n : Nat} (first : a.position? = some n)
    (second : b.position? = some n) : a.same b = true := by
  have left := (same_integer_of_position first).2.2
  have right := (same_integer_of_position second).2.2
  rw [same_symm] at right
  exact same_trans left right

end Value

open scoped List

namespace Table

theorem keyError_integer (i : Int) : keyError? (.integer i) = none := by
  have real := Number.ofInteger_ne_nan i
  simp [Value.integer, keyError?, real]

def Apart (a b : Entry) : Prop := a.1.same b.1 = false

instance : Std.Symm Apart where
  symm a b apart := by rw [Apart, Value.same_symm]; exact apart

abbrev Distinct (entries : Array Entry) : Prop := entries.toList.Pairwise Apart

theorem getEntry_absent {t : Table} {k : Value} (absent : ∀ e ∈ t.entries, e.1.same k = false) :
    t.getEntry k = .nil := by
  have missing : t.entries.find? (fun e => e.1.same k) = none := by
    rw [Array.find?_eq_none]
    intro e member
    simp [absent e member]
  simp [getEntry, missing]

theorem getEntry_member {t : Table} {k : Value} {e : Entry} (distinct : Distinct t.entries)
    (member : e ∈ t.entries) (equal : e.1.same k = true) : t.getEntry k = e.2 := by
  cases found : t.entries.find? (fun e => e.1.same k) with
  | none =>
      rw [Array.find?_eq_none] at found
      exact absurd equal (found e member)
  | some other =>
      have otherEqual : other.1.same k = true := by simpa using Array.find?_some found
      have otherMember := Array.mem_of_find?_eq_some found
      have identical : other = e := by
        by_contra different
        have apart := distinct.forall otherMember.val member.val different
        rw [Apart, Value.same_congr e.1 otherEqual, Value.same_symm, equal] at apart
        contradiction
      simp [getEntry, found, identical]

theorem findEntry_none {entries : Array Entry} {k : Value}
    (missing : findEntry? entries k = none) : ∀ e ∈ entries, e.1.same k = false := by
  intro e member
  simpa using Array.findIdx?_eq_none_iff.1 missing e member

theorem findEntry_some {entries : Array Entry} {k : Value} {index : Nat}
    (found : findEntry? entries k = some index) :
    ∃ bound : index < entries.size, entries[index].1.same k = true := by
  obtain ⟨bound, equal, _⟩ := Array.findIdx?_eq_some_iff_getElem.1 found
  exact ⟨bound, equal⟩

theorem swapRemove_perm {entries : Array Entry} {index : Nat} (bound : index < entries.size) :
    (entries[index] :: (swapRemove entries index).toList).Perm entries.toList := by
  obtain ⟨items⟩ := entries
  obtain rfl | ⟨front, last, rfl⟩ := List.eq_nil_or_concat' items
  · simp at bound
  · simp only [swapRemove, List.back?_toArray, List.getLast?_concat, List.setIfInBounds_toArray,
      List.pop_toArray, List.getElem_toArray]
    by_cases inner : index < front.length
    · rw [List.set_append_left _ _ inner, List.dropLast_concat, List.getElem_append_left inner]
      calc front[index] :: front.set index last
          _ ~ front[index] :: last :: front.eraseIdx index :=
            (List.set_perm_cons_eraseIdx inner last).cons _
          _ ~ last :: front[index] :: front.eraseIdx index := List.Perm.swap _ _ _
          _ ~ last :: front := (List.getElem_cons_eraseIdx_perm inner).cons _
          _ ~ front ++ [last] := (List.perm_append_singleton last front).symm
    · have final : index = front.length := by
        simp at bound
        omega
      subst final
      simpa using (List.perm_append_singleton last front).symm

end Table

end RegisterVm
