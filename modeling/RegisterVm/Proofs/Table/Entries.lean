import RegisterVm.Proofs.Table.Keys

/-!
The entries of a table. Whether an entry is removed, overwritten or added, the keys stay accepted
and unequal, and only the key concerned reads another value.
-/

namespace RegisterVm.Table

structure Admits (limit : Nat) (entries : Array Entry) : Prop where
  accepted : ∀ e ∈ entries, keyError? e.1 = none
  distinct : Distinct entries
  beyond : ∀ e ∈ entries, ∀ n, e.1.position? = some n → limit < n

theorem mem_swapRemove {entries : Array Entry} {index : Nat} (bound : index < entries.size)
    {e : Entry} (member : e ∈ swapRemove entries index) : e ∈ entries := by
  have order := swapRemove_perm bound
  exact ⟨order.mem_iff.1 (List.mem_cons_of_mem _ member.val)⟩

theorem distinct_swapRemove {entries : Array Entry} {index : Nat} (distinct : Distinct entries)
    (bound : index < entries.size) :
    (∀ e ∈ swapRemove entries index, Apart entries[index] e) ∧
      Distinct (swapRemove entries index) := by
  have order := swapRemove_perm bound
  have pairs := List.pairwise_cons.1
    (order.symm.pairwise distinct fun apart => Std.Symm.symm _ _ apart)
  exact ⟨fun e member => pairs.1 e member.val, pairs.2⟩

theorem getEntry_swapRemove {t : Table} {index : Nat} (distinct : Distinct t.entries)
    (bound : index < t.entries.size) (k : Value) :
    { t with entries := swapRemove t.entries index }.getEntry k =
      if t.entries[index].1.same k then .nil else t.getEntry k := by
  obtain ⟨apart, rest⟩ := distinct_swapRemove distinct bound
  by_cases present : ∃ e ∈ swapRemove t.entries index, e.1.same k = true
  · obtain ⟨e, member, equal⟩ := present
    have different : t.entries[index].1.same k = false := by
      have unequal := apart e member
      rwa [Apart, Value.same_symm, Value.same_congr _ equal, Value.same_symm] at unequal
    rw [different, getEntry_member distinct (mem_swapRemove bound member) equal,
      getEntry_member (t := { t with entries := swapRemove t.entries index }) rest member equal]
    rfl
  · have absent : ∀ e ∈ swapRemove t.entries index, e.1.same k = false := by
      intro e member
      rw [Bool.eq_false_iff]
      exact fun equal => present ⟨e, member, equal⟩
    rw [getEntry_absent (t := { t with entries := swapRemove t.entries index }) absent]
    split
    · rfl
    · rename_i different
      symm
      apply getEntry_absent
      intro e member
      rcases List.mem_cons.1 ((swapRemove_perm bound).mem_iff.2 member.val) with rfl | inner
      · simpa using different
      · exact absent e ⟨inner⟩

theorem Admits.swapRemove {limit : Nat} {entries : Array Entry} {index : Nat}
    (admits : Admits limit entries) (bound : index < entries.size)
    (position : entries[index].1.position? = some (limit + 1)) :
    Admits (limit + 1) (swapRemove entries index) := by
  obtain ⟨apart, rest⟩ := distinct_swapRemove admits.distinct bound
  refine ⟨?_, rest, ?_⟩
  · intro e member
    exact admits.accepted e (mem_swapRemove bound member)
  · intro e member n named
    have lower := admits.beyond e (mem_swapRemove bound member) n named
    have different : n ≠ limit + 1 := by
      rintro rfl
      have unequal := apart e member
      rw [Apart, Value.same_of_position position named] at unequal
      contradiction
    omega

theorem swapRemove_size {entries : Array Entry} {index : Nat} (bound : index < entries.size) :
    (RegisterVm.swapRemove entries index).size + 1 = entries.size := by
  have order := (swapRemove_perm bound).length_eq
  simpa using order

theorem Admits.weaken {low high : Nat} {entries : Array Entry} (admits : Admits high entries)
    (bound : low ≤ high) : Admits low entries := by
  refine ⟨admits.accepted, admits.distinct, ?_⟩
  intro e member n named
  have := admits.beyond e member n named
  omega

theorem setEntry_length (t : Table) (k v : Value) : (t.setEntry k v).length = t.length := by
  simp only [setEntry]
  split
  · rfl
  · split <;> rfl

theorem mem_overwrite {entries : Array Entry} {index : Nat} {v : Value} {e : Entry}
    (member : e ∈ entries.modify index fun e => (e.1, v)) : ∃ old ∈ entries, old.1 = e.1 := by
  obtain ⟨i, bound, rfl⟩ := Array.mem_iff_getElem.1 member
  rw [Array.size_modify] at bound
  refine ⟨entries[i], Array.getElem_mem bound, ?_⟩
  rw [Array.getElem_modify]
  split <;> rfl

theorem distinct_overwrite {entries : Array Entry} (index : Nat) (v : Value)
    (distinct : Distinct entries) : Distinct (entries.modify index fun e => (e.1, v)) := by
  rw [Distinct, List.pairwise_iff_getElem] at distinct ⊢
  intro i j first second order
  simp only [Array.length_toList, Array.size_modify] at first second
  have apart := distinct i j first second order
  simp only [Array.getElem_toList, Array.getElem_modify, Apart] at apart ⊢
  split <;> split <;> exact apart

theorem getEntry_overwrite {t : Table} {index : Nat} {k : Value} (v : Value)
    (distinct : Distinct t.entries) (bound : index < t.entries.size)
    (equal : t.entries[index].1.same k = true) (k' : Value) :
    { t with entries := t.entries.modify index fun e => (e.1, v) }.getEntry k' =
      if k'.same k then v else t.getEntry k' := by
  have after := distinct_overwrite index v distinct
  by_cases target : k'.same k = true
  · have found : t.entries[index].1.same k' = true := by
      rw [Value.same_symm] at target
      exact Value.same_trans equal target
    have member : (t.entries[index].1, v) ∈ t.entries.modify index fun e => (e.1, v) := by
      rw [Array.mem_iff_getElem]
      exact ⟨index, by simpa using bound, by simp [Array.getElem_modify]⟩
    rw [if_pos target, getEntry_member
      (t := { t with entries := t.entries.modify index fun e => (e.1, v) }) after member found]
  · rw [if_neg target]
    by_cases present : ∃ e ∈ t.entries, e.1.same k' = true
    · obtain ⟨e, member, found⟩ := present
      obtain ⟨i, inside, rfl⟩ := Array.mem_iff_getElem.1 member
      have elsewhere : index ≠ i := by
        rintro rfl
        rw [Value.same_congr k found] at equal
        exact target equal
      have member' : t.entries[i] ∈ t.entries.modify index fun e => (e.1, v) := by
        rw [Array.mem_iff_getElem]
        exact ⟨i, by simpa using inside, by rw [Array.getElem_modify, if_neg elsewhere]⟩
      rw [getEntry_member distinct member found, getEntry_member
        (t := { t with entries := t.entries.modify index fun e => (e.1, v) }) after member' found]
    · have absent : ∀ e ∈ t.entries, e.1.same k' = false := by
        intro e member
        rw [Bool.eq_false_iff]
        exact fun found => present ⟨e, member, found⟩
      rw [getEntry_absent absent]
      apply getEntry_absent
      intro e member
      obtain ⟨old, oldMember, keys⟩ := mem_overwrite member
      rw [← keys]
      exact absent old oldMember

theorem getEntry_push {t : Table} {k : Value} (v : Value)
    (missing : ∀ e ∈ t.entries, e.1.same k = false) (k' : Value) :
    { t with entries := t.entries.push (k, v) }.getEntry k' =
      if k'.same k then v else t.getEntry k' := by
  by_cases target : k'.same k = true
  · have equal : k.same k' = true := by rwa [Value.same_symm]
    have before : t.entries.find? (fun e => e.1.same k') = none := by
      rw [Array.find?_eq_none]
      intro e member
      rw [Value.same_symm, ← Value.same_congr e.1 equal, Value.same_symm, missing e member]
      simp
    simp [getEntry, Array.find?_push, before, equal, target]
  · have different : k.same k' = false := by
      rw [Value.same_symm]
      simpa using target
    simp [getEntry, Array.find?_push, different, target]

theorem getEntry_setEntry {t : Table} {k : Value} (v : Value) (distinct : Distinct t.entries)
    (k' : Value) :
    (t.setEntry k v).getEntry k' = if k'.same k then v else t.getEntry k' := by
  simp only [setEntry]
  split
  · rename_i index found
    obtain ⟨bound, equal⟩ := findEntry_some found
    exact getEntry_overwrite v distinct bound equal k'
  · rename_i found
    have missing := findEntry_none found
    split
    · rename_i hole
      split
      · rename_i target
        have value : v = .nil := by cases v <;> simp [Value.isNil] at hole ⊢
        rw [value]
        apply getEntry_absent
        intro e member
        rw [Value.same_symm, Value.same_congr _ target, Value.same_symm, missing e member]
      · rfl
    · exact getEntry_push v missing k'

theorem setEntry_admits {t : Table} {limit : Nat} {k : Value} (v : Value)
    (admits : Admits limit t.entries) (accepted : keyError? k = none)
    (beyond : ∀ n, k.position? = some n → limit < n) :
    Admits limit (t.setEntry k v).entries := by
  simp only [setEntry]
  split
  · refine ⟨?_, distinct_overwrite _ v admits.distinct, ?_⟩
    · intro e member
      obtain ⟨old, oldMember, keys⟩ := mem_overwrite member
      rw [← keys]
      exact admits.accepted old oldMember
    · intro e member n named
      obtain ⟨old, oldMember, keys⟩ := mem_overwrite member
      rw [← keys] at named
      exact admits.beyond old oldMember n named
  · rename_i found
    have missing := findEntry_none found
    split
    · exact admits
    · refine ⟨?_, ?_, ?_⟩
      · intro e member
        rcases Array.mem_push.1 member with old | rfl
        · exact admits.accepted e old
        · exact accepted
      · rw [Distinct, Array.toList_push, List.pairwise_append]
        refine ⟨admits.distinct, List.pairwise_singleton _ _, ?_⟩
        intro e member new isNew
        rw [List.mem_singleton.1 isNew]
        exact missing e ⟨member⟩
      · intro e member n named
        rcases Array.mem_push.1 member with old | rfl
        · exact admits.beyond e old n named
        · exact beyond n named

end RegisterVm.Table
