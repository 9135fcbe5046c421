import RegisterVm.Proofs.Table.Entries

/-!
A table is a finite map. The row and the entries never hold the same key, and the key after the row
is never an entry; every edit keeps this, whichever part it touches.
-/

namespace RegisterVm.Table

theorem absorb_size_le {fuel : Nat} {items items' : Array Value} {entries entries' : Array Entry}
    (drawn : absorb fuel items entries = (items', entries')) : items.size ≤ items'.size := by
  induction fuel generalizing items entries with
  | zero =>
      simp only [absorb, Prod.mk.injEq] at drawn
      rw [drawn.1]
  | succ fuel ih =>
      simp only [absorb] at drawn
      split at drawn
      · simp only [Prod.mk.injEq] at drawn
        rw [drawn.1]
      · split at drawn
        · simp only [Prod.mk.injEq] at drawn
          rw [drawn.1]
        · have pushed := ih drawn
          rw [Array.size_push] at pushed
          omega

theorem get_row {t : Table} {k : Value} {n : Nat} (position : k.position? = some n)
    (inside : n ≤ t.items.size) : t.get k = t.items.getD (n - 1) .nil := by
  simp [get, position, inside]

theorem get_entry {t : Table} {k : Value} (outside : ∀ n, k.position? = some n → t.items.size < n) :
    t.get k = t.getEntry k := by
  simp only [get]
  split
  · rename_i n position
    rw [if_neg (by have := outside n position; omega)]
  · rfl

theorem get_moveEntry {t : Table} {index : Nat} (admits : Admits t.items.size t.entries)
    (bound : index < t.entries.size)
    (position : t.entries[index].1.position? = some (t.items.size + 1)) (k : Value) :
    get ⟨t.items.push t.entries[index].2, RegisterVm.swapRemove t.entries index, t.metatable⟩ k =
      t.get k := by
  by_cases inside : ∃ n, k.position? = some n ∧ n ≤ t.items.size
  · obtain ⟨n, named, low⟩ := inside
    have positive := (Value.same_integer_of_position named).1
    rw [get_row named low, get_row named (by simp; omega)]
    simp only [Array.getD_eq_getD_getElem?, Array.getElem?_push]
    rw [if_neg (by omega)]
  · have outside : ∀ n, k.position? = some n → t.items.size < n := by
      intro n named
      by_contra low
      exact inside ⟨n, named, by omega⟩
    rw [get_entry outside]
    by_cases next : k.position? = some (t.items.size + 1)
    · have equal := Value.same_of_position position next
      rw [getEntry_member admits.distinct (Array.getElem_mem bound) equal, get_row next (by simp)]
      simp
    · have different : t.entries[index].1.same k = false := by
        rw [Bool.eq_false_iff]
        intro equal
        rw [← Value.position_congr equal] at next
        exact next position
      rw [get_entry]
      · have rest := getEntry_swapRemove admits.distinct bound k
        rw [different] at rest
        exact rest
      · intro n named
        have low := outside n named
        have notNext : n ≠ t.items.size + 1 := by
          rintro rfl
          exact next named
        simp only [Array.size_push]
        omega

theorem get_dropEntry {t : Table} {index : Nat} (distinct : Distinct t.entries)
    (bound : index < t.entries.size) (hole : t.entries[index].2 = .nil) (k : Value) :
    get { t with entries := RegisterVm.swapRemove t.entries index } k = t.get k := by
  have dropped : { t with entries := RegisterVm.swapRemove t.entries index }.getEntry k =
      t.getEntry k := by
    rw [getEntry_swapRemove distinct bound]
    split
    · rename_i equal
      rw [getEntry_member distinct (Array.getElem_mem bound) equal, hole]
    · rfl
  simp only [get, dropped]

theorem absorb_correct {fuel : Nat} {items items' : Array Value} {entries entries' : Array Entry}
    (drawn : absorb fuel items entries = (items', entries')) (enough : entries.size ≤ fuel)
    (admits : Admits items.size entries) (bound : items'.size < 2 ^ 53) :
    Admits (items'.size + 1) entries' ∧
      ∀ metatable k, get ⟨items', entries', metatable⟩ k = get ⟨items, entries, metatable⟩ k := by
  have itemsBound : items.size < 2 ^ 53 := Nat.lt_of_le_of_lt (absorb_size_le drawn) bound
  have nextPosition : (indexKey (items.size + 1)).position? = some (items.size + 1) :=
    Value.position_integer (by omega) (by omega)
  induction fuel generalizing items entries with
  | zero =>
      have none : entries = #[] := Array.size_eq_zero_iff.1 (by omega)
      subst none
      simp only [absorb, Prod.mk.injEq] at drawn
      obtain ⟨rfl, rfl⟩ := drawn
      exact ⟨⟨by simp, List.Pairwise.nil, by simp⟩, fun _ _ => rfl⟩
  | succ fuel ih =>
      simp only [absorb] at drawn
      split at drawn
      · rename_i missing
        simp only [Prod.mk.injEq] at drawn
        obtain ⟨rfl, rfl⟩ := drawn
        refine ⟨⟨admits.accepted, admits.distinct, ?_⟩, fun _ _ => rfl⟩
        intro e member n named
        have lower := admits.beyond e member n named
        have notNext : n ≠ items.size + 1 := by
          rintro rfl
          have equal := Value.same_of_position named nextPosition
          rw [findEntry_none missing e member] at equal
          contradiction
        omega
      · rename_i index found
        obtain ⟨inBounds, equal⟩ := findEntry_some found
        have position := (Value.position_congr equal).trans nextPosition
        have rest := admits.swapRemove inBounds position
        have size := swapRemove_size inBounds
        have read : entries.getD index (.nil, .nil) = entries[index] := by
          simp [Array.getD, inBounds]
        rw [read] at drawn
        split at drawn
        · rename_i hole
          simp only [Prod.mk.injEq] at drawn
          obtain ⟨rfl, rfl⟩ := drawn
          refine ⟨rest, ?_⟩
          intro metatable k
          have isNil : entries[index].2 = .nil := by
            cases value : entries[index].2 <;> simp [value, Value.isNil] at hole ⊢
          exact get_dropEntry (t := ⟨items, entries, metatable⟩) admits.distinct inBounds isNil k
        · have pushed : (items.push entries[index].2).size = items.size + 1 := Array.size_push _
          have grown := absorb_size_le drawn
          have after := ih drawn (by omega) (by rw [pushed]; exact rest) (by omega)
            (by rw [pushed]; exact Value.position_integer (by omega) (by omega))
          refine ⟨after.1, ?_⟩
          intro metatable k
          rw [after.2 metatable k]
          exact get_moveEntry (t := ⟨items, entries, metatable⟩) admits inBounds position k

abbrev Sound (t : Table) : Prop := Admits (t.length + 1) t.entries

theorem settle_correct {t : Table} {items : Array Value} (admits : Admits items.size t.entries)
    (bound : (t.settle items).length < 2 ^ 53) :
    (t.settle items).Sound ∧ ∀ k, (t.settle items).get k = { t with items }.get k := by
  rcases drawn : absorb t.entries.size items t.entries with ⟨items', entries'⟩
  have settled : t.settle items = { t with items := items', entries := entries' } := by
    simp [settle, drawn]
  rw [settled] at bound ⊢
  have correct := absorb_correct drawn (Nat.le_refl _) admits bound
  exact ⟨correct.1, fun k => correct.2 t.metatable k⟩

theorem same_iff_position {k k' : Value} {n : Nat} (named : k.position? = some n) :
    k'.same k = true ↔ k'.position? = some n := by
  constructor
  · intro equal
    rw [Value.position_congr equal, named]
  · intro named'
    exact Value.same_of_position named' named

theorem get_setRow {t : Table} {k : Value} {n : Nat} (v : Value) (named : k.position? = some n)
    (inside : n ≤ t.items.size) (k' : Value) :
    { t with items := t.items.setIfInBounds (n - 1) v }.get k' =
      if k'.same k then v else t.get k' := by
  have positive := (Value.same_integer_of_position named).1
  simp only [same_iff_position named]
  by_cases row : ∃ m, k'.position? = some m ∧ m ≤ t.items.size
  · obtain ⟨m, named', inside'⟩ := row
    have positive' := (Value.same_integer_of_position named').1
    rw [get_row named' (by simpa using inside'), get_row named' inside', named']
    simp only [Array.getD_eq_getD_getElem?, Array.getElem?_setIfInBounds, Option.some.injEq]
    by_cases target : m = n
    · subst target
      rw [if_pos rfl, if_pos (by omega)]
      simp
    · rw [if_neg (by omega), if_neg target]
  · have outside : ∀ m, k'.position? = some m → t.items.size < m := by
      intro m named'
      by_contra low
      exact row ⟨m, named', by omega⟩
    rw [get_entry (by simpa using outside), get_entry outside, if_neg]
    · rfl
    · intro named'
      have := outside n named'
      omega

theorem get_pushItem {t : Table} {k : Value} (v : Value)
    (named : k.position? = some (t.items.size + 1)) (k' : Value) :
    { t with items := t.items.push v }.get k' = if k'.same k then v else t.get k' := by
  simp only [same_iff_position named]
  by_cases row : ∃ m, k'.position? = some m ∧ m ≤ t.items.size
  · obtain ⟨m, named', inside'⟩ := row
    have positive := (Value.same_integer_of_position named').1
    rw [get_row named' (by simp; omega), get_row named' inside', named', if_neg (by simp; omega)]
    simp only [Array.getD_eq_getD_getElem?, Array.getElem?_push]
    rw [if_neg (by omega)]
  · have outside : ∀ m, k'.position? = some m → t.items.size < m := by
      intro m named'
      by_contra low
      exact row ⟨m, named', by omega⟩
    by_cases next : k'.position? = some (t.items.size + 1)
    · rw [if_pos next, get_row next (by simp)]
      simp
    · rw [if_neg next, get_entry outside, get_entry]
      · rfl
      · intro m named'
        have low := outside m named'
        have : m ≠ t.items.size + 1 := by
          rintro rfl
          exact next named'
        simp only [Array.size_push]
        omega

theorem get_setEntry {t : Table} {k : Value} (v : Value) (distinct : Distinct t.entries)
    (outside : ∀ n, k.position? = some n → t.items.size < n) (k' : Value) :
    (t.setEntry k v).get k' = if k'.same k then v else t.get k' := by
  have row : (t.setEntry k v).items = t.items := by
    simp only [setEntry]
    split
    · rfl
    · split <;> rfl
  by_cases inside : ∃ n, k'.position? = some n ∧ n ≤ t.items.size
  · obtain ⟨n, named, low⟩ := inside
    have different : k'.same k = false := by
      rw [Bool.eq_false_iff]
      intro equal
      rw [Value.position_congr equal] at named
      have := outside n named
      omega
    rw [get_row named (by rw [row]; exact low), get_row named low, row, different]
    rfl
  · have outside' : ∀ n, k'.position? = some n → t.items.size < n := by
      intro n named
      by_contra low
      exact inside ⟨n, named, by omega⟩
    rw [get_entry (by rw [row]; exact outside'), get_entry outside',
      getEntry_setEntry v distinct]

theorem assign_cases (t : Table) (k v : Value) :
    (∃ n, k.position? = some n ∧ n ≤ t.items.size ∧
      t.assign k v = { t with items := t.items.setIfInBounds (n - 1) v }) ∨
    (k.position? = some (t.items.size + 1) ∧ v = .nil ∧ t.assign k v = t) ∨
    (k.position? = some (t.items.size + 1) ∧ t.assign k v = t.settle (t.items.push v)) ∨
    ((∀ n, k.position? = some n → t.items.size + 1 < n) ∧ t.assign k v = t.setEntry k v) := by
  cases named : k.position? with
  | none =>
      refine .inr (.inr (.inr ⟨by simp, ?_⟩))
      simp [assign, named]
  | some n =>
      by_cases inside : n ≤ t.items.size
      · exact .inl ⟨n, rfl, inside, by simp [assign, named, inside]⟩
      · by_cases next : n = t.items.size + 1
        · subst next
          by_cases hole : v.isNil = true
          · have value : v = .nil := by cases v <;> simp [Value.isNil] at hole ⊢
            exact .inr (.inl ⟨rfl, value, by simp [assign, named, hole]⟩)
          · exact .inr (.inr (.inl ⟨rfl, by simp [assign, named, hole]⟩))
        · refine .inr (.inr (.inr ⟨?_, by simp [assign, named, inside, next]⟩))
          intro m same
          simp only [Option.some.injEq] at same
          omega

theorem get_afterRow {t : Table} {k : Value} (sound : t.Sound)
    (named : k.position? = some (t.items.size + 1)) : t.get k = .nil := by
  rw [get_entry (by rw [named]; simp)]
  apply getEntry_absent
  intro e member
  rw [Bool.eq_false_iff]
  intro equal
  have := sound.beyond e member _ ((Value.position_congr equal).trans named)
  simp only [length] at this
  omega

/-- Assigning an accepted key changes what that key reads and no other. -/
theorem assign_correct {t : Table} {k : Value} (v : Value) (sound : t.Sound)
    (accepted : keyError? k = none) (bound : (t.assign k v).length < 2 ^ 53) :
    (t.assign k v).Sound ∧ ∀ k', (t.assign k v).get k' = if k'.same k then v else t.get k' := by
  rcases assign_cases t k v with ⟨n, named, inside, equal⟩ | ⟨named, rfl, equal⟩ |
    ⟨named, equal⟩ | ⟨beyond, equal⟩
  · rw [equal]
    refine ⟨?_, get_setRow v named inside⟩
    rw [Sound, length, Array.size_setIfInBounds]
    exact sound
  · rw [equal]
    refine ⟨sound, ?_⟩
    intro k'
    split
    · rename_i target
      exact get_afterRow sound ((Value.position_congr target).trans named)
    · rfl
  · rw [equal] at bound ⊢
    have room : Admits (t.items.push v).size t.entries := sound.weaken (by simp [length])
    have settled := settle_correct room bound
    refine ⟨settled.1, ?_⟩
    intro k'
    rw [settled.2, get_pushItem v named]
  · rw [equal]
    refine ⟨?_, get_setEntry v sound.distinct ?_⟩
    · rw [Sound, setEntry_length]
      exact setEntry_admits v sound accepted beyond
    · intro n named
      have := beyond n named
      omega

inductive Edit where
  | set (key value : Value)
  | setInteger (i : Int) (value : Value)
  | setString (s : String) (value : Value)
  | insert (position : Nat) (value : Value)
  | remove (position : Nat)

def edit (t : Table) : Edit → Table
  | .set key value =>
    match t.set key value with
    | .ok t' => t'
    | .error _ => t
  | .setInteger i value => t.setInteger i value
  | .setString s value => t.setString s value
  | .insert position value =>
    match t.insert position value with
    | .ok t' => t'
    | .error _ => t
  | .remove position =>
    match t.remove position with
    | .ok (_, t') => t'
    | .error _ => t

/-- Tables that edits make of the empty one while their rows stay below 2^53 items. -/
inductive Built : Table → Prop where
  | empty : Built empty
  | edit {t : Table} (e : Edit) : Built t → (t.edit e).length < 2 ^ 53 → Built (t.edit e)

theorem keyError_string (s : String) : keyError? (.string s) = none := rfl

theorem keyError_eq_none_iff (k : Value) :
    keyError? k = none ↔ ¬(k = .nil ∨ ∃ n, k = .number n ∧ n.isNaN = true) := by
  cases k with
  | nil => simp [keyError?]
  | number n => by_cases nan : n = Float.nan <;> simp [keyError?, nan]
  | _ => simp [keyError?]

theorem set_refused_iff (t : Table) (k v : Value) :
    (∃ e, t.set k v = .error e) ↔ k = .nil ∨ ∃ n, k = .number n ∧ n.isNaN = true := by
  rw [← not_iff_not, ← keyError_eq_none_iff, set]
  cases keyError? k <;> simp

theorem set_ok {t t' : Table} {k v : Value} (done : t.set k v = .ok t') :
    keyError? k = none ∧ t' = t.assign k v := by
  simp only [set] at done
  split at done
  · contradiction
  · rename_i accepted
    simp only [Except.ok.injEq] at done
    exact ⟨accepted, done.symm⟩

theorem insertIdxIfInBounds_size (items : Array Value) (index : Nat) (value : Value) :
    (items.insertIdxIfInBounds index value).size ≤ items.size + 1 := by
  simp only [Array.insertIdxIfInBounds]
  split
  · simp
  · simp

theorem eraseIdxIfInBounds_size (items : Array Value) (index : Nat) :
    (items.eraseIdxIfInBounds index).size ≤ items.size := by
  simp only [Array.eraseIdxIfInBounds]
  split
  · simp
  · simp

theorem insert_ok {t t' : Table} {position : Nat} {value : Value}
    (done : t.insert position value = .ok t') :
    t' = t.settle (t.items.insertIdxIfInBounds (position - 1) value) := by
  simp only [insert] at done
  split at done
  · contradiction
  · simp only [Except.ok.injEq] at done
    exact done.symm

theorem remove_ok {t t' : Table} {position : Nat} {value : Value}
    (done : t.remove position = .ok (value, t')) :
    t' = t ∨ t' = t.settle (t.items.eraseIdxIfInBounds (position - 1)) := by
  simp only [remove] at done
  split at done
  · simp only [Except.ok.injEq, Prod.mk.injEq] at done
    exact .inl done.2.symm
  · split at done
    · contradiction
    · simp only [Except.ok.injEq, Prod.mk.injEq] at done
      exact .inr done.2.symm

theorem edit_sound {t : Table} (e : Edit) (sound : t.Sound) (bound : (t.edit e).length < 2 ^ 53) :
    (t.edit e).Sound := by
  cases e with
  | set key value =>
      cases done : t.set key value with
      | error e => simpa [edit, done] using sound
      | ok t' =>
          obtain ⟨accepted, rfl⟩ := set_ok done
          simp only [edit, done] at bound ⊢
          exact (assign_correct value sound accepted bound).1
  | setInteger i value => exact (assign_correct value sound (keyError_integer i) bound).1
  | setString s value => exact (assign_correct value sound (keyError_string s) bound).1
  | insert position value =>
      cases done : t.insert position value with
      | error e => simpa only [edit, done] using sound
      | ok t' =>
          have equal := insert_ok done
          subst equal
          simp only [edit, done] at bound ⊢
          have room := insertIdxIfInBounds_size t.items (position - 1) value
          exact (settle_correct (sound.weaken room) bound).1
  | remove position =>
      cases done : t.remove position with
      | error e => simpa only [edit, done] using sound
      | ok result =>
          obtain ⟨value, t'⟩ := result
          simp only [edit, done] at bound ⊢
          rcases remove_ok done with rfl | rfl
          · exact sound
          · have room := eraseIdxIfInBounds_size t.items (position - 1)
            exact (settle_correct (sound.weaken (by simp only [length]; omega)) bound).1

theorem Built.sound {t : Table} (built : Built t) : t.length < 2 ^ 53 ∧ t.Sound := by
  induction built with
  | empty => exact ⟨by decide, by simp [Table.empty], List.Pairwise.nil, by simp [Table.empty]⟩
  | edit e _ bound ih => exact ⟨bound, edit_sound e ih.2 bound⟩

theorem setInteger_next {t : Table} {value : Value} (noEntries : t.entries = #[])
    (bound : t.items.size < 2 ^ 53) (present : value.isNil = false) :
    t.setInteger (t.items.size + 1 : Nat) value = { t with items := t.items.push value } := by
  have named : (Value.integer (t.items.size + 1 : Nat)).position? = some (t.items.size + 1) :=
    Value.position_integer (Nat.succ_pos _) bound
  simp only [setInteger, assign, named, present, settle, noEntries]
  simp [absorb]

theorem getInteger_eq_get {t : Table} {i : Int} (length : t.length < 2 ^ 53)
    (lower : -2 ^ 63 ≤ i) (upper : i < 2 ^ 63) : t.getInteger i = t.get (.integer i) := by
  by_cases inside : 1 ≤ i ∧ i ≤ t.items.size
  · obtain ⟨n, rfl⟩ : ∃ n : Nat, i = n := ⟨i.toNat, by omega⟩
    simp only [Table.length] at length
    have named : (Value.integer n).position? = some n :=
      Value.position_integer (by omega) (by omega)
    rw [get_row named (by omega), getInteger, if_pos (by simpa using inside)]
    congr 1
    omega
  · rw [getInteger, if_neg (by simpa using inside), get_entry]
    intro n named
    have named : Number.position? (Number.ofInteger i) = some n := named
    by_cases positive : i ≤ 0
    · rw [Number.position_ofInteger_nonpositive positive] at named
      contradiction
    · obtain ⟨m, rfl⟩ : ∃ m : Nat, i = m := ⟨i.toNat, by omega⟩
      simp only [Table.length] at length
      by_cases exact : m ≤ 2 ^ 53
      · rw [Number.position_ofInteger (by omega) exact] at named
        simp only [Option.some.injEq] at named
        omega
      · have := Number.position_ofInteger_large (by omega) (by omega) named
        omega

theorem get_congr (t : Table) {k k' : Value} (equal : k.same k' = true) : t.get k = t.get k' := by
  have entry : t.getEntry k = t.getEntry k' := by
    have predicate : (fun e : Entry => e.1.same k) = fun e => e.1.same k' := by
      funext e
      rw [Value.same_symm, Value.same_congr e.1 equal, Value.same_symm]
    simp only [getEntry, predicate]
  simp only [get, Value.position_congr equal, entry]

/-- What makes a table a finite map from keys to values. -/
structure FiniteMap (t : Table) : Prop where
  noNilKey : ∀ e ∈ t.entries, e.1 ≠ .nil
  noNaNKey : ∀ e ∈ t.entries, ∀ n, e.1 = .number n → n.isNaN = false
  distinctKeys : t.entries.toList.Pairwise fun a b => a.1.same b.1 = false
  noRowKey : ∀ e ∈ t.entries, ∀ n : Nat, 1 ≤ n → n ≤ t.length + 1 → e.1.same (.integer n) = false
  integerRead : ∀ i : Int, -2 ^ 63 ≤ i → i < 2 ^ 63 → t.getInteger i = t.get (.integer i)
  stringRead : ∀ s, t.getString s = t.get (.string s)
  contained : ∀ k, t.contains k = true ↔ t.get k ≠ .nil
  equalRead : ∀ k k', k.same k' = true → t.get k = t.get k'
  written : ∀ k v t', t.set k v = .ok t' → t'.length < 2 ^ 53 →
    ∀ k', t'.get k' = if k'.same k then v else t.get k'
  refused : ∀ k v, (∃ e, t.set k v = .error e) ↔ k = .nil ∨ ∃ n, k = .number n ∧ n.isNaN = true
  refusedUnchanged : ∀ k v e, t.set k v = .error e → t.edit (.set k v) = t
  afterRow : t.get (.integer (t.length + 1)) = .nil
  filled : ∀ n : Nat, (∀ i : Nat, 1 ≤ i → i ≤ n → t.get (.integer i) ≠ .nil) → n ≤ t.length

theorem built_finiteMap {t : Table} (built : Built t) : t.FiniteMap := by
  obtain ⟨length, sound⟩ := built.sound
  have afterRow : t.get (.integer (t.length + 1 : Nat)) = .nil :=
    get_afterRow sound (Value.position_integer (by omega) (by omega))
  refine {
    noNilKey := ?_
    noNaNKey := ?_
    distinctKeys := sound.distinct
    noRowKey := ?_
    integerRead := fun i lower upper => getInteger_eq_get length lower upper
    stringRead := fun s => rfl
    contained := ?_
    equalRead := fun k k' equal => get_congr t equal
    written := ?_
    refused := set_refused_iff t
    refusedUnchanged := ?_
    afterRow := afterRow
    filled := ?_ }
  · intro e member isNil
    have accepted := (keyError_eq_none_iff e.1).1 (sound.accepted e member)
    exact accepted (.inl isNil)
  · intro e member n isNumber
    have accepted := (keyError_eq_none_iff e.1).1 (sound.accepted e member)
    rw [Bool.eq_false_iff]
    exact fun nan => accepted (.inr ⟨n, isNumber, nan⟩)
  · intro e member n positive inside
    rw [Bool.eq_false_iff]
    intro equal
    have named := (Value.position_congr equal).trans (Value.position_integer positive (by omega))
    have := sound.beyond e member n named
    omega
  · intro k
    simp only [contains]
    cases t.get k <;> simp [Value.isNil]
  · intro k v t' done bound
    obtain ⟨accepted, rfl⟩ := set_ok done
    exact (assign_correct v sound accepted bound).2
  · intro k v e error
    simp only [edit, error]
  · intro n present
    by_contra beyond
    exact present (t.length + 1) (by omega) (by omega) afterRow

theorem built_finiteMap_descending :
    Built ((empty.edit (.setInteger 2 (.boolean true))).edit (.setInteger 1 (.boolean false))) ∧
      FiniteMap
        ((empty.edit (.setInteger 2 (.boolean true))).edit (.setInteger 1 (.boolean false))) := by
  have built : Built
      ((empty.edit (.setInteger 2 (.boolean true))).edit (.setInteger 1 (.boolean false))) :=
    .edit _ (.edit _ .empty (by decide +kernel)) (by decide +kernel)
  exact ⟨built, built_finiteMap built⟩

end RegisterVm.Table
