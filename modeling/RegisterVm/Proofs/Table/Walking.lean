import RegisterVm.Table.Traversal
import RegisterVm.Proofs.Table.FiniteMap

/-!
Walking a table while it is written to. Items and entries stand in one sequence of slots, and the
pair after a key is the first live slot behind the slot of that key. Writing nil anywhere, or
anything at a key that was there when the walk began, moves no slot: such a key is never the one
after the row, so nothing is drawn into the row, and an entry keeps its place when it is emptied.
-/

namespace RegisterVm.Table

def row (t : Table) : List (Value × Value) :=
  t.items.toList.mapIdx fun i value => (indexKey (i + 1), value)

def slots (t : Table) : List (Value × Value) := t.row ++ t.entries.toList

/-- The keys of the slots: the positions of the row ascending, then the keys of the entries. -/
def order (t : Table) : List Value :=
  (List.range t.length).map (fun i => indexKey (i + 1)) ++ t.entries.toList.map Prod.fst

def live (e : Value × Value) : Bool := !e.2.isNil

theorem live_iff (e : Value × Value) : live e = true ↔ e.2 ≠ .nil := by
  cases value : e.2 <;> simp [live, value, Value.isNil]

theorem dead_iff (e : Value × Value) : live e = false ↔ e.2 = .nil := by
  cases value : e.2 <;> simp [live, value, Value.isNil]

theorem length_row (t : Table) : t.row.length = t.length := by simp [row, length]

theorem getElem?_row (t : Table) (i : Nat) :
    t.row[i]? = t.items[i]?.map fun value => (indexKey (i + 1), value) := by
  simp [row, List.getElem?_mapIdx]

theorem keys_slots (t : Table) : t.slots.map Prod.fst = t.order := by
  rw [slots, order, List.map_append]
  congr 1
  apply List.ext_getElem?
  intro i
  simp only [List.getElem?_map, getElem?_row, List.range_eq_range', length]
  by_cases inside : i < t.items.size
  · simp [inside]
  · simp [inside]

theorem length_order (t : Table) : t.order.length = t.slots.length := by
  rw [← keys_slots, List.length_map]

section Reading

variable {t : Table}

theorem nextItem_eq {fuel start : Nat} (enough : t.items.size - start ≤ fuel) :
    t.nextItem fuel start = (t.row.drop start).find? live := by
  induction fuel generalizing start with
  | zero =>
      have none : t.row.drop start = [] := List.drop_eq_nil_iff.2 (by
        rw [length_row]
        exact Nat.le_of_sub_eq_zero (Nat.le_zero.1 enough))
      rw [none]
      rfl
  | succ fuel ih =>
      simp only [nextItem]
      split
      · rename_i missing
        have outside : t.row.length ≤ start := by
          rw [length_row]
          exact Array.getElem?_eq_none_iff.1 missing
        rw [List.drop_eq_nil_iff.2 outside]
        rfl
      · rename_i value found
        have here : t.row[start]? = some (indexKey (start + 1), value) := by
          rw [getElem?_row, found]
          rfl
        obtain ⟨inside, read⟩ := List.getElem?_eq_some_iff.1 here
        rw [List.drop_eq_getElem_cons inside, read, List.find?_cons]
        by_cases hole : value.isNil = true
        · have later := @ih (start + 1) (by omega)
          simp [live, hole, later]
        · simp [live, hole]

theorem nextEntry_eq {fuel start : Nat} (enough : t.entries.size - start ≤ fuel) :
    t.nextEntry fuel start = (t.entries.toList.drop start).find? live := by
  induction fuel generalizing start with
  | zero =>
      have none : t.entries.toList.drop start = [] := List.drop_eq_nil_iff.2 (by
        rw [Array.length_toList]
        exact Nat.le_of_sub_eq_zero (Nat.le_zero.1 enough))
      rw [none]
      rfl
  | succ fuel ih =>
      simp only [nextEntry]
      split
      · rename_i missing
        have outside : t.entries.toList.length ≤ start := by
          rw [Array.length_toList]
          exact Array.getElem?_eq_none_iff.1 missing
        rw [List.drop_eq_nil_iff.2 outside]
        rfl
      · rename_i e found
        rw [← Array.getElem?_toList] at found
        obtain ⟨inside, read⟩ := List.getElem?_eq_some_iff.1 found
        rw [List.drop_eq_getElem_cons inside, read, List.find?_cons]
        by_cases hole : e.2.isNil = true
        · have later := @ih (start + 1) (by omega)
          simp [live, hole, later]
        · simp [live, hole]

theorem nextFromEntry_eq (t : Table) (start : Nat) :
    t.nextFromEntry start = (t.slots.drop (t.length + start)).find? live := by
  rw [nextFromEntry, nextEntry_eq (Nat.le_refl _), slots, ← length_row, List.drop_length_add_append]

theorem nextFromItem_eq {start : Nat} (inside : start ≤ t.length) :
    t.nextFromItem start = (t.slots.drop start).find? live := by
  rw [nextFromItem, nextItem_eq (Nat.le_refl _), slots,
    List.drop_append_of_le_length (by rwa [length_row]), List.find?_append]
  cases (t.row.drop start).find? live with
  | none =>
      rw [nextFromEntry_eq, slots, ← length_row, List.drop_length_add_append]
      rfl
  | some pair => rfl

theorem next_nil (t : Table) : t.next .nil = .ok (t.slots.find? live) := by
  have start := nextFromItem_eq (t := t) (Nat.zero_le _)
  simp only [next, start, List.drop_zero]

structure Walkable (t : Table) : Prop where
  small : t.length < 2 ^ 53
  sound : t.Sound

theorem same_self {k : Value} (accepted : keyError? k = none) : k.same k = true := by
  cases k with
  | number n =>
      have real : n ≠ .nan := by simpa [keyError?] using accepted
      exact Float.beq_self_iff.2 real
  | _ => simp [Value.same]

theorem Walkable.position_row (walkable : t.Walkable) {i : Nat} (inside : i < t.length) :
    (indexKey (i + 1)).position? = some (i + 1) :=
  Value.position_integer (by omega) (by have := walkable.small; omega)

theorem Walkable.same_self_slot (walkable : t.Walkable) {k : Value} (stands : k ∈ t.order) :
    k.same k = true := by
  rcases List.mem_append.1 stands with item | entry
  · obtain ⟨i, -, rfl⟩ := List.mem_map.1 item
    exact same_self (keyError_integer _)
  · obtain ⟨e, member, rfl⟩ := List.mem_map.1 entry
    exact same_self (walkable.sound.accepted e ⟨member⟩)

theorem getElem?_order_row {i : Nat} (inside : i < t.length) :
    t.order[i]? = some (indexKey (i + 1)) := by
  rw [order, List.getElem?_append_left (by simpa using inside)]
  simp [inside]

theorem getElem?_order_entry (t : Table) (i : Nat) :
    t.order[t.length + i]? = t.entries[i]?.map Prod.fst := by
  rw [order, List.getElem?_append_right (by simp)]
  simp

theorem Walkable.distinct (walkable : t.Walkable) :
    t.order.Pairwise fun a b => a.same b = false := by
  rw [order, List.pairwise_append]
  refine ⟨?_, List.pairwise_map.2 walkable.sound.distinct, ?_⟩
  · rw [List.pairwise_map]
    refine List.Pairwise.imp_of_mem ?_ (List.pairwise_lt_range (n := t.length))
    intro i j first second less
    rw [Bool.eq_false_iff]
    intro equal
    have positions := Value.position_congr equal
    rw [walkable.position_row (List.mem_range.1 first),
      walkable.position_row (List.mem_range.1 second)] at positions
    simp only [Option.some.injEq] at positions
    omega
  · intro a first b second
    obtain ⟨i, inside, rfl⟩ := List.mem_map.1 first
    obtain ⟨e, member, rfl⟩ := List.mem_map.1 second
    rw [Bool.eq_false_iff]
    intro equal
    have inside := List.mem_range.1 inside
    have named := (Value.position_congr equal).symm.trans (walkable.position_row inside)
    have := walkable.sound.beyond e ⟨member⟩ _ named
    omega

/-- The pair after the key of a slot is the first live slot behind it. -/
theorem Walkable.next_slot (walkable : t.Walkable) {p : Nat} {k : Value}
    (stands : t.order[p]? = some k) : t.next k = .ok ((t.slots.drop (p + 1)).find? live) := by
  by_cases inside : p < t.length
  · rw [getElem?_order_row inside, Option.some.injEq] at stands
    subst stands
    have position := walkable.position_row inside
    have low : p + 1 ≤ t.items.size := inside
    have from_item : t.nextFromItem (p + 1) = (t.slots.drop (p + 1)).find? live :=
      nextFromItem_eq low
    simp only [indexKey, Value.integer] at position ⊢
    simp only [next, position, if_pos low, from_item]
  · obtain ⟨i, rfl⟩ : ∃ i, p = t.length + i := ⟨p - t.length, by omega⟩
    rw [getElem?_order_entry, Option.map_eq_some_iff] at stands
    obtain ⟨e, here, rfl⟩ := stands
    obtain ⟨bound, rfl⟩ := Array.getElem?_eq_some_iff.1 here
    have member : t.entries[i] ∈ t.entries := Array.getElem_mem bound
    have accepted := walkable.sound.accepted _ member
    have found : findEntry? t.entries t.entries[i].1 = some i := by
      rw [Table.findEntry?, Array.findIdx?_eq_some_iff_getElem]
      refine ⟨bound, same_self accepted, ?_⟩
      intro j before
      have apart := List.pairwise_iff_getElem.1 walkable.sound.distinct j i
        (by rw [Array.length_toList]; omega) (by rwa [Array.length_toList]) before
      simpa [Apart] using apart
    have read : t.next t.entries[i].1 = .ok (t.nextFromEntry (i + 1)) := by
      have beyond := walkable.sound.beyond _ member
      generalize t.entries[i].1 = k at accepted found beyond
      cases named : k.position? with
      | none =>
          cases k with
          | nil => simp [keyError?] at accepted
          | _ => simp [next, found, named]
      | some n =>
          have outside : ¬n ≤ t.items.size := by
            have := beyond n named
            simp only [length] at this
            omega
          cases k with
          | nil => simp [keyError?] at accepted
          | _ => simp [next, found, named, outside]
    rw [read, nextFromEntry_eq]
    rfl

theorem Walkable.get_slot (walkable : t.Walkable) {e : Value × Value} (member : e ∈ t.slots)
    {k : Value} (equal : e.1.same k = true) : t.get k = e.2 := by
  rcases List.mem_append.1 member with item | entry
  · obtain ⟨i, here⟩ := List.mem_iff_getElem?.1 item
    rw [getElem?_row, Option.map_eq_some_iff] at here
    obtain ⟨value, stands, rfl⟩ := here
    obtain ⟨bound, rfl⟩ := Array.getElem?_eq_some_iff.1 stands
    have named := (Value.position_congr equal).symm.trans (walkable.position_row bound)
    rw [get_row named (by omega)]
    simp [bound]
  · have member : e ∈ t.entries := ⟨entry⟩
    rw [get_entry, getEntry_member walkable.sound.distinct member equal]
    intro n named
    have := walkable.sound.beyond e member n ((Value.position_congr equal).trans named)
    simp only [length] at this
    omega

theorem mem_order_of_get {k : Value} (present : t.get k ≠ .nil) :
    ∃ k' ∈ t.order, k'.same k = true := by
  by_cases inside : ∃ n, k.position? = some n ∧ n ≤ t.items.size
  · obtain ⟨n, named, low⟩ := inside
    obtain ⟨positive, -, equal⟩ := Value.same_integer_of_position named
    refine ⟨.integer n, List.mem_append_left _ (List.mem_map.2 ⟨n - 1, ?_, ?_⟩), ?_⟩
    · rw [List.mem_range, length]
      omega
    · rw [indexKey]
      congr 1
      omega
    · rwa [Value.same_symm]
  · have outside : ∀ n, k.position? = some n → t.items.size < n := by
      intro n named
      by_contra low
      exact inside ⟨n, named, by omega⟩
    rw [get_entry outside] at present
    by_contra absent
    apply present
    apply getEntry_absent
    intro e member
    rw [Bool.eq_false_iff]
    intro equal
    exact absent ⟨e.1, List.mem_append_right _ (List.mem_map_of_mem member.val), equal⟩

end Reading

structure SameSlots (t t' : Table) : Prop where
  row : t'.length = t.length
  keys : t'.entries.toList.map Prod.fst = t.entries.toList.map Prod.fst

section Writing

variable {t t' : Table}

theorem SameSlots.refl (t : Table) : SameSlots t t := ⟨rfl, rfl⟩

theorem SameSlots.order (same : SameSlots t t') : t'.order = t.order := by
  rw [Table.order, Table.order, same.row, same.keys]

theorem SameSlots.mem_entry (same : SameSlots t t') {k : Value} :
    (∃ e ∈ t'.entries, e.1 = k) ↔ ∃ e ∈ t.entries, e.1 = k := by
  have keys := congrArg (k ∈ ·) same.keys
  simpa [List.mem_map] using keys

theorem SameSlots.walkable (same : SameSlots t t') (walkable : t.Walkable) : t'.Walkable := by
  have old : ∀ e ∈ t'.entries, ∃ e' ∈ t.entries, e'.1 = e.1 :=
    fun e member => same.mem_entry.1 ⟨e, member, rfl⟩
  refine ⟨same.row ▸ walkable.small, ?_, ?_, ?_⟩
  · intro e member
    obtain ⟨e', member', equal⟩ := old e member
    exact equal ▸ walkable.sound.accepted e' member'
  · have distinct : (t.entries.toList.map Prod.fst).Pairwise fun a b => a.same b = false :=
      List.pairwise_map.2 walkable.sound.distinct
    rw [← same.keys, List.pairwise_map] at distinct
    exact distinct
  · intro e member n named
    obtain ⟨e', member', equal⟩ := old e member
    rw [same.row]
    exact walkable.sound.beyond e' member' n (equal ▸ named)

/-- A write that a walk begun on `t` allows: nil, or at a key that was there. -/
def Allows (t : Table) (update : Value × Value) : Prop := update.2 = .nil ∨ t.get update.1 ≠ .nil

theorem keys_modify (entries : Array Entry) (index : Nat) (v : Value) :
    (entries.modify index fun e => (e.1, v)).toList.map Prod.fst = entries.toList.map Prod.fst := by
  apply List.ext_getElem
  · simp
  · intro i first second
    simp only [List.getElem_map, Array.getElem_toList, Array.getElem_modify]
    split <;> rfl

theorem SameSlots.setEntry (same : SameSlots t t') {k v : Value} (allowed : t.Allows (k, v))
    (outside : ∀ n, k.position? = some n → t.items.size < n) : SameSlots t (t'.setEntry k v) := by
  simp only [Table.setEntry]
  split
  · exact ⟨same.row, (keys_modify _ _ _).trans same.keys⟩
  · rename_i missing
    split
    · exact same
    · rename_i some_value
      exfalso
      rcases allowed with erased | present
      · simp only at erased
        simp [erased, Value.isNil] at some_value
      · rw [get_entry outside] at present
        apply present
        apply getEntry_absent
        intro e member
        obtain ⟨e', member', equal⟩ := same.mem_entry.2 ⟨e, member, rfl⟩
        rw [← equal]
        exact findEntry_none missing e' member'

theorem SameSlots.assign (same : SameSlots t t') (walkable : t.Walkable) {k v : Value}
    (allowed : t.Allows (k, v)) : SameSlots t (t'.assign k v) := by
  have row : t'.items.size = t.items.size := same.row
  rcases assign_cases t' k v with ⟨n, -, -, equal⟩ | ⟨-, -, equal⟩ | ⟨named, -⟩ | ⟨beyond, equal⟩
  · rw [equal]
    exact ⟨by simpa [length] using row, same.keys⟩
  · rwa [equal]
  · -- The key after the row was absent when the walk began, so this writes nil.
    rw [row] at named
    rcases allowed with erased | present
    · simp only at erased
      have unchanged : t'.assign k v = t' := by
        simp [Table.assign, named, row, erased, Value.isNil]
      rwa [unchanged]
    · exact absurd (get_afterRow walkable.sound named) present
  · rw [equal]
    apply same.setEntry allowed
    intro n named
    have := beyond n named
    omega

theorem SameSlots.edit (same : SameSlots t t') (walkable : t.Walkable) {update : Value × Value}
    (allowed : t.Allows update) : SameSlots t (t'.edit (.set update.1 update.2)) := by
  cases done : t'.set update.1 update.2 with
  | error e => simpa only [Table.edit, done] using same
  | ok changed =>
      obtain ⟨-, rfl⟩ := set_ok done
      simpa only [Table.edit, done] using same.assign walkable allowed

def setAll (t : Table) (updates : List (Value × Value)) : Table :=
  updates.foldl (fun t update => t.edit (.set update.1 update.2)) t

theorem SameSlots.setAll (same : SameSlots t t') (walkable : t.Walkable)
    {updates : List (Value × Value)} (allowed : ∀ update ∈ updates, t.Allows update) :
    SameSlots t (t'.setAll updates) := by
  induction updates generalizing t' with
  | nil => exact same
  | cons update rest ih =>
      have first := same.edit walkable (allowed update List.mem_cons_self)
      exact ih first fun update member => allowed update (List.mem_cons_of_mem _ member)

end Writing

def during (t : Table) (updates : Nat → List (Value × Value)) : Nat → Table
  | 0 => t
  | i + 1 => (t.during updates i).setAll (updates i)

/-- What step `i` of a walk answers. It asks for the pair after the key before, and a walk that has
ended or failed stays so. -/
def answer (t : Table) (updates : Nat → List (Value × Value)) :
    Nat → Except TableError (Option (Value × Value))
  | 0 => t.next .nil
  | i + 1 =>
    match t.answer updates i with
    | .ok (some (key, _)) => (t.during updates (i + 1)).next key
    | ended => ended

/-- A walk begun on `t` returns these pairs and ends. -/
structure Visits (t : Table) (updates : Nat → List (Value × Value))
    (pairs : List (Value × Value)) : Prop where
  answers : ∀ i, t.answer updates i = .ok pairs[i]?
  once : pairs.Pairwise fun a b => a.1.same b.1 = false
  /-- A returned pair is in the table at that moment. -/
  present : ∀ i e, pairs[i]? = some e → (t.during updates i).get e.1 = e.2 ∧ e.2 ≠ .nil
  /-- A key that every step finds in the table is returned exactly once. -/
  complete : ∀ k, (∀ i ≤ pairs.length, (t.during updates i).get k ≠ .nil) →
    pairs.countP (fun e => e.1.same k) = 1
  ordered : (pairs.map Prod.fst).Sublist t.order

section Walks

variable {t : Table} {updates : Nat → List (Value × Value)}

theorem sameSlots_during (walkable : t.Walkable)
    (allowed : ∀ i, ∀ update ∈ updates i, t.Allows update) (i : Nat) :
    SameSlots t (t.during updates i) := by
  induction i with
  | zero => exact .refl t
  | succ i ih => exact ih.setAll walkable (allowed i)

theorem answer_ended {i : Nat} (ended : t.answer updates i = .ok none) (j : Nat) :
    t.answer updates (i + j) = .ok none := by
  induction j with
  | zero => exact ended
  | succ j ih => rw [← Nat.add_assoc, answer, ih]

structure Rest (t : Table) (updates : Nat → List (Value × Value)) (i p : Nat)
    (pairs : List (Value × Value)) : Prop where
  answers : ∀ j, t.answer updates (i + j) = .ok pairs[j]?
  present : ∀ j e, pairs[j]? = some e → (t.during updates (i + j)).get e.1 = e.2 ∧ e.2 ≠ .nil
  complete : ∀ k, (∃ k' ∈ t.order.drop p, k'.same k = true) →
    (∀ j ≤ pairs.length, (t.during updates (i + j)).get k ≠ .nil) →
    ∃ e ∈ pairs, e.1.same k = true
  ordered : (pairs.map Prod.fst).Sublist (t.order.drop p)

theorem rest_none (walkable : t.Walkable)
    (allowed : ∀ i, ∀ update ∈ updates i, t.Allows update) {i p : Nat}
    (answered : t.answer updates i = .ok none)
    (dead : ((t.during updates i).slots.drop p).find? live = none) : t.Rest updates i p [] := by
  have same := sameSlots_during walkable allowed i
  refine ⟨fun j => answer_ended answered j, fun j e => nofun, ?_, List.nil_sublist _⟩
  rintro k ⟨k', stands, equal⟩ stays
  rw [← same.order, ← keys_slots, ← List.map_drop] at stands
  obtain ⟨e, member, rfl⟩ := List.mem_map.1 stands
  have hole := List.find?_eq_none.1 dead e member
  rw [Bool.not_eq_true, dead_iff] at hole
  exact absurd ((same.walkable walkable).get_slot (List.mem_of_mem_drop member) equal ▸ hole)
    (stays 0 (Nat.zero_le _))

theorem rest_some (walkable : t.Walkable)
    (allowed : ∀ i, ∀ update ∈ updates i, t.Allows update) {i p q : Nat} {e : Value × Value}
    {pairs : List (Value × Value)} (answered : t.answer updates i = .ok (some e)) (after : p ≤ q)
    (here : (t.during updates i).slots[q]? = some e) (lives : live e = true)
    (dead : ∀ r, p ≤ r → r < q → ∀ e', (t.during updates i).slots[r]? = some e' → live e' = false)
    (rest : t.Rest updates (i + 1) (q + 1) pairs) : t.Rest updates i p (e :: pairs) := by
  have same := sameSlots_during walkable allowed i
  have now := same.walkable walkable
  have key (r : Nat) : t.order[r]? = (t.during updates i).slots[r]?.map Prod.fst := by
    rw [← same.order, ← keys_slots, List.getElem?_map]
  have stands : t.order[q]? = some e.1 := by rw [key, here]; rfl
  refine ⟨?_, ?_, ?_, ?_⟩
  · rintro (_ | j)
    · exact answered
    · rw [Nat.add_comm j 1, ← Nat.add_assoc, rest.answers j, Nat.add_comm 1 j,
        List.getElem?_cons_succ]
  · rintro (_ | j) e' found
    · simp only [List.getElem?_cons_zero, Option.some.injEq] at found
      subst found
      have self := walkable.same_self_slot (List.mem_of_getElem? stands)
      exact ⟨now.get_slot (List.mem_of_getElem? here) self, (live_iff e).1 lives⟩
    · rw [Nat.add_comm j 1, ← Nat.add_assoc]
      exact rest.present j e' (by simpa using found)
  · rintro k ⟨k', member, equal⟩ stays
    obtain ⟨d, found⟩ := List.mem_iff_getElem?.1 member
    rw [List.getElem?_drop] at found
    rcases Nat.lt_trichotomy (p + d) q with before | rfl | behind
    · rw [key, Option.map_eq_some_iff] at found
      obtain ⟨e', slot, rfl⟩ := found
      have hole := (dead_iff e').1 (dead (p + d) (Nat.le_add_right _ _) before e' slot)
      exact absurd ((now.get_slot (List.mem_of_getElem? slot) equal).trans hole)
        (stays 0 (Nat.zero_le _))
    · rw [stands, Option.some.injEq] at found
      exact ⟨e, List.mem_cons_self, found ▸ equal⟩
    · have left : k' ∈ t.order.drop (q + 1) := by
        refine List.mem_iff_getElem?.2 ⟨p + d - (q + 1), ?_⟩
        rw [List.getElem?_drop, ← found]
        congr 1
        omega
      obtain ⟨e', member', equal'⟩ := rest.complete k ⟨k', left, equal⟩ fun j bound => by
        rw [Nat.add_assoc, Nat.add_comm 1 j]
        exact stays (j + 1) (by simpa using bound)
      exact ⟨e', List.mem_cons_of_mem _ member', equal'⟩
  · obtain ⟨bound, read⟩ := List.getElem?_eq_some_iff.1 stands
    have behind : (e.1 :: pairs.map Prod.fst).Sublist (t.order.drop q) := by
      rw [List.drop_eq_getElem_cons bound, read]
      exact rest.ordered.cons_cons _
    exact behind.trans (List.drop_sublist_drop_left _ after)

theorem exists_rest (walkable : t.Walkable)
    (allowed : ∀ i, ∀ update ∈ updates i, t.Allows update) {n i p : Nat}
    (left : t.order.length - p ≤ n)
    (answered : t.answer updates i = .ok (((t.during updates i).slots.drop p).find? live)) :
    ∃ pairs, t.Rest updates i p pairs := by
  induction n generalizing i p with
  | zero =>
      have same := sameSlots_during walkable allowed i
      have none : (t.during updates i).slots.drop p = [] := by
        rw [List.drop_eq_nil_iff, ← length_order, same.order]
        omega
      have dead : ((t.during updates i).slots.drop p).find? live = .none := by rw [none]; rfl
      exact ⟨[], rest_none walkable allowed (answered.trans (by rw [dead])) dead⟩
  | succ n ih =>
      cases found : ((t.during updates i).slots.drop p).find? live with
      | none => exact ⟨[], rest_none walkable allowed (answered.trans (by rw [found])) found⟩
      | some e =>
          rw [found] at answered
          obtain ⟨lives, d, inside, rfl, dead⟩ := List.find?_eq_some_iff_getElem.1 found
          have here : (t.during updates i).slots[p + d]? =
              some ((t.during updates i).slots.drop p)[d] := by
            rw [← List.getElem?_drop, List.getElem?_eq_getElem inside]
          generalize ((t.during updates i).slots.drop p)[d] = e at here answered lives
          have stands : (t.during updates (i + 1)).order[p + d]? = some e.1 := by
            rw [(sameSlots_during walkable allowed (i + 1)).order,
              ← (sameSlots_during walkable allowed i).order, ← keys_slots, List.getElem?_map, here]
            rfl
          have asked : t.answer updates (i + 1) =
              .ok (((t.during updates (i + 1)).slots.drop (p + d + 1)).find? live) := by
            have next := ((sameSlots_during walkable allowed (i + 1)).walkable walkable).next_slot
              stands
            rw [answer, answered]
            exact next
          obtain ⟨pairs, rest⟩ := ih (by omega) asked
          refine ⟨e :: pairs, rest_some walkable allowed answered (Nat.le_add_right p d) here lives
            ?_ rest⟩
          intro r low high e' slot
          obtain ⟨j, rfl⟩ := Nat.exists_eq_add_of_le low
          have hole := dead j (by omega)
          rw [← List.getElem?_drop] at slot
          obtain ⟨bound, rfl⟩ := List.getElem?_eq_some_iff.1 slot
          rwa [Bool.not_eq_true'] at hole

end Walks

theorem countP_same {pairs : List (Value × Value)} {k : Value}
    (once : pairs.Pairwise fun a b => a.1.same b.1 = false) {e : Value × Value}
    (member : e ∈ pairs) (equal : e.1.same k = true) :
    pairs.countP (fun e => e.1.same k) = 1 := by
  induction pairs with
  | nil => contradiction
  | cons first rest ih =>
      obtain ⟨apart, once⟩ := List.pairwise_cons.1 once
      rcases List.mem_cons.1 member with rfl | inner
      · have others : ∀ other ∈ rest, ¬other.1.same k = true := by
          intro other member
          rw [Value.same_symm, ← Value.same_congr other.1 equal, apart other member]
          exact Bool.false_ne_true
        simp [equal, List.countP_eq_zero.2 others]
      · have different : first.1.same k = false := by
          rw [Value.same_symm, ← Value.same_congr first.1 equal, Value.same_symm, apart e inner]
        simp [different, ih once inner]

/-- A walk over any table that edits have built, under any metatable. Whatever nils are written
between the steps, and whatever is written to the keys that were there when it began, no step
fails, and the walk ends after returning every key that stayed there exactly once, in the order of
the slots at the beginning. -/
theorem walk_visits {t : Table} (built : Built t) (metatable : Option TableRef)
    {updates : Nat → List (Value × Value)}
    (allowed : ∀ i, ∀ update ∈ updates i, update.2 = .nil ∨ t.get update.1 ≠ .nil) :
    ∃ pairs, (t.withMetatable metatable).Visits updates pairs := by
  have walkable : (t.withMetatable metatable).Walkable := ⟨built.sound.1, built.sound.2⟩
  have first : (t.withMetatable metatable).answer updates 0 =
      .ok (((t.withMetatable metatable).slots.drop 0).find? live) := next_nil _
  obtain ⟨pairs, rest⟩ := exists_rest walkable allowed (Nat.le_refl _) first
  have once := List.pairwise_map.1 (walkable.distinct.sublist rest.ordered)
  refine ⟨pairs, ?_, once, ?_, ?_, rest.ordered⟩
  · intro i
    have := rest.answers i
    rwa [Nat.zero_add] at this
  · intro i e found
    have := rest.present i e found
    rwa [Nat.zero_add] at this
  · intro k stays
    have start : (t.withMetatable metatable).get k ≠ .nil := stays 0 (Nat.zero_le _)
    obtain ⟨e, member, equal⟩ := rest.complete k (mem_order_of_get start) fun j bound => by
      rw [Nat.zero_add]
      exact stays j bound
    exact countP_same once member equal

def flagged : Table :=
  (empty.edit (.setInteger 1 (.boolean true))).edit (.setString "flag" (.boolean true))

def toggles : Nat → List (Value × Value)
  | 0 => [(.string "flag", .nil), (.string "flag", .boolean false), (.table 0, .nil)]
  | _ => []

theorem walk_visits_flagged :
    Built flagged ∧
      (∀ i, ∀ update ∈ toggles i, update.2 = .nil ∨ flagged.get update.1 ≠ .nil) ∧
      ∃ pairs, (flagged.withMetatable none).Visits toggles pairs := by
  have built : Built flagged := .edit _ (.edit _ .empty (by decide +kernel)) (by decide +kernel)
  have held : flagged.get (.string "flag") ≠ .nil := by
    intro absent
    have real : (flagged.get (.string "flag")).isNil = false := by decide +kernel
    rw [absent] at real
    contradiction
  have allowed : ∀ i, ∀ update ∈ toggles i, update.2 = .nil ∨ flagged.get update.1 ≠ .nil := by
    rintro (_ | i) update member
    · simp only [toggles, List.mem_cons, List.not_mem_nil, or_false] at member
      rcases member with rfl | rfl | rfl
      · exact .inl rfl
      · exact .inr held
      · exact .inl rfl
    · contradiction
  exact ⟨built, allowed, walk_visits built none allowed⟩

end RegisterVm.Table
