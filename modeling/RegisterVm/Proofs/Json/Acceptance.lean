import Mathlib.Logic.Relation
import RegisterVm.Proofs.Json.Sequences
import RegisterVm.Proofs.Number.Whole

/-!
Which values have a JSON form. The conversion goes down the tables that a value leads to, by the row
of a table that counts from one and by the pairs of any other, and no path meets a table twice. So it
ends on every heap. It succeeds unless it comes to a value without a form, to a key that is no name
or to a table within itself; a table that is met again beside a path does no harm.
-/

namespace RegisterVm.Json

open Relation

section Keys

variable {t : Table}

theorem eq_integer_of_asInteger {k : Value} {i : Int} (read : k.asInteger? = some i)
    (nonzero : i ≠ 0) : k = .integer i := by
  cases k with
  | number n => exact congrArg Value.number (Number.eq_ofInteger read nonzero)
  | _ => contradiction

theorem le_highest {keys : List (Option Int)} (high : Int) :
    high ≤ keys.foldl (fun high key => max high (key.getD 0)) high ∧
      ∀ key ∈ keys, key.getD 0 ≤ keys.foldl (fun high key => max high (key.getD 0)) high := by
  induction keys generalizing high with
  | nil => exact ⟨Int.le_refl _, nofun⟩
  | cons first rest ih =>
      obtain ⟨above, each⟩ := ih (max high (first.getD 0))
      refine ⟨Int.le_trans (Int.le_max_left _ _) above, fun key member => ?_⟩
      rcases List.mem_cons.1 member with rfl | member
      · exact Int.le_trans (Int.le_max_right _ _) above
      · exact each key member

theorem pairs_distinct (walkable : t.Walkable) :
    t.pairs.Pairwise fun a b => a.1.same b.1 = false := by
  have pairs : t.pairs = t.slots.filter Table.live := by
    rw [Table.slots, List.filter_append]
    rfl
  have slots : t.slots.Pairwise fun a b => a.1.same b.1 = false := by
    rw [← List.pairwise_map (f := Prod.fst) (R := fun a b : Value => a.same b = false),
      Table.keys_slots]
    exact walkable.distinct
  rw [pairs]
  exact slots.filter _

theorem mem_of_nodup {l : List Nat} (distinct : l.Nodup) (inside : ∀ i ∈ l, 1 ≤ i ∧ i ≤ l.length)
    {i : Nat} (positive : 1 ≤ i) (bound : i ≤ l.length) : i ∈ l := by
  have subset : l.toFinset ⊆ Finset.Icc 1 l.length := fun i member =>
    Finset.mem_Icc.2 (inside i (List.mem_toFinset.1 member))
  have card : (Finset.Icc 1 l.length).card ≤ l.toFinset.card := by
    rw [List.toFinset_card_of_nodup distinct, Nat.card_Icc]
    omega
  have all := Finset.eq_of_subset_of_card_le subset card
  exact List.mem_toFinset.1 (all ▸ Finset.mem_Icc.2 ⟨positive, bound⟩)

theorem counts_of_isSequence (walkable : t.Walkable) (isSequence : t.isSequence = true) :
    Counts t t.pairs.length := by
  simp only [Table.isSequence, Bool.and_eq_true, beq_iff_eq, List.all_eq_true, List.length_map]
    at isSequence
  obtain ⟨positive, highest⟩ := isSequence
  have numbered : ∀ e ∈ t.pairs, ∃ i : Nat, 1 ≤ i ∧ i ≤ t.pairs.length ∧ e.1 = .integer i ∧
      e.1.asInteger? = some (i : Int) := by
    intro e member
    have there : e.1.asInteger? ∈ t.pairs.map fun e => e.1.asInteger? :=
      List.mem_map_of_mem (f := fun e : Value × Value => e.1.asInteger?) member
    have low := positive _ there
    have high := (le_highest 0).2 _ there
    rw [highest] at high
    cases read : e.1.asInteger? with
    | none =>
        rw [read] at low
        contradiction
    | some i =>
        rw [read] at low high
        simp only [decide_eq_true_eq, Option.getD_some] at low high
        obtain ⟨n, rfl⟩ := Int.eq_ofNat_of_zero_le (Int.le_trans (by decide) low)
        exact ⟨n, by omega, by omega, eq_integer_of_asInteger read (by omega), rfl⟩
  let number (e : Value × Value) : Nat := (e.1.asInteger?.getD 0).toNat
  have numberOf {e : Value × Value} {i : Nat} (read : e.1.asInteger? = some (i : Int)) :
      number e = i := by simp [number, read]
  have distinct : (t.pairs.map number).Nodup := by
    rw [List.Nodup, List.pairwise_map]
    refine (pairs_distinct walkable).imp_of_mem fun {a b} first second apart equal => ?_
    obtain ⟨i, -, -, left, readLeft⟩ := numbered a first
    obtain ⟨j, -, -, right, readRight⟩ := numbered b second
    rw [numberOf readLeft, numberOf readRight] at equal
    rw [left, right, equal, Table.same_self (Table.keyError_integer j)] at apart
    contradiction
  have inside : ∀ i ∈ t.pairs.map number, 1 ≤ i ∧ i ≤ (t.pairs.map number).length := by
    intro i member
    obtain ⟨e, there, rfl⟩ := List.mem_map.1 member
    obtain ⟨i, low, high, -, read⟩ := numbered e there
    rw [numberOf read, List.length_map]
    exact ⟨low, high⟩
  intro k
  constructor
  · intro member
    obtain ⟨e, there, rfl⟩ := List.mem_map.1 member
    obtain ⟨i, low, high, key, -⟩ := numbered e there
    exact ⟨i, low, high, key⟩
  · rintro ⟨i, low, high, rfl⟩
    obtain ⟨e, there, same⟩ :=
      List.mem_map.1 (mem_of_nodup distinct inside low (by rwa [List.length_map]))
    obtain ⟨j, -, -, key, read⟩ := numbered e there
    rw [numberOf read] at same
    exact List.mem_map.2 ⟨e, there, same ▸ key⟩

theorem get_live (walkable : t.Walkable) {e : Value × Value} (member : e ∈ t.pairs) :
    t.get e.1 = e.2 := by
  obtain ⟨slot, -⟩ := mem_pairs.1 member
  have stands : e.1 ∈ t.order := Table.keys_slots t ▸ List.mem_map_of_mem slot
  exact walkable.get_slot slot (walkable.same_self_slot stands)

theorem exists_pair (walkable : t.Walkable) {k : Value} (present : t.get k ≠ .nil) :
    ∃ e ∈ t.pairs, e.1.same k = true ∧ e.2 = t.get k := by
  obtain ⟨k', stands, equal⟩ := Table.mem_order_of_get present
  rw [← Table.keys_slots, List.mem_map] at stands
  obtain ⟨e, slot, rfl⟩ := stands
  have value := walkable.get_slot slot equal
  exact ⟨e, mem_pairs.2 ⟨slot, value ▸ present⟩, equal, value.symm⟩

theorem exists_pair_iff (walkable : t.Walkable) {v : Value} :
    (∃ e ∈ t.pairs, e.2 = v) ↔ v ≠ .nil ∧ ∃ k, t.get k = v := by
  constructor
  · rintro ⟨e, member, rfl⟩
    exact ⟨(mem_pairs.1 member).2, e.1, get_live walkable member⟩
  · rintro ⟨live, k, rfl⟩
    obtain ⟨e, member, -, value⟩ := exists_pair walkable live
    exact ⟨e, member, value⟩

end Keys

def visited (t : Table) : List Value :=
  if t.isSequence then t.sequence else t.pairs.map Prod.snd

theorem table_outside {s : Store} {ref : TableRef} (outside : ¬ref < s.tables.size) : s.table ref = .empty := by
  simp [Store.table, Array.getD, outside]

theorem visited_outside {s : Store} {ref : TableRef} (outside : ¬ref < s.tables.size) :
    visited (s.table ref) = [] := by
  rw [table_outside outside]
  rfl

def Heap (s : Store) : Prop := ∀ ref, ref < s.tables.size → ∃ t, Holds s ref t

theorem Heap.holds {s : Store} (heap : Heap s) (ref : TableRef) : ∃ t, Holds s ref t := by
  by_cases valid : ref < s.tables.size
  · exact heap ref valid
  · exact ⟨.empty, .empty, none, table_outside valid⟩

namespace Holds

variable {s : Store} {ref : TableRef} {t : Table}

theorem walkable (holds : Holds s ref t) : (s.table ref).Walkable := by
  obtain ⟨metatable, held⟩ := holds.held
  rw [held]
  exact ⟨holds.built.sound.1, holds.built.sound.2⟩

theorem isSequence_iff (holds : Holds s ref t) :
    (s.table ref).isSequence = true ↔ ∃ n, Counts (s.table ref) n := by
  constructor
  · exact fun isSequence => ⟨_, counts_of_isSequence holds.walkable isSequence⟩
  · rintro ⟨n, counts⟩
    obtain ⟨metatable, held⟩ := holds.held
    rw [held] at counts
    exact holds.isSequence (n := n) counts

theorem mem_visited (holds : Holds s ref t) {v : Value} (present : v ≠ .nil) :
    v ∈ visited (s.table ref) ↔ ∃ k, (s.table ref).get k = v := by
  have pairs := exists_pair_iff holds.walkable (v := v)
  rw [visited]
  split
  · rename_i isSequence
    obtain ⟨n, counts⟩ := holds.isSequence_iff.1 isSequence
    rw [holds.sequence]
    obtain ⟨metatable, held⟩ := holds.held
    rw [held] at counts pairs ⊢
    constructor
    · intro member
      obtain ⟨i, bound, rfl⟩ := List.mem_iff_getElem.1 member
      exact ⟨_, get_item holds.built (by simpa using bound)⟩
    · intro read
      obtain ⟨e, member, rfl⟩ := pairs.2 ⟨present, read⟩
      have row : e ∈ t.row := by
        have member : e ∈ t.pairs := member
        rw [Counts.pairs_eq (t := t) counts holds.built] at member
        exact List.mem_of_mem_take member
      obtain ⟨i, found⟩ := List.mem_iff_getElem?.1 row
      obtain ⟨bound, rfl⟩ := mem_row found
      exact List.mem_iff_getElem.2 ⟨i, by simpa using bound, by simp⟩
  · rw [List.mem_map, pairs]
    exact and_iff_right present

end Holds

/-- The table `outer` holds `inner` at a live key. -/
def Contains (s : Store) (outer inner : Value) : Prop :=
  ∃ ref, outer = .table ref ∧ inner ≠ .nil ∧ ∃ k, (s.table ref).get k = inner

/-- The value has a JSON form, what it contains apart. -/
structure Admissible (s : Store) (v : Value) : Prop where
  noFunction : v.isFunction = false
  noThread : v.isThread = false
  finite : ∀ n, v = .number n → n.isNaN = false ∧ n.isInf = false
  keyed : ∀ ref, v = .table ref → (∃ n, Counts (s.table ref) n) ∨
    ∀ k, (s.table ref).get k ≠ .nil → k.isString = true ∨ k.isNumber = true

/-- All that is reached from the value has a JSON form, and no table is reached from itself. -/
structure Convertible (s : Store) (v : Value) : Prop where
  admissible : ∀ w, ReflTransGen (Contains s) v w → Admissible s w
  acyclic : ∀ w, ReflTransGen (Contains s) v w → ¬TransGen (Contains s) w w

section Members

variable {convert : Value → Except JsonFailure Json} {pairs : List (Value × Value)}
  {members : List (String × Json)}

theorem memberName_ok_iff {k : Value} :
    (∃ name, memberName k = .ok name) ↔ k.isString = true ∨ k.isNumber = true := by
  cases k <;> simp [memberName, Value.isString, Value.isNumber]

theorem addMembers_cons {key value : Value} {done : List (String × Json)} :
    addMembers convert members ((key, value) :: pairs) = .ok done ↔
      ∃ name j, memberName key = .ok name ∧ convert value = .ok j ∧
        addMembers convert (insertMember name j members) pairs = .ok done := by
  simp only [addMembers]
  cases memberName key with
  | error e => simp [bind, Except.bind]
  | ok name =>
      cases convert value with
      | error e => simp [bind, Except.bind]
      | ok j =>
          constructor
          · exact fun added => ⟨name, j, rfl, rfl, added⟩
          · rintro ⟨_, _, named, converted, added⟩
            cases named
            cases converted
            exact added

theorem addMembers_ok_iff : (∃ done, addMembers convert members pairs = .ok done) ↔
    ∀ e ∈ pairs, (∃ name, memberName e.1 = .ok name) ∧ ∃ j, convert e.2 = .ok j := by
  induction pairs generalizing members with
  | nil => exact ⟨fun _ => nofun, fun _ => ⟨members, rfl⟩⟩
  | cons e rest ih =>
      obtain ⟨key, value⟩ := e
      simp only [addMembers_cons, List.forall_mem_cons]
      constructor
      · rintro ⟨done, name, j, named, converted, added⟩
        exact ⟨⟨⟨name, named⟩, j, converted⟩, ih.1 ⟨done, added⟩⟩
      · rintro ⟨⟨⟨name, named⟩, j, converted⟩, others⟩
        obtain ⟨done, added⟩ : ∃ done, addMembers convert (insertMember name j members) rest =
            .ok done := ih.2 others
        exact ⟨done, name, j, named, converted, added⟩

end Members

section Tables

variable {s : Store} {fuel : Nat} {path : List TableRef} {ref : TableRef}

theorem map_ok_iff {α β : Type} {x : Except JsonFailure α} {f : α → β} :
    (∃ b, x.map f = .ok b) ↔ ∃ a, x = .ok a := by
  cases x with
  | error e => exact ⟨nofun, nofun⟩
  | ok a => exact ⟨fun _ => ⟨a, rfl⟩, fun _ => ⟨f a, rfl⟩⟩

theorem ofValueOn_table_ok_iff : (∃ j, ofValueOn s (fuel + 1) path (.table ref) = .ok j) ↔
    ref ∉ path ∧ (∀ v ∈ visited (s.table ref), ∃ j, ofValueOn s fuel (ref :: path) v = .ok j) ∧
      ((s.table ref).isSequence = true ∨
        ∀ e ∈ (s.table ref).pairs, e.1.isString = true ∨ e.1.isNumber = true) := by
  by_cases on : ref ∈ path
  · rw [ofValueOn_on on]
    simp [on]
  · rw [ofValueOn_table on, visited]
    split
    · rename_i isSequence
      rw [map_ok_iff]
      constructor
      · exact fun ⟨_, done⟩ => ⟨on, fun v member => items_member done member, .inl isSequence⟩
      · exact fun ⟨_, each, _⟩ => items_total each
    · rename_i isObject
      rw [map_ok_iff, addMembers_ok_iff]
      simp only [memberName_ok_iff, List.forall_mem_map, on, isObject, false_or, Bool.false_eq_true,
        not_false_eq_true, true_and]
      exact ⟨fun each => ⟨fun e member => (each e member).2, fun e member => (each e member).1⟩,
        fun ⟨values, names⟩ e member => ⟨names e member, values e member⟩⟩

theorem ofNumber_ok_iff {n : Float} :
    (∃ j, ofNumber n = .ok j) ↔ n.isNaN = false ∧ n.isInf = false := by
  rw [ofNumber]
  cases read : Number.toInteger? n with
  | none => cases n.isNaN <;> cases n.isInf <;> simp
  | some i => exact ⟨fun _ => Number.toInteger_finite read, fun _ => ⟨_, rfl⟩⟩

end Tables

section Acceptance

variable {s : Store} {fuel : Nat} {path : List TableRef} {v w : Value} {j : Json}

theorem Admissible.of_ok (heap : Heap s) (done : ofValueOn s (fuel + 1) path v = .ok j) :
    Admissible s v := by
  cases v with
  | number n =>
      refine ⟨rfl, rfl, ?_, by simp⟩
      rintro _ ⟨⟩
      exact ofNumber_ok_iff.1 ⟨j, done⟩
  | table ref =>
      refine ⟨rfl, rfl, by simp, ?_⟩
      rintro _ ⟨⟩
      obtain ⟨t, holds⟩ := heap.holds ref
      obtain ⟨-, -, sequence | names⟩ := ofValueOn_table_ok_iff.1 ⟨j, done⟩
      · exact .inl (holds.isSequence_iff.1 sequence)
      · refine .inr fun k live => ?_
        obtain ⟨e, member, equal, -⟩ := exists_pair holds.walkable live
        have kind := names e member
        revert kind equal
        cases e.1 <;> cases k <;> simp [Value.same, Value.isString, Value.isNumber]
  | closure | native | thread => contradiction
  | nil | boolean | string => exact ⟨rfl, rfl, by simp, by simp⟩

theorem ofValueOn_contains (heap : Heap s) (contains : Contains s v w)
    (done : ofValueOn s (fuel + 1) path v = .ok j) :
    ∃ ref j', v = .table ref ∧ ofValueOn s fuel (ref :: path) w = .ok j' := by
  obtain ⟨ref, rfl, present, read⟩ := contains
  obtain ⟨t, holds⟩ := heap.holds ref
  obtain ⟨-, each, -⟩ := ofValueOn_table_ok_iff.1 ⟨j, done⟩
  obtain ⟨j', converted⟩ := each w ((holds.mem_visited present).2 read)
  exact ⟨ref, j', rfl, converted⟩

theorem reached_of_ok (heap : Heap s) (done : ofValueOn s fuel path v = .ok j)
    (reached : ReflTransGen (Contains s) v w) :
    Admissible s w ∧ (∀ ref, w = .table ref → ref ∉ path) ∧ ¬TransGen (Contains s) w w := by
  induction fuel generalizing path v j with
  | zero => contradiction
  | succ fuel ih =>
      rcases reached.cases_head with rfl | ⟨c, contains, below⟩
      · refine ⟨.of_ok heap done, ?_, fun cycle => ?_⟩
        · rintro ref rfl
          exact (ofValueOn_table_ok_iff.1 ⟨j, done⟩).1
        · obtain ⟨c, contains, back⟩ := TransGen.head'_iff.1 cycle
          obtain ⟨ref, j', rfl, converted⟩ := ofValueOn_contains heap contains done
          exact (ih converted back).2.1 ref rfl (.head _)
      · obtain ⟨ref, j', rfl, converted⟩ := ofValueOn_contains heap contains done
        obtain ⟨admissible, off, acyclic⟩ := ih converted below
        exact ⟨admissible, fun r table member => off r table (.tail _ member), acyclic⟩

theorem Convertible.of_ok (heap : Heap s) (done : ofValueOn s fuel path v = .ok j) :
    Convertible s v where
  admissible _ reached := (reached_of_ok heap done reached).1
  acyclic _ reached := (reached_of_ok heap done reached).2.2

theorem Convertible.contained (convertible : Convertible s v) (contains : Contains s v w) :
    Convertible s w where
  admissible _ reached := convertible.admissible _ (.head contains reached)
  acyclic _ reached := convertible.acyclic _ (.head contains reached)

/-- The induction is on the fuel, which lasts because each table goes on the path only once. That no
table of the path is reached again is what the values below a table inherit from it. -/
theorem Convertible.ok (heap : Heap s) (convertible : Convertible s v)
    (fresh : ∀ ref ∈ path, ¬ReflTransGen (Contains s) v (.table ref))
    (enough : offPath s path + 2 ≤ fuel) : ∃ j, ofValueOn s fuel path v = .ok j := by
  induction fuel generalizing path v with
  | zero => omega
  | succ fuel ih =>
      have own := convertible.admissible v .refl
      cases v with
      | nil => exact ⟨.null, rfl⟩
      | boolean b => exact ⟨.boolean b, rfl⟩
      | string text => exact ⟨.string text, rfl⟩
      | number n => exact ofNumber_ok_iff.2 (own.finite n rfl)
      | closure | native => exact absurd own.noFunction (by simp [Value.isFunction])
      | thread => exact absurd own.noThread (by simp [Value.isThread])
      | table ref =>
          obtain ⟨t, holds⟩ := heap.holds ref
          have off : ref ∉ path := fun member => fresh ref member .refl
          refine ofValueOn_table_ok_iff.2 ⟨off, fun w member => ?_, ?_⟩
          · by_cases present : w = .nil
            · obtain ⟨fuel, rfl⟩ : ∃ more, fuel = more + 1 := ⟨fuel - 1, by omega⟩
              exact ⟨.null, by rw [present]; rfl⟩
            have contains : Contains s (.table ref) w :=
              ⟨ref, rfl, present, (holds.mem_visited present).1 member⟩
            have valid : ref < s.tables.size := by
              by_contra outside
              rw [visited_outside outside] at member
              contradiction
            have shorter := offPath_cons valid off
            refine ih (convertible.contained contains) (fun r member reached => ?_) (by omega)
            rcases List.mem_cons.1 member with rfl | member
            · exact convertible.acyclic _ .refl (.head' contains reached)
            · exact fresh r member (.head contains reached)
          · rcases own.keyed ref rfl with counts | names
            · exact .inl (holds.isSequence_iff.2 counts)
            · refine .inr fun e member => names e.1 ?_
              rw [get_live holds.walkable member]
              exact (mem_pairs.1 member).2

end Acceptance

section Termination

variable {s : Store}

/-- The conversion of a value at the end of a path asks for that of another one. -/
def Calls (s : Store) (inner outer : List TableRef × Value) : Prop :=
  ∃ ref, outer.2 = .table ref ∧ ref ∉ outer.1 ∧ inner.1 = ref :: outer.1 ∧
    inner.2 ∈ visited (s.table ref)

theorem offPath_calls {inner outer : List TableRef × Value} (calls : Calls s inner outer) :
    offPath s inner.1 < offPath s outer.1 := by
  obtain ⟨ref, -, off, path, member⟩ := calls
  have valid : ref < s.tables.size := by
    by_contra outside
    rw [visited_outside outside] at member
    contradiction
  have shorter := offPath_cons valid off
  rw [path]
  omega

theorem calls_wellFounded (s : Store) : WellFounded (Calls s) :=
  Subrelation.wf (fun calls => offPath_calls calls) (measure fun c : List TableRef × Value => offPath s c.1).wf

structure Recurses (s : Store) (convert : List TableRef → Value → Except JsonFailure Json) :
    Prop where
  nil : ∀ path, convert path .nil = .ok .null
  boolean : ∀ path b, convert path (.boolean b) = .ok (.boolean b)
  number : ∀ path n, convert path (.number n) = ofNumber n
  string : ∀ path text, convert path (.string text) = .ok (.string text)
  function : ∀ path v, v.isFunction = true → convert path v = .error .function
  thread : ∀ path ref, convert path (.thread ref) = .error .thread
  within : ∀ path ref, ref ∈ path → convert path (.table ref) = .error .cycle
  array : ∀ path ref, ref ∉ path → (s.table ref).isSequence = true →
    convert path (.table ref) = (items (convert (ref :: path)) (s.table ref).sequence).map .array
  object : ∀ path ref, ref ∉ path → (s.table ref).isSequence = false →
    convert path (.table ref) =
      (addMembers (convert (ref :: path)) [] (s.table ref).pairs).map .object

theorem offPath_le (path : List TableRef) : offPath s path ≤ s.tables.size := by
  rw [offPath]
  exact (Finset.card_le_card Finset.sdiff_subset).trans (Finset.card_range _).le

theorem ofValueOn_table_recurses {path : List TableRef} {ref : TableRef} (off : ref ∉ path) :
    ofValueOn s (s.tables.size + 2) path (.table ref) =
      if (s.table ref).isSequence then
        (items (ofValueOn s (s.tables.size + 2) (ref :: path)) (s.table ref).sequence).map .array
      else (addMembers (ofValueOn s (s.tables.size + 2) (ref :: path)) []
        (s.table ref).pairs).map .object := by
  rw [ofValueOn_table off]
  by_cases valid : ref < s.tables.size
  · have shorter := offPath_cons valid off
    have all := offPath_le (s := s) path
    have same : ofValueOn s (s.tables.size + 2) (ref :: path) =
        ofValueOn s (s.tables.size + 1) (ref :: path) := ofValueOn_fuel (by omega)
    rw [same]
  · rw [table_outside valid]
    rfl

theorem recurses (s : Store) : Recurses s (ofValueOn s (s.tables.size + 2)) where
  nil _ := rfl
  boolean _ _ := rfl
  number _ _ := rfl
  string _ _ := rfl
  function path v isFunction := by
    cases v with
    | closure | native => rfl
    | _ => contradiction
  thread _ _ := rfl
  within path ref member := ofValueOn_on member
  array path ref off isSequence := by rw [ofValueOn_table_recurses off, if_pos isSequence]
  object path ref off isObject := by
    rw [ofValueOn_table_recurses off, if_neg (by simp [isObject])]

end Termination

/-- The conversion ends on every heap, since its calls go down a well-founded relation and none of
them runs out of fuel. It succeeds for the values from which nothing without a form is reached and
no table within itself, and for no others. -/
theorem ofValue_accepts {s : Store} (heap : Heap s) (v : Value) :
    WellFounded (Calls s) ∧ Recurses s (ofValueOn s (s.tables.size + 2)) ∧
      ((∃ j, ofValue s v = .ok j) ↔ Convertible s v) := by
  refine ⟨calls_wellFounded s, recurses s, ?_, fun convertible => ?_⟩
  · exact fun ⟨j, done⟩ => .of_ok heap done
  · exact convertible.ok heap (by simp) (Nat.add_le_add_right (offPath_le []) 2)

def looped : Table := ⟨#[], #[(.string "self", .table 0)], none⟩

def paired : Table := ⟨#[], #[(.string "left", .table 1), (.string "right", .table 1)], none⟩

def sharing : Store := { Store.empty with tables := #[looped, .empty, paired] }

theorem heap_sharing : Heap sharing := by
  have self : Table.empty.edit (.setString "self" (.table 0)) = looped :=
    setString_fresh (t := .empty) (by simp [Table.empty]) rfl
  have left : Table.empty.edit (.setString "left" (.table 1)) =
      ⟨#[], #[(.string "left", .table 1)], none⟩ := setString_fresh (t := .empty) (by simp [Table.empty]) rfl
  have right : Table.edit ⟨#[], #[(.string "left", .table 1)], none⟩
      (.setString "right" (.table 1)) = paired :=
    setString_fresh (t := ⟨#[], #[(.string "left", .table 1)], none⟩) (by simp [Value.same]) rfl
  have builtLooped : Table.Built looped := self ▸ .edit _ .empty (by rw [self]; decide)
  have builtPaired : Table.Built paired :=
    right ▸ .edit _ (left ▸ .edit _ .empty (by rw [left]; decide)) (by rw [right]; decide)
  intro ref valid
  obtain rfl | rfl | rfl : ref = 0 ∨ ref = 1 ∨ ref = 2 := by
    have : ref < 3 := valid
    omega
  · exact ⟨_, builtLooped, none, rfl⟩
  · exact ⟨_, .empty, none, rfl⟩
  · exact ⟨_, builtPaired, none, rfl⟩

/-- What is reached twice is no obstacle, but what is reached from itself is. -/
theorem ofValue_accepts_sharing :
    Heap sharing ∧ Convertible sharing (.table 2) ∧ ¬∃ j, ofValue sharing (.table 0) = .ok j := by
  have done : ofValue sharing (.table 2) =
      .ok (.object [("left", .array []), ("right", .array [])]) := by
    cbv
  refine ⟨heap_sharing, (ofValue_accepts heap_sharing _).2.2.1 ⟨_, done⟩, fun accepted => ?_⟩
  have convertible := (ofValue_accepts heap_sharing _).2.2.1 accepted
  have within : Contains sharing (.table 0) (.table 0) :=
    ⟨0, rfl, by simp, .string "self", by cbv⟩
  exact convertible.acyclic _ .refl (.single within)

end RegisterVm.Json
