import Mathlib.Data.Finset.Card
import Mathlib.Data.Finset.Basic
import RegisterVm.Proofs.Json.RoundTrip

/-!
Tables that become arrays. A table whose live keys are 1 to n has all of them in its row, and nothing
continues the row. The array is as long as the row, so that it begins with what was at the keys and
goes on with a null for each hole that the row ends in. That a value is reached through the table
makes no difference to a value that has a JSON form of its own.
-/

namespace RegisterVm

namespace Json

section Converting

variable {convert convert' : Value → Except JsonFailure Json} {values : List Value}
  {js : List Json}

theorem items_each (done : items convert values = .ok js) :
    List.Forall₂ (fun j v => convert v = .ok j) js values := by
  induction values generalizing js with
  | nil =>
      obtain rfl : [] = js := Except.ok.inj done
      exact .nil
  | cons value rest ih =>
      simp only [items] at done
      cases first : convert value with
      | error e =>
          rw [first] at done
          contradiction
      | ok j =>
          cases others : items convert rest with
          | error e =>
              rw [first, others] at done
              contradiction
          | ok tail =>
              rw [first, others] at done
              obtain rfl : j :: tail = js := Except.ok.inj done
              exact .cons first (ih others)

theorem items_member (done : items convert values = .ok js) {v : Value} (member : v ∈ values) :
    ∃ j, convert v = .ok j := by
  obtain ⟨i, bound, rfl⟩ := List.mem_iff_getElem.1 member
  obtain ⟨length, each⟩ := List.forall₂_iff_get.1 (items_each done)
  exact ⟨_, each i (by omega) bound⟩

theorem items_mono (weaker : ∀ v j, convert v = .ok j → convert' v = .ok j)
    (done : items convert values = .ok js) : items convert' values = .ok js :=
  items_ok ((items_each done).imp fun j v => weaker v j)

theorem items_total (each : ∀ v ∈ values, ∃ j, convert v = .ok j) :
    ∃ js, items convert values = .ok js := by
  induction values with
  | nil => exact ⟨[], rfl⟩
  | cons value rest ih =>
      obtain ⟨j, first⟩ := each value (.head _)
      obtain ⟨js, others⟩ := ih fun v member => each v (.tail _ member)
      exact ⟨j :: js, items_ok (.cons first (items_each others))⟩

theorem addMembers_mono (weaker : ∀ v j, convert v = .ok j → convert' v = .ok j)
    {pairs : List (Value × Value)} {members done : List (String × Json)}
    (added : addMembers convert members pairs = .ok done) :
    addMembers convert' members pairs = .ok done := by
  induction pairs generalizing members with
  | nil => exact added
  | cons e rest ih =>
      obtain ⟨key, value⟩ := e
      simp only [addMembers] at added ⊢
      cases named : memberName key with
      | error e =>
          rw [named] at added
          contradiction
      | ok name =>
          cases first : convert value with
          | error e =>
              rw [named, first] at added
              contradiction
          | ok j =>
              rw [named, first] at added
              rw [weaker value j first]
              exact ih added

end Converting

section Paths

variable {s : Store} {fuel fuel' : Nat} {path path' : List TableRef} {ref inner : TableRef}
  {v : Value} {j : Json}

theorem ofValueOn_table_mono (fresh : ref ∉ path) (fresh' : ref ∉ path')
    (weaker : ∀ v j, ofValueOn s fuel (ref :: path) v = .ok j →
      ofValueOn s fuel' (ref :: path') v = .ok j)
    (done : ofValueOn s (fuel + 1) path (.table ref) = .ok j) :
    ofValueOn s (fuel' + 1) path' (.table ref) = .ok j := by
  rw [ofValueOn_table fresh] at done
  rw [ofValueOn_table fresh']
  split at done
  · rw [if_pos ‹_›]
    cases converted : items (ofValueOn s fuel (ref :: path)) (s.table ref).sequence with
    | error e =>
        rw [converted] at done
        contradiction
    | ok js =>
        rw [converted] at done
        rw [items_mono weaker converted]
        exact done
  · rw [if_neg ‹_›]
    cases converted : addMembers (ofValueOn s fuel (ref :: path)) [] (s.table ref).pairs with
    | error e =>
        rw [converted] at done
        contradiction
    | ok members =>
        rw [converted] at done
        rw [addMembers_mono weaker converted]
        exact done

theorem ofValueOn_on (member : ref ∈ path) :
    ofValueOn s fuel path (.table ref) = .error .cycle := by
  cases fuel with
  | zero => rfl
  | succ fuel => rw [ofValueOn, if_pos (by simpa using member)]

def offPath (s : Store) (path : List TableRef) : Nat :=
  (Finset.range s.tables.size \ path.toFinset).card

theorem offPath_cons (valid : ref < s.tables.size) (fresh : ref ∉ path) :
    offPath s (ref :: path) + 1 = offPath s path := by
  rw [offPath, List.toFinset_cons, Finset.sdiff_insert]
  exact Finset.card_erase_add_one (by simp [valid, fresh])

theorem ofValueOn_fuel (enough : offPath s path + 2 ≤ fuel) :
    ofValueOn s (fuel + 1) path = ofValueOn s fuel path := by
  induction fuel generalizing path with
  | zero => omega
  | succ fuel ih =>
      funext v
      cases v with
      | table ref =>
          by_cases member : ref ∈ path
          · rw [ofValueOn_on member, ofValueOn_on member]
          · rw [ofValueOn_table member, ofValueOn_table member]
            by_cases valid : ref < s.tables.size
            · have shorter := offPath_cons valid member
              rw [ih (by omega)]
            · have none : s.table ref = .empty := by
                simp [Store.table, Array.getD, valid]
              rw [none]
              rfl
      | _ => rfl

/-- A value on the path of which no conversion of the table succeeds does not lead to the table,
which may as well be on the path. -/
theorem ofValueOn_path
    (blocked : ∀ fuel path j, inner ∈ ref :: path → ofValueOn s fuel path (.table ref) ≠ .ok j)
    (on : inner ∈ path) (within : ∀ r ∈ path', r = ref ∨ r ∈ path)
    (done : ofValueOn s fuel path v = .ok j) : ofValueOn s fuel path' v = .ok j := by
  induction fuel generalizing path path' v j with
  | zero => contradiction
  | succ fuel ih =>
      cases v with
      | table r =>
          have fresh : r ∉ path := by
            intro member
            rw [ofValueOn_on member] at done
            contradiction
          have other : r ≠ ref := by
            rintro rfl
            exact blocked _ _ _ (.tail _ on) done
          have fresh' : r ∉ path' := by
            intro member
            rcases within r member with same | member
            · exact other same
            · exact fresh member
          refine ofValueOn_table_mono fresh fresh' (fun v j converts => ?_) done
          refine ih (.tail _ on) ?_ converts
          intro r' member
          rcases List.mem_cons.1 member with rfl | member
          · exact .inr (.head _)
          · exact (within r' member).imp id (.tail _)
      | _ => exact done

/-- What a table holds has the same form within the table as on its own. -/
theorem ofValueOn_item (valid : ref < s.tables.size) (isSequence : (s.table ref).isSequence = true)
    (member : v ∈ (s.table ref).sequence) (done : ofValue s v = .ok j) :
    ofValueOn s (s.tables.size + 1) [ref] v = .ok j := by
  have enough : offPath s [ref] + 2 ≤ s.tables.size + 1 := by
    have one : offPath s [ref] + 1 = offPath s [] := offPath_cons valid (by simp)
    have all : offPath s [] = s.tables.size := by simp [offPath]
    omega
  rw [← ofValueOn_fuel enough]
  cases v with
  | table inner =>
      have blocked (fuel : Nat) (path : List TableRef) (j : Json) (on : inner ∈ ref :: path) :
          ofValueOn s fuel path (.table ref) ≠ .ok j := by
        intro done
        cases fuel with
        | zero => contradiction
        | succ fuel =>
            have fresh : ref ∉ path := by
              intro member
              rw [ofValueOn_on member] at done
              contradiction
            rw [ofValueOn_table fresh, if_pos isSequence] at done
            cases converted : items (ofValueOn s fuel (ref :: path)) (s.table ref).sequence with
            | error e =>
                rw [converted] at done
                contradiction
            | ok js =>
                obtain ⟨_, converts⟩ := items_member converted member
                rw [ofValueOn_on on] at converts
                contradiction
      have other : inner ≠ ref := by
        rintro rfl
        exact blocked _ [] _ (.head _) done
      refine ofValueOn_table_mono (by simp) (by simpa using other) (fun v j converts => ?_) done
      exact ofValueOn_path blocked (.head _) (by simp [or_comm]) converts
  | _ => exact done

end Paths

section Shape

variable {t : Table} {n : Nat}

def Counts (t : Table) (n : Nat) : Prop :=
  ∀ k, k ∈ t.pairs.map Prod.fst ↔ ∃ i : Nat, 1 ≤ i ∧ i ≤ n ∧ k = .integer i

theorem mem_pairs {e : Value × Value} : e ∈ t.pairs ↔ e ∈ t.slots ∧ e.2 ≠ .nil := by
  have pairs : t.pairs = t.slots.filter Table.live := by
    rw [Table.slots, List.filter_append]
    rfl
  rw [pairs, List.mem_filter, Table.live_iff]

theorem mem_row {e : Value × Value} {i : Nat} (found : t.row[i]? = some e) :
    ∃ bound : i < t.items.size, e = (.integer (i + 1 : Nat), t.items[i]) := by
  rw [Table.getElem?_row, Option.map_eq_some_iff] at found
  obtain ⟨v, item, rfl⟩ := found
  obtain ⟨bound, rfl⟩ := Array.getElem?_eq_some_iff.1 item
  exact ⟨bound, rfl⟩

theorem mem_slots_item {i : Nat} (bound : i < t.items.size) :
    (.integer (i + 1 : Nat), t.items[i]) ∈ t.slots := by
  refine List.mem_append_left _ (List.mem_iff_getElem?.2 ⟨i, ?_⟩)
  rw [Table.getElem?_row, Array.getElem?_eq_getElem bound]
  rfl

theorem get_pair (built : Table.Built t) {e : Value × Value} (member : e ∈ t.slots) {i : Nat}
    (key : e.1 = .integer i) : t.get (.integer i) = e.2 := by
  obtain ⟨room, sound⟩ := built.sound
  refine Table.Walkable.get_slot ⟨room, sound⟩ member ?_
  rw [key]
  exact Table.same_self (Table.keyError_integer i)

theorem get_item (built : Table.Built t) {i : Nat} (bound : i < t.items.size) :
    t.get (.integer (i + 1 : Nat)) = t.items[i] :=
  get_pair built (mem_slots_item bound) rfl

theorem Counts.counted (counts : Counts t n) {e : Value × Value} (slot : e ∈ t.slots)
    (live : e.2 ≠ .nil) : ∃ i : Nat, 1 ≤ i ∧ i ≤ n ∧ e.1 = .integer i :=
  (counts e.1).1 (List.mem_map_of_mem (mem_pairs.2 ⟨slot, live⟩))

variable (counts : Counts t n) (built : Table.Built t)

include counts built

theorem Counts.present {i : Nat} (positive : 1 ≤ i) (bound : i ≤ n) :
    t.get (.integer i) ≠ .nil := by
  obtain ⟨e, member, key⟩ := List.mem_map.1 ((counts (.integer i)).2 ⟨i, positive, bound, rfl⟩)
  obtain ⟨slot, live⟩ := mem_pairs.1 member
  rwa [get_pair built slot key]

theorem Counts.inside : n ≤ t.length :=
  (Table.built_finiteMap built).filled n fun _ positive bound =>
    counts.present built positive bound

theorem Counts.hole {i : Nat} (bound : i < t.items.size) (beyond : n ≤ i) :
    t.items[i] = .nil := by
  by_contra live
  obtain ⟨j, positive, inside, key⟩ := counts.counted (mem_slots_item bound) live
  have room := built.sound.1
  have within := counts.inside built
  simp only [Table.length] at room within
  have positions := congrArg Value.position? key
  rw [Value.position_integer (by omega) (by omega),
    Value.position_integer positive (by omega), Option.some.injEq] at positions
  omega

theorem Counts.entry {e : Entry} (member : e ∈ t.entries) : e.2 = .nil := by
  by_contra live
  obtain ⟨i, positive, bound, key⟩ :=
    counts.counted (List.mem_append_right _ member.val) live
  have inside := counts.inside built
  have apart := (Table.built_finiteMap built).noRowKey e member i positive (by omega)
  rw [key, Table.same_self (Table.keyError_integer i)] at apart
  contradiction

theorem Counts.pairs_eq : t.pairs = t.row.take n := by
  have entries : t.entries.toList.filter Table.live = [] := by
    refine List.filter_eq_nil_iff.2 fun e member => ?_
    simp [(Table.dead_iff e).2 (counts.entry built ⟨member⟩)]
  have before : (t.row.take n).filter Table.live = t.row.take n := by
    refine List.filter_eq_self.2 fun e member => ?_
    obtain ⟨i, found⟩ := List.mem_iff_getElem?.1 member
    rw [List.getElem?_take] at found
    split at found
    · obtain ⟨bound, rfl⟩ := mem_row found
      rw [Table.live_iff, ← get_item built bound]
      exact counts.present built (by omega) (by omega)
    · contradiction
  have after : (t.row.drop n).filter Table.live = [] := by
    refine List.filter_eq_nil_iff.2 fun e member => ?_
    obtain ⟨i, found⟩ := List.mem_iff_getElem?.1 member
    rw [List.getElem?_drop] at found
    obtain ⟨bound, rfl⟩ := mem_row found
    simp [Table.live, counts.hole built bound (Nat.le_add_right n i), Value.isNil]
  calc t.pairs
    _ = (t.row.take n ++ t.row.drop n).filter Table.live ++
        t.entries.toList.filter Table.live := by rw [List.take_append_drop]; rfl
    _ = t.row.take n := by rw [List.filter_append, before, after, entries]; simp

end Shape

theorem sequence_eq {t : Table} (next : t.getInteger (t.items.size + 1 : Nat) = .nil) :
    t.sequence = t.items.toList := by
  have none (fuel : Nat) : t.valuesFrom fuel (t.items.size + 1) = [] := by
    cases fuel with
    | zero => rfl
    | succ fuel =>
        rw [Table.valuesFrom, next]
        rfl
  rw [Table.sequence, none, List.append_nil]

theorem getInteger_next {t : Table} (built : Table.Built t) :
    t.getInteger (t.items.size + 1 : Nat) = .nil := by
  have map := Table.built_finiteMap built
  have room := built.sound.1
  rw [map.integerRead _ (by omega) (by simp only [Table.length] at room; omega)]
  exact map.afterRow

theorem isSequence_counts {t : Table} {n : Nat} (counts : Counts t n) (built : Table.Built t) :
    t.isSequence = true := by
  have inside := counts.inside built
  have room := built.sound.1
  exact isSequence_row (counts.pairs_eq built) inside (by omega)

structure Holds (s : Store) (ref : TableRef) (t : Table) : Prop where
  built : Table.Built t
  held : ∃ metatable, s.table ref = t.withMetatable metatable

namespace Holds

variable {s : Store} {ref : TableRef} {t : Table} {n : Nat}

theorem sequence (holds : Holds s ref t) : (s.table ref).sequence = t.items.toList := by
  obtain ⟨metatable, held⟩ := holds.held
  have next := getInteger_next holds.built
  rw [held]
  exact sequence_eq next

theorem isSequence (holds : Holds s ref t) (counts : Counts t n) :
    (s.table ref).isSequence = true := by
  obtain ⟨metatable, held⟩ := holds.held
  have known := isSequence_counts counts holds.built
  rw [held]
  exact known

theorem valid (holds : Holds s ref t) {i : Nat} (bound : i < t.items.size) :
    ref < s.tables.size := by
  obtain ⟨metatable, held⟩ := holds.held
  by_contra invalid
  have none : s.table ref = .empty := by
    simp [Store.table, Array.getD, invalid]
  have items : t.items = #[] := congrArg Table.items (held.symm.trans none)
  simp [items] at bound

theorem converts (holds : Holds s ref t) (counts : Counts t n) {i : Nat}
    (bound : i < t.items.size) {j : Json}
    (done : ofValue s (t.get (.integer (i + 1 : Nat))) = .ok j) :
    ofValueOn s (s.tables.size + 1) [ref] t.items[i] = .ok j := by
  rw [get_item holds.built bound] at done
  exact ofValueOn_item (holds.valid bound) (holds.isSequence counts) (by simp [holds.sequence]) done

theorem converts_hole (holds : Holds s ref t) (counts : Counts t n) {i : Nat}
    (bound : i < t.items.size) (beyond : n ≤ i) :
    ofValueOn s (s.tables.size + 1) [ref] t.items[i] = .ok .null := by
  rw [counts.hole holds.built bound beyond]
  rfl

end Holds

/-- A table whose live keys are 1 to n, whatever was done to it, becomes an array as long as its
row, if every value has a JSON form. The array begins with the forms of the values at 1 to n, in this
order, and has a null for each hole that the row ends in. -/
theorem ofValue_sequence {s : Store} {ref : TableRef} {t : Table} (holds : Holds s ref t) {n : Nat}
    (counts : Counts t n)
    (each : ∀ i : Nat, i < n → ∃ j, ofValue s (t.get (.integer (i + 1 : Nat))) = .ok j) :
    ∃ js, ofValue s (.table ref) = .ok (.array js) ∧ n ≤ t.length ∧ js.length = t.length ∧
      ∀ (i : Nat) (bound : i < js.length),
        if i < n then ofValue s (t.get (.integer (i + 1 : Nat))) = .ok js[i] else js[i] = .null := by
  have converts (i : Nat) (bound : i < t.items.size) :
      ∃ j, ofValueOn s (s.tables.size + 1) [ref] t.items[i] = .ok j := by
    by_cases low : i < n
    · obtain ⟨j, done⟩ := each i low
      exact ⟨j, holds.converts counts bound done⟩
    · exact ⟨.null, holds.converts_hole counts bound (by omega)⟩
  obtain ⟨js, done⟩ :
      ∃ js, items (ofValueOn s (s.tables.size + 1) [ref]) t.items.toList = .ok js := by
    refine items_total fun v member => ?_
    obtain ⟨i, bound, rfl⟩ := List.mem_iff_getElem.1 member
    exact converts i bound
  obtain ⟨length, forms⟩ := List.forall₂_iff_get.1 (items_each done)
  refine ⟨js, ?_, counts.inside holds.built, length, fun i bound => ?_⟩
  · rw [ofValue, ofValueOn_table (by simp), if_pos (holds.isSequence counts), holds.sequence, done]
    rfl
  · have inside : i < t.items.size := by simpa [length] using bound
    have form : ofValueOn s (s.tables.size + 1) [ref] t.items[i] = .ok js[i] :=
      forms i bound (by simpa using inside)
    split
    · rename_i low
      obtain ⟨j, own⟩ := each i low
      rw [holds.converts counts inside own] at form
      rw [own, form]
    · rw [holds.converts_hole counts inside (by omega)] at form
      exact (Except.ok.inj form).symm

def shortened : Table :=
  ((Table.empty.edit (.setInteger 1 (.string "a"))).edit (.setInteger 2 (.string "b"))).edit
    (.setInteger 2 .nil)

theorem shortened_eq : shortened = ⟨#[.string "a", .nil], #[], none⟩ := by
  have first : Table.empty.edit (.setInteger 1 (.string "a")) = ⟨#[.string "a"], #[], none⟩ :=
    Table.setInteger_next rfl (by decide) rfl
  have second : Table.edit ⟨#[.string "a"], #[], none⟩ (.setInteger 2 (.string "b")) =
      ⟨#[.string "a", .string "b"], #[], none⟩ :=
    Table.setInteger_next rfl (by decide) rfl
  have named : (Value.integer 2).position? = some 2 :=
    Value.position_integer (by decide : 0 < 2) (by decide)
  rw [shortened, first, second]
  simp [Table.edit, Table.setInteger, Table.assign, named]

def shortenedStore : Store := (Store.empty.newTable shortened).2

theorem ofValue_sequence_shortened :
    Counts shortened 1 ∧ ofValue shortenedStore (.table 0) = .ok (.array [.string "a", .null]) := by
  have built : Table.Built shortened :=
    .edit _ (.edit _ (.edit _ .empty (by decide +kernel)) (by decide +kernel)) (by decide +kernel)
  have counts : Counts shortened 1 := by
    have pairs : shortened.pairs = [(.integer 1, .string "a")] := by
      rw [shortened_eq]
      rfl
    intro k
    rw [pairs]
    simp only [List.map_cons, List.map_nil, List.mem_singleton]
    constructor
    · rintro rfl
      exact ⟨1, Nat.le_refl _, Nat.le_refl _, rfl⟩
    · rintro ⟨i, positive, bound, rfl⟩
      obtain rfl : i = 1 := by omega
      rfl
  have held : shortenedStore.table 0 = shortened.withMetatable none := by
    rw [shortenedStore, shortened_eq]
    exact Store.table_newTable _ _
  have holds : Holds shortenedStore 0 shortened := ⟨built, none, held⟩
  have first : shortened.get (.integer (0 + 1 : Nat)) = .string "a" := by
    rw [get_item built (by simp [shortened_eq])]
    simp [shortened_eq]
  have length : shortened.length = 2 := by rw [shortened_eq]; rfl
  obtain ⟨js, done, -, same, each⟩ := ofValue_sequence holds counts fun i low => by
    obtain rfl : i = 0 := by omega
    rw [first]
    exact ⟨.string "a", rfl⟩
  refine ⟨counts, ?_⟩
  obtain ⟨j, j', rfl⟩ : ∃ j j', js = [j, j'] := List.length_eq_two.1 (same.trans length)
  have head := each 0 (by simp)
  have last := each 1 (by simp)
  rw [if_pos (by decide), first] at head
  rw [if_neg (by decide)] at last
  obtain rfl : .string "a" = j := Except.ok.inj head
  obtain rfl : j' = .null := last
  exact done

end Json

end RegisterVm
