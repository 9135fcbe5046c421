import RegisterVm.Json.Bridge
import RegisterVm.Proofs.Number.Integers
import RegisterVm.Proofs.Table.Walking

/-!
JSON values on their way through a store. The table built for an array holds nothing but its row,
the table built for an object nothing but entries with strings as keys, and what is built is never
touched again. So reading the value back gives the JSON value.
-/

namespace RegisterVm

structure Store.Preserves (s s' : Store) : Prop where
  grown : s.tables.size ≤ s'.tables.size
  same : ∀ ref, ref < s.tables.size → s'.table ref = s.table ref

namespace Store.Preserves

theorem refl (s : Store) : s.Preserves s := ⟨Nat.le_refl _, fun _ _ => rfl⟩

theorem trans {a b c : Store} (first : a.Preserves b) (second : b.Preserves c) : a.Preserves c where
  grown := Nat.le_trans first.grown second.grown
  same ref bound := (second.same ref (Nat.lt_of_lt_of_le bound first.grown)).trans
    (first.same ref bound)

theorem newTable (s : Store) (t : Table) : s.Preserves (s.newTable t).2 where
  grown := by simp [Store.newTable]
  same ref bound := by
    simp only [Store.table, Store.newTable, Array.getD_eq_getD_getElem?, Array.getElem?_push]
    rw [if_neg (Nat.ne_of_lt bound)]

end Store.Preserves

theorem Store.table_newTable (s : Store) (t : Table) :
    (s.newTable t).2.table s.tables.size = t := by
  simp [Store.table, Store.newTable]

namespace Json

/-- JSON values that tables can hold. Nil stands for null and is not kept in a table, an empty
table is taken for an array, and doubles hold no integers above 2^53. No memory holds a longer
array either. -/
inductive Kept : Json → Prop where
  | null : Kept .null
  | boolean (b : Bool) : Kept (.boolean b)
  | integer {i : Int} (bound : i.natAbs ≤ 2 ^ 53) : Kept (.number (.integer i))
  | float {n : Float} (fractional : Number.Fractional n) : Kept (.number (.float n))
  | string (s : String) : Kept (.string s)
  | array {items : List Json} (room : items.length ≤ 2 ^ 53) (noNull : ∀ j ∈ items, j ≠ .null)
      (each : ∀ j ∈ items, Kept j) : Kept (.array items)
  | object {members : List (String × Json)} (inhabited : members ≠ [])
      (ascending : members.Pairwise fun a b => a.1 < b.1) (noNull : ∀ m ∈ members, m.2 ≠ .null)
      (each : ∀ m ∈ members, Kept m.2) : Kept (.object members)

/-- The value reads as a JSON value, whatever is added to the store, when it is reached through
tables that were made later. -/
def Reads (s : Store) (v : Value) (j : Json) : Prop :=
  ∀ s', s.Preserves s' → ∀ path : List TableRef, (∀ ref ∈ path, s.tables.size ≤ ref) →
    ∀ fuel, s.tables.size < fuel → ofValueOn s' fuel path v = .ok j

theorem Reads.later {s s' : Store} {v : Value} {j : Json} (reads : Reads s v j)
    (preserves : s.Preserves s') : Reads s' v j := by
  intro s'' kept path above fuel enough
  refine reads s'' (preserves.trans kept) path ?_ fuel (Nat.lt_of_le_of_lt preserves.grown enough)
  exact fun ref member => Nat.le_trans preserves.grown (above ref member)

structure Built (s : Store) (j : Json) (v : Value) (s' : Store) : Prop where
  preserves : s.Preserves s'
  reads : Reads s' v j
  present : j ≠ .null → v.isNil = false

theorem Built.scalar {s : Store} {v : Value} {j : Json} (present : j ≠ .null → v.isNil = false)
    (reads : ∀ s' fuel path, ofValueOn s' (fuel + 1) path v = .ok j) : Built s j v s where
  preserves := .refl s
  reads s' _ path _ fuel enough := by
    obtain ⟨fuel, rfl⟩ := Nat.exists_eq_succ_of_ne_zero (Nat.ne_zero_of_lt enough)
    exact reads s' fuel path
  present := present

section Items

theorem fillItems_built {items : List Json}
    (each : ∀ j ∈ items, j ≠ .null ∧ ∀ s, Built s j (toValue s j).1 (toValue s j).2) (s : Store)
    {t : Table} (noEntries : t.entries = #[]) (room : t.items.size + items.length ≤ 2 ^ 53) :
    s.Preserves (fillItems s t (t.items.size + 1 : Nat) items).2 ∧
    ∃ values : List Value,
      (fillItems s t (t.items.size + 1 : Nat) items).1 =
        { t with items := t.items ++ values.toArray } ∧
      (∀ v ∈ values, v.isNil = false) ∧
      List.Forall₂ (fun j v => Reads (fillItems s t (t.items.size + 1 : Nat) items).2 v j)
        items values := by
  induction items generalizing s t with
  | nil => exact ⟨.refl s, [], by simp [fillItems], nofun, .nil⟩
  | cons j rest ih =>
      obtain ⟨noNull, built⟩ := each j (.head _)
      obtain ⟨preserves, reads, present⟩ := built s
      simp only [List.length_cons] at room
      rw [fillItems]
      generalize toValue s j = made at preserves reads present
      obtain ⟨value, s₁⟩ := made
      have next := Table.setInteger_next noEntries (by omega) (present noNull)
      obtain ⟨kept, values, table, others, forall₂⟩ :=
        ih (fun j member => each j (.tail _ member)) s₁
          (t := { t with items := t.items.push value }) noEntries
          (by simp only [Array.size_push]; omega)
      have index : ((t.items.size + 1 : Nat) : Int) + 1 = ((t.items.push value).size + 1 : Nat) := by
        simp
      simp only [next, index]
      refine ⟨preserves.trans kept, value :: values, ?_, ?_, .cons (reads.later kept) forall₂⟩
      · rw [table]
        simp
      · exact List.forall_mem_cons.2 ⟨present noNull, others⟩

theorem items_ok {convert : Value → Except JsonFailure Json} {js : List Json} {values : List Value}
    (each : List.Forall₂ (fun j v => convert v = .ok j) js values) :
    items convert values = .ok js := by
  induction each with
  | nil => rfl
  | cons first rest ih => simp only [items, first, ih]; rfl

end Items

section Members

theorem setString_fresh {t : Table} {name : String} {value : Value}
    (fresh : ∀ e ∈ t.entries, e.1.same (.string name) = false) (present : value.isNil = false) :
    t.setString name value = { t with entries := t.entries.push (.string name, value) } := by
  have missing : Table.findEntry? t.entries (.string name) = none := by
    rw [Table.findEntry?, Array.findIdx?_eq_none_iff]
    exact fresh
  have entry : t.setString name value = t.setEntry (.string name) value := rfl
  simp [entry, Table.setEntry, missing, present]

theorem fillMembers_built {members : List (String × Json)}
    (each : ∀ m ∈ members, m.2 ≠ .null ∧ ∀ s, Built s m.2 (toValue s m.2).1 (toValue s m.2).2)
    (ascending : members.Pairwise fun a b => a.1 < b.1) (s : Store) {t : Table}
    (fresh : ∀ e ∈ t.entries, ∀ m ∈ members, e.1.same (.string m.1) = false) :
    s.Preserves (fillMembers s t members).2 ∧
    ∃ entries : List Entry,
      (fillMembers s t members).1 = { t with entries := t.entries ++ entries.toArray } ∧
      (∀ e ∈ entries, e.2.isNil = false) ∧
      List.Forall₂ (fun m e => e.1 = .string m.1 ∧
        Reads (fillMembers s t members).2 e.2 m.2) members entries := by
  induction members generalizing s t with
  | nil => exact ⟨.refl s, [], by simp [fillMembers], nofun, .nil⟩
  | cons m rest ih =>
      obtain ⟨name, j⟩ := m
      obtain ⟨noNull, built⟩ := each _ (.head _)
      obtain ⟨preserves, reads, present⟩ := built s
      obtain ⟨least, ascending⟩ := List.pairwise_cons.1 ascending
      rw [fillMembers]
      simp only at preserves reads present noNull
      generalize toValue s j = made at preserves reads present
      obtain ⟨value, s₁⟩ := made
      have next := setString_fresh (fun e member => fresh e member _ (.head _)) (present noNull)
      have fresh' : ∀ e ∈ t.entries.push (.string name, value), ∀ m ∈ rest,
          e.1.same (.string m.1) = false := by
        intro e member m later
        rcases Array.mem_push.1 member with old | rfl
        · exact fresh e old m (.tail _ later)
        · simpa [Value.same] using (least m later).ne
      obtain ⟨kept, entries, table, others, forall₂⟩ :=
        ih (fun m member => each m (.tail _ member)) ascending s₁
          (t := { t with entries := t.entries.push (.string name, value) }) fresh'
      simp only [next]
      refine ⟨preserves.trans kept, (.string name, value) :: entries, ?_, ?_,
        .cons ⟨rfl, reads.later kept⟩ forall₂⟩
      · rw [table]
        simp
      · exact List.forall_mem_cons.2 ⟨present noNull, others⟩

theorem insertMember_last {members : List (String × Json)} {name : String} (value : Json)
    (less : ∀ m ∈ members, m.1 < name) :
    insertMember name value members = members ++ [(name, value)] := by
  induction members with
  | nil => rfl
  | cons m rest ih =>
      have before := less m (.head _)
      have unequal : (name == m.1) = false := by simpa using before.ne'
      rw [insertMember, unequal, if_neg (by simp), if_neg before.asymm,
        ih fun m member => less m (.tail _ member), List.cons_append]

theorem addMembers_ok {convert : Value → Except JsonFailure Json}
    {members done : List (String × Json)} {pairs : List (Value × Value)}
    (each : List.Forall₂ (fun m e => e.1 = .string m.1 ∧ convert e.2 = .ok m.2) members pairs)
    (ascending : (done ++ members).Pairwise fun a b => a.1 < b.1) :
    addMembers convert done pairs = .ok (done ++ members) := by
  induction each generalizing done with
  | nil => rw [List.append_nil]; rfl
  | @cons m e members pairs first rest ih =>
      obtain ⟨key, value⟩ := e
      obtain ⟨rfl, converts⟩ := first
      have less : ∀ other ∈ done, other.1 < m.1 := fun other member =>
        (List.pairwise_append.1 ascending).2.2 other member m (.head _)
      have step : addMembers convert done ((.string m.1, value) :: pairs) =
          addMembers convert (insertMember m.1 m.2 done) pairs := by
        simp only [addMembers, memberName, converts]
        rfl
      have joined : done ++ [(m.1, m.2)] ++ members = done ++ m :: members := by simp
      rw [step, insertMember_last m.2 less, ih (joined ▸ ascending), joined]

end Members

section Shape

theorem foldl_integers (n : Nat) :
    ((List.range n).map fun i : Nat => some ((i : Int) + 1)).foldl
      (fun high key => max high (key.getD 0)) 0 = (n : Int) := by
  induction n with
  | zero => rfl
  | succ n ih =>
      rw [List.range_succ, List.map_append, List.foldl_append, ih]
      simp

theorem integers_row {t : Table} {n : Nat} (inside : n ≤ t.length) (room : n ≤ 2 ^ 53) :
    (t.row.take n).map (fun e => e.1.asInteger?) =
      (List.range n).map fun i : Nat => some ((i : Int) + 1) := by
  refine List.ext_getElem (by simp [Table.length_row, inside]) fun i left right => ?_
  have bound : i < n := by simpa using right
  have held : (Table.indexKey (i + 1)).asInteger? = some ((i : Int) + 1) :=
    Number.toInteger_ofInteger (i := ((i + 1 : Nat) : Int)) (by omega)
  simp [Table.row, held]

theorem isSequence_row {t : Table} {n : Nat} (pairs : t.pairs = t.row.take n)
    (inside : n ≤ t.length) (room : n ≤ 2 ^ 53) : t.isSequence = true := by
  simp only [Table.isSequence, pairs, integers_row inside room, foldl_integers]
  simp

theorem pairs_row {t : Table} (noEntries : t.entries = #[])
    (present : ∀ v ∈ t.items, v.isNil = false) : t.pairs = t.row.take t.length := by
  rw [Table.pairs, noEntries, ← Table.length_row, List.take_length]
  refine (List.append_nil _).trans (List.filter_eq_self.2 fun e member => ?_)
  obtain ⟨i, bound, rfl⟩ := List.mem_mapIdx.1 member
  simp [present _ (Array.getElem_mem (by simpa using bound))]

theorem sequence_row {t : Table} (noEntries : t.entries = #[]) : t.sequence = t.items.toList := by
  rw [Table.sequence, noEntries]
  exact List.append_nil _

theorem isSequence_named {t : Table} {e : Value × Value} {rest : List (Value × Value)}
    {name : String} (pairs : t.pairs = e :: rest) (key : e.1 = .string name) :
    t.isSequence = false := by
  have noInteger : e.1.asInteger? = none := by rw [key]; rfl
  simp [Table.isSequence, pairs, noInteger]

end Shape

theorem ofValueOn_table {s : Store} {ref : TableRef} {path : List TableRef}
    (fresh : ref ∉ path) (fuel : Nat) :
    ofValueOn s (fuel + 1) path (.table ref) =
      if (s.table ref).isSequence then
        (items (ofValueOn s fuel (ref :: path)) (s.table ref).sequence).map .array
      else (addMembers (ofValueOn s fuel (ref :: path)) [] (s.table ref).pairs).map .object := by
  rw [ofValueOn, if_neg (by simpa using fresh)]

theorem Built.table {s s₁ : Store} {t : Table} {j : Json} (preserves : s.Preserves s₁)
    (reads : ∀ s' fuel path, s₁.Preserves s' → s'.table s₁.tables.size = t →
      (∀ ref ∈ path, s₁.tables.size < ref) → s₁.tables.size < fuel →
      ofValueOn s' (fuel + 1) path (.table s₁.tables.size) = .ok j) :
    Built s j (.table s₁.tables.size) (s₁.newTable t).2 where
  preserves := preserves.trans (.newTable s₁ t)
  reads s' kept path above fuel enough := by
    have size : (s₁.newTable t).2.tables.size = s₁.tables.size + 1 := by simp [Store.newTable]
    rw [size] at above enough
    obtain ⟨fuel, rfl⟩ := Nat.exists_eq_succ_of_ne_zero (Nat.ne_zero_of_lt enough)
    refine reads s' fuel path (.trans (.newTable s₁ t) kept) ?_ above (by omega)
    rw [kept.same _ (by omega), Store.table_newTable]
  present := fun _ => rfl

theorem reached {ref : TableRef} {path : List TableRef} (above : ∀ other ∈ path, ref < other) :
    ∀ other ∈ ref :: path, ref ≤ other := by
  intro other member
  rcases List.mem_cons.1 member with rfl | later
  · exact Nat.le_refl _
  · exact Nat.le_of_lt (above other later)

theorem Kept.built {j : Json} (kept : j.Kept) (s : Store) :
    Built s j (toValue s j).1 (toValue s j).2 := by
  induction kept generalizing s with
  | null => exact .scalar (fun noNull => absurd rfl noNull) fun _ _ _ => rfl
  | boolean b => exact .scalar (fun _ => rfl) fun _ _ _ => rfl
  | string text => exact .scalar (fun _ => rfl) fun _ _ _ => rfl
  | @integer i bound =>
      refine .scalar (fun _ => rfl) fun s' fuel path => ?_
      show ofNumber (Number.ofInteger i) = _
      rw [ofNumber, Number.toInteger_ofInteger bound]
  | @float n fractional =>
      refine .scalar (fun _ => rfl) fun s' fuel path => ?_
      show ofNumber n = _
      obtain ⟨real, finite⟩ := Number.fractional_finite fractional
      rw [ofNumber, Number.toInteger_fractional fractional, real, finite]
      rfl
  | @array js room noNull each ih =>
      obtain ⟨preserves, values, table, present, forall₂⟩ := fillItems_built
        (fun j member => ⟨noNull j member, ih j member⟩) s (t := .empty) rfl
        (by simpa [Table.empty] using room)
      rw [toValue]
      simp only [Table.empty, List.size_toArray, List.length_nil, Nat.zero_add, Nat.cast_one]
        at preserves table forall₂ ⊢
      generalize fillItems s ⟨#[], #[], none⟩ 1 js = filled at preserves table forall₂ ⊢
      obtain ⟨t, s₁⟩ := filled
      simp only at preserves table forall₂ ⊢
      subst table
      refine .table preserves fun s' fuel path kept held above enough => ?_
      rw [ofValueOn_table fun member => Nat.lt_irrefl _ (above _ member), held, if_pos,
        sequence_row rfl, items_ok]
      · rfl
      · refine List.Forall₂.imp ?_ (by simpa using forall₂)
        exact fun j v reads => reads s' kept _ (reached above) fuel enough
      · refine isSequence_row (pairs_row rfl (by simpa using present)) (Nat.le_refl _) ?_
        simpa [Table.length, ← forall₂.length_eq] using room
  | @object members inhabited ascending noNull each ih =>
      obtain ⟨preserves, entries, table, present, forall₂⟩ := fillMembers_built
        (fun m member => ⟨noNull m member, ih m member⟩) ascending s (t := .empty)
        (by simp [Table.empty])
      rw [toValue]
      simp only at preserves table forall₂ ⊢
      generalize fillMembers s .empty members = filled at preserves table forall₂ ⊢
      obtain ⟨t, s₁⟩ := filled
      simp only at preserves table forall₂ ⊢
      subst table
      have pairs : ({ Table.empty with entries := Table.empty.entries ++ entries.toArray } :
          Table).pairs = entries := by
        simpa [Table.pairs, Table.empty] using present
      refine .table preserves fun s' fuel path kept held above enough => ?_
      have added : addMembers (ofValueOn s' fuel (s₁.tables.size :: path)) [] entries =
          .ok ([] ++ members) := by
        refine addMembers_ok (forall₂.imp ?_) ascending
        rintro m e ⟨key, reads⟩
        exact ⟨key, reads s' kept _ (reached above) fuel enough⟩
      rw [ofValueOn_table fun member => Nat.lt_irrefl _ (above _ member), held, pairs, if_neg, added]
      · rfl
      · obtain ⟨m, rest, rfl⟩ := List.exists_cons_of_ne_nil inhabited
        obtain ⟨e, others, ⟨key, -⟩, -, rfl⟩ := List.forall₂_cons_left_iff.1 forall₂
        rw [isSequence_named pairs key]
        exact Bool.false_ne_true

/-- A JSON value survives the way into a store and back. -/
theorem ofValue_toValue {j : Json} (kept : j.Kept) (s : Store) :
    ofValue (toValue s j).2 (toValue s j).1 = .ok j := by
  have built := kept.built s
  exact built.reads _ (.refl _) [] (by simp) _ (by omega)

def nestedJson : Json :=
  .object [("2", .array [.number (.integer (-9007199254740992)), .number (.float 0.5)]),
    ("name", .string "x")]

theorem ofValue_toValue_nested :
    nestedJson.Kept ∧
      ofValue (toValue .empty nestedJson).2 (toValue .empty nestedJson).1 = .ok nestedJson := by
  have half : Number.Fractional 0.5 :=
    ⟨.positive, 2 ^ 52, -53, by decide, rfl, by decide, by decide⟩
  have kept : nestedJson.Kept := by
    refine .object nofun (by decide) (by simp) ?_
    simp only [List.forall_mem_cons]
    refine ⟨.array (by decide) (by simp) ?_, .string "x", nofun⟩
    simp only [List.forall_mem_cons]
    exact ⟨.integer (by decide), .float half, nofun⟩
  exact ⟨kept, ofValue_toValue kept .empty⟩

/-- A text survives as well, whatever the format, if the format writes the JSON value that it reads
from it as the same text. -/
theorem textOfValue_valueOfText {format : Format} {j : Json} {text : String} {indented : Bool}
    (reads : format.read text = .ok j) (writes : format.write indented j = .ok text) (kept : j.Kept)
    (s : Store) : ∃ v s', valueOfText s text format = .ok (v, s') ∧
      textOfValue s' v indented format = .ok text := by
  have built := kept.built s
  have back : ofValue (toValue s j).2 (toValue s j).1 = .ok j :=
    built.reads _ (.refl _) [] (by simp) _ (by omega)
  refine ⟨(toValue s j).1, (toValue s j).2, ?_, ?_⟩
  · rw [valueOfText, reads]
  · rw [textOfValue, back]
    simp only [writes, Except.mapError]

end Json

end RegisterVm
