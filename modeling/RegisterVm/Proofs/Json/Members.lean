import RegisterVm.Proofs.Json.Acceptance

/-!
Tables that become objects. A member is named by the text of its key, strings as they are and numbers
as they are written, so that two keys may have one name: a string and the number that it looks like,
or two numbers that differ only behind the digits that are written. Of such keys the one that the walk
comes to last has the member.
-/

namespace RegisterVm

namespace Number

theorem toString_ne_negZero (i : Int) : toString i ≠ "-0" := by
  intro equal
  have read : i = 0 := by
    have parsed := Int.toInt?_repr i
    rw [← Int.toString_eq_repr, equal] at parsed
    exact Option.some.inj (parsed.symm.trans (by cbv : "-0".toInt? = some 0))
  subst read
  exact absurd equal (by decide)

theorem same_of_toInteger {a b : Float} {i : Int} (first : toInteger? a = some i)
    (second : toInteger? b = some i) : (a == b) = true := by
  by_cases zero : i = 0
  · subst zero
    rcases eq_zero first with rfl | rfl <;> rcases eq_zero second with rfl | rfl <;> rfl
  · rw [eq_ofInteger first zero, eq_ofInteger second zero]
    exact Float.beq_self_iff.2 (ofInteger_ne_nan i)

theorem same_of_text {a b : Float} {i j : Int} (first : toInteger? a = some i)
    (second : toInteger? b = some j) (texts : text a = text b) : (a == b) = true := by
  have equal : i = j := by
    rcases text_integer first with left | ⟨left, zero⟩ <;>
      rcases text_integer second with right | ⟨right, zero'⟩
    · rw [left, right] at texts
      exact Int.repr_inj.1 texts
    · exact absurd (left.symm.trans (texts.trans zero')) (toString_ne_negZero i)
    · exact absurd (right.symm.trans (texts.symm.trans zero)) (toString_ne_negZero j)
    · rw [left, right]
  exact same_of_toInteger first (equal ▸ second)

end Number

namespace Json

/-- Two keys that may have the same text: a string and a number, or two numbers that are not both
integers. -/
def Confusable (a b : Value) : Prop :=
  a.isString = true ∧ b.isNumber = true ∨ a.isNumber = true ∧ b.isString = true ∨
    a.isNumber = true ∧ b.isNumber = true ∧ (a.asInteger? = none ∨ b.asInteger? = none)

theorem confusable_of_text {a b : Value} (nameA : a.isString = true ∨ a.isNumber = true)
    (nameB : b.isString = true ∨ b.isNumber = true) (apart : a.same b = false)
    (texts : a.text = b.text) : Confusable a b := by
  cases a <;> cases b <;> simp [Value.isString, Value.isNumber] at nameA nameB
  case string.string s s' =>
    have texts : s = s' := texts
    simp [Value.same, texts] at apart
  case string.number => exact .inl ⟨rfl, rfl⟩
  case number.string => exact .inr (.inl ⟨rfl, rfl⟩)
  case number.number n n' =>
    refine .inr (.inr ⟨rfl, rfl, ?_⟩)
    by_contra both
    obtain ⟨i, first⟩ := Option.ne_none_iff_exists'.1 fun none => both (.inl none)
    obtain ⟨j, second⟩ := Option.ne_none_iff_exists'.1 fun none => both (.inr none)
    have equal : (n == n') = true := Number.same_of_text first second texts
    simp [Value.same, equal] at apart

section Members

variable {convert : Value → Except JsonFailure Json} {pairs : List (Value × Value)}
  {members done : List (String × Json)} {name : String} {item : Json}

abbrev Ascending (members : List (String × Json)) : Prop := members.Pairwise fun a b => a.1 < b.1

theorem mem_insertMember (ascending : Ascending members) {m : String × Json} :
    m ∈ insertMember name item members ↔ m = (name, item) ∨ m ∈ members ∧ m.1 ≠ name := by
  induction members with
  | nil => simp [insertMember]
  | cons first rest ih =>
      obtain ⟨other, old⟩ := first
      obtain ⟨least, ascending⟩ := List.pairwise_cons.1 ascending
      rw [insertMember]
      split
      · rename_i same
        obtain rfl : name = other := by simpa using same
        have behind : m ∈ rest → m.1 ≠ name := fun member => (least m member).ne'
        simp only [List.mem_cons]
        constructor
        · exact Or.imp_right fun member => ⟨.inr member, behind member⟩
        · rintro (new | ⟨rfl | member, differs⟩)
          · exact .inl new
          · exact absurd rfl differs
          · exact .inr member
      · rename_i different
        have different : name ≠ other := by simpa using different
        split
        · rename_i before
          have behind : m ∈ (other, old) :: rest → m.1 ≠ name := fun member => by
            rcases List.mem_cons.1 member with rfl | member
            · exact different.symm
            · exact (lt_trans before (least m member)).ne'
          rw [List.mem_cons]
          exact or_congr_right ⟨fun member => ⟨member, behind member⟩, And.left⟩
        · rw [List.mem_cons, ih ascending, List.mem_cons]
          constructor
          · rintro (rfl | new | ⟨member, differs⟩)
            · exact .inr ⟨.inl rfl, different.symm⟩
            · exact .inl new
            · exact .inr ⟨.inr member, differs⟩
          · rintro (new | ⟨rfl | member, differs⟩)
            · exact .inr (.inl new)
            · exact .inl rfl
            · exact .inr (.inr ⟨member, differs⟩)

theorem Ascending.insertMember (ascending : Ascending members) :
    Ascending (insertMember name item members) := by
  induction members with
  | nil => simp [Json.insertMember]
  | cons first rest ih =>
      obtain ⟨other, old⟩ := first
      obtain ⟨least, later⟩ := List.pairwise_cons.1 ascending
      rw [Json.insertMember]
      split
      · rename_i same
        obtain rfl : name = other := by simpa using same
        exact .cons least later
      · rename_i different
        have different : name ≠ other := by simpa using different
        split
        · rename_i before
          refine .cons (fun m member => ?_) ascending
          rcases List.mem_cons.1 member with rfl | member
          · exact before
          · exact lt_trans before (least m member)
        · rename_i notBefore
          refine .cons (fun m member => ?_) (ih later)
          rcases (mem_insertMember later).1 member with rfl | ⟨member, -⟩
          · exact lt_of_le_of_ne (not_lt.1 notBefore) different.symm
          · exact least m member

theorem memberName_ok {key : Value} :
    memberName key = .ok name ↔ (key.isString = true ∨ key.isNumber = true) ∧ key.text = name := by
  cases key with
  | string | number =>
      simp only [memberName, Except.ok.injEq, Value.isString, Value.isNumber, true_or, or_true,
        true_and]
      rfl
  | _ => simp [memberName, Value.isString, Value.isNumber]

/-- The member is made of the last pair whose key has its name for a text. -/
def LastNamed (convert : Value → Except JsonFailure Json) (pairs : List (Value × Value))
    (name : String) (item : Json) : Prop :=
  ∃ front key value back, pairs = front ++ (key, value) :: back ∧ key.text = name ∧
    convert value = .ok item ∧ ∀ e ∈ back, e.1.text ≠ name

theorem lastNamed_cons {key value : Value} :
    LastNamed convert ((key, value) :: pairs) name item ↔
      LastNamed convert pairs name item ∨
        key.text = name ∧ convert value = .ok item ∧ ∀ e ∈ pairs, e.1.text ≠ name := by
  constructor
  · rintro ⟨front, k, v, back, split, named, converted, last⟩
    cases front with
    | nil =>
        obtain ⟨first, rfl⟩ := List.cons.inj split
        obtain ⟨rfl, rfl⟩ := Prod.mk.inj first
        exact .inr ⟨named, converted, last⟩
    | cons e front =>
        obtain ⟨-, rfl⟩ := List.cons.inj split
        exact .inl ⟨front, k, v, back, rfl, named, converted, last⟩
  · rintro (⟨front, k, v, back, rfl, named, converted, last⟩ | ⟨named, converted, last⟩)
    · exact ⟨(key, value) :: front, k, v, back, rfl, named, converted, last⟩
    · exact ⟨[], key, value, pairs, rfl, named, converted, last⟩

theorem mem_addMembers (ascending : Ascending members)
    (added : addMembers convert members pairs = .ok done) :
    Ascending done ∧ ∀ name item, (name, item) ∈ done ↔ LastNamed convert pairs name item ∨
      (name, item) ∈ members ∧ ∀ e ∈ pairs, e.1.text ≠ name := by
  induction pairs generalizing members with
  | nil =>
      obtain rfl : members = done := Except.ok.inj added
      refine ⟨ascending, fun name item => ?_⟩
      simp [LastNamed]
  | cons e rest ih =>
      obtain ⟨key, value⟩ := e
      obtain ⟨own, j, named, converted, added⟩ := addMembers_cons.1 added
      obtain ⟨-, rfl⟩ := memberName_ok.1 named
      obtain ⟨ordered, each⟩ := ih ascending.insertMember added
      refine ⟨ordered, fun name item => ?_⟩
      rw [each, lastNamed_cons, mem_insertMember ascending, List.forall_mem_cons, converted]
      simp only [Prod.mk.injEq, Except.ok.injEq]
      constructor
      · rintro (last | ⟨⟨rfl, rfl⟩ | ⟨old, differs⟩, none⟩)
        · exact .inl (.inl last)
        · exact .inl (.inr ⟨rfl, rfl, none⟩)
        · exact .inr ⟨old, Ne.symm differs, none⟩
      · rintro ((last | ⟨rfl, rfl, none⟩) | ⟨old, differs, none⟩)
        · exact .inl last
        · exact .inr ⟨.inl ⟨rfl, rfl⟩, none⟩
        · exact .inr ⟨.inr ⟨old, Ne.symm differs⟩, none⟩

theorem exists_lastNamed (each : ∀ e ∈ pairs, ∃ j, convert e.2 = .ok j) {name : String}
    (named : ∃ e ∈ pairs, e.1.text = name) : ∃ item, LastNamed convert pairs name item := by
  induction pairs with
  | nil => simp at named
  | cons e rest ih =>
      obtain ⟨key, value⟩ := e
      obtain ⟨⟨j, converted⟩, others⟩ := List.forall_mem_cons.1 each
      by_cases later : ∃ e ∈ rest, e.1.text = name
      · obtain ⟨item, last⟩ := ih others later
        exact ⟨item, lastNamed_cons.2 (.inl last)⟩
      · push Not at later
        obtain ⟨e, member, text⟩ := named
        rcases List.mem_cons.1 member with rfl | member
        · exact ⟨j, lastNamed_cons.2 (.inr ⟨text, converted, later⟩)⟩
        · exact absurd text (later e member)

theorem names_of_addMembers (added : addMembers convert [] pairs = .ok done) :
    (done.map Prod.fst).toFinset = (pairs.map fun e => e.1.text).toFinset := by
  obtain ⟨-, each⟩ := mem_addMembers .nil added
  have converted := fun e member => (addMembers_ok_iff.1 ⟨done, added⟩ e member).2
  ext name
  simp only [List.mem_toFinset, List.mem_map]
  constructor
  · rintro ⟨⟨_, item⟩, member, rfl⟩
    rcases (each _ item).1 member with ⟨front, key, value, back, rfl, named, -, -⟩ | ⟨old, -⟩
    · exact ⟨(key, value), by simp, named⟩
    · contradiction
  · intro named
    obtain ⟨item, last⟩ := exists_lastNamed converted named
    exact ⟨(name, item), (each name item).2 (.inl last), rfl⟩

theorem length_addMembers (added : addMembers convert [] pairs = .ok done) :
    done.length = pairs.length ↔ pairs.Pairwise fun a b => a.1.text ≠ b.1.text := by
  have names := names_of_addMembers added
  have distinct : (done.map Prod.fst).Nodup := by
    rw [List.Nodup, List.pairwise_map]
    exact (mem_addMembers .nil added).1.imp fun less => less.ne
  have count : done.length = (pairs.map fun e => e.1.text).toFinset.card := by
    rw [← names, List.toFinset_card_of_nodup distinct, List.length_map]
  have all : (pairs.map fun e => e.1.text).toFinset.card = pairs.length ↔
      (pairs.map fun e => e.1.text).Nodup := by
    rw [← List.length_map (f := fun e : Value × Value => e.1.text)]
    exact Multiset.toFinset_card_eq_card_iff_nodup
  rw [count, all, List.Nodup, List.pairwise_map]

end Members

section Objects

variable {s : Store} {fuel : Nat} {path path' : List TableRef} {ref : TableRef} {v : Value}
  {j : Json}

theorem ofValueOn_weaken (more : Nat) (within : ∀ r ∈ path', r ∈ path)
    (done : ofValueOn s fuel path v = .ok j) : ofValueOn s (fuel + more) path' v = .ok j := by
  induction fuel generalizing path path' v j with
  | zero => contradiction
  | succ fuel ih =>
      rw [Nat.succ_add]
      cases v with
      | table r =>
          have off : r ∉ path := (ofValueOn_table_ok_iff.1 ⟨j, done⟩).1
          refine ofValueOn_table_mono off (fun member => off (within r member)) (fun v j done => ?_)
            done
          refine ih (fun other member => ?_) done
          rcases List.mem_cons.1 member with rfl | member
          · exact .head _
          · exact .tail _ (within other member)
      | _ => exact done

theorem object_of_ok {t : Table} (holds : Holds s ref t) (uncounted : ¬∃ n, Counts t n)
    (done : ofValue s (.table ref) = .ok j) :
    ∃ members, j = .object members ∧ addMembers (ofValue s) [] t.pairs = .ok members := by
  have isObject : ¬(s.table ref).isSequence = true := by
    rw [holds.isSequence_iff]
    obtain ⟨metatable, held⟩ := holds.held
    rw [held]
    exact uncounted
  have pairs : (s.table ref).pairs = t.pairs := by
    obtain ⟨metatable, held⟩ := holds.held
    rw [held]
    rfl
  rw [ofValue, ofValueOn_table (by simp), if_neg isObject, pairs] at done
  cases added : addMembers (ofValueOn s (s.tables.size + 1) [ref]) [] t.pairs with
  | error e =>
      rw [added] at done
      contradiction
  | ok members =>
      rw [added] at done
      refine ⟨members, (Except.ok.inj done).symm, addMembers_mono (fun v j done => ?_) added⟩
      exact ofValueOn_weaken 1 (by simp) done

/-- The object of a table whose live keys are not 1 to some n. Its members are named by the texts of
the live keys, and of the pairs whose keys have one text the last one makes the member. So no entry
is lost exactly if no two live keys have the same text, and such keys are a string and a number or
two numbers that are not both integers. -/
theorem ofValue_object {t : Table} (holds : Holds s ref t) (uncounted : ¬∃ n, Counts t n)
    (done : ofValue s (.table ref) = .ok j) :
    ∃ members, j = .object members ∧ (members.map Prod.fst).Nodup ∧
      (∀ name item, (name, item) ∈ members ↔ LastNamed (ofValue s) t.pairs name item) ∧
      (members.length = t.pairs.length ↔ t.pairs.Pairwise fun a b => a.1.text ≠ b.1.text) ∧
      ((t.pairs.Pairwise fun a b => a.1.text ≠ b.1.text) → ∀ e ∈ t.pairs,
        ∃ item, ofValue s e.2 = .ok item ∧ (e.1.text, item) ∈ members) ∧
      t.pairs.Pairwise fun a b => a.1.text = b.1.text → Confusable a.1 b.1 := by
  obtain ⟨members, rfl, added⟩ := object_of_ok holds uncounted done
  obtain ⟨ascending, each⟩ := mem_addMembers .nil added
  have last (name : String) (item : Json) :
      (name, item) ∈ members ↔ LastNamed (ofValue s) t.pairs name item := by
    rw [each]
    simp
  have made := addMembers_ok_iff.1 ⟨members, added⟩
  refine ⟨members, rfl, ?_, last, length_addMembers added, fun apart e member => ?_, ?_⟩
  · rw [List.Nodup, List.pairwise_map]
    exact ascending.imp fun less => less.ne
  · obtain ⟨item, converted⟩ := (made e member).2
    obtain ⟨front, back, split⟩ := List.append_of_mem member
    refine ⟨item, converted, (last _ _).2 ⟨front, e.1, e.2, back, split, rfl, converted, ?_⟩⟩
    rw [split, List.pairwise_append] at apart
    exact fun other behind => ((List.pairwise_cons.1 apart.2.1).1 other behind).symm
  · have walkable : t.Walkable := ⟨holds.built.sound.1, holds.built.sound.2⟩
    refine (pairs_distinct walkable).imp_of_mem fun {a b} first second apart texts => ?_
    exact confusable_of_text (memberName_ok_iff.1 (made a first).1)
      (memberName_ok_iff.1 (made b second).1) apart texts

def twins : Table := ⟨#[.string "a"], #[(.string "1", .string "b")], none⟩

def twinStore : Store := { Store.empty with tables := #[twins] }

theorem holds_twins : Holds twinStore 0 twins := by
  have first : Table.empty.edit (.setInteger 1 (.string "a")) = ⟨#[.string "a"], #[], none⟩ :=
    Table.setInteger_next rfl (by decide) rfl
  have second : Table.edit ⟨#[.string "a"], #[], none⟩ (.setString "1" (.string "b")) = twins :=
    setString_fresh (t := ⟨#[.string "a"], #[], none⟩) nofun rfl
  have built : Table.Built twins :=
    second ▸ .edit _ (first ▸ .edit _ .empty (by rw [first]; decide)) (by rw [second]; decide)
  exact ⟨built, none, rfl⟩

theorem uncounted_twins : ¬∃ n, Counts twins n := by
  rintro ⟨n, counts⟩
  have pairs : twins.pairs = [(.integer 1, .string "a"), (.string "1", .string "b")] := rfl
  obtain ⟨i, -, -, integer⟩ := (counts (.string "1")).1 (by simp [pairs])
  contradiction

/-- Of a number and the string that it is written as only one entry is left. -/
theorem ofValue_loses_entry :
    Holds twinStore 0 twins ∧ (¬∃ n, Counts twins n) ∧
      twins.pairs = [(.integer 1, .string "a"), (.string "1", .string "b")] ∧
      ofValue twinStore (.table 0) = .ok (.object [("1", .string "b")]) :=
  ⟨holds_twins, uncounted_twins, rfl, rfl⟩

theorem ofValue_object_twins :
    Holds twinStore 0 twins ∧ (¬∃ n, Counts twins n) ∧ ∃ members,
      ofValue twinStore (.table 0) = .ok (.object members) ∧ ("1", .string "b") ∈ members ∧
        members.length ≠ 2 := by
  obtain ⟨j, done⟩ : ∃ j, ofValue twinStore (.table 0) = .ok j := ⟨_, rfl⟩
  obtain ⟨members, rfl, -, last, length, -, -⟩ := ofValue_object holds_twins uncounted_twins done
  refine ⟨holds_twins, uncounted_twins, members, done, ?_, fun both => ?_⟩
  · exact (last _ _).2 ⟨[(.integer 1, .string "a")], .string "1", .string "b", [], rfl, rfl, rfl,
      nofun⟩
  · have apart := length.1 both
    exact (List.pairwise_cons.1 apart).1 _ (.head _) rfl

end Objects

end Json

end RegisterVm
