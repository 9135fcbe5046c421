import RegisterVm.Proofs.Table.Walking

/-!
The order of the entries by age. A key that enters the map stands behind all that are there, and
keeps its place whatever is written to it. A key that the row draws out of the map hands its place
to the last one, so that only the keys before it keep theirs: the entries stand by age as long as
every key that leaves is younger than those that stay, and otherwise need not.
-/

namespace RegisterVm

open scoped List

theorem swapRemove_append {entries : Array Entry} {index : Nat} {front back : List Entry}
    (split : entries.toList = front ++ back) (behind : front.length ≤ index)
    (bound : index < entries.size) :
    ∃ back', (swapRemove entries index).toList = front ++ back' := by
  obtain ⟨items⟩ := entries
  obtain rfl : items = front ++ back := split
  obtain rfl | ⟨middle, last, rfl⟩ := List.eq_nil_or_concat' back
  · simp only [List.append_nil, List.size_toArray] at bound
    omega
  · refine ⟨((middle ++ [last]).set (index - front.length) last).dropLast, ?_⟩
    simp only [swapRemove, ← List.append_assoc, List.back?_toArray, List.getLast?_concat,
      List.setIfInBounds_toArray, List.pop_toArray]
    rw [List.append_assoc, List.set_append_right _ _ behind, List.dropLast_append_of_ne_nil]
    simp

theorem length_le_of_not_mem {entries : Array Entry} {index : Nat} {front back : List Entry}
    (split : entries.toList = front ++ back) (bound : index < entries.size)
    (absent : entries[index] ∉ front) : front.length ≤ index := by
  by_contra before
  have read : entries.toList[index]? = front[index]? := by
    rw [split, List.getElem?_append_left (Nat.lt_of_not_le before)]
  rw [Array.getElem?_toList, Array.getElem?_eq_getElem bound] at read
  exact absent (List.mem_of_getElem? read.symm)

namespace Table

def keys (t : Table) : List Value := t.entries.toList.map Prod.fst

def holds (t : Table) (k : Value) : Bool := t.keys.any fun k' => k'.same k

/-- The keys of the map part after an edit, the oldest first, if they were `known` before it. -/
def reaged (t : Table) (e : Edit) (known : List Value) : List Value :=
  known.filter (t.edit e).holds ++ (t.edit e).keys.filter fun k => !t.holds k

def ages (t : Table) (known : List Value) : List Edit → List Value
  | [] => known
  | e :: rest => ages (t.edit e) (t.reaged e known) rest

/-- Every key that an edit takes out of the map is younger than all that stay. -/
def Orderly (t : Table) (known : List Value) : List Edit → Prop
  | [] => True
  | e :: rest =>
    (∃ stay leave, known = stay ++ leave ∧ (∀ k ∈ stay, (t.edit e).holds k = true) ∧
      ∀ k ∈ leave, (t.edit e).holds k = false) ∧
    Orderly (t.edit e) (t.reaged e known) rest

def Small (t : Table) : List Edit → Prop
  | [] => True
  | e :: rest => (t.edit e).length < 2 ^ 53 ∧ Small (t.edit e) rest

variable {t : Table}

theorem holds_iff {k : Value} : t.holds k = true ↔ ∃ e ∈ t.entries, e.1.same k = true := by
  simp only [holds, keys, List.any_map, List.any_eq_true, Function.comp, Array.mem_toList_iff]

theorem holds_of_mem {limit : Nat} (admits : Admits limit t.entries) {k : Value}
    (member : k ∈ t.keys) : t.holds k = true := by
  obtain ⟨e, inside, rfl⟩ := List.mem_map.1 member
  exact holds_iff.2 ⟨e, ⟨inside⟩, same_self (admits.accepted e ⟨inside⟩)⟩

/-- The sweep takes entries out of the map, and moves none that stands before all of them. -/
theorem absorb_entries {fuel : Nat} {items items' : Array Value} {entries entries' : Array Entry}
    (drawn : absorb fuel items entries = (items', entries')) (distinct : Distinct entries) :
    (∃ left, (left ++ entries'.toList).Perm entries.toList) ∧
      ∀ front back, entries.toList = front ++ back → (∀ e ∈ front, e ∈ entries'.toList) →
        ∃ back', entries'.toList = front ++ back' := by
  induction fuel generalizing items entries with
  | zero =>
      simp only [absorb, Prod.mk.injEq] at drawn
      obtain ⟨-, rfl⟩ := drawn
      exact ⟨⟨[], .refl _⟩, fun front back split _ => ⟨back, split⟩⟩
  | succ fuel ih =>
      simp only [absorb] at drawn
      split at drawn
      · simp only [Prod.mk.injEq] at drawn
        obtain ⟨-, rfl⟩ := drawn
        exact ⟨⟨[], .refl _⟩, fun front back split _ => ⟨back, split⟩⟩
      · rename_i index found
        obtain ⟨bound, equal⟩ := findEntry_some found
        obtain ⟨apart, rest⟩ := distinct_swapRemove distinct bound
        have read : entries.getD index (.nil, .nil) = entries[index] := by
          simp [Array.getD, bound]
        rw [read] at drawn
        -- Whether the sweep goes on or not, it does so without this entry.
        have later : (∃ left, (left ++ entries'.toList).Perm
              (RegisterVm.swapRemove entries index).toList) ∧
            ∀ front back, (RegisterVm.swapRemove entries index).toList = front ++ back →
              (∀ e ∈ front, e ∈ entries'.toList) → ∃ back', entries'.toList = front ++ back' := by
          split at drawn
          · simp only [Prod.mk.injEq] at drawn
            obtain ⟨-, rfl⟩ := drawn
            exact ⟨⟨[], .refl _⟩, fun front back split _ => ⟨back, split⟩⟩
          · exact ih drawn rest
        obtain ⟨⟨left, order⟩, keeps⟩ := later
        have taken := swapRemove_perm bound
        refine ⟨⟨entries[index] :: left, (order.cons _).trans taken⟩, ?_⟩
        intro front back split stays
        have behind : front.length ≤ index := by
          refine length_le_of_not_mem split bound fun here => ?_
          have again := order.mem_iff.1 (List.mem_append_right left (stays _ here))
          have self : entries[index].1.same entries[index].1 = true :=
            Value.same_trans equal (by rwa [Value.same_symm])
          rw [apart _ ⟨again⟩] at self
          contradiction
        obtain ⟨back', remains⟩ := swapRemove_append split behind bound
        exact keeps front back' remains stays

theorem settle_entries (items : Array Value) (distinct : Distinct t.entries) :
    (∃ left, (left ++ (t.settle items).entries.toList).Perm t.entries.toList) ∧
      ∀ front back, t.entries.toList = front ++ back →
        (∀ e ∈ front, e ∈ (t.settle items).entries.toList) →
          ∃ back', (t.settle items).entries.toList = front ++ back' :=
  absorb_entries rfl distinct

theorem edit_keys (sound : t.Sound) (e : Edit) :
    (∃ added, (t.edit e).keys = t.keys ++ added ∧ ∀ k ∈ added, t.holds k = false) ∨
      ∃ items, t.edit e = t.settle items := by
  have still : ∀ {t' : Table}, t'.keys = t.keys →
      ∃ added, t'.keys = t.keys ++ added ∧ ∀ k ∈ added, t.holds k = false :=
    fun same => ⟨[], by rw [same, List.append_nil], nofun⟩
  have assigned (k v : Value) :
      (∃ added, (t.assign k v).keys = t.keys ++ added ∧ ∀ k ∈ added, t.holds k = false) ∨
        ∃ items, t.assign k v = t.settle items := by
    rcases assign_cases t k v with ⟨n, -, -, equal⟩ | ⟨-, -, equal⟩ | ⟨-, equal⟩ | ⟨-, equal⟩
    · rw [equal]
      exact .inl (still rfl)
    · rw [equal]
      exact .inl (still rfl)
    · exact .inr ⟨_, equal⟩
    · rw [equal]
      left
      simp only [setEntry]
      split
      · exact still (keys_modify _ _ _)
      · rename_i missing
        split
        · exact still rfl
        · refine ⟨[k], by simp [keys], ?_⟩
          intro k' last
          rw [List.mem_singleton.1 last, Bool.eq_false_iff, ne_eq, holds_iff]
          rintro ⟨e, member, equal⟩
          rw [findEntry_none missing e member] at equal
          contradiction
  cases e with
  | set key value =>
      cases done : t.set key value with
      | error e =>
          simp only [edit, done]
          exact .inl (still rfl)
      | ok t' =>
          obtain ⟨-, rfl⟩ := set_ok done
          simp only [edit, done]
          exact assigned key value
  | setInteger i value => exact assigned _ _
  | setString s value => exact assigned _ _
  | insert position value =>
      cases done : t.insert position value with
      | error e =>
          simp only [edit, done]
          exact .inl (still rfl)
      | ok t' =>
          simp only [edit, done]
          exact .inr ⟨_, insert_ok done⟩
  | remove position =>
      cases done : t.remove position with
      | error e =>
          simp only [edit, done]
          exact .inl (still rfl)
      | ok result =>
          obtain ⟨value, t'⟩ := result
          simp only [edit, done]
          rcases remove_ok done with rfl | swept
          · exact .inl (still rfl)
          · exact .inr ⟨_, swept⟩

theorem reaged_added {low high : Nat} {e : Edit} {added : List Value}
    (before : Admits low t.entries) (after : Admits high (t.edit e).entries)
    (keys : (t.edit e).keys = t.keys ++ added) (fresh : ∀ k ∈ added, t.holds k = false) :
    t.reaged e t.keys = (t.edit e).keys := by
  have stay : t.keys.filter (t.edit e).holds = t.keys := by
    refine List.filter_eq_self.2 fun k member => holds_of_mem after ?_
    rw [keys]
    exact List.mem_append_left _ member
  have old : (t.keys.filter fun k => !t.holds k) = [] := by
    refine List.filter_eq_nil_iff.2 fun k member => ?_
    simp [holds_of_mem before member]
  have new : (added.filter fun k => !t.holds k) = added :=
    List.filter_eq_self.2 fun k member => by simp [fresh k member]
  rw [reaged, stay, keys, List.filter_append, old, new, List.nil_append]

section Sweeping

variable {low high : Nat} {items : Array Value}

theorem keys_swept (distinct : Distinct t.entries)
    (after : Admits high (t.settle items).entries) :
    ((t.settle items).keys).Perm (t.keys.filter (t.settle items).holds) := by
  obtain ⟨left, order⟩ := (settle_entries items distinct).1
  have apart : ∀ e ∈ left, ∀ e' ∈ (t.settle items).entries.toList, Apart e e' :=
    (List.pairwise_append.1 (order.symm.pairwise distinct fun apart => Std.Symm.symm _ _ apart)).2.2
  have gone : (left.map Prod.fst).filter (t.settle items).holds = [] := by
    refine List.filter_eq_nil_iff.2 fun k member => ?_
    obtain ⟨e, inside, rfl⟩ := List.mem_map.1 member
    rw [holds_iff]
    rintro ⟨e', member', equal⟩
    have different := apart e inside e' member'.val
    rw [Apart, Value.same_symm, equal] at different
    contradiction
  have stay : (t.settle items).keys.filter (t.settle items).holds = (t.settle items).keys :=
    List.filter_eq_self.2 fun k member => holds_of_mem after member
  calc (t.settle items).keys
    _ = (left.map Prod.fst ++ (t.settle items).keys).filter (t.settle items).holds := by
        rw [List.filter_append, gone, stay, List.nil_append]
    _ = ((left ++ (t.settle items).entries.toList).map Prod.fst).filter (t.settle items).holds := by
        rw [List.map_append]
        rfl
    _ ~ t.keys.filter (t.settle items).holds := (order.map Prod.fst).filter _

theorem not_new_swept (before : Admits low t.entries)
    (after : Admits high (t.settle items).entries) :
    ((t.settle items).keys.filter fun k => !t.holds k) = [] := by
  refine List.filter_eq_nil_iff.2 fun k member => ?_
  have old := (keys_swept before.distinct after).mem_iff.1 member
  simp [holds_of_mem before (List.mem_filter.1 old).1]

theorem keys_swept_orderly (distinct : Distinct t.entries)
    (after : Admits high (t.settle items).entries) {stay leave : List Value}
    (split : t.keys = stay ++ leave) (stays : ∀ k ∈ stay, (t.settle items).holds k = true)
    (leaves : ∀ k ∈ leave, (t.settle items).holds k = false) :
    (t.settle items).keys = t.keys.filter (t.settle items).holds := by
  obtain ⟨⟨left, order⟩, keeps⟩ := settle_entries items distinct
  have remain : t.keys.filter (t.settle items).holds = stay := by
    rw [split, List.filter_append, List.filter_eq_self.2 stays,
      List.filter_eq_nil_iff.2 fun k member => by simp [leaves k member], List.append_nil]
  obtain ⟨front, back, entries, rfl, rfl⟩ := List.map_eq_append_iff.1 split
  have kept : ∀ e ∈ front, e ∈ (t.settle items).entries.toList := by
    intro e member
    obtain ⟨e', member', equal⟩ := holds_iff.1 (stays e.1 (List.mem_map_of_mem member))
    have here : e ∈ t.entries.toList := entries ▸ List.mem_append_left _ member
    have there : e' ∈ t.entries.toList := order.mem_iff.1 (List.mem_append_right _ member'.val)
    have identical : e' = e := by
      by_contra different
      have apart := distinct.forall there here different
      rw [Apart, equal] at apart
      contradiction
    exact identical ▸ member'.val
  obtain ⟨back', result⟩ := keeps front back entries kept
  have same : (t.settle items).keys = front.map Prod.fst ++ back'.map Prod.fst := by
    rw [keys, result, List.map_append]
  have length := (keys_swept distinct after).length_eq
  rw [remain, same, List.length_append] at length
  have none : back'.map Prod.fst = [] := List.length_eq_zero_iff.1 (by omega)
  rw [remain, same, none, List.append_nil]

end Sweeping

theorem edit_reaged {known : List Value} (sound : t.Sound) (e : Edit)
    (bound : (t.edit e).length < 2 ^ 53) (perm : t.keys.Perm known) :
    (t.edit e).keys.Perm (t.reaged e known) := by
  have after := edit_sound e sound bound
  calc (t.edit e).keys
    _ ~ t.reaged e t.keys := by
        rcases edit_keys sound e with ⟨added, keys, fresh⟩ | ⟨items, swept⟩
        · rw [reaged_added sound after keys fresh]
        · rw [reaged]
          rw [swept] at after ⊢
          rw [not_new_swept sound after, List.append_nil]
          exact keys_swept sound.distinct after
    _ ~ t.reaged e known := (perm.filter _).append_right _

theorem edit_reaged_orderly (sound : t.Sound) (e : Edit) (bound : (t.edit e).length < 2 ^ 53)
    {stay leave : List Value} (split : t.keys = stay ++ leave)
    (stays : ∀ k ∈ stay, (t.edit e).holds k = true)
    (leaves : ∀ k ∈ leave, (t.edit e).holds k = false) :
    (t.edit e).keys = t.reaged e t.keys := by
  have after := edit_sound e sound bound
  rcases edit_keys sound e with ⟨added, keys, fresh⟩ | ⟨items, swept⟩
  · rw [reaged_added sound after keys fresh]
  · rw [reaged]
    rw [swept] at after stays leaves ⊢
    rw [not_new_swept sound after, List.append_nil]
    exact keys_swept_orderly sound.distinct after split stays leaves

theorem keys_perm_ages {known : List Value} {edits : List Edit} (sound : t.Sound)
    (small : t.Small edits) (perm : t.keys.Perm known) :
    (edits.foldl edit t).keys.Perm (t.ages known edits) := by
  induction edits generalizing t known with
  | nil => exact perm
  | cons e rest ih =>
      exact ih (edit_sound e sound small.1) small.2 (edit_reaged sound e small.1 perm)

theorem keys_eq_ages {known : List Value} {edits : List Edit} (sound : t.Sound)
    (small : t.Small edits) (same : t.keys = known) (orderly : t.Orderly known edits) :
    (edits.foldl edit t).keys = t.ages known edits := by
  subst same
  induction edits generalizing t with
  | nil => rfl
  | cons e rest ih =>
      obtain ⟨⟨stay, leave, split, stays, leaves⟩, orderly⟩ := orderly
      have aged := edit_reaged_orderly sound e small.1 split stays leaves
      rw [← aged] at orderly
      rw [ages, ← aged]
      exact ih (edit_sound e sound small.1) small.2 orderly

theorem built_foldl {edits : List Edit} (built : Built t) (small : t.Small edits) :
    Built (edits.foldl edit t) := by
  induction edits generalizing t with
  | nil => exact built
  | cons e rest ih => exact ih (.edit e built small.1) small.2

/-- A full traversal after any edits of the empty table. It returns the keys of the row ascending
and then keys of the map, all that hold a value, in the order of the entries. These are the keys
that have come to the map and have not left it since; they stand by age as long as every key that
leaves is younger than those that stay. -/
theorem traversal_by_age {edits : List Edit} (small : empty.Small edits) :
    ∃ pairs, (edits.foldl edit empty).Visits (fun _ => []) pairs ∧
      (pairs.map Prod.fst).Sublist ((List.range (edits.foldl edit empty).length).map
        (fun i => indexKey (i + 1)) ++ (edits.foldl edit empty).keys) ∧
      (edits.foldl edit empty).keys.Perm (empty.ages [] edits) ∧
      (empty.Orderly [] edits → (edits.foldl edit empty).keys = empty.ages [] edits) := by
  have built := built_foldl .empty small
  obtain ⟨pairs, visits⟩ : ∃ pairs, (edits.foldl edit empty).Visits (fun _ => []) pairs :=
    walk_visits built (edits.foldl edit empty).metatable nofun
  exact ⟨pairs, visits, visits.ordered, keys_perm_ages Built.empty.sound.2 small (.refl _),
    keys_eq_ages Built.empty.sound.2 small rfl⟩

def sweeping : List Edit :=
  [.setInteger 2 (.boolean true), .set (.table 0) (.boolean true), .set (.table 1) (.boolean true),
    .setInteger 1 (.boolean true)]

/-- The youngest key has taken the place of the one that has left. -/
theorem traversal_by_age_sweeping : empty.Small sweeping ∧
    (sweeping.foldl edit empty).keys = [.table 1, .table 0] ∧
    empty.ages [] sweeping = [.table 0, .table 1] ∧
    ∃ pairs, (sweeping.foldl edit empty).Visits (fun _ => []) pairs := by
  have small : empty.Small sweeping := by
    simp only [sweeping, Small]
    decide +kernel
  obtain ⟨pairs, visits, -⟩ := traversal_by_age small
  exact ⟨small, by with_unfolding_all rfl, by with_unfolding_all rfl, pairs, visits⟩

end Table

end RegisterVm
