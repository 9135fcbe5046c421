import RegisterVm.Proofs.Call.Ending
import RegisterVm.Proofs.Lifetime.Reachable
import RegisterVm.Proofs.Table.Shifting

/-!
The library's insertion and removal as scripts call them. They check their arguments first and then
do what the operations on tables do; a call that fails leaves the store as it was.
-/

namespace RegisterVm

def Thread.integer? (th : Thread) (index : Nat) : Option Int :=
  ((th.argument? index).bind Value.toNumber?).bind Number.toInteger?

def Thread.integerOr? (th : Thread) (index : Nat) (fallback : Int) : Option Int :=
  match th.argument? index with
  | none | some .nil => some fallback
  | some _ => th.integer? index

theorem Thread.exists_argument {th : Thread} (index : Nat) (positive : 1 ≤ index)
    (inside : index ≤ th.argumentCount) : ∃ v, th.argument? index = some v := by
  simp only [argumentCount, argument?] at inside ⊢
  cases head : th.frame? with
  | none =>
      simp only [head] at inside
      omega
  | some f =>
      simp only [head] at inside
      have given : (index == 0 || decide (f.top < f.base + index)) = false := by
        simp only [Bool.or_eq_false_iff, beq_eq_false_iff_ne, decide_eq_false_iff_not]
        omega
      exact ⟨_, if_neg (given ▸ Bool.false_ne_true)⟩

inductive Checks {α : Type} (x : Action α) (s : Store) : Option α → Prop where
  | found (a : α) (gives : x s = .ok a s) : Checks x s (some a)
  | refused (e : Error) (fails : x s = .error e s) : Checks x s none

namespace Checks

variable {α β : Type} {x : Action α} {f : α → Action β} {s : Store} {a : α} {r : Option α}

theorem gives (checks : Checks x s (some a)) : x s = .ok a s := by
  cases checks with
  | found _ gives => exact gives

theorem bind_found (checks : Checks x s (some a)) : (x >>= f) s = f a s := by
  simp only [bind, EStateM.bind, checks.gives]

theorem bind_refused (checks : Checks x s none) : Checks (x >>= f) s none := by
  cases checks with
  | refused e fails => exact .refused e (by simp only [bind, EStateM.bind, fails])

theorem bind {r : Option α} {q : Option β} (checks : Checks x s r)
    (rest : ∀ a, r = some a → Checks (f a) s q) (none : r = none → q = none) :
    Checks (x >>= f) s q := by
  cases r with
  | none =>
      rw [none rfl]
      exact checks.bind_refused
  | some a =>
      cases rest a rfl with
      | found b gives => exact .found b (checks.bind_found.trans gives)
      | refused e fails => exact .refused e (checks.bind_found.trans fails)

theorem leads (checks : Checks x s r) :
    Leads x s (fun a s' => s' = s ∧ r = some a) fun s' => s' = s := by
  cases checks with
  | found a gives => simp [Leads, gives]
  | refused e fails => simp [Leads, fails]

theorem leads_none {ok : α → Store → Prop} (checks : Checks x s none) :
    Leads x s ok fun s' => s' = s := by
  cases checks with
  | refused e fails => simp [Leads, fails]

theorem pure (a : α) : Checks (Pure.pure a) s (some a) := .found a rfl

variable {t : ThreadRef} {index : Nat}

theorem badArgument (why : String) : Checks (badArgument t index why : Action α) s none :=
  .refused _ rfl

theorem expected (what : String) : Checks (expected t index what : Action α) s none :=
  .refused _ rfl

theorem argument : Checks (argument? t index) s (some ((s.thread t).argument? index)) :=
  .found _ rfl

theorem of_argument {f : Option Value → Action α} {g : Option Value → Option α}
    (each : ∀ argument, Checks (f argument) s (g argument)) :
    Checks (argument? t index >>= f) s (g ((s.thread t).argument? index)) :=
  argument.bind (fun _ same => Option.some.inj same ▸ each _) nofun

theorem checkAny : Checks (checkAny t index) s ((s.thread t).argument? index) := by
  refine of_argument (g := id) fun argument => ?_
  cases argument with
  | none => exact badArgument _
  | some v => exact pure v

theorem checkTable : Checks (checkTable t index) s
    (match (s.thread t).argument? index with
      | some (.table ref) => some ref
      | _ => none) := by
  refine of_argument (g := fun argument => match argument with
    | some (.table ref) => some ref
    | _ => none) fun argument => ?_
  cases argument with
  | none => exact expected _
  | some v =>
      cases v with
      | table ref => exact pure ref
      | _ => exact expected _

theorem checkInteger : Checks (checkInteger t index) s ((s.thread t).integer? index) := by
  have number : Checks (checkNumber t index) s
      (((s.thread t).argument? index).bind Value.toNumber?) := by
    refine of_argument (g := fun argument => argument.bind Value.toNumber?) fun argument => ?_
    split
    · rename_i n found
      rw [found]
      exact pure n
    · rename_i missing
      rw [missing]
      exact expected _
  refine number.bind (fun n found => ?_) fun missing => by rw [Thread.integer?, missing]; rfl
  rw [Thread.integer?, found, Option.bind_some]
  split
  · rename_i i whole
    rw [whole]
    exact pure i
  · rename_i broken
    rw [broken]
    exact badArgument _

def given? : Option Value → Option Value
  | some .nil => none
  | argument => argument

theorem optional : Checks (optional? t index) s (some (given? ((s.thread t).argument? index))) := by
  refine of_argument (g := fun argument => some (given? argument)) fun argument => ?_
  cases argument with
  | none => exact pure _
  | some v => cases v <;> exact pure _

theorem checkOptionalInteger (fallback : Int) : Checks (checkOptionalInteger t index fallback) s
    ((s.thread t).integerOr? index fallback) := by
  refine optional.bind (fun argument found => ?_) nofun
  obtain rfl := Option.some.inj found
  simp only [Thread.integerOr?]
  cases (s.thread t).argument? index with
  | none => exact pure _
  | some v =>
      cases v with
      | nil => exact pure _
      | _ => exact checkInteger

theorem checkLast (ref : TableRef) : Checks (Sequence.checkLast t ref index) s
    ((s.thread t).integerOr? index (s.table ref).length) := by
  refine optional.bind (fun argument found => ?_) nofun
  obtain rfl := Option.some.inj found
  simp only [Thread.integerOr?]
  cases (s.thread t).argument? index with
  | none => exact .found _ rfl
  | some v =>
      cases v with
      | nil => exact .found _ rfl
      | _ => exact checkInteger

end Checks

variable {t : ThreadRef} {s : Store}

theorem returnOne_returns (valid : t < s.threads.size)
    (room : (s.thread t).fits ((s.thread t).top + 1) = true) (v : Value) :
    ∃ s', returnOne t v s = .ok (.returns 1) s' ∧ s'.tables = s.tables ∧
      s'.pushed? t (pure (.returns 1)) = some [v] := by
  have done : returnOne t v s = .ok (.returns 1)
      ((s.modifyThread t fun th => th.reserve ((s.thread t).top + 1)).modifyThread t fun th =>
        (th.put (s.thread t).top v).withTop ((s.thread t).top + 1)) := by
    simp only [returnOne, push, bind, EStateM.bind, lookThread, look, reserve, room, if_true]
    rfl
  refine ⟨_, done, rfl, ?_⟩
  have thread : ((s.modifyThread t fun th => th.reserve ((s.thread t).top + 1)).modifyThread t
      fun th => (th.put (s.thread t).top v).withTop ((s.thread t).top + 1)).thread t =
        (((s.thread t).reserve ((s.thread t).top + 1)).put (s.thread t).top v).withTop
          ((s.thread t).top + 1) := by
    rw [Store.thread_modifyThread_self _ _ (by simpa using valid),
      Store.thread_modifyThread_self _ _ valid]
  simp only [Store.pushed?, pure, EStateM.pure, thread, Thread.top_withTop]
  simp [Thread.values]

theorem Store.pushed_none (s : Store) (t : ThreadRef) :
    s.pushed? t (pure (.returns 0)) = some [] := by
  simp [pushed?, pure, EStateM.pure, Thread.values]

namespace Sequence

variable {ref : TableRef} {v : Value}

theorem insert_appends (table : (s.thread t).argument? 1 = some (.table ref))
    (count : (s.thread t).argumentCount = 2) (value : (s.thread t).argument? 2 = some v) :
    insert t s = .ok (.returns 0)
      (s.modifyTable ref fun x => x.setInteger ((s.table ref).length + 1) v) := by
  have first : checkTable t 1 s = .ok ref s := (table ▸ Checks.checkTable).gives
  have second : checkAny t 2 s = .ok v s := (value ▸ Checks.checkAny).gives
  simp only [insert, bind, EStateM.bind, first, look, argumentCount, lookThread, count, second]
  rfl

theorem insert_inserts {i : Int} {x : Table}
    (table : (s.thread t).argument? 1 = some (.table ref))
    (count : (s.thread t).argumentCount = 3) (position : (s.thread t).integer? 2 = some i)
    (value : (s.thread t).argument? 3 = some v) (positive : 1 ≤ i)
    (inside : i ≤ (s.table ref).length + 1) (done : (s.table ref).insert i.toNat v = .ok x) :
    insert t s = .ok (.returns 0) (s.modifyTable ref fun _ => x) := by
  have first : checkTable t 1 s = .ok ref s := (table ▸ Checks.checkTable).gives
  have second : checkInteger t 2 s = .ok i s := (position ▸ Checks.checkInteger).gives
  have third : checkAny t 3 s = .ok v s := (value ▸ Checks.checkAny).gives
  have within : (decide (i < 1) || decide (((s.table ref).length : Int) + 1 < i)) = false := by
    simp only [Bool.or_eq_false_iff, decide_eq_false_iff_not]
    omega
  simp only [insert, bind, EStateM.bind, first, look, argumentCount, lookThread, count, second,
    within, Bool.false_eq_true, if_false, third, done]
  rfl

def Insertable (t : ThreadRef) (s : Store) : Prop :=
  ∃ ref, (s.thread t).argument? 1 = some (.table ref) ∧
    ((s.thread t).argumentCount = 2 ∨ (s.thread t).argumentCount = 3 ∧
      ∃ i, (s.thread t).integer? 2 = some i ∧ 1 ≤ i ∧ i ≤ (s.table ref).length + 1)

def Removable (t : ThreadRef) (s : Store) : Prop :=
  ∃ ref, (s.thread t).argument? 1 = some (.table ref) ∧
    ∃ i, (s.thread t).integerOr? 2 (s.table ref).length = some i ∧
      (i = (s.table ref).length ∨ 1 ≤ i ∧ i ≤ (s.table ref).length + 1)

theorem leads_checkTable {α : Type} {f : TableRef → Action α} {ok : α → Store → Prop}
    {failed : Store → Prop} (refused : failed s)
    (rest : ∀ ref, (s.thread t).argument? 1 = some (.table ref) → Leads (f ref) s ok failed) :
    Leads (checkTable t 1 >>= f) s ok failed := by
  refine (Checks.checkTable.leads.mono (fun _ _ found => found) ?_).bind ?_
  · rintro _ rfl
    exact refused
  · rintro ref _ ⟨rfl, found⟩
    refine rest ref ?_
    split at found
    · rename_i argument
      rwa [Option.some.inj found] at argument
    · contradiction

theorem leads_insert : Leads (insert t) s (fun _ _ => Insertable t s) fun s' => s' = s := by
  refine leads_checkTable rfl fun ref table => .look_bind (.lookThread_bind ?_)
  split
  · rename_i count
    refine Checks.checkAny.leads.bind ?_
    rintro v _ ⟨rfl, -⟩
    exact .modify_bind (.pure ⟨ref, table, .inl count⟩)
  · rename_i count
    refine Checks.checkInteger.leads.bind ?_
    rintro i _ ⟨rfl, position⟩
    split
    · exact (Checks.badArgument _).leads_none
    · rename_i inside
      simp only [Bool.or_eq_true, decide_eq_true_eq, not_or, Int.not_lt] at inside
      refine Checks.checkAny.leads.bind ?_
      rintro v _ ⟨rfl, -⟩
      refine .look_bind ?_
      split
      · exact .modify_bind (.pure ⟨ref, table, .inr ⟨count, i, position, inside.1, inside.2⟩⟩)
      · exact (Checks.badArgument _).leads_none
  · exact rfl

theorem remove_removes {i : Int} {x : Table}
    (table : (s.thread t).argument? 1 = some (.table ref))
    (position : (s.thread t).integerOr? 2 (s.table ref).length = some i) (positive : 1 ≤ i)
    (inside : i ≤ (s.table ref).length) (done : (s.table ref).remove i.toNat = .ok (v, x)) :
    remove t s = returnOne t v (s.modifyTable ref fun _ => x) := by
  have first : checkTable t 1 s = .ok ref s := (table ▸ Checks.checkTable).gives
  have second : checkOptionalInteger t 2 (s.table ref).length s = .ok i s :=
    (position ▸ Checks.checkOptionalInteger _).gives
  have within : (i != ((s.table ref).length : Int) &&
      (decide (i < 1) || decide (((s.table ref).length : Int) + 1 < i))) = false := by
    simp only [Bool.and_eq_false_iff, Bool.or_eq_false_iff, decide_eq_false_iff_not]
    omega
  have among : (i == ((s.table ref).length : Int) + 1 || (s.table ref).length == 0) = false := by
    simp only [Bool.or_eq_false_iff, beq_eq_false_iff_ne]
    omega
  simp only [remove, bind, EStateM.bind, first, look, second, within, Bool.false_eq_true, if_false,
    among, done]
  rfl

theorem remove_clears {i : Int} (table : (s.thread t).argument? 1 = some (.table ref))
    (position : (s.thread t).integerOr? 2 (s.table ref).length = some i)
    (beside : i = (s.table ref).length + 1 ∨ i = 0 ∧ (s.table ref).length = 0) :
    remove t s = returnOne t ((s.table ref).getInteger i)
      (s.modifyTable ref fun x => x.setInteger i .nil) := by
  have first : checkTable t 1 s = .ok ref s := (table ▸ Checks.checkTable).gives
  have second : checkOptionalInteger t 2 (s.table ref).length s = .ok i s :=
    (position ▸ Checks.checkOptionalInteger _).gives
  have within : (i != ((s.table ref).length : Int) &&
      (decide (i < 1) || decide (((s.table ref).length : Int) + 1 < i))) = false := by
    simp only [Bool.and_eq_false_iff, Bool.or_eq_false_iff, decide_eq_false_iff_not,
      bne_eq_false_iff_eq]
    omega
  have apart : (i == ((s.table ref).length : Int) + 1 || (s.table ref).length == 0) = true := by
    simp only [Bool.or_eq_true, beq_iff_eq]
    omega
  simp only [remove, bind, EStateM.bind, first, look, second, within, Bool.false_eq_true, if_false,
    apart, if_true]
  rfl

theorem leads_remove (valid : t < s.threads.size)
    (room : (s.thread t).fits ((s.thread t).top + 1) = true) :
    Leads (remove t) s (fun _ _ => Removable t s) fun s' => s' = s := by
  refine leads_checkTable rfl fun ref table => .look_bind ?_
  refine (Checks.checkOptionalInteger _).leads.bind ?_
  rintro i s' ⟨same, position⟩
  subst s'
  split
  · exact (Checks.badArgument _).leads_none
  · rename_i inside
    simp only [Bool.and_eq_true, bne_iff_ne, Bool.or_eq_true, decide_eq_true_eq] at inside
    have removable : Removable t s := ⟨ref, table, i, position, by omega⟩
    have ends : ∀ f v, Leads (returnOne t v) (s.modifyTable ref f)
        (fun _ _ => Removable t s) fun s' => s' = s := by
      intro f v
      obtain ⟨s', done, -⟩ := returnOne_returns (s := s.modifyTable ref f) valid room v
      simp only [Leads, done]
      exact removable
    split
    · exact .look_bind (.modify_bind (ends _ _))
    · refine .look_bind ?_
      split
      · exact .modify_bind (ends _ _)
      · exact (Checks.badArgument _).leads_none

end Sequence

namespace Machine

/-- The native function that the machine has entered hands over `values`; table `ref` has become
`x`, and no other table has changed. -/
structure Completes (m : Machine) (ref : TableRef) (values : List Value) (x : Table) : Prop where
  results : m.results? = some values
  ended : ∃ s, m.step .bare = ⟨s, m.activities, .done #[]⟩
  written : (m.step .bare).store.table ref = x
  others : ∀ other, other ≠ ref → (m.step .bare).store.table other = m.store.table other

/-- The native function that the machine has entered fails, and nothing has changed. -/
def Refuses (m : Machine) : Prop := ∃ e, m.step .bare = ⟨m.store, m.activities, .fail e⟩

variable {m : Machine} {t : ThreadRef} {body : NativeBody} {s' : Store} {ref : TableRef}

theorem results_of_returns {count : Nat} {values : List Value} (enters : m.control = .enter t body)
    (ends : body.enter .bare t m.store = .ok (.returns count) s')
    (pushed : s'.pushed? t (pure (.returns count)) = some values) : m.results? = some values := by
  obtain ⟨s, activities, control⟩ := m
  obtain rfl : control = .enter t body := enters
  rw [← pushed, results?]
  simp only [Store.pushed?, ends, pure, EStateM.pure]

theorem step_of_returns {count : Nat} (enters : m.control = .enter t body)
    (ends : body.enter .bare t m.store = .ok (.returns count) s') :
    (∃ s, m.step .bare = ⟨s, m.activities, .done #[]⟩) ∧
      (m.step .bare).store.tables = s'.tables := by
  obtain ⟨s, activities, control⟩ := m
  obtain rfl : control = .enter t body := enters
  have stepped : Machine.step .bare ⟨s, activities, .enter t body⟩ =
      settle s' activities t (.returns count) := by
    simp only [step, perform, ends]
  rw [stepped]
  exact ⟨⟨_, rfl⟩, rfl⟩

theorem completes {count : Nat} {values : List Value} {f : Table → Table}
    (enters : m.control = .enter t body) (valid : ref < m.store.tables.size)
    (ends : body.enter .bare t m.store = .ok (.returns count) s')
    (pushed : s'.pushed? t (pure (.returns count)) = some values)
    (tables : s'.tables = (m.store.modifyTable ref f).tables) :
    m.Completes ref values (f (m.store.table ref)) := by
  obtain ⟨stepped, kept⟩ := step_of_returns enters ends
  have after : (m.step .bare).store.tables = m.store.tables.modify ref f := kept.trans tables
  refine ⟨results_of_returns enters ends pushed, stepped, ?_, fun other different => ?_⟩
  · simp only [Store.table, after, Array.getD_eq_getD_getElem?, Array.getElem?_modify, if_true]
    simp [show ref < m.store.tables.size from valid]
  · simp only [Store.table, after, Array.getD_eq_getD_getElem?, Array.getElem?_modify,
      if_neg (Ne.symm different)]

theorem refuses {accepted : Prop} (enters : m.control = .enter t body)
    (leads : Leads (body.enter .bare t) m.store (fun _ _ => accepted) fun s' => s' = m.store)
    (outside : ¬accepted) : m.Refuses := by
  obtain ⟨s, activities, control⟩ := m
  obtain rfl : control = .enter t body := enters
  simp only [Leads] at leads
  simp only [Refuses, step, perform]
  cases ends : body.enter .bare t s with
  | ok outcome s' =>
      rw [ends] at leads
      exact absurd leads outside
  | error e s' =>
      rw [ends] at leads
      exact ⟨e, by rw [show s' = s from leads]⟩

theorem Healthy.arrived (healthy : m.Healthy) (enters : m.control = .enter t body) :
    ∃ f below, (m.store.thread t).frames = f :: below ∧ f.kind = .native ∧
      m.store.Arrived t f := by
  cases healthy with
  | settled sound goes =>
      obtain rfl : _ = Control.enter t body := enters
      simp at goes
  | @entered s activities r body f base apart working serves yieldable arrived =>
      obtain ⟨rfl, -⟩ := Control.enter.inj enters
      exact ⟨f, base, working.head, working.native, arrived⟩
  | leaving | failing | lost => contradiction

theorem Healthy.room (healthy : m.Healthy) (enters : m.control = .enter t body) :
    t < m.store.threads.size ∧
      (m.store.thread t).fits ((m.store.thread t).top + 1) = true := by
  obtain ⟨f, below, head, native, arrived⟩ := healthy.arrived enters
  refine ⟨Store.lt_of_frames head, ?_⟩
  have granted := arrived.room.granted native
  simp only [nativeSlots] at granted
  simp only [Thread.fits, decide_eq_true_eq, arrived.top]
  omega

structure Applies (m : Machine) (function : Builtin) (t : ThreadRef) (ref : TableRef) (x : Table) :
    Prop where
  enters : m.control = .enter t (.builtin function)
  argument : (m.store.thread t).argument? 1 = some (.table ref)
  valid : ref < m.store.tables.size
  table : m.store.table ref = x

structure Inserts (m : Machine) (t : ThreadRef) (ref : TableRef) (x : Table) : Prop where
  appends : (m.store.thread t).argumentCount = 2 → ∃ v x',
    (m.store.thread t).argument? 2 = some v ∧ m.Completes ref [] x' ∧
    (x'.length < 2 ^ 53 → x.Opened (x.length + 1) v x')
  inserts : ∀ position : Nat, (m.store.thread t).argumentCount = 3 →
    (m.store.thread t).integer? 2 = some (position : Int) →
    1 ≤ position → position ≤ x.length + 1 → ∃ v x',
      (m.store.thread t).argument? 3 = some v ∧ x.insert position v = .ok x' ∧
      m.Completes ref [] x' ∧ (x'.length < 2 ^ 53 → x.Opened position v x')

structure Removes (m : Machine) (t : ThreadRef) (ref : TableRef) (x : Table) : Prop where
  removes : ∀ position : Nat, (m.store.thread t).integerOr? 2 x.length = some (position : Int) →
    1 ≤ position → position ≤ x.length → ∃ x',
      x.remove position = .ok (x.get (.integer position), x') ∧
      m.Completes ref [x.get (.integer position)] x' ∧ x.Closed position x'
  clears : ∀ position : Nat, (m.store.thread t).integerOr? 2 x.length = some (position : Int) →
    position = x.length + 1 ∨ position = 0 ∧ x.length = 0 → ∃ x',
      m.Completes ref [x.get (.integer position)] x' ∧
      ∀ key, x'.get key = if key.same (.integer position) then .nil else x.get key

variable {x : Table}

theorem Applies.inserts (applies : m.Applies .insert t ref x) (sound : x.Sound)
    (small : x.length < 2 ^ 53) : m.Inserts t ref x := by
  obtain ⟨enters, argument, valid, rfl⟩ := applies
  refine ⟨fun count => ?_, fun position count place positive inside => ?_⟩
  · obtain ⟨v, value⟩ := Thread.exists_argument 2 (by omega) (Nat.le_of_eq count.symm)
    have ends := Sequence.insert_appends argument count value
    exact ⟨v, _, value, completes enters valid ends (Store.pushed_none _ t) rfl,
      fun bound => Table.opened_append sound small bound⟩
  · obtain ⟨v, value⟩ := Thread.exists_argument 3 (by omega) (Nat.le_of_eq count.symm)
    obtain ⟨x', done⟩ := (Table.insert_accepted_iff _ _ v).2 ⟨positive, inside⟩
    have ends := Sequence.insert_inserts argument count place value (by omega) (by omega) done
    exact ⟨v, x', value, done, completes enters valid ends (Store.pushed_none _ t) rfl,
      Table.opened_insert sound done⟩

theorem Applies.removes (applies : m.Applies .remove t ref x) (sound : x.Sound)
    (small : x.length < 2 ^ 53) (known : t < m.store.threads.size)
    (room : (m.store.thread t).fits ((m.store.thread t).top + 1) = true) :
    m.Removes t ref x := by
  obtain ⟨enters, argument, valid, rfl⟩ := applies
  refine ⟨fun position place positive inside => ?_, fun position place beside => ?_⟩
  · obtain ⟨x', done, closed⟩ := Table.closed_remove sound small positive inside
    have ends := Sequence.remove_removes argument place (by omega) (by omega) done
    obtain ⟨s', returns, tables, pushed⟩ := returnOne_returns
      (s := m.store.modifyTable ref fun _ => x') known room _
    exact ⟨x', done, completes enters valid (ends.trans returns) pushed tables, closed⟩
  · have ends := Sequence.remove_clears argument place (by omega)
    obtain ⟨s', returns, tables, pushed⟩ := returnOne_returns
      (s := m.store.modifyTable ref fun x => x.setInteger position .nil) known room _
    have read := Table.getInteger_eq_get (t := m.store.table ref) small
      (show -2 ^ 63 ≤ (position : Int) by omega) (by omega)
    refine ⟨_, completes enters valid (ends.trans returns) (read ▸ pushed) tables, ?_⟩
    refine (Table.assign_correct .nil sound (Table.keyError_integer _) ?_).2
    rwa [Table.length_assign_nil]

/-- What insertion and removal do to a table that is `x`, by themselves and as machine `m` calls
them: they shift the keys of its row, or they fail and nothing has changed. -/
structure Shifts (m : Machine) (x : Table) : Prop where
  table : x.Shifts
  inserts : ∀ t ref, m.Applies .insert t ref x → m.Inserts t ref x
  removes : ∀ t ref, m.Applies .remove t ref x → m.Removes t ref x
  insertsNowhere : ∀ t, m.control = .enter t (.builtin .insert) →
    ¬Sequence.Insertable t m.store → m.Refuses
  removesNothing : ∀ t, m.control = .enter t (.builtin .remove) →
    ¬Sequence.Removable t m.store → m.Refuses

theorem shifts_of_reachable {limits : Limits} (reachable : m.Reachable limits) (built : x.Built)
    (metatable : Option TableRef) : m.Shifts (x.withMetatable metatable) := by
  obtain ⟨small, inner⟩ := built.sound
  have sound : (x.withMetatable metatable).Sound := ⟨inner.accepted, inner.distinct, inner.beyond⟩
  have healthy := reachable.healthy
  refine ⟨Table.shifts sound small, fun t ref applies => applies.inserts sound small, ?_, ?_, ?_⟩
  · intro t ref applies
    obtain ⟨known, room⟩ := healthy.room applies.enters
    exact applies.removes sound small known room
  · exact fun t enters outside => refuses enters Sequence.leads_insert outside
  · intro t enters outside
    obtain ⟨known, room⟩ := healthy.room enters
    exact refuses enters (Sequence.leads_remove known room) outside

def singleItem : Table := Table.empty.edit (.setInteger 1 (.boolean true))

def insertingCall : Machine :=
  let s := (Vm.new .standard).store
  let s := (s.newTable singleItem).2
  let s := (s.newNative ⟨"insert", .builtin .insert, #[]⟩).2
  beginRestoringCall (Engine.setHeld s 0 true) [] 0 (.native 0)
    #[.table 1, .integer 1, .boolean false]

theorem shifts_of_reachable_inserting :
    insertingCall.Applies .insert 0 1 singleItem ∧ insertingCall.Shifts singleItem := by
  have made : Reachable .standard
      ⟨(((Vm.new .standard).store.newTable singleItem).2.newNative
        ⟨"insert", .builtin .insert, #[]⟩).2, [], .done #[]⟩ :=
    .single (.heap rfl rfl)
  have called : insertingCall.Reachable .standard := made.tail (.call rfl rfl _ _)
  have built : singleItem.Built := .edit _ .empty (by decide +kernel)
  exact ⟨⟨rfl, rfl, by decide +kernel, rfl⟩, shifts_of_reachable called built none⟩

end Machine

end RegisterVm
