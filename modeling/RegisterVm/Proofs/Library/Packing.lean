import RegisterVm.Proofs.Call.Opening
import RegisterVm.Proofs.Library.Sequences
import RegisterVm.Proofs.Number.Integers
import RegisterVm.Proofs.Table.Filling

/-!
The library's packing and unpacking. Packing puts the arguments of a call into a new table, and
unpacking returns the values of a row of keys, whichever part of the table holds them.
-/

namespace RegisterVm

variable {t : ThreadRef} {s : Store} {ref : TableRef}

theorem Thread.getElem?_arguments {th : Thread} {f : Frame} (innermost : th.frame? = some f)
    (exist : f.top ≤ th.stack.size) (k : Nat) : th.arguments[k]? = th.argument? (k + 1) := by
  simp only [arguments, argument?, innermost, slots, Array.getElem?_extract]
  by_cases inside : f.base + k < f.top
  · have given : (k + 1 == 0 || decide (f.top < f.base + (k + 1))) = false := by
      simp only [Bool.or_eq_false_iff, beq_eq_false_iff_ne, decide_eq_false_iff_not]
      omega
    rw [if_pos (by omega), given, if_neg Bool.false_ne_true, Nat.add_succ_sub_one, get,
      Array.getD_eq_getD_getElem?,
      Array.getElem?_eq_getElem (show f.base + k < th.stack.size by omega)]
    rfl
  · have missing : (k + 1 == 0 || decide (f.top < f.base + (k + 1))) = true := by
      simp only [Bool.or_eq_true, decide_eq_true_eq]
      omega
    rw [if_neg (by omega), missing, if_pos rfl]

theorem pushAll_pushed (values : List Value) (valid : t < s.threads.size)
    (fits : (s.thread t).top + values.length ≤ (s.thread t).limits.maxStack) :
    ∃ s', pushAll t values s = .ok () s' ∧
      s'.pushed? t (pure (.returns values.length)) = some values := by
  obtain ⟨s', done, becomes⟩ := pushAll_ok values valid fits
  have looks := becomes.looks valid
  have top : (s'.thread t).top = (s.thread t).top + values.length := looks.top
  refine ⟨s', done, ?_⟩
  simp only [Store.pushed?, pure, EStateM.pure, top]
  rw [Nat.min_eq_left (Nat.le_add_left _ _), Nat.add_sub_cancel, Thread.values_congr looks.slots]
  exact congrArg some (Thread.values_putAll _ _ values)

namespace Sequence

theorem span_one (count : Nat) : span 1 count = count := by
  rw [span]
  omega

def between (x : Table) (first last : Int) : List Value :=
  (List.range (span first last)).map fun (k : Nat) => x.getInteger (first + k)

theorem unpack_unpacks {first last : Int}
    (table : (s.thread t).argument? 1 = some (.table ref))
    (starts : (s.thread t).integerOr? 2 1 = some first)
    (ends : (s.thread t).integerOr? 3 (s.table ref).length = some last)
    (few : last - first + 1 < maxUnpack) (valid : t < s.threads.size)
    (fits : (s.thread t).top + span first last ≤ (s.thread t).limits.maxStack) :
    ∃ s', unpack t s = .ok (.returns (span first last)) s' ∧
      s'.pushed? t (pure (.returns (span first last))) =
        some (between (s.table ref) first last) := by
  have given : checkTable t 1 s = .ok ref s := (table ▸ Checks.checkTable).gives
  have lower : checkOptionalInteger t 2 1 s = .ok first s :=
    (starts ▸ Checks.checkOptionalInteger 1).gives
  have upper : checkLast t ref 3 s = .ok last s := (ends ▸ Checks.checkLast ref).gives
  by_cases empty : last < first
  · have nothing : span first last = 0 := by rw [span]; omega
    refine ⟨s, ?_, ?_⟩
    · simp only [unpack, bind, EStateM.bind, given, lower, upper, empty, if_true, nothing]
      rfl
    · rw [between, nothing]
      exact Store.pushed_none s t
  · have counted : (between (s.table ref) first last).length = span first last := by
      rw [between, List.length_map, List.length_range]
    rw [← counted] at fits
    obtain ⟨s', pushed, results⟩ := pushAll_pushed _ valid fits
    rw [counted] at results
    refine ⟨s', ?_, results⟩
    rw [between] at pushed
    simp only [unpack, bind, EStateM.bind, given, lower, upper, if_neg empty, look,
      if_neg (Int.not_le.2 few), pushed]
    rfl

theorem pack_packs (valid : t < s.threads.size)
    (room : (s.thread t).fits ((s.thread t).top + 1) = true) :
    ∃ s', pack t s = .ok (.returns 1) s' ∧
      s'.tables = s.tables.push ((Table.ofValues (s.thread t).arguments).setString "n"
        (.integer (s.thread t).arguments.size)) ∧
      s'.pushed? t (pure (.returns 1)) = some [.table s.tables.size] :=
  returnOne_returns (s := (s.newTable _).2) valid room _

end Sequence

theorem Thread.integerOr_integer {th : Thread} {index : Nat} {i : Int} (fallback : Int)
    (argument : th.argument? index = some (.integer i)) (small : i.natAbs ≤ 2 ^ 53) :
    th.integerOr? index fallback = some i := by
  have read : th.integer? index = some i := by
    rw [integer?, argument]
    exact Number.toInteger_ofInteger small
  simp only [integerOr?, argument, ← read]
  rfl

theorem Thread.integerOr_missing {th : Thread} {index : Nat} (fallback : Int)
    (missing : Checks.given? (th.argument? index) = none) :
    th.integerOr? index fallback = some fallback := by
  simp only [integerOr?]
  cases argument : th.argument? index with
  | none => rfl
  | some v =>
      rw [argument] at missing
      cases v <;> first | rfl | contradiction

theorem Table.between_row {x : Table} {count : Nat} (small : x.length < 2 ^ 53)
    (few : count < 2 ^ 53) : Sequence.between x 1 count =
      (List.range count).map fun k => x.get (.integer (k + 1 : Nat)) := by
  rw [Sequence.between, Sequence.span_one]
  refine List.map_congr_left fun k member => ?_
  have inside := List.mem_range.1 member
  rw [show (1 : Int) + k = (k + 1 : Nat) by omega]
  exact getInteger_eq_get small (by omega) (by omega)

theorem Table.Packed.row {x : Table} {values : List Value} (packed : x.Packed values) :
    ((List.range values.length).map fun k => x.get (.integer (k + 1 : Nat))) = values := by
  refine List.ext_getElem (by simp) fun k _ inside => ?_
  rw [List.getElem_map, List.getElem_range]
  exact packed.items k _ (List.getElem?_eq_getElem inside)

namespace Machine

variable {m m' : Machine}

/-- A library function has been called on thread `t` with the arguments. -/
structure Takes (m : Machine) (function : Builtin) (t : ThreadRef) (arguments : Array Value) :
    Prop where
  enters : m.control = .enter t (.builtin function)
  arguments : (m.store.thread t).arguments = arguments

theorem Healthy.getElem?_arguments {body : NativeBody} (healthy : m.Healthy)
    (enters : m.control = .enter t body) (k : Nat) :
    (m.store.thread t).arguments[k]? = (m.store.thread t).argument? (k + 1) := by
  obtain ⟨f, below, head, -, arrived⟩ := healthy.arrived enters
  have innermost : (m.store.thread t).frame? = some f := by
    rw [Thread.frame?, head]
    rfl
  exact Thread.getElem?_arguments innermost arrived.room.exist k

theorem Healthy.unpacks {first last : Int} (healthy : m.Healthy)
    (enters : m.control = .enter t (.builtin .unpack))
    (table : (m.store.thread t).argument? 1 = some (.table ref))
    (starts : (m.store.thread t).integerOr? 2 1 = some first)
    (ends : (m.store.thread t).integerOr? 3 (m.store.table ref).length = some last)
    (few : last - first + 1 < Sequence.maxUnpack)
    (fits : (m.store.thread t).fits ((m.store.thread t).top + Sequence.span first last) = true) :
    m.results? = some (Sequence.between (m.store.table ref) first last) := by
  obtain ⟨valid, -⟩ := healthy.room enters
  obtain ⟨s', returns, pushed⟩ :=
    Sequence.unpack_unpacks table starts ends few valid (of_decide_eq_true fits)
  exact results_of_returns enters returns pushed

/-- The packing that machine `m` has been called for puts `values` into a new table. -/
structure Packs (m : Machine) (values : Array Value) : Prop where
  results : m.results? = some [.table m.store.tables.size]
  packed : ((m.step .bare).store.table m.store.tables.size).Packed values.toList
  others : ∀ other < m.store.tables.size,
    (m.step .bare).store.table other = m.store.table other
  /-- Unpacking that table, as long as it stays as it is, returns the values again. -/
  restored : ∀ limits (m' : Machine) t', m'.Reachable limits →
    m'.Takes .unpack t' #[.table m.store.tables.size, .integer 1, .integer values.size] →
    m'.store.table m.store.tables.size = (m.step .bare).store.table m.store.tables.size →
    (m'.store.thread t').fits ((m'.store.thread t').top + values.size) = true →
    m'.results? = some values.toList

theorem Takes.unpacks {values : Array Value}
    (takes : m.Takes .unpack t #[.table ref, .integer 1, .integer values.size])
    (healthy : m.Healthy) (packed : (m.store.table ref).Packed values.toList)
    (small : (m.store.table ref).length < 2 ^ 53) (few : values.size < 2 ^ 20)
    (fits : (m.store.thread t).fits ((m.store.thread t).top + values.size) = true) :
    m.results? = some values.toList := by
  have arguments := healthy.getElem?_arguments takes.enters
  rw [takes.arguments] at arguments
  have starts := Thread.integerOr_integer 1 (arguments 1).symm (by decide)
  have ends := Thread.integerOr_integer (m.store.table ref).length (arguments 2).symm
    (i := values.size) (by omega)
  have results := healthy.unpacks takes.enters (arguments 0).symm starts ends
    (by rw [Sequence.maxUnpack]; omega) (by rwa [Sequence.span_one])
  have row := packed.row
  rw [Array.length_toList] at row
  rwa [Table.between_row small (by omega), row] at results

theorem Takes.packs {values : Array Value} (takes : m.Takes .pack t values)
    (healthy : m.Healthy) (few : values.size < 2 ^ 20) : m.Packs values := by
  obtain ⟨valid, room⟩ := healthy.room takes.enters
  obtain ⟨s', ends, tables, pushed⟩ := Sequence.pack_packs valid room
  obtain ⟨-, kept⟩ := step_of_returns takes.enters ends
  rw [takes.arguments] at tables
  have filled : (Table.ofValues values).Filled values.toList := Table.filled_ofValues (by omega)
  obtain ⟨small, packed⟩ := filled.packed (by rw [Array.length_toList]; omega)
  have made : (m.step .bare).store.table m.store.tables.size =
      (Table.ofValues values).setString "n" (.integer values.toList.length) := by
    simp [Store.table, kept, tables]
  rw [← made] at small packed
  refine ⟨results_of_returns takes.enters ends pushed, packed, fun other below => ?_, ?_⟩
  · simp [Store.table, kept, tables, Array.getD_eq_getD_getElem?, Array.getElem?_push,
      Nat.ne_of_lt below]
  · intro limits m' t' reachable unpacking same fits
    rw [← same] at small packed
    exact unpacking.unpacks reachable.healthy packed small few fits

/-- Unpacking undoes packing, wherever there are nils among the arguments; without bounds it returns
the row of its table. -/
theorem unpack_undoes_pack {limits : Limits} (reachable : m.Reachable limits) :
    (∀ t values, m.Takes .pack t values → values.size < 2 ^ 20 → m.Packs values) ∧
    ∀ t ref, m.control = .enter t (.builtin .unpack) →
      (m.store.thread t).argument? 1 = some (.table ref) →
      Checks.given? ((m.store.thread t).argument? 2) = none →
      Checks.given? ((m.store.thread t).argument? 3) = none →
      (m.store.table ref).length < 2 ^ 20 →
      (m.store.thread t).fits ((m.store.thread t).top + (m.store.table ref).length) = true →
      m.results? = some ((List.range (m.store.table ref).length).map fun k =>
        (m.store.table ref).get (.integer (k + 1 : Nat))) := by
  refine ⟨fun t values takes few => takes.packs reachable.healthy few, ?_⟩
  intro t ref enters table first last short fits
  have starts := Thread.integerOr_missing 1 first
  have ends := Thread.integerOr_missing (m.store.table ref).length last
  have results := reachable.healthy.unpacks enters table starts ends
    (by rw [Sequence.maxUnpack]; omega) (by rwa [Sequence.span_one])
  rwa [Table.between_row (by omega) (by omega)] at results

def packingCall : Machine :=
  let s := ((Vm.new .standard).store.newNative ⟨"pack", .builtin .pack, #[]⟩).2
  beginRestoringCall (Engine.setHeld s 0 true) [] 0 (.native 0) #[.nil, .boolean true, .nil]

def unpackingCall : Machine :=
  let s := ((Vm.new .standard).store.newTable ((packingCall.step .bare).store.table 1)).2
  let s := (s.newNative ⟨"unpack", .builtin .unpack, #[]⟩).2
  beginRestoringCall (Engine.setHeld s 0 true) [] 0 (.native 0) #[.table 1, .integer 1, .integer 3]

theorem unpack_undoes_pack_nils : packingCall.Packs #[.nil, .boolean true, .nil] ∧
    unpackingCall.results? = some [.nil, .boolean true, .nil] := by
  have made : Reachable .standard
      ⟨((Vm.new .standard).store.newNative ⟨"pack", .builtin .pack, #[]⟩).2, [], .done #[]⟩ :=
    .single (.heap rfl rfl)
  have packing : packingCall.Reachable .standard := made.tail (.call rfl rfl _ _)
  have packs := (unpack_undoes_pack packing).1 0 _ ⟨rfl, rfl⟩ (by decide)
  have given : Reachable .standard
      ⟨(((Vm.new .standard).store.newTable ((packingCall.step .bare).store.table 1)).2.newNative
        ⟨"unpack", .builtin .unpack, #[]⟩).2, [], .done #[]⟩ := .single (.heap rfl rfl)
  have unpacking : unpackingCall.Reachable .standard := given.tail (.call rfl rfl _ _)
  exact ⟨packs, packs.restored _ _ 0 unpacking ⟨rfl, rfl⟩ rfl (by decide +kernel)⟩

end Machine

end RegisterVm
