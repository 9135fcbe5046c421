import RegisterVm.Proofs.Library.Sequences
import RegisterVm.Proofs.Machine.Standing
import RegisterVm.Proofs.Number.Reading

/-!
Numbers that go through text. What the library and the concatenating instruction make of an integer
is text that arithmetic takes for the same double.
-/

namespace RegisterVm

open Number

def Thread.separator? (th : Thread) (index : Nat) : Option String :=
  match Checks.given? (th.argument? index) with
  | none => some ""
  | some v => v.concatText?

namespace Checks

variable {t : ThreadRef} {index : Nat} {s : Store}

theorem checkString : Checks (checkString t index) s
    (((s.thread t).argument? index).bind Value.concatText?) := by
  refine of_argument (g := fun argument => argument.bind Value.concatText?) fun argument => ?_
  split
  · rename_i line found
    rw [found]
    exact pure line
  · rename_i missing
    rw [missing]
    exact expected _

theorem given?_eq_some {argument : Option Value} {v : Value}
    (present : given? argument = some v) : argument = some v := by
  cases argument with
  | none => contradiction
  | some w =>
      cases w with
      | nil => contradiction
      | _ => exact present

end Checks

namespace Sequence

variable {t : ThreadRef} {s : Store} {ref : TableRef} {f : Float} {key : Int}

theorem concatFrom_number {x : Table} (separator : String)
    (holds : x.getInteger key = .number f) : concatFrom x separator 1 key "" = .ok (text f) := by
  simp only [concatFrom, holds, Value.concatText?, beq_self_eq_true, if_true, String.empty_append]

theorem concat_number (table : (s.thread t).argument? 1 = some (.table ref))
    (separated : ((s.thread t).separator? 2).isSome = true)
    (first : (s.thread t).integerOr? 3 1 = some key)
    (last : (s.thread t).integerOr? 4 (s.table ref).length = some key)
    (holds : (s.table ref).getInteger key = .number f) :
    concat t s = returnOne t (.string (text f)) s := by
  have given : checkTable t 1 s = .ok ref s := (table ▸ Checks.checkTable).gives
  have starts : checkOptionalInteger t 3 1 s = .ok key s :=
    (first ▸ Checks.checkOptionalInteger 1).gives
  have ends : checkLast t ref 4 s = .ok key s := (last ▸ Checks.checkLast ref).gives
  have single : span key key = 1 := by simp [span]
  have optional := (@Checks.optional s t 2).gives
  rw [Thread.separator?] at separated
  cases present : Checks.given? ((s.thread t).argument? 2) with
  | none =>
      rw [present] at optional
      simp only [concat, bind, EStateM.bind, given, optional, pure, EStateM.pure, starts, ends,
        look, single, concatFrom_number "" holds]
  | some v =>
      rw [present] at optional separated
      obtain ⟨separator, written⟩ := Option.isSome_iff_exists.1 separated
      have argument := Checks.given?_eq_some present
      have between : ((s.thread t).argument? 2).bind Value.concatText? = some separator :=
        argument ▸ written
      have second : checkString t 2 s = .ok separator s := (between ▸ Checks.checkString).gives
      simp only [concat, bind, EStateM.bind, given, optional, second, starts, ends, look, single,
        concatFrom_number separator holds]

end Sequence

theorem Basic.tostring_number {t : ThreadRef} {s : Store} {f : Float}
    (argument : (s.thread t).argument? 1 = some (.number f)) :
    tostring t s = returnOne t (.string (text f)) s := by
  have first : checkAny t 1 s = .ok (.number f) s := (argument ▸ Checks.checkAny).gives
  simp only [tostring, bind, EStateM.bind, first]
  rfl

theorem join_single (pieces : Nat → String) {place : Nat} (count : Nat)
    (blank : ∀ k < count, k ≠ place → pieces k = "") :
    String.join ((List.range count).map pieces) = if place < count then pieces place else "" := by
  induction count with
  | zero => rfl
  | succ count ih =>
      rw [List.range_succ, List.map_append, String.join_append,
        ih fun k below => blank k (by omega)]
      by_cases here : place = count
      · subst here
        simp [String.join_cons]
      · have last := blank count (Nat.lt_succ_self count) (Ne.symm here)
        have same : place < count + 1 ↔ place < count := by omega
        simp [same, last]

namespace Context

variable {x : Context} {s : Store}

theorem concatFrom_join {pieces : Nat → String} (count : Nat) {first : Nat} (line : String)
    (each : ∀ k < count, (x.registerIn s (first + k)).concatText? = some (pieces k)) :
    x.concatFrom count first line s =
      .ok (line ++ String.join ((List.range count).map pieces)) s := by
  induction count generalizing first line pieces with
  | zero => simp [concatFrom, pure, EStateM.pure]
  | succ count ih =>
      have head := each 0 (Nat.succ_pos count)
      have rest : ∀ k < count,
          (x.registerIn s (first + 1 + k)).concatText? = some (pieces (k + 1)) := by
        intro k below
        rw [Nat.add_assoc, Nat.add_comm 1]
        exact each (k + 1) (Nat.succ_lt_succ below)
      rw [Nat.add_zero] at head
      simp only [concatFrom, bind, EStateM.bind, register_eq, head]
      rw [ih _ rest, List.range_succ_eq_map, List.map_cons, List.map_map, String.join_cons,
        String.append_assoc]
      rfl

theorem execute_concat {i : Instruction} {pieces : Nat → String}
    (each : ∀ k < i.c + 1 - i.b, (x.registerIn s (i.b + k)).concatText? = some (pieces k)) :
    x.execute .concat i s = .ok (.next x.pc) (s.modifyThread x.thread
      (Thread.assign x.frame.base
        [(i.a, .string (String.join ((List.range (i.c + 1 - i.b)).map pieces)))])) := by
  have joined := concatFrom_join _ "" each
  rw [String.empty_append] at joined
  simp only [execute, bind, EStateM.bind, joined]
  rfl

end Context

/-- A string with which arithmetic does what it does with the number `f`. -/
structure Value.Spells (v : Value) (f : Float) : Prop where
  string : ∃ line, v = .string line
  read : v.toNumber? = some f
  left : ∀ op other, binary? op v other = binary? op (.number f) other
  right : ∀ op other, binary? op other v = binary? op other (.number f)
  alone : ∀ op, unary? op v = unary? op (.number f)

theorem spells_text {f : Float} {n : Int} (whole : toInteger? f = some n) :
    (Value.string (text f)).Spells f := by
  have read : (Value.string (text f)).toNumber? = (Value.number f).toNumber? := ofText?_text whole
  have integer : (Value.string (text f)).toInteger? = (Value.number f).toInteger? := by
    rw [Value.toInteger?, read]
    rfl
  refine ⟨⟨_, rfl⟩, read, fun op other => ?_, fun op other => ?_, fun op => ?_⟩
  · rw [binary?, binary?, read, integer]
  · rw [binary?, binary?, read, integer]
  · rw [unary?.eq_def, unary?.eq_def, read, integer]

namespace Machine

variable {m : Machine} {f : Float}

/-- Wherever machine `m` is about to turn the number `f` into text, it gets a string that spells
`f`. -/
structure Spells (m : Machine) (f : Float) : Prop where
  tostring : ∀ t, m.control = .enter t (.builtin .tostring) →
    (m.store.thread t).argument? 1 = some (.number f) →
    ∃ v, m.results? = some [v] ∧ v.Spells f
  tableConcat : ∀ t ref key, m.control = .enter t (.builtin .tableConcat) →
    (m.store.thread t).argument? 1 = some (.table ref) →
    ((m.store.thread t).separator? 2).isSome = true →
    (m.store.thread t).integerOr? 3 1 = some key →
    (m.store.thread t).integerOr? 4 (m.store.table ref).length = some key →
    (m.store.table ref).getInteger key = .number f →
    ∃ v, m.results? = some [v] ∧ v.Spells f
  concat : ∀ host a pc i place, m.Stands a pc → a.code[pc]? = some i →
    i.opcode? = some .concat → pc + 1 < a.code.size → i.b ≤ place → place ≤ i.c →
    m.register a place = .number f →
    (∀ other, i.b ≤ other → other ≤ i.c → other ≠ place → m.register a other = .string "") →
    ∃ v, (m.step host).Stands a (pc + 1) ∧
      (m.step host).register a = Function.update (m.register a) i.a v ∧ v.Spells f

theorem Healthy.returns {t : ThreadRef} {body : NativeBody} {v : Value} (healthy : m.Healthy)
    (enters : m.control = .enter t body)
    (ends : body.enter .bare t m.store = returnOne t v m.store) : m.results? = some [v] := by
  obtain ⟨known, room⟩ := healthy.room enters
  obtain ⟨s', returned, -, pushed⟩ := returnOne_returns known room v
  exact results_of_returns enters (ends.trans returned) pushed

theorem Stands.concat {a : Activation} {pc place : Nat} {i : Instruction} (stands : m.Stands a pc)
    (host : Host) (code : a.code[pc]? = some i) (opcode : i.opcode? = some .concat)
    (inside : pc + 1 < a.code.size) (above : i.b ≤ place) (below : place ≤ i.c)
    (holds : m.register a place = .number f)
    (blank : ∀ other, i.b ≤ other → other ≤ i.c → other ≠ place →
      m.register a other = .string "") :
    (m.step host).Stands a (pc + 1) ∧
      (m.step host).register a = Function.update (m.register a) i.a (.string (text f)) := by
  have each : ∀ k < i.c + 1 - i.b,
      ((a.context pc).registerIn (m.advanced (a.context pc)) (i.b + k)).concatText? =
        some (if k = place - i.b then text f else "") := by
    intro k bound
    rw [registerIn_context]
    split
    · rename_i here
      rw [here, Nat.add_sub_cancel' above, holds]
      rfl
    · rw [blank (i.b + k) (by omega) (by omega) (by omega)]
      rfl
  have joined := join_single (fun k => if k = place - i.b then text f else "") (i.c + 1 - i.b)
    fun k _ apart => if_neg apart
  rw [if_pos (by omega), if_pos rfl] at joined
  have executed := Context.execute_concat each
  rw [joined] at executed
  exact stands.step host code opcode inside executed

/-- An integer comes back from its text, its sign included even if it is zero: the text is read as
the same double, and whatever a reachable machine makes of the number spells it. -/
theorem text_restores {n : Int} (whole : toInteger? f = some n) :
    ofText? (text f) = some f ∧
      ∀ limits (m : Machine), m.Reachable limits → m.Spells f := by
  have spells := spells_text whole
  refine ⟨ofText?_text whole, fun limits m reachable => ⟨?_, ?_, ?_⟩⟩
  · intro t enters argument
    exact ⟨_, reachable.healthy.returns enters (Basic.tostring_number argument), spells⟩
  · intro t ref key enters table separated first last holds
    have ends := Sequence.concat_number table separated first last holds
    exact ⟨_, reachable.healthy.returns enters ends, spells⟩
  · intro host a pc i place stands code opcode inside above below holds blank
    obtain ⟨moved, registers⟩ := stands.concat host code opcode inside above below holds blank
    exact ⟨_, moved, registers, spells⟩

def printingCall : Machine :=
  let s := ((Vm.new .standard).store.newNative ⟨"tostring", .builtin .tostring, #[]⟩).2
  beginRestoringCall (Engine.setHeld s 0 true) [] 0 (.native 0) #[.number (-0.0)]

theorem text_restores_zero : ofText? (text (-0.0)) = some (-0.0) ∧
    ∃ v, printingCall.results? = some [v] ∧ v.Spells (-0.0) := by
  have made : Reachable .standard
      ⟨((Vm.new .standard).store.newNative ⟨"tostring", .builtin .tostring, #[]⟩).2, [],
        .done #[]⟩ := .single (.heap rfl rfl)
  have called : printingCall.Reachable .standard := made.tail (.call rfl rfl _ _)
  obtain ⟨read, spells⟩ := text_restores (f := -0.0) (n := 0) (by decide +kernel)
  exact ⟨read, (spells _ _ called).tostring 0 rfl rfl⟩

end Machine

end RegisterVm
