import RegisterVm.Proofs.Host.Runs
import RegisterVm.Proofs.Loop.Counting

/-!
Counting loops in a run. However long the rounds of a loop take, they are as many as there are steps
from the initial value that do not go past the limit, each with the next value, and then the call goes
on behind the loop.
-/

namespace RegisterVm

open Number

/-- The two instructions of a counting loop, with the body between them or wherever else the second
one goes back to. -/
structure CountingLoop (code : Array Instruction) where
  prep : Nat
  entry : Nat
  back : Nat
  register : Nat
  prepares : ∃ i, code[prep]? = some i ∧ i.opcode? = some .forPrep ∧ i.a = register ∧
    (prep : Int) + 1 + i.sbx = back
  repeats : ∃ i, code[back]? = some i ∧ i.opcode? = some .forLoop ∧ i.a = register ∧
    (back : Int) + 1 + i.sbx = entry
  inside : entry < code.size
  behind : back + 1 < code.size

theorem CountingLoop.prep_ne_back {code : Array Instruction} (loop : CountingLoop code) :
    loop.prep ≠ loop.back := by
  obtain ⟨i, there, prepares, -⟩ := loop.prepares
  obtain ⟨j, here, repeats, -⟩ := loop.repeats
  intro same
  rw [same, here] at there
  rw [Option.some.inj there, prepares] at repeats
  contradiction

namespace Machine

variable {m m' : Machine} {a : Activation} {loop : CountingLoop a.code} {span : Span} {k : Nat}
  {turns : Nat → Nat} {value : Int} {host : Host}

theorem carries_of_toInteger? {v : Value} {i : Int} (read : v.toInteger? = some i) :
    ∃ f, v.toNumber? = some f ∧ Carries f.toModel.unpack i := by
  obtain ⟨f, number, whole⟩ := Option.bind_eq_some_iff.1 read
  exact ⟨f, number, carries_of_toInteger whole⟩

/-- The registers of the loop are numbers that carry this value, the limit and the step. -/
def Counter (m : Machine) (a : Activation) (loop : CountingLoop a.code) (span : Span)
    (value : Int) : Prop :=
  ∃ index bound width, m.register a loop.register = .number index ∧
    m.register a (loop.register + 1) = .number bound ∧
    m.register a (loop.register + 2) = .number width ∧ Carries index.toModel.unpack value ∧
    Carries bound.toModel.unpack span.limit ∧ Carries width.toModel.unpack span.step

theorem Counter.keeps (counter : m.Counter a loop span value)
    (same : ∀ r ≤ 2, m'.register a (loop.register + r) = m.register a (loop.register + r)) :
    m'.Counter a loop span value := by
  obtain ⟨index, bound, width, first, last, gap, carries⟩ := counter
  exact ⟨index, bound, width, (same 0 (by decide)).trans first, (same 1 (by decide)).trans last,
    (same 2 (by decide)).trans gap, carries⟩

theorem Stands.step_forPrep (stands : m.Stands a loop.prep) (host : Host)
    (first : (m.register a loop.register).toInteger? = some span.init)
    (last : (m.register a (loop.register + 1)).toInteger? = some span.limit)
    (gap : (m.register a (loop.register + 2)).toInteger? = some span.step) :
    (m.step host).Stands a loop.back ∧
      (m.step host).Counter a loop span (span.init - span.step) := by
  obtain ⟨i, code, opcode, register, jump⟩ := loop.prepares
  obtain ⟨start, startRead, startCarries⟩ := carries_of_toInteger? first
  obtain ⟨bound, boundRead, boundCarries⟩ := carries_of_toInteger? last
  obtain ⟨width, widthRead, widthCarries⟩ := carries_of_toInteger? gap
  rw [← register, ← registerIn_context m a loop.prep] at startRead boundRead widthRead
  have executes := Context.execute_forPrep startRead boundRead widthRead
  rw [show ((a.context loop.prep).pc : Int) + i.sbx = loop.back from jump] at executes
  obtain ⟨moved, registers⟩ :=
    stands.step host code opcode (Nat.lt_of_succ_lt loop.behind) executes
  rw [register] at registers
  have before := startCarries.sub_float widthCarries (by
    have := span.initBound
    have := span.stepBound
    omega)
  refine ⟨moved, start - width, bound, width, ?_, ?_, ?_, before, boundCarries, widthCarries⟩
  all_goals simp [registers]

theorem Stands.step_forLoop (stands : m.Stands a loop.back) (host : Host)
    (counter : m.Counter a loop span (value - span.step)) (small : value.natAbs ≤ 2 ^ 53) :
    if span.Within value then
      (m.step host).Stands a loop.entry ∧ (m.step host).Counter a loop span value ∧
        (m.step host).register a loop.register = .integer value ∧
        (m.step host).register a (loop.register + 3) = .integer value
    else (m.step host).Stands a (loop.back + 1) := by
  obtain ⟨i, code, opcode, register, jump⟩ := loop.repeats
  obtain ⟨index, bound, width, indexRead, boundRead, widthRead, indexCarries, boundCarries,
    widthCarries⟩ := counter
  have sum := indexCarries.add_float widthCarries (by simpa using small)
  have next := add_eq_ofInteger indexCarries widthCarries (by simpa using small) span.nonzero
  rw [Int.sub_add_cancel] at sum next
  have executes := Context.execute_forLoop (i := i) (x := a.context loop.back)
    (by rw [register, registerIn_context, indexRead])
    (by rw [register, registerIn_context, boundRead])
    (by rw [register, registerIn_context, widthRead])
    (Span.within_eq sum boundCarries widthCarries)
  by_cases again : span.Within value
  · rw [if_pos again]
    rw [decide_eq_true again, if_pos rfl,
      show ((a.context loop.back).pc : Int) + i.sbx = loop.entry from jump] at executes
    obtain ⟨moved, registers⟩ := stands.step host code opcode loop.inside executes
    rw [register, next] at registers
    rw [next] at sum
    refine ⟨moved, ⟨ofInteger value, bound, width, ?_, ?_, ?_, sum, boundCarries, widthCarries⟩,
      ?_, ?_⟩
    · simp [registers]
    · simp [registers, boundRead]
    · simp [registers, widthRead]
    · simp [registers, Value.integer]
    · simp [registers, Value.integer]
  · rw [if_neg again]
    rw [decide_eq_false again, if_neg (by decide)] at executes
    have unchanged := Store.modifyThread_id (m.advanced (a.context loop.back)) a.thread
    have stays := executes.trans (congrArg _ unchanged.symm)
    exact (@Stands.step m a loop.back _ i .forLoop [] stands host code opcode loop.behind stays).1

/-- The call comes back to its loop, with the three registers as they are now. -/
def EndsRound (m : Machine) (host : Host) (a : Activation) (loop : CountingLoop a.code) : Prop :=
  ∃ d, (m.after host d).Stands a loop.back ∧ (∀ j < d, ¬(m.after host j).Stands a loop.back) ∧
    ∀ r ≤ 2, (m.after host d).register a (loop.register + r) = m.register a (loop.register + r)

/-- The times at which a run comes to the end of the loop, up to the time `k`. The first one is right
after the loop has been set up. Each of the others ends a round, which begins right after the time
before and with its value in the register behind the loop's own three. -/
structure Counted (m : Machine) (host : Host) (a : Activation) (loop : CountingLoop a.code)
    (span : Span) (k : Nat) (turns : Nat → Nat) : Prop where
  first : turns 0 = 1
  round : ∀ j < k, turns j < turns (j + 1) ∧ (m.after host (turns j + 1)).Stands a loop.entry ∧
    (m.after host (turns j + 1)).register a (loop.register + 3) = .integer (span.value j)
  only : ∀ time ≤ turns k, (m.after host time).Stands a loop.back ↔ ∃ j ≤ k, time = turns j

theorem Counted.le (counted : m.Counted host a loop span k turns) {j : Nat} (within : j ≤ k) :
    turns j ≤ turns k := by
  induction within using Nat.decreasingInduction with
  | self => exact Nat.le_refl _
  | of_succ j within ih => exact Nat.le_trans (Nat.le_of_lt (counted.round j within).1) ih

theorem Counted.stands (counted : m.Counted host a loop span k turns) :
    (m.after host (turns k)).Stands a loop.back :=
  (counted.only _ (Nat.le_refl _)).2 ⟨k, Nat.le_refl k, rfl⟩

/-- A round more: the loop goes back to its body, which takes `d` steps to come to the loop. -/
theorem Counted.succ {d : Nat} (counted : m.Counted host a loop span k turns)
    (entered : (m.after host (turns k + 1)).Stands a loop.entry)
    (shown : (m.after host (turns k + 1)).register a (loop.register + 3) = .integer (span.value k))
    (back : (m.after host (turns k + 1 + d)).Stands a loop.back)
    (before : ∀ j < d, ¬(m.after host (turns k + 1 + j)).Stands a loop.back) :
    m.Counted host a loop span (k + 1) (Function.update turns (k + 1) (turns k + 1 + d)) := by
  have old {j : Nat} (within : j ≤ k) :
      Function.update turns (k + 1) (turns k + 1 + d) j = turns j :=
    Function.update_of_ne (by omega) _ _
  have new : Function.update turns (k + 1) (turns k + 1 + d) (k + 1) = turns k + 1 + d :=
    Function.update_self ..
  refine ⟨(old (Nat.zero_le k)).trans counted.first, fun j within => ?_, fun time within => ?_⟩
  · rcases Nat.lt_or_eq_of_le (Nat.le_of_lt_succ within) with earlier | rfl
    · rw [old (Nat.le_of_lt earlier), old earlier]
      exact counted.round j earlier
    · rw [old (Nat.le_refl j), new]
      exact ⟨by omega, entered, shown⟩
  · rw [new] at within
    by_cases earlier : time ≤ turns k
    · rw [counted.only time earlier]
      constructor
      · rintro ⟨j, inside, rfl⟩
        exact ⟨j, Nat.le_succ_of_le inside, (old inside).symm⟩
      · rintro ⟨j, inside, rfl⟩
        rcases Nat.lt_or_eq_of_le inside with inside | rfl
        · exact ⟨j, Nat.le_of_lt_succ inside, old (Nat.le_of_lt_succ inside)⟩
        · omega
    · obtain ⟨j, rfl⟩ : ∃ j, time = turns k + 1 + j := ⟨time - (turns k + 1), by omega⟩
      constructor
      · intro here
        have last : ¬j < d := fun less => before j less here
        exact ⟨k + 1, Nat.le_refl _, by omega⟩
      · rintro ⟨j', inside, same⟩
        rcases Nat.lt_or_eq_of_le inside with inside | rfl
        · rw [old (Nat.le_of_lt_succ inside)] at same
          have := counted.le (Nat.le_of_lt_succ inside)
          omega
        · rw [same, new]
          exact back

section Run

variable (stands : m.Stands a loop.prep)
  (first : (m.register a loop.register).toInteger? = some span.init)
  (last : (m.register a (loop.register + 1)).toInteger? = some span.limit)
  (gap : (m.register a (loop.register + 2)).toInteger? = some span.step)

include stands first last gap

theorem counted_zero : m.Counted host a loop span 0 (fun _ => 1) ∧
    (m.after host 1).Counter a loop span (span.value 0 - span.step) := by
  obtain ⟨moved, counter⟩ := stands.step_forPrep host first last gap
  refine ⟨⟨rfl, nofun, fun time within => ⟨fun here => ?_, ?_⟩⟩, ?_⟩
  · rcases Nat.eq_zero_or_pos time with rfl | later
    · exact absurd (stands.unique here) loop.prep_ne_back
    · exact ⟨0, Nat.le_refl 0, by omega⟩
  · rintro ⟨j, -, rfl⟩
    exact moved
  · rw [Span.value, Int.natCast_zero, Int.zero_mul, Int.add_zero]
    exact counter

variable (body : ∀ time k, k < span.rounds → (m.after host time).Stands a loop.entry →
  (m.after host time).register a loop.register = .integer (span.value k) →
  (m.after host time).register a (loop.register + 3) = .integer (span.value k) →
  (m.after host time).EndsRound host a loop)

include body

theorem exists_counted (within : k ≤ span.rounds) : ∃ turns, m.Counted host a loop span k turns ∧
    (m.after host (turns k)).Counter a loop span (span.value k - span.step) := by
  induction k with
  | zero => exact ⟨_, counted_zero stands first last gap⟩
  | succ k ih =>
      obtain ⟨turns, counted, counter⟩ := ih (Nat.le_of_succ_le within)
      have bound := Span.value_bound (Nat.le_of_succ_le within)
      have goes := counted.stands.step_forLoop host counter (by omega)
      rw [if_pos (Span.within_iff.2 within)] at goes
      obtain ⟨entered, going, value, shown⟩ := goes
      obtain ⟨d, back, before, same⟩ := body (turns k + 1) k within entered value shown
      rw [← after_add] at back same
      simp only [← after_add] at before
      refine ⟨_, counted.succ entered shown back before, ?_⟩
      rw [Function.update_self, Span.value_succ]
      exact going.keeps same

/-- The rounds of a counting loop, however long the body takes for each. There are exactly as many
as there are values that are not past the limit, the register behind the loop's own three has the
next one in each round, and after the last round the call goes on behind the loop. -/
theorem loop_rounds : ∃ turns, m.Counted host a loop span span.rounds turns ∧
    (m.after host (turns span.rounds + 1)).Stands a (loop.back + 1) := by
  obtain ⟨turns, counted, counter⟩ :=
    exists_counted stands first last gap body (Nat.le_refl span.rounds)
  have bound := Span.value_bound (Nat.le_refl span.rounds)
  have leaves := counted.stands.step_forLoop host counter (by omega)
  rw [if_neg (mt Span.within_iff.1 (Nat.lt_irrefl _))] at leaves
  exact ⟨turns, counted, leaves⟩

end Run

def copying : Prototype :=
  { Prototype.empty with code := #[.asbx .forPrep 0 1, .abc .move 4 3 0, .asbx .forLoop 0 (-2),
      .abc .ret 0 1 0] }

def copyingLoop : CountingLoop (holdingCall copying).code where
  prep := 0
  entry := 1
  back := 2
  register := 0
  prepares := ⟨_, rfl, by decide, by decide, by decide⟩
  repeats := ⟨_, rfl, by decide, by decide, by decide⟩
  inside := by decide
  behind := by decide

theorem copying_endsRound (entered : m.Stands (holdingCall copying) 1) :
    m.EndsRound host (holdingCall copying) copyingLoop := by
  obtain ⟨moved, registers⟩ :=
    entered.step host rfl (by decide) (by decide) (Context.execute_move _ _ (.abc .move 4 3 0))
  refine ⟨1, moved, fun j less here => ?_, fun r within => ?_⟩
  · obtain rfl : j = 0 := by omega
    exact absurd (entered.unique here) (by decide)
  · have apart : copyingLoop.register + r ≠ 4 := by
      show 0 + r ≠ 4
      omega
    exact (congrFun registers _).trans (Function.update_of_ne apart _ _)

def odds : Span := ⟨1, 6, 2, by decide, by decide, by decide, by decide⟩

theorem loop_rounds_odds : odds.rounds = 3 ∧ ∃ turns,
    (holding copying #[.integer 1, .string "6", .integer 2]).Counted .bare (holdingCall copying)
      copyingLoop odds 3 turns ∧
    ((holding copying #[.integer 1, .string "6", .integer 2]).after .bare (turns 3 + 1)).Stands
      (holdingCall copying) 3 :=
  ⟨rfl, loop_rounds (holding_stands _ _) rfl rfl rfl
    fun _ _ _ entered _ _ => copying_endsRound entered⟩

end Machine

end RegisterVm
