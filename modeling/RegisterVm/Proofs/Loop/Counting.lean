import RegisterVm.Proofs.Machine.Standing
import RegisterVm.Proofs.Number.Sums
import RegisterVm.Proofs.Number.Whole

/-!
The two instructions of a counting loop. The first one takes a step off the initial value, and the
second one puts it back on, so that the value it compares with the limit is the initial value and as
many steps as there have been rounds. Of integers up to 2^51 none of these sums is rounded.
-/

namespace RegisterVm

open Number

/-- What a loop counts from and to, and by which steps. -/
structure Span where
  init : Int
  limit : Int
  step : Int
  nonzero : step ≠ 0
  initBound : init.natAbs ≤ 2 ^ 51
  limitBound : limit.natAbs ≤ 2 ^ 51
  stepBound : step.natAbs ≤ 2 ^ 51

namespace Span

variable {span : Span} {k : Nat}

def value (span : Span) (k : Nat) : Int := span.init + k * span.step

def rounds (span : Span) : Nat := (Int.fdiv (span.limit - span.init) span.step + 1).toNat

def Within (span : Span) (value : Int) : Prop :=
  if 0 < span.step then value ≤ span.limit else span.limit ≤ value

instance (span : Span) (value : Int) : Decidable (span.Within value) := by
  unfold Within
  infer_instance

theorem value_succ (span : Span) (k : Nat) : span.value (k + 1) - span.step = span.value k := by
  simp only [value]
  push_cast
  rw [Int.add_mul, Int.one_mul]
  omega

theorem within_iff : span.Within (span.value k) ↔ k < span.rounds := by
  have counted : k < span.rounds ↔ (k : Int) ≤ (span.limit - span.init).fdiv span.step := by
    rw [rounds]
    omega
  rw [counted, Within, value]
  split
  · rename_i positive
    rw [Int.fdiv_eq_ediv_of_nonneg _ (Int.le_of_lt positive), Int.le_ediv_iff_mul_le positive]
    omega
  · rename_i negative
    have positive : 0 < -span.step := by
      have := span.nonzero
      omega
    rw [← Int.neg_fdiv_neg, Int.fdiv_eq_ediv_of_nonneg _ (Int.le_of_lt positive),
      Int.le_ediv_iff_mul_le positive, Int.mul_neg]
    omega

theorem value_bound (within : k ≤ span.rounds) : (span.value k).natAbs ≤ 2 ^ 52 := by
  obtain ⟨init, limit, step, nonzero, initBound, limitBound, stepBound⟩ := span
  cases k with
  | zero => simpa [value] using Nat.le_trans initBound (by decide)
  | succ k =>
      have before := within_iff.2 within
      simp only [Within, value] at before ⊢
      push_cast
      rw [Int.add_mul, Int.one_mul]
      split at before
      · rename_i positive
        have ahead := Int.mul_nonneg (Int.natCast_nonneg k) (Int.le_of_lt positive)
        omega
      · rename_i negative
        have behind :=
          Int.mul_nonpos_of_nonneg_of_nonpos (Int.natCast_nonneg k) (Int.not_lt.1 negative)
        omega

end Span

namespace Context

variable {x : Context} {s : Store} {i : Instruction} {start bound width index : Float}

theorem loopNumber_ok {register : Nat} {f : Float} (reads : (x.registerIn s register).toNumber? = some f)
    (what : String) : x.loopNumber register what s = .ok f s := by
  simp only [loopNumber, bind, EStateM.bind, register_eq, reads]
  rfl

theorem execute_forPrep (first : (x.registerIn s i.a).toNumber? = some start)
    (last : (x.registerIn s (i.a + 1)).toNumber? = some bound)
    (gap : (x.registerIn s (i.a + 2)).toNumber? = some width) :
    x.execute .forPrep i s = .ok (.next (x.pc + i.sbx)) (s.modifyThread x.thread
      (Thread.assign x.frame.base [(i.a, .number (start - width)), (i.a + 1, .number bound),
        (i.a + 2, .number width)])) := by
  simp only [execute, forPrep, bind, EStateM.bind, loopNumber_ok first, loopNumber_ok last,
    loopNumber_ok gap]
  refine congrArg (EStateM.Result.ok _) ?_
  show ((s.modifyThread _ _).modifyThread _ _).modifyThread _ _ = _
  rw [Store.modifyThread_modifyThread, Store.modifyThread_modifyThread]
  rfl

theorem execute_forLoop {again : Bool} (value : x.registerIn s i.a = .number index)
    (last : x.registerIn s (i.a + 1) = .number bound) (gap : x.registerIn s (i.a + 2) = .number width)
    (compared : (if width > 0.0 then decide (index + width ≤ bound)
      else decide (bound ≤ index + width)) = again) :
    x.execute .forLoop i s =
      if again then
        .ok (.next (x.pc + i.sbx)) (s.modifyThread x.thread (Thread.assign x.frame.base
          [(i.a, .number (index + width)), (i.a + 3, .number (index + width))]))
      else .ok (.next x.pc) s := by
  simp only [execute, forLoop, bind, EStateM.bind, register_eq, value, last, gap, compared]
  cases again with
  | true =>
      refine congrArg (EStateM.Result.ok _) ?_
      show (s.modifyThread _ _).modifyThread _ _ = _
      rw [Store.modifyThread_modifyThread]
      rfl
  | false => rfl

end Context

theorem Span.within_eq {span : Span} {index bound width : Float} {value : Int}
    (first : Carries (index + width).toModel.unpack value)
    (last : Carries bound.toModel.unpack span.limit)
    (gap : Carries width.toModel.unpack span.step) :
    (if width > 0.0 then decide (index + width ≤ bound) else decide (bound ≤ index + width)) =
      decide (span.Within value) := by
  have ascends : width > 0.0 ↔ 0 < span.step := carries_origin.lt_iff gap
  by_cases positive : 0 < span.step
  · simp only [Within, if_pos (ascends.2 positive), if_pos positive, first.le_iff last]
  · simp only [Within, if_neg (mt ascends.1 positive), if_neg positive, last.le_iff first]

end RegisterVm
