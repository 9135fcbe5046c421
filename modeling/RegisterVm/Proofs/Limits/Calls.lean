import RegisterVm.Proofs.Limits.Stores
import RegisterVm.Proofs.Machine.Coroutines
import RegisterVm.Proofs.Machine.Unwinding

/-!
Entering, leaving and unwinding calls within the limits. A call reserves the slots that its callee
may work on; its results come to lie below where they were.
-/

namespace RegisterVm

variable {limits : Limits} {s s' : Store} {t : ThreadRef}

structure Store.Admits (limits : Limits) (t : ThreadRef) (callee : Entered) (s s' : Store) :
    Prop where
  fits : s'.Fits limits
  spares : s.Spares t s'
  frames : ∃ f, (s'.thread t).frames = f :: (s.thread t).frames ∧ f.kind = callee.kind ∧
    f.Perched s'

namespace Store.Fits

variable (fits : s.Fits limits) (valid : t < s.threads.size)

include fits

theorem reserve (needed : Nat) : (s.modifyThread t fun th => th.reserve needed).Fits limits :=
  fits.adjust (fun own => own.reserve needed) (Thread.frames_reserve _ _)

include valid

theorem enter (seats : s.Seats t) (needed : Nat) {callee : Entered}
    {push : Thread → Thread}
    (pushes : ∀ th : Thread, th.Fits limits → th.frames = (s.thread t).frames →
      (push th).Fits limits ∧
        ∃ f, (push th).frames = f :: th.frames ∧ f.kind = callee.kind ∧ f.Perched s) :
    s.Admits limits t callee ((s.modifyThread t fun th => th.reserve needed).modifyThread t push) := by
  have reserved := fits.reserve (t := t) needed
  have thread := thread_modifyThread_self s (fun th => th.reserve needed) valid
  have valid : t < (s.modifyThread t fun th => th.reserve needed).threads.size := by
    simpa using valid
  have same : ((s.modifyThread t fun th => th.reserve needed).thread t).frames =
      (s.thread t).frames := by rw [thread, Thread.frames_reserve]
  obtain ⟨-, f, frames, kind, perched⟩ := pushes _ (reserved.threads t valid) same
  refine ⟨reserved.modifyThread (fun own => (pushes _ own same).1) fun _ => ?_,
    (spares_modifyThread s t _).trans (spares_modifyThread _ t _), f, ?_, kind, perched⟩
  · rw [frames, same]
    exact seats
  · rw [thread_modifyThread_self _ _ valid, frames, same]

theorem leads_enterCall (seats : s.Seats t) {slot target : Nat} (arguments : Nat)
    {wanted : Option Nat} (deliver : target ≤ slot)
    (asks : wanted ≠ none →
      ∃ caller rest, (s.thread t).frames = caller :: rest ∧ caller.kind = .script) :
    Leads (enterCall t slot arguments target wanted) s (fun callee s' => s.Admits limits t callee s')
      (fun s' => s' = s) := by
  have own := fits.threads t valid
  refine .lookThread_bind ?_
  split
  · exact .overflowError rfl
  · rename_i shallow
    have room : (s.thread t).frames.length < limits.maxDepth := by
      rw [← own.own]
      exact Nat.not_le.1 fun full => shallow (decide_eq_true full)
    refine .lookThread_bind ?_
    split
    · rename_i ref callee
      refine .look_bind (.reserve_fits_bind (fun granted => ?_) rfl)
      have granted := own.le_maxStack granted
      refine .modifyThread_bind (.pure (fits.enter valid seats _ fun th own same => ⟨?_, ?_⟩))
      · refine own.enterScript (by rwa [same]) deliver (by rwa [same]) ?_
        exact Nat.le_trans (Nat.le_trans (Nat.le_add_right _ _) granted) limits.maxStack_le_slots
      · refine ⟨_, congrArg (List.cons _) (Thread.frames_arrange th _ slot arguments), rfl, ?_⟩
        rintro _ ⟨⟩
        exact Nat.le_refl _
    · refine .look_bind (.reserve_fits_bind (fun granted => ?_) rfl)
      have granted := own.le_maxStack granted
      refine .modifyThread_bind (.pure (fits.enter valid seats _ fun th own same => ⟨?_, ?_⟩))
      · exact own.enterNative (by rwa [same]) deliver (by rwa [same]) granted
      · exact ⟨_, rfl, rfl, nofun⟩
    · exact .typeError rfl

end Store.Fits

end RegisterVm
