import RegisterVm.Proofs.Host.Runs
import RegisterVm.Proofs.Machine.Results

/-!
Where a failure goes. Nothing that waits for it does more than pass it on, until a protected call or
a resumption from a script catches it and returns its value; what nobody may catch comes to the host
as it was.
-/

namespace RegisterVm

open Machine

/-- Failure `e'` is failure `e`, or what a wrapped coroutine has made of it. -/
inductive Error.Carries (e : Error) : Error → Prop where
  | same : e.Carries e
  | wrapped (catchable : e.isCatchable = true) : e.Carries (.user e.value)

namespace Error.Carries

variable {e e' e'' : Error}

theorem value (carries : e.Carries e') : e'.value = e.value := by
  cases carries <;> rfl

theorem isCatchable (carries : e.Carries e') : e'.isCatchable = e.isCatchable := by
  cases carries with
  | same => rfl
  | wrapped catchable => exact catchable.symm

theorem trans (first : e.Carries e') (second : e'.Carries e'') : e.Carries e'' := by
  cases second with
  | same => exact first
  | wrapped catchable =>
      rw [first.value]
      exact .wrapped (first.isCatchable ▸ catchable)

theorem eq (carries : e.Carries e') (uncatchable : e.isCatchable = false) : e' = e := by
  cases carries with
  | same => rfl
  | wrapped catchable => exact absurd catchable (by simp [uncatchable])

end Error.Carries

def Activity.catches : Activity → Bool
  | .guard _ _ _ | .native _ .resumed => true
  | _ => false

/-- Nothing in a list of activities catches failure `e`. -/
def Error.Passes (e : Error) (activities : List Activity) : Prop :=
  e.isCatchable = true → ∀ a ∈ activities, a.catches = false

theorem Error.Passes.head {e : Error} {a : Activity} {rest : List Activity}
    (passes : e.Passes (a :: rest)) : e.Passes [a] :=
  fun catchable => List.forall_mem_singleton.2 (passes catchable a (.head _))

theorem Error.Passes.tail {e : Error} {a : Activity} {rest : List Activity}
    (passes : e.Passes (a :: rest)) : e.Passes rest :=
  fun catchable b member => passes catchable b (.tail _ member)

namespace Machine

variable {s : Store} {t : ThreadRef} {a : Activity} {rest above below : List Activity} {e : Error}
  {m : Machine}

end Machine

end RegisterVm
