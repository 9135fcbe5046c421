import RegisterVm.Proofs.Registers.Agreement
import RegisterVm.Proofs.Store.Fields

/-!
Actions that are run from two stores at once. What a store says of everything but the slots in which
the two differ is the same in both, so reading it gives the same, and the stores agree again on what
is written.
-/

namespace RegisterVm

namespace Store.Agree

variable {t : ThreadRef} {d : Nat → Prop} {s s' : Store}

theorem tables (agree : s.Agree t d s') : s'.tables = s.tables :=
  agree.field (f := Store.tables) fun _ => rfl

theorem readField (agree : s.Agree t d s') (object key : Value) :
    s'.readField object key = s.readField object key := readField_congr agree.tables object key

theorem fieldOwner (agree : s.Agree t d s') (object key : Value) :
    s'.fieldOwner object key = s.fieldOwner object key := fieldOwner_congr agree.tables object key

theorem place (agree : s.Agree t d s') (level : Nat) : s'.place t level = s.place t level := by
  have framePlace (f : Frame) : s'.framePlace f = s.framePlace f :=
    agree.field (f := fun s => s.framePlace f) fun _ => rfl
  simp only [Store.place, agree.thread.frames, framePlace]

end Store.Agree

/-- Run from stores related as `before` says, the action returns the same and relates the stores as
`after` says, or fails with the same error and leaves stores that agree but for `d`. -/
def Paired {α : Type} (t : ThreadRef) (d : Nat → Prop) (before : Store → Store → Prop)
    (x : Action α) (after : α → Store → Store → Prop) : Prop :=
  ∀ s s', before s s' → match x s, x s' with
    | .ok a q, .ok a' q' => a' = a ∧ after a q q'
    | .error e q, .error e' q' => e' = e ∧ q.Agree t d q'
    | _, _ => False

namespace Paired

variable {α β : Type} {t : ThreadRef} {d : Nat → Prop} {before : Store → Store → Prop}

theorem pure {a : α} {after : α → Store → Store → Prop}
    (holds : ∀ s s', before s s' → after a s s') : Paired t d before (Pure.pure a) after :=
  fun s s' related => ⟨rfl, holds s s' related⟩

theorem bind {x : Action α} {k : α → Action β} {mid : α → Store → Store → Prop}
    {after : β → Store → Store → Prop} (first : Paired t d before x mid)
    (rest : ∀ a, Paired t d (mid a) (k a) after) : Paired t d before (x >>= k) after := by
  intro s s' related
  have outcome := first s s' related
  simp only [Bind.bind, EStateM.bind]
  cases left : x s with
  | ok a q =>
      cases right : x s' with
      | ok a' q' =>
          rw [left, right] at outcome
          obtain ⟨rfl, related⟩ := outcome
          exact rest _ q q' related
      | error e' q' =>
          rw [left, right] at outcome
          contradiction
  | error e q =>
      cases right : x s' with
      | ok a' q' =>
          rw [left, right] at outcome
          contradiction
      | error e' q' =>
          rw [left, right] at outcome
          exact outcome

theorem mono {x : Action α} {before' : Store → Store → Prop}
    {after after' : α → Store → Store → Prop} (paired : Paired t d before x after)
    (stronger : ∀ s s', before' s s' → before s s')
    (weaker : ∀ a s s', after a s s' → after' a s s') : Paired t d before' x after' := by
  intro s s' related
  have outcome := paired s s' (stronger s s' related)
  cases left : x s with
  | ok a q =>
      cases right : x s' with
      | ok a' q' =>
          rw [left, right] at outcome
          exact ⟨outcome.1, weaker a q q' outcome.2⟩
      | error e' q' =>
          rw [left, right] at outcome
          exact outcome
  | error e q =>
      cases right : x s' with
      | ok a' q' =>
          rw [left, right] at outcome
          exact outcome
      | error e' q' =>
          rw [left, right] at outcome
          exact outcome

theorem strengthen {x : Action α} {before' : Store → Store → Prop}
    {after : α → Store → Store → Prop} (paired : Paired t d before x after)
    (stronger : ∀ s s', before' s s' → before s s') : Paired t d before' x after :=
  paired.mono stronger fun _ _ _ => id

theorem ite {c : Prop} [Decidable c] {x y : Action α} {after : α → Store → Store → Prop}
    (left : Paired t d before x after) (right : Paired t d before y after) :
    Paired t d before (if c then x else y) after := by
  split
  · exact left
  · exact right

theorem look {f : Store → α} (same : ∀ s s', before s s' → f s' = f s) :
    Paired t d before (look f) fun _ => before :=
  fun s s' related => ⟨same s s' related, related⟩

theorem lookThread {r : ThreadRef} {f : Thread → α}
    (same : ∀ s s', before s s' → f (s'.thread r) = f (s.thread r)) :
    Paired t d before (lookThread r f) fun _ => before := look same

theorem modify {f : Store → Store} {after : Store → Store → Prop}
    (step : ∀ s s', before s s' → after (f s) (f s')) :
    Paired t d before (modify f : Action Unit) fun _ => after :=
  fun s s' related => ⟨rfl, step s s' related⟩

theorem modifyThread {r : ThreadRef} {f : Thread → Thread} {after : Store → Store → Prop}
    (step : ∀ s s', before s s' → after (s.modifyThread r f) (s'.modifyThread r f)) :
    Paired t d before (modifyThread r f) fun _ => after := modify step

theorem modifyGet {f : Store → α × Store} {after : Store → Store → Prop}
    (step : ∀ s s', before s s' → (f s').1 = (f s).1 ∧ after (f s).2 (f s').2) :
    Paired t d before (modifyGet f : Action α) fun _ => after :=
  fun s s' related => step s s' related

section Failures

variable (agree : ∀ s s', before s s' → s.Agree t d s') {after : α → Store → Store → Prop}

include agree

theorem throw {e : Error} : Paired t d before (throw e : Action α) after :=
  fun s s' related => ⟨rfl, agree s s' related⟩

theorem invalid {message : String} : Paired t d before (invalid message : Action α) after :=
  throw agree

theorem typeError {message : String} : Paired t d before (typeError t message : Action α) after :=
  (look fun s s' related => (agree s s' related).place 0).bind fun _ => throw agree

theorem overflowError : Paired t d before (overflowError t : Action α) after :=
  (look fun s s' related => (agree s s' related).place 0).bind fun _ => throw agree

theorem reserve {needed : Nat} {after : Store → Store → Prop}
    (step : ∀ s s', before s s' → after (s.modifyThread t fun th => th.reserve needed)
      (s'.modifyThread t fun th => th.reserve needed)) :
    Paired t d before (reserve t needed) fun _ => after := by
  refine (lookThread fun s s' related => ?_).bind fun _ =>
    (modifyThread step).ite (overflowError agree)
  exact (agree s s' related).thread.field (f := fun th => th.fits needed) fun _ => rfl

end Failures

end Paired

def Store.Delivers (t : ThreadRef) (target : Nat) (wanted : Option Nat) (s : Store) : Prop :=
  ∀ f, (s.thread t).frame? = some f → f.target = target ∧ f.wanted = wanted

theorem Store.head_modifyThread {t : ThreadRef} {p : Frame → Prop} (s : Store)
    {step : Thread → Thread} (made : ∀ th f, (step th).frame? = some f → p f) :
    ∀ f, ((s.modifyThread t step).thread t).frame? = some f → p f := by
  intro f head
  rw [thread_modifyThread] at head
  split at head
  · exact made _ f head
  · rename_i invalid
    rw [thread_invalid s (Nat.not_lt.1 fun valid => invalid ⟨rfl, valid⟩)] at head
    contradiction

namespace Paired

variable {t : ThreadRef} {d d' : Nat → Prop}

theorem enterCall {slot arguments : Nat} (target : Nat) (wanted : Option Nat)
    (narrow : ∀ index, d' index → d index)
    (unread : ∀ index, slot ≤ index → index ≤ slot + arguments → ¬d' index) :
    Paired t d (Store.Agree t d') (enterCall t slot arguments target wanted) fun _ s s' =>
      s.Agree t d' s' ∧ s.Delivers t target wanted := by
  have base (s s' : Store) (agree : s.Agree t d' s') : s.Agree t d s' := agree.mono narrow
  have room (needed : Nat) : Paired t d (Store.Agree t d') (RegisterVm.reserve t needed) fun _ =>
      Store.Agree t d' := reserve base fun s s' agree => agree.modifyThread (agree.thread.reserve _)
  refine (lookThread fun s s' agree => ?_).bind fun deep => .ite (overflowError base) ?_
  · exact agree.thread.field (f := fun th => decide (th.limits.maxDepth ≤ th.depth)) fun _ => rfl
  refine (lookThread fun s s' agree => ?_).bind fun callee => ?_
  · exact agree.thread.slots slot (unread slot (Nat.le_refl _) (Nat.le_add_right _ _))
  cases callee with
  | closure ref =>
      refine (look fun s s' agree => ?_).bind fun p => (room _).bind fun _ => ?_
      · exact agree.field (f := fun s => (s.closure ref).prototype) fun _ => rfl
      refine (modifyThread fun s s' agree => ?_).bind fun _ => pure fun _ _ => id
      refine ⟨agree.modifyThread (agree.thread.enterScript p _ _ _ unread), ?_⟩
      refine s.head_modifyThread fun th f head => ?_
      obtain rfl := Option.some.inj head
      exact ⟨rfl, rfl⟩
  | native ref =>
      refine (look fun s s' agree => ?_).bind fun body => (room _).bind fun _ => ?_
      · exact agree.field (f := fun s => (s.native ref).body) fun _ => rfl
      refine (modifyThread fun s s' agree => ?_).bind fun _ => pure fun _ _ => id
      refine ⟨agree.modifyThread (agree.thread.enterNative _ _ _ _ _), ?_⟩
      refine s.head_modifyThread fun th f head => ?_
      obtain rfl := Option.some.inj head
      exact ⟨rfl, rfl⟩
  | _ => exact typeError base

end Paired

end RegisterVm
