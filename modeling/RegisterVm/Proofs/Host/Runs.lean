import RegisterVm.Machine.Vm
import RegisterVm.Proofs.Lifetime.Reachable

/-!
Runs of a machine for a host. A run is some number of steps, as many as it takes, and no step of it
touches the activities that wait below the one on top.
-/

namespace RegisterVm

open Relation

namespace Machine

variable {s : Store} {t : ThreadRef} {activities rest : List Activity} {host : Host}

section Stack

theorem suffix_perform {α : Type} {action : Action α} {k : Store → α → Machine}
    {base : List Activity} (fails : base <:+ activities)
    (goes : ∀ s a, base <:+ (k s a).activities) :
    base <:+ (perform s activities action k).activities := by
  simp only [perform]
  split
  · exact goes _ _
  · exact fails

theorem suffix_proceed (s : Store) (activities : List Activity) (t : ThreadRef) (floor : Nat)
    (callee : Entered) : activities <:+ (proceed s activities t floor callee).activities := by
  cases callee with
  | script => exact List.suffix_cons _ _
  | native body => exact List.suffix_refl _

theorem suffix_beginCall (s : Store) (activities : List Activity) (t : ThreadRef)
    (slot arguments : Nat) (wanted : Option Nat) :
    activities <:+ (beginCall s activities t slot arguments wanted).activities :=
  suffix_perform (List.suffix_refl _) fun _ _ => suffix_proceed _ _ _ _ _

theorem suffix_beginValueCall (s : Store) (activities : List Activity) (t : ThreadRef)
    (callee : Value) (values : Array Value) :
    activities <:+ (beginValueCall s activities t callee values).activities :=
  suffix_perform (List.suffix_refl _) fun _ _ =>
    (List.suffix_cons _ _).trans (suffix_beginCall _ _ _ _ _ _)

theorem suffix_beginGuardedCall (s : Store) (activities : List Activity) (t : ThreadRef)
    (slot arguments : Nat) :
    activities <:+ (beginGuardedCall s activities t slot arguments).activities :=
  (List.suffix_cons _ _).trans (suffix_beginCall _ _ _ _ _ _)

theorem suffix_beginResumption (s : Store) (activities : List Activity) (t : ThreadRef)
    (values : Array Value) : activities <:+ (beginResumption s activities t values).activities := by
  have waits : activities <:+ .resumption t :: activities := List.suffix_cons _ _
  simp only [beginResumption]
  split
  · exact suffix_perform waits fun _ _ => suffix_perform waits fun _ _ =>
      waits.trans (suffix_proceed _ _ _ _ _)
  · refine suffix_perform waits fun _ _ => ?_
    split
    · exact waits
    · exact waits.trans (List.suffix_cons _ _)
  · exact List.suffix_refl _
  · exact List.suffix_refl _

theorem suffix_settle (s : Store) (activities : List Activity) (t : ThreadRef)
    (outcome : NativeOutcome) : activities <:+ (settle s activities t outcome).activities := by
  cases outcome with
  | returns count => exact suffix_perform (List.suffix_refl _) fun _ _ => List.suffix_refl _
  | calls callee values restoring next =>
      refine (List.suffix_cons (.native t next) _).trans ?_
      cases restoring with
      | false => exact suffix_beginValueCall _ _ _ _ _
      | true => exact (List.suffix_cons _ _).trans (suffix_beginValueCall _ _ _ _ _)
  | protects slot arguments next =>
      exact (List.suffix_cons (.native t next) _).trans (suffix_beginGuardedCall _ _ _ _ _)
  | resumes co values next =>
      exact (List.suffix_cons (.native t next) _).trans (suffix_beginResumption _ _ _ _)

theorem suffix_runScript (s : Store) (rest : List Activity) (t : ThreadRef) (floor : Nat) :
    rest <:+ (runScript s rest t floor).activities := by
  have waits : rest <:+ .script t floor :: rest := List.suffix_cons _ _
  simp only [runScript]
  split
  · exact List.suffix_refl _
  · split
    · exact List.suffix_refl _
    · split
      · simp only [runInstruction]
        split
        · exact waits
        · split
          · exact waits
          · refine suffix_perform waits fun s flow => ?_
            cases flow with
            | next pc =>
                simp only [goTo]
                split
                · split <;> exact waits
                · exact waits
            | entered callee => cases callee <;> exact waits
            | returned => exact waits
      · exact List.suffix_refl _

theorem suffix_succeed (host : Host) (s : Store) (top : Activity) (rest : List Activity)
    (values : Array Value) : rest <:+ (succeed host s top rest values).activities := by
  cases top with
  | script t floor =>
      simp only [succeed]
      split
      · exact List.suffix_refl _
      · exact List.suffix_cons _ _
  | native t next => exact suffix_perform (List.suffix_refl _) fun _ _ => suffix_settle _ _ _ _
  | collect t slot => exact suffix_perform (List.suffix_refl _) fun _ _ => List.suffix_refl _
  | restore | guard => exact List.suffix_refl _
  | resumption t =>
      simp only [succeed, endResumption]
      split <;> exact List.suffix_refl _

theorem suffix_failTop (host : Host) (s : Store) (top : Activity) (rest : List Activity)
    (e : Error) : rest <:+ (failTop host s top rest e).activities := by
  cases top with
  | native t next => exact suffix_perform (List.suffix_refl _) fun _ _ => suffix_settle _ _ _ _
  | guard t slot depth =>
      simp only [failTop]
      split <;> exact List.suffix_refl _
  | _ => exact List.suffix_refl _

/-- A step leaves alone what waits below the activity on top. -/
theorem suffix_step (host : Host) (m : Machine) :
    m.activities.tail <:+ (m.step host).activities := by
  obtain ⟨s, activities, control⟩ := m
  cases control with
  | enter t body =>
      exact suffix_perform (List.tail_suffix _) fun _ _ =>
        (List.tail_suffix _).trans (suffix_settle _ _ _ _)
  | run =>
      cases activities with
      | nil => exact List.nil_suffix
      | cons top rest =>
          cases top with
          | script t floor => exact suffix_runScript s rest t floor
          | _ => exact List.suffix_cons _ _
  | done values =>
      cases activities with
      | nil => exact List.nil_suffix
      | cons top rest => exact suffix_succeed host s top rest values
  | fail e =>
      cases activities with
      | nil => exact List.nil_suffix
      | cons top rest => exact suffix_failTop host s top rest e

theorem suffix_enter (host : Host) (s : Store) (activities : List Activity) (t : ThreadRef)
    (body : NativeBody) : activities <:+ (step host ⟨s, activities, .enter t body⟩).activities :=
  suffix_perform (List.suffix_refl _) fun _ _ => suffix_settle _ _ _ _

end Stack

section Fuel

variable {m : Machine}

theorem after_step (m : Machine) (host : Host) (k : Nat) :
    (m.step host).after host k = m.after host (k + 1) := by
  induction k with
  | zero => rfl
  | succ k ih =>
      rw [after, ih]
      rfl

theorem after_add (m : Machine) (host : Host) (k n : Nat) :
    m.after host (k + n) = (m.after host k).after host n := by
  induction n with
  | zero => rfl
  | succ n ih => exact congrArg (step host) ih

theorem exists_run_eq_after (m : Machine) (host : Host) (fuel : Nat) :
    ∃ k, m.run host fuel = m.after host k := by
  induction fuel generalizing m with
  | zero => exact ⟨0, rfl⟩
  | succ fuel ih =>
      simp only [run]
      split
      · exact ⟨0, rfl⟩
      · obtain ⟨k, same⟩ := ih (m.step host)
        exact ⟨k + 1, same.trans (m.after_step host k)⟩

theorem reachable_after {limits : Limits} (reachable : m.Reachable limits) (k : Nat) :
    (m.after .bare k).Reachable limits := by
  induction k with
  | zero => exact reachable
  | succ k ih => exact ih.tail (.step _)

end Fuel

end Machine

theorem Vm.call_free {engine : Engine} {vm : Vm} (free : (vm.store.thread vm.main).held = false)
    (callee : Value) (values : Array Value) : vm.call engine callee values =
      ((engine.callRestoring vm.store vm.main callee values).1,
        { vm with store := (engine.callRestoring vm.store vm.main callee values).2 }) := by
  rw [call, if_neg (by simp [free])]

end RegisterVm
