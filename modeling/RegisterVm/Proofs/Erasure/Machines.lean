import RegisterVm.Machine.Vm
import RegisterVm.Proofs.Erasure.Instructions

/-!
Machines without debug records. A step that does not fail does the same with and without them, and
so does a run in which nothing ever fails: at every point of it the two machines differ in the
debug records of their closures alone.
-/

namespace RegisterVm

namespace Machine

def erase (m : Machine) : Machine := { m with store := m.store.erase }

def isFailing (m : Machine) : Bool :=
  match m.control with
  | .fail _ => true
  | _ => false

def Mirrors (m m' : Machine) : Prop := m.isFailing = false → m' = m.erase

variable {s : Store} {activities rest : List Activity} {t : ThreadRef} {host : Host}

namespace Mirrors

theorem refl {control : Control} :
    Mirrors ⟨s, activities, control⟩ ⟨s.erase, activities, control⟩ := fun _ => rfl

theorem failed {e : Error} {m' : Machine} : Mirrors ⟨s, activities, .fail e⟩ m' := nofun

theorem ite {c : Prop} [Decidable c] {m₁ m₂ m₁' m₂' : Machine} (first : Mirrors m₁ m₁')
    (second : Mirrors m₂ m₂') : Mirrors (if c then m₁ else m₂) (if c then m₁' else m₂') := by
  split
  · exact first
  · exact second

theorem perform {α : Type} {a b : Action α} {k l : Store → α → Machine} (first : Imitated a b)
    (rest : ∀ s x, Mirrors (k s x) (l s.erase x)) :
    Mirrors (perform s activities a k) (perform s.erase activities b l) := by
  simp only [Machine.perform]
  cases acts : a s with
  | ok x s₁ =>
      rw [first s x s₁ acts]
      exact rest s₁ x
  | error e s₁ => exact failed

end Mirrors

theorem mirrors_proceed {floor : Nat} (entered : Entered) :
    Mirrors (proceed s activities t floor entered)
      (proceed s.erase activities t floor entered) := by
  cases entered <;> exact .refl

theorem mirrors_beginCall (slot arguments : Nat) (wanted : Option Nat) :
    Mirrors (beginCall s activities t slot arguments wanted)
      (beginCall s.erase activities t slot arguments wanted) := by
  have enters : Blind (enterFrom t slot arguments wanted) :=
    Blind.lookThread.bind fun _ => Blind.enterCall.bind fun _ => .pure
  exact .perform enters fun s entry => mirrors_proceed entry.2

theorem mirrors_beginValueCall (callee : Value) (values : Array Value) :
    Mirrors (beginValueCall s activities t callee values)
      (beginValueCall s.erase activities t callee values) := by
  have lays : Blind (layOut t callee values) :=
    Blind.lookThread.bind fun _ => Blind.reserve.bind fun _ =>
      Blind.modifyThread.bind fun _ => .pure
  exact .perform lays fun s slot => mirrors_beginCall slot _ _

theorem mirrors_beginRestoringCall (callee : Value) (values : Array Value) :
    Mirrors (beginRestoringCall s activities t callee values)
      (beginRestoringCall s.erase activities t callee values) :=
  mirrors_beginValueCall callee values

theorem mirrors_beginGuardedCall (slot arguments : Nat) :
    Mirrors (beginGuardedCall s activities t slot arguments)
      (beginGuardedCall s.erase activities t slot arguments) := mirrors_beginCall slot _ _

theorem mirrors_beginResumption (values : Array Value) :
    Mirrors (beginResumption s activities t values)
      (beginResumption s.erase activities t values) := by
  have lays : Blind (layOutEntry t values) := Blind.reserve.bind fun _ => .modifyThread
  have delivers : Blind (deliverYield t values) :=
    Blind.modifyThread.bind fun _ => Blind.lookThread.bind fun _ => Blind.reserve.bind fun _ =>
      .modifyThread
  simp only [beginResumption, show s.erase.thread t = s.thread t from rfl]
  split
  · exact .perform lays fun s _ => .perform Blind.enterCall fun s => mirrors_proceed
  · exact .perform delivers fun s _ => .ite .refl .refl
  · exact .failed
  · exact .failed

theorem mirrors_settle (outcome : NativeOutcome) :
    Mirrors (settle s activities t outcome) (settle s.erase activities t outcome) := by
  cases outcome with
  | returns count =>
      have finishes : Blind (finishNative t count) := .modifyThread
      simp only [settle]
      exact .perform finishes fun s _ => .refl
  | calls callee values restoring next =>
      exact .ite (mirrors_beginRestoringCall callee values) (mirrors_beginValueCall callee values)
  | protects slot arguments next => exact mirrors_beginGuardedCall slot arguments
  | resumes co values next => exact mirrors_beginResumption values

theorem mirrors_goTo (codeSize current : Nat) (pc : Int) :
    Mirrors (goTo s activities t codeSize current pc)
      (goTo s.erase activities t codeSize current pc) := .ite (.ite .refl .refl) .failed

theorem mirrors_runInstruction (f : Frame) (c : Closure) :
    Mirrors (runInstruction s activities t f c)
      (runInstruction s.erase activities t f c.erase) := by
  simp only [runInstruction, Closure.erase, Prototype.code_erase]
  split
  · exact .failed
  · split
    · exact .failed
    · refine .perform (Context.imitated_execute _ _) fun s flow => ?_
      split
      · exact mirrors_goTo _ _ _
      all_goals exact .refl

theorem mirrors_runScript (floor : Nat) :
    Mirrors (runScript s rest t floor) (runScript s.erase rest t floor) := by
  simp only [runScript, show s.erase.thread t = s.thread t from rfl, Store.closure_erase]
  refine .ite .refl ?_
  split
  · exact .refl
  · split
    · exact mirrors_runInstruction _ _
    · exact .failed

theorem mirrors_endResumption :
    Mirrors (endResumption s rest t) (endResumption s.erase rest t) := .ite .refl .refl

theorem mirrors_succeed (blind : host.Blind) (top : Activity) (values : Array Value) :
    Mirrors (succeed host s top rest values) (succeed host s.erase top rest values) := by
  cases top with
  | script t floor => exact .ite .refl .refl
  | native t next => exact .perform (blind_succeed blind next values) fun s => mirrors_settle
  | collect t slot =>
      have takes : Blind (takeResults t slot) :=
        Blind.lookThread.bind fun _ => Blind.modifyThread.bind fun _ => .pure
      simp only [succeed]
      exact .perform takes fun s _ => .refl
  | restore t level depth => exact .refl
  | guard t slot depth => exact .refl
  | resumption t => exact mirrors_endResumption

/-- A step from a machine that is not failing does the same without debug records. -/
theorem mirrors_step (blind : host.Blind) {m : Machine} (sound : m.isFailing = false) :
    Mirrors (m.step host) (m.erase.step host) := by
  obtain ⟨s, activities, control⟩ := m
  cases control with
  | enter t body =>
      exact .perform (blind_enter blind body) fun s => mirrors_settle
  | run =>
      cases activities with
      | nil => exact .refl
      | cons top rest =>
          cases top with
          | script t floor => exact mirrors_runScript floor
          | _ => exact .refl
  | done values =>
      cases activities with
      | nil => exact .refl
      | cons top rest => exact mirrors_succeed blind top values
  | fail e => contradiction

def Clean (host : Host) (n : Nat) (m : Machine) : Prop :=
  ∀ k ≤ n, (m.run host k).isFailing = false

theorem Clean.run_erase {n : Nat} (blind : host.Blind) {m : Machine} (clean : m.Clean host n) :
    m.erase.run host n = (m.run host n).erase := by
  induction n generalizing m with
  | zero => rfl
  | succ n ih =>
      simp only [run, show m.erase.isFinished = m.isFinished from rfl]
      split
      · rfl
      · rename_i unfinished
        have later : ∀ k, m.run host (k + 1) = (m.step host).run host k :=
          fun k => if_neg unfinished
        have rest : (m.step host).Clean host n := fun k le =>
          later k ▸ clean (k + 1) (Nat.succ_le_succ le)
        have stepped : m.erase.step host = (m.step host).erase :=
          mirrors_step blind (clean 0 (Nat.zero_le _)) (rest 0 (Nat.zero_le n))
        rw [stepped]
        exact ih rest

def instruction? (m : Machine) : Option Instruction :=
  match m.control, m.activities with
  | .run, .script t floor :: _ =>
    if (m.store.thread t).frames.length ≤ floor then none
    else
      (m.store.thread t).frame?.bind fun f =>
        match f.callee with
        | .closure ref => (m.store.closure ref).prototype.code[f.pc]?
        | _ => none
  | _, _ => none

theorem instruction?_erase (m : Machine) : m.erase.instruction? = m.instruction? := by
  have code : ∀ ref, (m.store.erase.closure ref).prototype.code =
      (m.store.closure ref).prototype.code := by
    intro ref
    rw [Store.closure_erase]
    exact Prototype.code_erase _
  simp only [instruction?, erase, code]
  rfl

end Machine

end RegisterVm
