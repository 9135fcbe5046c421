import RegisterVm.Proofs.Failure.Anchors
import RegisterVm.Proofs.Lifetime.Reachable

/-!
No machine loses the frame that it is to run. A script activity finds a script frame above its
floor, and a tail call gives up the frame that makes it; what else fails, fails for another reason.
-/

namespace RegisterVm

variable {t : ThreadRef}

theorem Frame.Typed.closure_of_script {f : Frame} (typed : f.Typed) (script : f.kind = .script) :
    ∃ ref, f.callee = .closure ref := by
  rw [Frame.Typed] at typed
  split at typed
  · exact ⟨_, ‹_›⟩
  · simp [script] at typed
  · exact typed.elim

namespace Machine

variable {s : Store} {activities rest : List Activity} {e : Error}

def Steady (m : Machine) : Prop := ∀ e, m.control = .fail e → ¬e.Stranded

theorem steady_run : Steady ⟨s, activities, .run⟩ := nofun

theorem steady_enter {body : NativeBody} : Steady ⟨s, activities, .enter t body⟩ := nofun

theorem steady_done {values : Array Value} : Steady ⟨s, activities, .done values⟩ := nofun

theorem steady_fail (other : ¬e.Stranded) : Steady ⟨s, activities, .fail e⟩ := by
  rintro _ ⟨⟩
  exact other

theorem steady_ite {c : Prop} [Decidable c] {m m' : Machine} (left : m.Steady) (right : m'.Steady) :
    (if c then m else m').Steady := by
  split
  · exact left
  · exact right

section Calls

theorem perform_steady {α : Type} {action : Action α} {k : Store → α → Machine}
    (anchored : AnchoredAt s action) (goes : ∀ s' a, (k s' a).Steady) :
    (perform s activities action k).Steady := by
  simp only [perform]
  cases result : action s with
  | ok a s' => exact goes s' a
  | error e s' => exact steady_fail (anchored e s' result)

theorem proceed_steady (floor : Nat) (entered : Entered) :
    (proceed s activities t floor entered).Steady := by
  cases entered with
  | script => exact steady_run
  | native body => exact steady_enter

theorem beginCall_steady (slot arguments : Nat) (wanted : Option Nat) :
    (beginCall s activities t slot arguments wanted).Steady := by
  have enters : Anchored (enterFrom t slot arguments wanted) :=
    Anchored.lookThread.bind fun _ => Anchored.enterCall.bind fun _ => .pure
  exact perform_steady (enters s) fun _ entered => proceed_steady _ entered.2

theorem beginValueCall_steady (callee : Value) (values : Array Value) :
    (beginValueCall s activities t callee values).Steady := by
  have lays : Anchored (layOut t callee values) :=
    Anchored.lookThread.bind fun _ => Anchored.reserve.bind fun _ =>
      Anchored.modifyThread.bind fun _ => .pure
  exact perform_steady (lays s) fun _ _ => beginCall_steady _ _ _

theorem beginResumption_steady (values : Array Value) :
    (beginResumption s activities t values).Steady := by
  have lays : Anchored (layOutEntry t values) := Anchored.reserve.bind fun _ => .modifyThread
  have delivers : Anchored (deliverYield t values) :=
    Anchored.modifyThread.bind fun _ => Anchored.lookThread.bind fun _ =>
      Anchored.reserve.bind fun _ => .modifyThread
  simp only [beginResumption]
  split
  · exact perform_steady (lays _) fun s' _ =>
      perform_steady (Anchored.enterCall s') fun _ entered => proceed_steady _ entered
  · exact perform_steady (delivers _) fun _ _ => steady_ite steady_done steady_run
  · exact steady_fail (Error.not_stranded_invalid (by decide))
  · exact steady_fail (Error.not_stranded_invalid (by decide))

theorem settle_steady (outcome : NativeOutcome) : (settle s activities t outcome).Steady := by
  cases outcome with
  | returns count =>
      have finishes : Anchored (finishNative t count) := .modifyThread
      exact perform_steady (finishes s) fun _ _ => steady_done
  | calls callee values restoring next =>
      exact steady_ite (beginValueCall_steady _ _) (beginValueCall_steady _ _)
  | protects slot arguments next => exact beginCall_steady _ _ _
  | resumes co values next => exact beginResumption_steady _

theorem native_steady {action : Action NativeOutcome} (anchored : Anchored action) :
    (perform s activities action fun s outcome => settle s activities t outcome).Steady :=
  perform_steady (anchored s) fun _ => settle_steady

end Calls

section Ends

theorem endResumption_steady : (endResumption s rest t).Steady :=
  steady_ite steady_done steady_done

theorem succeed_steady (top : Activity) (values : Array Value) :
    (succeed .bare s top rest values).Steady := by
  cases top with
  | script t floor => exact steady_ite steady_done steady_run
  | native t next => exact native_steady (next.anchored_succeed values)
  | collect t slot =>
      have takes : Anchored (takeResults t slot) :=
        Anchored.lookThread.bind fun _ => Anchored.modifyThread.bind fun _ => .pure
      exact perform_steady (takes s) fun _ _ => steady_done
  | restore | guard => exact steady_done
  | resumption t => exact endResumption_steady

theorem failTop_steady (top : Activity) (other : ¬e.Stranded) :
    (failTop .bare s top rest e).Steady := by
  cases top with
  | native t next => exact native_steady (next.anchored_fail other)
  | guard t slot depth => exact steady_ite steady_done (steady_fail other)
  | script | collect | restore | resumption => exact steady_fail other

end Ends

section Scripts

theorem goTo_steady (codeSize current : Nat) (pc : Int) :
    (goTo s activities t codeSize current pc).Steady :=
  steady_ite (steady_ite steady_run steady_run)
    (steady_fail (Error.not_stranded_invalid (by simp)))

theorem runInstruction_steady {f : Frame} {below : List Frame} (closure : Closure)
    (head : (s.thread t).frames = f :: below) :
    (runInstruction s activities t f closure).Steady := by
  simp only [runInstruction]
  split
  · exact steady_fail (Error.not_stranded_invalid (by simp))
  · rename_i i code
    split
    · exact steady_fail (Error.not_stranded_invalid (by simp))
    · rename_i op opcode
      refine perform_steady ?_ fun s' flow => ?_
      · by_cases calls : op = .tailCall
        · subst calls
          refine Context.anchored_tailCall _ _ ?_
          rw [thread_setPc (Store.lt_of_frames head) head]
          exact List.cons_ne_nil _ _
        · exact Context.anchored_execute calls i _
      · split
        · exact goTo_steady _ _ _
        · exact steady_run
        · exact steady_enter
        · exact steady_run

theorem runScript_steady {floor : Nat} (sound : s.Sound (.script t floor :: rest)) :
    (runScript s rest t floor).Steady := by
  have settled : s.Settled t (.script t floor :: ofThread t rest) := sound.top rfl
  obtain ⟨upper, base, frames, length, scripts, -⟩ := settled.expects
  simp only [runScript]
  split
  · exact steady_done
  · rename_i deep
    cases upper with
    | nil =>
        rw [frames, List.nil_append] at deep
        omega
    | cons f upper =>
        have head : (s.thread t).frames = f :: (upper ++ base) := frames
        obtain ⟨ref, callee⟩ := (settled.frames f (head ▸ .head _)).typed.closure_of_script
          (scripts f (.head _))
        simp only [head, callee]
        exact runInstruction_steady _ head

end Scripts

theorem Healthy.step_steady {m : Machine} (healthy : m.Healthy) (steady : m.Steady) :
    (m.step .bare).Steady := by
  obtain ⟨s, activities, control⟩ := m
  cases control with
  | enter t body => exact native_steady body.anchored_enter
  | run =>
      cases activities with
      | nil => exact steady
      | cons top rest =>
          cases top with
          | script t floor =>
              cases healthy with
              | settled sound => exact runScript_steady sound
          | _ => exact steady
  | done values =>
      cases activities with
      | nil => exact steady
      | cons top rest => exact succeed_steady top values
  | fail e =>
      cases activities with
      | nil => exact steady
      | cons top rest => exact failTop_steady top (steady e rfl)

theorem Next.steady {m m' : Machine} (next : Next m m') (healthy : m.Healthy)
    (steady : m.Steady) : m'.Steady := by
  cases next with
  | step m => exact healthy.step_steady steady
  | drop | heap | newCell | newCoroutine | release => exact steady
  | call main free callee arguments => exact beginValueCall_steady callee arguments
  | resume free arguments => exact beginResumption_steady arguments

/-- In no run does a machine lose the frame that it is to run. -/
theorem Reachable.steady {limits : Limits} {m : Machine} (reachable : m.Reachable limits) :
    m.Steady := by
  induction reachable with
  | refl => exact steady_done
  | tail earlier next ih => exact next.steady (Reachable.healthy earlier) ih

end Machine

end RegisterVm
