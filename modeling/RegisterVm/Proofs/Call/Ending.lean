import RegisterVm.Proofs.Call.Running
import RegisterVm.Proofs.Library.Results
import RegisterVm.Proofs.Machine.Results

/-!
The step that ends a call: a return instruction, or a native function that has pushed its results.
-/

namespace RegisterVm

def Thread.values (th : Thread) (start count : Nat) : List Value :=
  (List.range count).map fun i => th.get (start + i)

def Store.pushed? (s : Store) (t : ThreadRef) (action : Action NativeOutcome) :
    Option (List Value) :=
  match action s with
  | .ok (.returns count) s =>
    let th := s.thread t
    let n := min count th.top
    some (th.values (th.top - n) n)
  | _ => none

def Store.returned? (s : Store) (t : ThreadRef) (f : Frame) : Option (List Value) :=
  match f.callee with
  | .closure ref =>
    match (s.closure ref).prototype.code[f.pc]? with
    | some i =>
      if i.opcode? = some .ret then
        let th := s.thread t
        let source := f.base + i.a
        some (th.values source (if i.b = 0 then th.top - source else i.b - 1))
      else none
    | none => none
  | _ => none

/-- The results that the next step of a machine hands to the caller. -/
def Machine.results? (m : Machine) : Option (List Value) :=
  match m with
  | ⟨s, _, .enter t body⟩ => s.pushed? t (body.enter .bare t)
  | ⟨s, .native t next :: _, .done values⟩ => s.pushed? t (next.succeed .bare t values)
  | ⟨s, .native t next :: _, .fail e⟩ => s.pushed? t (next.fail .bare t e)
  | ⟨s, .script t _ :: _, .run⟩ => (s.thread t).frame?.bind (s.returned? t)
  | _ => none

@[simp] theorem Thread.length_values (th : Thread) (start count : Nat) :
    (th.values start count).length = count := by
  simp [values]

theorem Thread.getD_values (th : Thread) (start : Nat) {count place : Nat} (bound : place < count) :
    (th.values start count).getD place .nil = th.get (start + place) := by
  simp [values, List.getD_eq_getElem?_getD, bound]

inductive Handed (t : ThreadRef) (slot : Nat) (s : Store) (results : List Value) (th' : Thread) :
    Prop where
  | intro (th : Thread) (source pc : Nat) {f : Frame} {below : List Frame}
      (head : (s.thread t).frames = f :: below) (frames : th.frames = { f with pc } :: below)
      (above : slot ≤ source) (values : results = th.values source results.length)
      (ends : th' = th.finish source results.length) : Handed t slot s results th'

namespace Machine

variable {s s' : Store} {t : ThreadRef} {activities : List Activity} {control : Control}

section Lengths

variable {n : Nat}

theorem length_perform {α : Type} {action : Action α} {k : Store → α → Machine}
    (fails : n ≤ activities.length) (goes : ∀ s a, n ≤ (k s a).activities.length) :
    n ≤ (perform s activities action k).activities.length := by
  simp only [perform]
  split
  · exact goes _ _
  · exact fails

theorem length_beginCall (bound : n ≤ activities.length) (slot arguments : Nat)
    (wanted : Option Nat) :
    n ≤ (beginCall s activities t slot arguments wanted).activities.length := by
  refine length_perform bound ?_
  rintro s ⟨floor, entered⟩
  cases entered with
  | script => exact Nat.le_succ_of_le bound
  | native body => exact bound

theorem length_beginValueCall (bound : n ≤ activities.length) (callee : Value)
    (arguments : Array Value) :
    n ≤ (beginValueCall s activities t callee arguments).activities.length :=
  length_perform bound fun _ _ => length_beginCall (Nat.le_succ_of_le bound) _ _ _

theorem length_beginResumption (bound : n ≤ activities.length) (arguments : Array Value) :
    n ≤ (beginResumption s activities t arguments).activities.length := by
  have resumed := Nat.le_succ_of_le bound
  simp only [beginResumption]
  split
  · refine length_perform resumed fun s _ => length_perform resumed ?_
    intro s entered
    cases entered with
    | script => exact Nat.le_succ_of_le resumed
    | native body => exact resumed
  · refine length_perform resumed fun s _ => ?_
    split
    · exact resumed
    · exact Nat.le_succ_of_le resumed
  · exact bound
  · exact bound

theorem length_settle_asks {outcome : NativeOutcome} (asks : ∀ count, outcome ≠ .returns count) :
    activities.length + 1 ≤ (settle s activities t outcome).activities.length := by
  have waits : ∀ next, activities.length + 1 ≤ (Activity.native t next :: activities).length :=
    fun _ => Nat.le_refl _
  cases outcome with
  | returns count => exact absurd rfl (asks count)
  | calls callee arguments restoring next =>
      simp only [settle]
      split
      · exact length_beginValueCall (Nat.le_succ_of_le (waits next)) _ _
      · exact length_beginValueCall (waits next) _ _
  | protects place arguments next =>
      exact length_beginCall (Nat.le_succ_of_le (waits next)) _ _ _
  | resumes co arguments next => exact length_beginResumption (waits next) _

theorem length_native (s : Store) (activities : List Activity) (t : ThreadRef)
    (action : Action NativeOutcome) : activities.length ≤
      (perform s activities action fun s outcome =>
        settle s activities t outcome).activities.length := by
  refine length_perform (Nat.le_refl _) fun s outcome => ?_
  cases outcome with
  | returns count => exact Nat.le_refl _
  | calls | protects | resumes => exact Nat.le_of_lt (length_settle_asks nofun)

theorem activities_runInstruction (s : Store) (activities : List Activity) (t : ThreadRef)
    (f : Frame) (closure : Closure) :
    (runInstruction s activities t f closure).activities = activities := by
  simp only [runInstruction]
  split
  · rfl
  · split
    · rfl
    · simp only [perform]
      split
      · split
        · simp only [goTo]
          split
          · split <;> rfl
          · rfl
        · rfl
        · rfl
        · rfl
      · rfl

theorem length_step (m : Machine) :
    m.activities.length ≤ (m.step .bare).activities.length + 1 := by
  obtain ⟨s, activities, control⟩ := m
  cases activities with
  | nil => exact Nat.zero_le _
  | cons top rest =>
  cases control with
  | enter t body => exact Nat.le_succ_of_le (length_native s (top :: rest) t _)
  | run =>
      cases top with
      | script t floor =>
          have turn := runScript_turn s rest t floor
          simp only [step]
          generalize runScript s rest t floor = next at turn ⊢
          cases turn with
          | spent short => exact Nat.le_refl _
          | runs head inside callee =>
              rw [activities_runInstruction]
              exact Nat.le_succ _
          | astray head inside e => exact Nat.le_refl _
      | _ => exact Nat.le_succ _
  | done values =>
      cases top with
      | script t floor =>
          simp only [step, succeed]
          split
          · exact Nat.le_refl _
          · exact Nat.le_succ _
      | native t next => exact Nat.succ_le_succ (length_native s rest t _)
      | collect | restore | guard => exact Nat.le_refl _
      | resumption t =>
          simp only [step, succeed, endResumption]
          split <;> exact Nat.le_refl _
  | fail e =>
      cases top with
      | native t next => exact Nat.succ_le_succ (length_native s rest t _)
      | guard t place depth =>
          simp only [step, failTop]
          split <;> exact Nat.le_refl _
      | _ => exact Nat.le_refl _

end Lengths

variable {slot : Nat} {outcome : NativeOutcome}

theorem settle_returned (valid : t < s.threads.size)
    (ends : settle s activities t outcome = ⟨s', activities, control⟩)
    (shorter : (s'.thread t).frames.length < (s.thread t).frames.length) :
    ∃ count, outcome = .returns count ∧ (s.thread t).yielding = false ∧
      s'.thread t = (s.thread t).finish ((s.thread t).top - min count (s.thread t).top)
        (min count (s.thread t).top) := by
  have waits : ¬activities.length + 1 ≤ (settle s activities t outcome).activities.length := by
    rw [ends]
    exact Nat.not_succ_le_self _
  cases outcome with
  | calls | protects | resumes => exact (waits (length_settle_asks nofun)).elim
  | returns count =>
      have store : _ = s' := congrArg Machine.store ends
      have thread : s'.thread t = if (s.thread t).yielding then s.thread t else
          (s.thread t).finish ((s.thread t).top - min count (s.thread t).top)
            (min count (s.thread t).top) := by
        rw [← store]
        exact Store.thread_modifyThread_self s _ valid
      cases yielding : (s.thread t).yielding with
      | true =>
          rw [thread, yielding, if_pos rfl] at shorter
          exact absurd shorter (Nat.lt_irrefl _)
      | false =>
          rw [yielding, if_neg Bool.false_ne_true] at thread
          exact ⟨count, rfl, rfl, thread⟩

theorem native_handed {action : Action NativeOutcome} (valid : t < s.threads.size)
    (keeps : Keeps (Calm t slot s) action (Leaves t s True))
    (covers : Leads action s (Covered t slot) fun _ => True)
    (ends : perform s activities action (fun s outcome => settle s activities t outcome) =
      ⟨s', activities, control⟩)
    (well : ∀ e, control ≠ .fail e)
    (shorter : (s'.thread t).frames.length < (s.thread t).frames.length) :
    ∃ results, s.pushed? t action = some results ∧ Handed t slot s results (s'.thread t) := by
  have leads := (keeps.leads (.refl _ _ _)).and covers
  simp only [Leads] at leads
  simp only [perform] at ends
  cases result : action s with
  | error e s₁ =>
      rw [result] at ends
      exact absurd (congrArg Machine.control ends).symm (well e)
  | ok outcome s₁ =>
      rw [result] at leads ends
      obtain ⟨⟨calm, -⟩, covered⟩ := leads
      have valid := Nat.lt_of_lt_of_le valid calm.confined.grown
      obtain ⟨count, rfl, -, finished⟩ := settle_returned valid ends (by rwa [calm.frames])
      have room := covered count rfl
      have all : min count (s₁.thread t).top = count := by omega
      rw [all] at finished
      refine ⟨(s₁.thread t).values ((s₁.thread t).top - count) count, ?_, ?_⟩
      · simp only [Store.pushed?, result, all]
      · cases head : (s.thread t).frames with
        | nil =>
            rw [head] at shorter
            contradiction
        | cons f below =>
            refine .intro (s₁.thread t) ((s₁.thread t).top - count) f.pc head ?_ ?_ ?_ ?_
            · rw [calm.frames, head]
            · omega
            · rw [Thread.length_values]
            · rw [Thread.length_values, finished]

theorem yield_stays (valid : t < s.threads.size)
    (ends : perform s activities (yieldArguments t) (fun s outcome =>
      settle s activities t outcome) = ⟨s', activities, control⟩)
    (well : ∀ e, control ≠ .fail e) :
    (s.thread t).frames.length ≤ (s'.thread t).frames.length := by
  have leads := leads_yieldArguments t s
  simp only [Leads] at leads
  simp only [perform] at ends
  cases result : yieldArguments t s with
  | error e s₁ =>
      rw [result] at ends
      exact absurd (congrArg Machine.control ends).symm (well e)
  | ok outcome s₁ =>
      rw [result] at leads ends
      obtain ⟨-, yielded⟩ := leads
      have thread : s₁.thread t =
          { s.thread t with yielded := (s.thread t).arguments, yielding := true } := by
        rw [yielded.store, Store.thread_modifyThread_self _ _ valid]
      have valid : t < s₁.threads.size := by simpa [yielded.store] using valid
      have frames : (s₁.thread t).frames = (s.thread t).frames := by rw [thread]
      by_contra fewer
      obtain ⟨-, -, quiet, -⟩ := settle_returned valid ends (by rw [frames]; omega)
      rw [thread] at quiet
      contradiction

end Machine

theorem Context.ret_ok (x : Context) (a b : Nat) (s : Store) :
    x.ret a b s = .ok .returned ((s.closeCells x.thread x.frame.base).modifyThread x.thread
      fun th => th.finish (x.slot a)
        (if b = 0 then (s.thread x.thread).top - x.slot a else b - 1)) := by
  simp only [ret, countAbove]
  by_cases all : b = 0
  · subst all
    rfl
  · have given : (b != 0) = true := by simpa using all
    rw [if_neg all, given]
    rfl

namespace Machine

variable {s : Store} {t : ThreadRef} {slot : Nat}

theorem ret_finishes (activities : List Activity) {f : Frame} {below : List Frame}
    {ref : ClosureRef} (valid : t < s.threads.size)
    (head : (s.thread t).frames = f :: below) (callee : f.callee = .closure ref)
    (returns : s.returns f) :
    ∃ (source n : Nat) (openCells : List (Nat × CellRef)), f.base ≤ source ∧
      s.returned? t f = some ((s.thread t).values source n) ∧
      (runInstruction s activities t f (s.closure ref)).store.thread t =
        Thread.finish { s.thread t with frames := { f with pc := f.pc + 1 } :: below, openCells }
          source n := by
  obtain ⟨ref', i, callee', code, opcode⟩ := returns
  obtain rfl : ref = ref' := by simpa [callee] using callee'
  have thread := thread_setPc valid head (f.pc + 1)
  have ran : (runInstruction s activities t f (s.closure ref)).store =
      ((s.modifyThread t fun th => th.setPc (f.pc + 1)).closeCells t f.base).modifyThread t
        fun th => th.finish (f.base + i.a)
          (if i.b = 0 then (s.thread t).top - (f.base + i.a) else i.b - 1) := by
    have top : ((s.modifyThread t fun th => th.setPc (f.pc + 1)).thread t).top =
        (s.thread t).top := by rw [thread]
    have done := Context.ret_ok ⟨t, f, s.closure ref, f.pc + 1⟩ i.a i.b
      (s.modifyThread t fun th => th.setPc (f.pc + 1))
    simp only [top, Context.slot] at done
    simp only [runInstruction, code, opcode, perform, Context.execute, done]
  have closed := Store.thread_closeCells (s.modifyThread t fun th => th.setPc (f.pc + 1)) t t f.base
  rw [if_pos rfl, thread] at closed
  have valid : t < ((s.modifyThread t fun th => th.setPc (f.pc + 1)).closeCells t
      f.base).threads.size := by
    rw [Store.threadCount_closeCells, Store.threadCount_modifyThread]
    exact valid
  have finished := Store.thread_modifyThread_self _ (fun th => th.finish (f.base + i.a)
    (if i.b = 0 then (s.thread t).top - (f.base + i.a) else i.b - 1)) valid
  rw [closed] at finished
  refine ⟨f.base + i.a, _, _, Nat.le_add_right _ _, ?_, ran ▸ finished⟩
  simp only [Store.returned?, callee, code, opcode, if_true]

theorem ret_handed (activities : List Activity) {f : Frame} {below : List Frame}
    {ref : ClosureRef} (valid : t < s.threads.size)
    (head : (s.thread t).frames = f :: below) (callee : f.callee = .closure ref)
    (above : slot ≤ f.base) (returns : s.returns f) :
    ∃ results, s.returned? t f = some results ∧ Handed t slot s results
      ((runInstruction s activities t f (s.closure ref)).store.thread t) := by
  obtain ⟨source, n, openCells, base, returned, finished⟩ :=
    ret_finishes activities valid head callee returns
  refine ⟨_, returned, .intro
    { s.thread t with frames := { f with pc := f.pc + 1 } :: below, openCells } source (f.pc + 1)
    head rfl (Nat.le_trans above base) ?_ ?_⟩
  · rw [Thread.length_values]
    rfl
  · rw [Thread.length_values, finished]

end Machine

namespace Guarding

open Machine

variable {g : Guarding} {values : Nat → Value} {above rest : List Activity} {s s' : Store}
  {floor : Nat} {control control' : Control}

theorem Holds.ready_own (holds : g.Holds values above s) (spare : g.Spare above g.thread s) :
    Ready g.thread g.slot s :=
  g.low_self ▸ holds.ready holds.valid spare

theorem script_handed (holds : g.Holds values [] s) (calls : g.Calls floor rest)
    (deep : g.frames.length < (s.thread g.thread).frames.length)
    (ends : runScript s rest g.thread floor = ⟨s', g.under, control'⟩)
    (well : ∀ e, control' ≠ .fail e)
    (returned : (s'.thread g.thread).frames.length ≤ g.frames.length) :
    ∃ results, (s.thread g.thread).frame?.bind (s.returned? g.thread) = some results ∧
      Handed g.thread g.slot s results (s'.thread g.thread) := by
  have inside := calls.inside
  rw [calls.under] at ends
  have turn := runScript_turn s rest g.thread floor
  generalize runScript s rest g.thread floor = next at turn ends
  cases turn with
  | spent short => omega
  | astray frames within e => exact absurd (congrArg Machine.control ends).symm (well e)
  | @runs f below ref frames within callee =>
      rw [frames, List.length_cons] at deep
      have ran := runInstruction_ran (.script g.thread floor :: rest) holds.valid frames callee
      obtain ⟨owned, -, -⟩ := holds.mark.pop frames (by omega)
      have handed := ret_handed (.script g.thread floor :: rest) holds.valid frames callee
        (Nat.le_of_lt owned.low_lt_base)
      rw [Thread.frame?, frames]
      rw [ends] at ran handed
      -- Of all that a frame can do only a return leaves fewer frames and no failure.
      cases ran with
      | stayed pc confined frames' =>
          rw [frames', List.length_cons] at returned
          omega
      | assigned pc assigns written =>
          obtain ⟨stack, thread⟩ := thread_assigned holds.valid frames pc _ _
          rw [written, thread] at returned
          simp only [List.length_cons] at returned
          omega
      | entered pc g fresh above deliver confined cells frames' =>
          rw [frames', List.length_cons, List.length_cons] at returned
          omega
      | replaced g fresh confined frames' =>
          rw [frames', List.length_cons] at returned
          omega
      | returned popped shut returns => exact handed returns
      | vacated e => exact absurd rfl (well e)

theorem entered_handed {r : ThreadRef} {body : NativeBody}
    (healthy : Healthy ⟨s, g.under, .enter r body⟩) (holds : g.Holds values [] s)
    (enters : g.Enters [] s (.enter r body)) (calls : g.Calls floor rest)
    (ends : step .bare ⟨s, g.under, .enter r body⟩ = ⟨s', g.under, control'⟩)
    (well : ∀ e, control' ≠ .fail e)
    (shorter : (s'.thread g.thread).frames.length < (s.thread g.thread).frames.length) :
    ∃ results, s.pushed? r (body.enter .bare r) = some results ∧
      Handed g.thread g.slot s results (s'.thread g.thread) := by
  rw [calls.under] at healthy ends
  cases healthy with
  | settled sound goes => simp at goes
  | @entered _ _ _ _ f base apart working serves yieldable arrived =>
      obtain rfl : g.thread = r := serves
      by_cases yields : body = .builtin .yield
      · subst yields
        have stays := yield_stays holds.valid ends well
        omega
      · have ready := holds.ready_own enters.2
        have arguments : (s.thread g.thread).argumentCount = f.top - f.base := by
          rw [Thread.argumentCount, Thread.frame?, working.head]
          rfl
        have base := ready.frame
        rw [Thread.frame?, working.head] at base
        have low : g.slot ≤ f.base := base
        have top := (working.frames f (working.head ▸ .head _)).owned.top
        have filled : g.slot + (s.thread g.thread).argumentCount ≤ (s.thread g.thread).top := by
          rw [arguments, arrived.top]
          omega
        exact native_handed holds.valid (body.keeps_enter yields ready.permits fun _ => trivial)
          (body.covers_enter yields holds.valid filled) ends well shorter

end Guarding

namespace Guarding

open Machine

variable {g : Guarding} {rest : List Activity} {s' : Store} {floor : Nat} {m : Machine}
  {control' : Control} {values : Nat → Value}

/-- The step that ends a call hands its results over. -/
theorem Runs.handed (runs : g.Runs values m) (healthy : m.Healthy) (calls : g.Calls floor rest)
    (deep : g.frames.length < (m.store.thread g.thread).frames.length)
    (ends : m.step .bare = ⟨s', g.under, control'⟩) (well : ∀ e, control' ≠ .fail e)
    (returned : (s'.thread g.thread).frames.length ≤ g.frames.length) :
    ∃ results, m.results? = some results ∧
      Handed g.thread g.slot m.store results (s'.thread g.thread) := by
  have shorter := Nat.lt_of_le_of_lt returned deep
  have lost : ∀ {s : Store}, s = s' →
      (s.thread g.thread).frames = (m.store.thread g.thread).frames → False := by
    rintro s rfl same
    rw [same] at shorter
    exact Nat.lt_irrefl _ shorter
  -- One activity of the call's own is left at most, since the step takes no more than one away.
  have length := length_step m
  rw [ends] at length
  cases runs with
  | @intro s control above holds enters =>
  cases above with
  | nil =>
      cases control with
      | enter r body => exact entered_handed healthy holds enters calls ends well shorter
      | run =>
          have shape : Machine.step .bare ⟨s, [] ++ g.under, .run⟩ =
              runScript s rest g.thread floor := by
            rw [List.nil_append, calls.under]
            rfl
          have same : results? ⟨s, [] ++ g.under, .run⟩ =
              (s.thread g.thread).frame?.bind (s.returned? g.thread) := by
            rw [List.nil_append, calls.under]
            rfl
          rw [same]
          exact script_handed holds calls deep (shape.symm.trans ends) well returned
      | done results =>
          -- The caller's script only goes on.
          have shape : (Machine.step .bare ⟨s, [] ++ g.under, .done results⟩).store = s := by
            rw [List.nil_append, calls.under]
            simp only [Machine.step, succeed]
            split <;> rfl
          rw [ends] at shape
          exact (lost shape.symm rfl).elim
      | fail e =>
          have shape : Machine.step .bare ⟨s, [] ++ g.under, .fail e⟩ = ⟨s, rest, .fail e⟩ := by
            rw [List.nil_append, calls.under]
            rfl
          exact absurd (congrArg Machine.control (ends.symm.trans shape)) (well e)
  | cons top above =>
      obtain rfl : above = [] := by
        simp only [List.length_append, List.length_cons] at length
        exact List.length_eq_zero_iff.1 (by omega)
      rcases healthy.chained with chained | ⟨r, below, e, own, failed⟩
      · rw [List.cons_append, List.nil_append, calls.under] at chained
        obtain ⟨next, rfl⟩ := chained.onto_script
        obtain ⟨inner, valid, spare⟩ := holds.resume_native
        have ready := inner.ready_own spare
        cases control with
        | enter r body =>
            cases healthy with
            | settled sound goes => simp at goes
            | entered apart working serves => exact False.elim serves
        | run => exact (lost (congrArg Machine.store ends) rfl).elim
        | done results =>
            exact native_handed valid (ready.keeps_succeed next results)
              (next.covers_succeed ready results) ends well shorter
        | fail e =>
            exact native_handed valid (next.keeps_fail ready.permits e) (next.covers_fail ready e)
              ends well shorter
      · obtain ⟨rfl, -⟩ := List.cons.inj own
        obtain rfl : control = .fail e := failed
        exact absurd (congrArg Machine.control ends).symm (well e)

end Guarding

end RegisterVm
