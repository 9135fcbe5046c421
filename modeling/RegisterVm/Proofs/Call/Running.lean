import RegisterVm.Proofs.Coroutine.Idle
import RegisterVm.Proofs.Protected.Steps

/-!
A call that an instruction has begun, while it runs. Its frames stay above those of the caller, the
lowest of them keeps the place where the results will go, and the slots below the call change by
assignments through cells alone.
-/

namespace RegisterVm

structure Frame.ReturnsTo (f : Frame) (place : Nat) (wants : Option Nat) : Prop where
  slot : f.slot = place
  target : f.target = place
  wanted : f.wanted = wants

def Calling (slot : Nat) (wanted : Option Nat) (base frames : List Frame) : Prop :=
  ∃ upper f, frames = upper ++ f :: base ∧ f.ReturnsTo slot wanted

section Frames

variable {slot : Nat} {wanted : Option Nat} {base frames frames' : List Frame} {p : Frame → Prop}

/-- The lowest of the frames above `base` is one such as `p` says. -/
def Lowest (p : Frame → Prop) (base frames : List Frame) : Prop :=
  ∃ upper f, frames = upper ++ f :: base ∧ p f

theorem Lowest.push (lowest : Lowest p base frames) (f : Frame) : Lowest p base (f :: frames) := by
  obtain ⟨upper, g, rfl, holds⟩ := lowest
  exact ⟨f :: upper, g, rfl, holds⟩

theorem Lowest.replace {f g : Frame} {below : List Frame} (lowest : Lowest p base (f :: below))
    (same : p f → p g) : Lowest p base (g :: below) := by
  obtain ⟨upper, own, frames, holds⟩ := lowest
  cases upper with
  | nil =>
      obtain ⟨rfl, rfl⟩ := List.cons.inj frames
      exact ⟨[], g, rfl, same holds⟩
  | cons top upper =>
      obtain ⟨rfl, rfl⟩ := List.cons.inj frames
      exact ⟨g :: upper, own, rfl, holds⟩

theorem Reframed.lowest (reframed : Reframed frames frames') (lowest : Lowest p base frames)
    (same : ∀ f g : Frame, g.slot = f.slot → g.target = f.target → g.wanted = f.wanted → p f → p g)
    (deep : base.length < frames'.length) : Lowest p base frames' := by
  cases reframed with
  | dropped suffix =>
      obtain ⟨upper, f, rfl, holds⟩ := lowest
      obtain ⟨upper', rfl⟩ : f :: base <:+ frames' := by
        refine List.suffix_of_suffix_length_le (List.suffix_append _ _) suffix ?_
        exact deep
      exact ⟨upper', f, rfl, holds⟩
  | replaced place target wants => exact lowest.replace (same _ _ place target wants)
  | pushed g => exact lowest.push g
  | @entered f below g pc =>
      exact (lowest.replace (g := { f with pc }) (same _ _ rfl rfl rfl)).push g

theorem Reframed.calling (reframed : Reframed frames frames')
    (calling : Calling slot wanted base frames) (deep : base.length < frames'.length) :
    Calling slot wanted base frames' :=
  reframed.lowest calling (fun _ _ place target wants returns =>
    ⟨place.trans returns.slot, target.trans returns.target, wants.trans returns.wanted⟩) deep

theorem Calling.head {f : Frame} (calling : Calling slot wanted base (f :: base)) :
    f.ReturnsTo slot wanted := by
  obtain ⟨upper, g, frames, returns⟩ := calling
  cases upper with
  | nil =>
      obtain ⟨rfl, -⟩ := List.cons.inj frames
      exact returns
  | cons top upper =>
      have length := congrArg List.length frames
      simp only [List.length_cons, List.length_append] at length
      omega

end Frames

namespace Machine

section Reframing

variable {m m' : Machine} {s : Store} {t r : ThreadRef}

theorem beginResumption_advances (valid : t < s.threads.size) (activities : List Activity)
    (arguments : Array Value) : (s.thread t).Advances
      ((beginResumption s activities t arguments).store.thread t) := by
  have woken : (s.modifyThread t fun th => { th with status := .running, held := true }).thread t =
      { s.thread t with status := .running, held := true } :=
    Store.thread_modifyThread_self s _ valid
  have valid : t < (s.modifyThread t fun th =>
      { th with status := .running, held := true }).threads.size := by simpa using valid
  simp only [beginResumption]
  split
  · generalize (s.modifyThread t fun th => { th with status := .running, held := true }) = s₁
      at woken valid ⊢
    refine perform_elim (p := fun m => (s.thread t).Advances (m.store.thread t))
      (leads_layOutEntry t arguments s₁) ?_ ?_
    · intro _ s₂ calm
      have kept : (s₂.thread t).frames = (s.thread t).frames := by rw [calm.frames, woken]
      have limits : (s₂.thread t).limits = (s.thread t).limits := by
        rw [calm.confined.own.limits, woken]
      refine perform_elim (p := fun m => (s.thread t).Advances (m.store.thread t))
        (leads_enterCall _ _ _ (Nat.lt_of_lt_of_le valid calm.confined.grown) (Nat.zero_le _)) ?_ ?_
      · rintro callee s₃ ⟨f, -, -, pushed⟩
        have entered : (s.thread t).Advances (s₃.thread t) :=
          ⟨kept ▸ pushed.frames ▸ .pushed f, fun _ => pushed.shallow⟩
        cases callee <;> exact entered
      · rintro e s₃ rfl
        exact .of_same limits kept
    · rintro e s₂ rfl
      exact .of_same (by rw [woken]) (by rw [woken])
  · generalize (s.modifyThread t fun th => { th with status := .running, held := true }) = s₁
      at woken valid ⊢
    have awake : (s₁.awaken t).thread t = { s₁.thread t with yielding := false } :=
      Store.thread_modifyThread_self s₁ _ valid
    refine perform_elim (p := fun m => (s.thread t).Advances (m.store.thread t))
      (leads_deliverYield valid arguments) ?_ ?_
    · rintro _ s₂ ⟨popped, -⟩
      have dropped : (s.thread t).Advances (s₂.thread t) := by
        refine .of_suffix ?_ ?_
        · rw [popped.confined.own.limits, awake, woken]
        · rw [popped.frames, woken]
          exact List.tail_suffix _
      split <;> exact dropped
    · rintro e s₂ rfl
      exact .of_same (by rw [awake, woken]) (by rw [awake, woken])
  · exact .of_same rfl rfl
  · exact .of_same rfl rfl

theorem Spares.reframed (spares : Spares t m m') :
    Reframed (m.store.thread t).frames (m'.store.thread t).frames := by
  obtain ⟨stack, openCells, thread⟩ := spares.thread
  exact .same (by rw [thread])

theorem Steps.reframed (steps : Steps r m m') (valid : t < m.store.threads.size) :
    Reframed (m.store.thread t).frames (m'.store.thread t).frames := by
  by_cases own : t = r
  · subst own
    cases steps with
    | works works =>
        cases works with
        | advanced advanced => exact advanced.thread.frames
        | @resumes s activities co arguments calm accepted =>
            have other : t ≠ co := by
              rintro rfl
              simp [Coroutine.refusal?] at accepted
            have kept := (beginResumption_local s activities co arguments).others t other
              (Nat.lt_of_lt_of_le valid calm.confined.grown)
            exact .same (by rw [kept, calm.frames])
    | assigned pc head assigns written =>
        obtain ⟨stack, thread⟩ := thread_assigned valid head pc _ _
        rw [written, thread, head]
        exact .replaced rfl rfl rfl
    | ended activities control =>
        refine .same ?_
        simp only [endResumption]
        split <;> exact Store.field_modifyThread Thread.frames _ t t _ fun _ => rfl
    | killed activities control =>
        rw [frames_killCoroutine _ valid]
        exact .dropped List.nil_suffix
  · rcases steps.idle own valid with spares | ⟨s, activities, arguments, same, -, rfl⟩
    · exact spares.reframed
    · rw [← same]
      by_cases exists' : t < s.threads.size
      · exact (beginResumption_advances exists' activities arguments).frames
      · obtain ⟨e, refused⟩ := beginResumption_invalid (Nat.not_lt.1 exists') activities arguments
        exact .same (by rw [refused])

theorem Next.reframed (healthy : m.Healthy) (next : Next m m')
    (valid : t < m.store.threads.size) :
    Reframed (m.store.thread t).frames (m'.store.thread t).frames := by
  cases next with
  | step m =>
      rcases step_cases healthy.real with same | ⟨r, -, steps⟩
      · exact .same (by rw [same])
      · exact steps.reframed valid
  | drop m r => exact .same (Store.frames_closeCells _ _ _ _)
  | heap cells threads => exact .same (by simp only [Store.thread, threads])
  | newCell value => exact .same rfl
  | newCoroutine globals limits entry =>
      refine .same (congrArg Thread.frames ?_)
      exact (Store.thread_newThread _ _ t).trans (if_neg (Nat.ne_of_lt valid))
  | @call s control r main free callee arguments =>
      have held : ((Engine.setHeld s r true).thread t).frames = (s.thread t).frames :=
        Store.field_modifyThread Thread.frames s r t _ fun _ => rfl
      rw [← held]
      by_cases own : t = r
      · subst own
        exact (beginValueCall_advanced (by simpa [Engine.setHeld] using valid) callee
          arguments).thread.frames
      · have valid' : r < (Engine.setHeld s r true).threads.size := by
          simpa [Engine.setHeld] using Store.lt_of_main main
        exact .same (congrArg Thread.frames ((beginValueCall_advanced valid' callee
          arguments).inside.others t own (by simpa [Engine.setHeld] using valid)))
  | @release s control r main =>
      have released : ((Engine.setHeld s r false).thread t).frames = (s.thread t).frames :=
        Store.field_modifyThread Thread.frames s r t _ fun _ => rfl
      exact .same released
  | @resume s control r held arguments =>
      by_cases own : t = r
      · subst own
        exact (beginResumption_advances valid [] arguments).frames
      · exact .same (congrArg Thread.frames
          ((beginResumption_local s [] r arguments).others t own valid))

end Reframing

end Machine

namespace Guarding

open Machine

variable {g : Guarding} {values : Nat → Value} {above rest : List Activity} {s : Store}
  {floor : Nat} {m : Machine}

structure Calls (g : Guarding) (floor : Nat) (rest : List Activity) : Prop where
  under : g.under = .script g.thread floor :: rest
  inside : floor < g.frames.length

/-- While a call runs, every step keeps what it relies on, unless the caller's activity ends. -/
theorem Runs.step_called (runs : g.Runs values m) (calls : g.Calls floor rest)
    (deep : g.frames.length < (m.store.thread g.thread).frames.length)
    (longer : rest.length < (m.step .bare).activities.length) :
    ∃ values', g.Follows m values values' ∧ g.Runs values' (m.step .bare) := by
  cases runs with
  | @intro s control above holds enters =>
  -- With an activity of the call's own on top the step is like any other. Without one it is the
  -- caller's activity that takes the step, and it is still there afterwards.
  cases above with
  | cons top above =>
      refine (Runs.intro (top :: above) holds enters).step fun own => ?_
      have length := congrArg List.length own
      simp only [List.length_append, List.length_cons] at length
      omega
  | nil =>
      have script : [] ++ g.under = .script g.thread floor :: rest := calls.under
      have inside := calls.inside
      cases control with
      | enter t body => exact (Runs.intro [] holds enters).step fun _ => ⟨t, body, rfl⟩
      | done results =>
          rw [script] at longer ⊢
          simp only [Machine.step, succeed] at longer ⊢
          split at longer
          · exact absurd longer (Nat.lt_irrefl _)
          · rename_i quiet
            rw [if_neg quiet, ← script]
            exact ⟨values, .refl _ _, .intro [] holds trivial⟩
      | fail e =>
          rw [script] at longer
          exact absurd longer (Nat.lt_irrefl _)
      | run =>
          have turn := runScript_turn s rest g.thread floor
          rw [script] at longer ⊢
          simp only [Machine.step] at longer ⊢
          generalize runScript s rest g.thread floor = next at turn longer ⊢
          cases turn with
          | spent short => exact absurd longer (Nat.lt_irrefl _)
          | runs frames within callee =>
              rw [frames, List.length_cons] at deep
              have ran := runInstruction_ran (.script g.thread floor :: rest) holds.valid frames
                callee
              rw [← script] at ran ⊢
              exact ran_runs holds holds.valid frames within (fun _ => Nat.le_of_lt_succ deep)
                script ran
          | astray frames within e => exact absurd longer (Nat.lt_irrefl _)

structure Running (g : Guarding) (wanted : Option Nat) (m : Machine) : Prop where
  runs : g.Runs (m.store.thread g.thread).get m
  calling : Calling g.slot wanted g.frames (m.store.thread g.thread).frames

theorem Running.step {wanted : Option Nat} (running : g.Running wanted m) (healthy : m.Healthy)
    (calls : g.Calls floor rest) (deep : g.frames.length < (m.store.thread g.thread).frames.length)
    (longer : rest.length < (m.step .bare).activities.length)
    (deep' : g.frames.length < ((m.step .bare).store.thread g.thread).frames.length) :
    g.Running wanted (m.step .bare) := by
  obtain ⟨runs, calling⟩ := running
  obtain ⟨values', -, next⟩ := runs.step_called calls deep longer
  refine ⟨next.here, ((Next.step m).reframed healthy ?_).calling calling deep'⟩
  cases runs with
  | intro above holds enters => exact holds.valid

def beginning (s : Store) (t : ThreadRef) (f : Frame) (below : List Frame) (slot floor : Nat)
    (rest : List Activity) : Guarding :=
  ⟨t, slot, { f with pc := f.pc + 1 } :: below, (s.thread t).pinned, .script t floor :: rest⟩

end Guarding

def Instruction.wanted (i : Instruction) : Option Nat := if i.c == 0 then none else some (i.c - 1)

theorem Context.leads_call_entered {x : Context} {s : Store} (valid : x.thread < s.threads.size)
    (a b : Nat) (wanted : Option Nat) :
    Leads (x.call a b wanted) s
      (fun flow s' => ∃ callee f, flow = .entered callee ∧
        f.Fresh (s.thread x.thread).isYieldable (x.slot a) (x.slot a) callee ∧
        f.wanted = wanted ∧ s.Pushed x.thread (x.slot a) f s')
      fun _ => True := by
  refine leads_countAbove fun arguments => .modifyThread_bind ?_
  have calm : Calm x.thread (x.slot a) s
      (s.modifyThread x.thread fun th => th.withTop (x.slot a + 1 + arguments)) := by
    refine (Calm.refl _ _ _).modifyThread (Thread.reworked_withTop _ _ _) rfl (.inr ?_)
    rw [Thread.top_withTop]
    omega
  have valid := Nat.lt_of_lt_of_le valid calm.confined.grown
  have entered := leads_enterCall arguments (x.slot a) wanted valid (Nat.le_refl (x.slot a))
  refine (entered.mono ?_ fun _ _ => trivial).bind fun _ _ entered => .pure entered
  rintro callee s' ⟨f, fresh, takes, pushed⟩
  rw [calm.confined.own.isYieldable] at fresh
  exact ⟨callee, f, rfl, fresh, takes, pushed.after calm⟩

namespace Guarding

open Machine

variable {s : Store} {t : ThreadRef} {f : Frame} {below : List Frame} {floor : Nat}
  {rest : List Activity} {ref : ClosureRef} {i : Instruction}

theorem beginning_calls (slot : Nat) (inside : floor ≤ below.length) :
    (beginning s t f below slot floor rest).Calls floor rest :=
  ⟨rfl, Nat.lt_succ_of_le inside⟩

def Begun (g : Guarding) (values : Nat → Value) (wanted : Option Nat) (m : Machine) : Prop :=
  (∃ s e, m = ⟨s, g.under, .fail e⟩) ∨
    g.Runs values m ∧ Calling g.slot wanted g.frames (m.store.thread g.thread).frames

theorem step_begun (rest : List Activity) (linked : s.Linked) (held : (s.thread t).held = true)
    (head : (s.thread t).frames = f :: below) (inside : floor ≤ below.length)
    (callee : f.callee = .closure ref) (code : (s.closure ref).prototype.code[f.pc]? = some i)
    (opcode : i.opcode? = some .call) :
    (beginning s t f below (f.base + i.a) floor rest).Begun (s.thread t).get i.wanted
      (step .bare ⟨s, .script t floor :: rest, .run⟩) := by
  have valid := Store.lt_of_held held
  have thread := thread_setPc valid head (f.pc + 1)
  have advance : s.Confined t (f.base + i.a) (s.modifyThread t fun th => th.setPc (f.pc + 1)) :=
    Store.confined_reworked (Thread.reworked_setPc _ _)
  have started : t < (s.modifyThread t fun th => th.setPc (f.pc + 1)).threads.size := by
    simpa using valid
  have leads := Context.leads_call_entered (x := ⟨t, f, s.closure ref, f.pc + 1⟩) started
    i.a i.b i.wanted
  simp only [step, runScript_eq rest head inside callee, runInstruction, code, opcode]
  generalize (s.modifyThread t fun th => th.setPc (f.pc + 1)) = s₁ at thread advance leads ⊢
  refine perform_elim leads ?_ fun e s' _ => .inl ⟨s', e, rfl⟩
  rintro flow s' ⟨entered, g, rfl, fresh, wanted, pushed⟩
  have confined := advance.trans pushed.confined
  have frames : (s'.thread t).frames = g :: { f with pc := f.pc + 1 } :: below := by
    rw [pushed.frames, thread]
  have holds : (beginning s t f below (f.base + i.a) floor rest).Holds (s.thread t).get [] s' := {
    linked := confined.linked linked
    held := confined.own.held.trans held
    clear := .nil
    mark := .of_pushed .base (fresh.owned (Nat.le_refl _) (Nat.le_refl _)) frames pushed.top
    enough := Nat.le_trans (Nat.le_succ _) (Nat.le_of_eq (congrArg List.length frames).symm)
    pinned := confined.own.pinned
    slots := confined.own.slots }
  have enters : (beginning s t f below (f.base + i.a) floor rest).Enters [] s'
      (entered.control t) :=
    enters_control entered (Nat.lt_of_lt_of_le valid confined.grown) fun _ =>
      Nat.le_of_eq (congrArg List.length frames).symm
  have calling : Calling (f.base + i.a) i.wanted ({ f with pc := f.pc + 1 } :: below)
      (s'.thread t).frames := ⟨[], g, frames, fresh.slot, fresh.target, wanted⟩
  right
  cases entered <;> exact ⟨.intro [] holds enters, calling⟩

end Guarding

end RegisterVm
