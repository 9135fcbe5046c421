import RegisterVm.Proofs.Call.Ending

/-!
A call instruction and the return that answers it. Between them the callee may do anything but
yield; what the caller sees of it are its results, where it wants them and as many as it wants, and
what has been assigned to captured variables.
-/

namespace RegisterVm

open Machine

structure Delivered (slot : Nat) (wanted : Option Nat) (base : List Frame) (last : Frame)
    (results : List Value) (th : Thread) : Prop where
  values : ∀ place, place < wanted.getD results.length →
    th.get (slot + place) = results.getD place .nil
  cleared : ∀ index, slot + wanted.getD results.length ≤ index → index < last.top →
    th.get index = .nil
  asked : ∀ count caller below, wanted = some count → base = caller :: below →
    caller.kind = .script → th.top = caller.top
  taken : wanted = none → th.top = slot + results.length

theorem Handed.delivered {t : ThreadRef} {slot : Nat} {s : Store} {results : List Value}
    {th' : Thread} {wanted : Option Nat} {base : List Frame}
    (handed : Handed t slot s results th') (frames : th'.frames = base)
    (calling : Calling slot wanted base (s.thread t).frames) :
    ∃ last, (s.thread t).frame? = some last ∧
      Delivered slot wanted base last results th' := by
  obtain ⟨th, source, pc, head, frames', above, values, rfl⟩ := handed
  rename_i last below
  obtain rfl : below = base := by rw [← frames, Thread.frames_finish th frames']
  rw [head] at calling
  obtain ⟨place, target, wants⟩ := calling.head
  have order : ({ last with pc } : Frame).target ≤ source ∨
      min results.length (({ last with pc } : Frame).takes results.length) ≤ 1 :=
    .inl (Nat.le_trans (Nat.le_of_eq target) above)
  have slots := th.get_finish frames' order
  have top := th.top_finish_eq frames' source results.length
  have given : ∀ index, index < results.length →
      th.get (source + index) = results.getD index .nil := by
    intro index bound
    rw [← th.getD_values source bound, ← values]
  simp only [Frame.takes, place, target, wants] at slots
  simp only [Thread.topAfter, Frame.takes, target, wants] at top
  refine ⟨last, by rw [Thread.frame?, head]; rfl, ?_, ?_, ?_, ?_⟩
  · intro index bound
    rw [slots, if_pos (by omega), Nat.add_sub_cancel_left]
    split
    · rename_i here
      exact given index here
    · rename_i missing
      simp [List.getD_eq_getElem?_getD, Nat.not_lt.1 missing]
  · intro index past bound
    rw [slots, if_neg (by omega), if_pos (by omega)]
  · rintro count caller rest rfl rfl script
    simpa only [script] using top
  · rintro rfl
    exact top

structure AtCall (m : Machine) (t : ThreadRef) (f : Frame) (below : List Frame) (i : Instruction)
    (floor : Nat) (rest : List Activity) : Prop where
  activities : m.activities = .script t floor :: rest
  control : m.control = .run
  head : (m.store.thread t).frames = f :: below
  inside : floor ≤ below.length
  code : ∃ ref, f.callee = .closure ref ∧ (m.store.closure ref).prototype.code[f.pc]? = some i
  opcode : i.opcode? = some .call

/-- The call that begins in step 0 of a run returns in step `n`. Until then frames of the callee are
there, and the caller's activity is, which a yield or a failure of the callee would end. -/
structure ReturnsAt (run : Nat → Machine) (t : ThreadRef) (depth floor : Nat)
    (rest : List Activity) (n : Nat) : Prop where
  deep : ∀ k, k < n → depth < ((run (k + 1)).store.thread t).frames.length
  waits : ∀ k, k < n → rest.length < (run (k + 1)).activities.length
  activities : (run (n + 1)).activities = .script t floor :: rest
  well : ∀ e, (run (n + 1)).control ≠ .fail e
  returned : ((run (n + 1)).store.thread t).frames.length ≤ depth

/-- What call instruction `i` of frame `f` has left, when it has returned in step `n` of a run. -/
structure Returned (t : ThreadRef) (f : Frame) (below : List Frame) (i : Instruction)
    (run : Nat → Machine) (n : Nat) (results : List Value) : Prop where
  frames : ((run (n + 1)).store.thread t).frames = { f with pc := f.pc + 1 } :: below
  /-- Slots below that of the call change by assignments through their cells alone. -/
  beneath : ∀ k, k ≤ n → ∀ index, index < f.base + i.a →
    ((run (k + 1)).store.thread t).get index = ((run k).store.thread t).get index ∨
      ∃ cell, (run k).assignment? = some (cell, ((run (k + 1)).store.thread t).get index) ∧
        (run k).store.cells[cell]? = some (Cell.slot t index)
  asked : i.c ≠ 0 → ((run (n + 1)).store.thread t).top = f.top ∧ ∀ place, place < i.c - 1 →
    ((run (n + 1)).store.thread t).get (f.base + i.a + place) = results.getD place .nil
  taken : i.c = 0 →
    ((run (n + 1)).store.thread t).top = f.base + i.a + results.length ∧
      ∀ place, place < results.length →
        ((run (n + 1)).store.thread t).get (f.base + i.a + place) = results.getD place .nil
  /-- Behind the results the slots of the frame that has returned are nil. -/
  cleared : ∀ last ∈ ((run n).store.thread t).frame?, ∀ index,
    f.base + i.a + (if i.c = 0 then results.length else i.c - 1) ≤ index → index < last.top →
    ((run (n + 1)).store.thread t).get index = .nil

namespace Guarding

variable {g : Guarding} {wanted : Option Nat} {m : Machine} {floor n : Nat} {rest : List Activity}

theorem running_after (first : g.Running wanted (m.after .bare 1)) (healthy : m.Healthy)
    (calls : g.Calls floor rest)
    (deep : ∀ k, k < n →
      g.frames.length < ((m.after .bare (k + 1)).store.thread g.thread).frames.length)
    (longer : ∀ k, k ≤ n → rest.length < (m.after .bare (k + 1)).activities.length) (k : Nat)
    (bound : k < n) : g.Running wanted (m.after .bare (k + 1)) := by
  -- `Running` is kept by every step that leaves the call one of its frames.
  induction k with
  | zero => exact first
  | succ k ih =>
      exact (ih (by omega)).step (healthy.after (k + 1)) calls (deep k (by omega))
        (longer (k + 1) (by omega)) (deep (k + 1) bound)

theorem Begun.running {values : Nat → Value} (begun : g.Begun values wanted (m.after .bare 1))
    (calls : g.Calls floor rest)
    (longer : ∀ k, k ≤ n → rest.length < (m.after .bare (k + 1)).activities.length)
    (well : ∀ e, (m.after .bare (n + 1)).control ≠ .fail e)
    (returned : ((m.after .bare (n + 1)).store.thread g.thread).frames.length ≤ g.frames.length) :
    0 < n ∧ g.Runs values (m.after .bare 1) ∧ g.Running wanted (m.after .bare 1) := by
  cases n with
  | zero =>
      rcases begun with ⟨s, e, failed⟩ | ⟨-, upper, last, frames, -⟩
      · exact absurd (congrArg Machine.control failed) (well e)
      · rw [frames, List.length_append, List.length_cons] at returned
        omega
  | succ n =>
      refine ⟨Nat.succ_pos n, ?_⟩
      rcases begun with ⟨s, e, failed⟩ | ⟨runs, calling⟩
      · -- The failure would have ended the caller's activity as well.
        have gone : (m.after .bare 2).activities = rest := by
          rw [after, failed, calls.under]
          rfl
        have still := longer 1 (by omega)
        rw [gone] at still
        exact absurd still (Nat.lt_irrefl _)
      · exact ⟨runs, runs.here, calling⟩

theorem Runs.frames_eq {values : Nat → Value} (runs : g.Runs values m)
    (returned : (m.store.thread g.thread).frames.length ≤ g.frames.length) :
    (m.store.thread g.thread).frames = g.frames := by
  cases runs with
  | intro above holds enters =>
      obtain ⟨upper, frames, -⟩ := holds.mark.stacked.exists_append
      rw [frames, List.length_append] at returned
      obtain rfl : upper = [] := List.length_eq_zero_iff.1 (by omega)
      exact frames

/-- What a call has left when it has returned, and what it has done to the slots below. -/
theorem Begun.returns (begun : g.Begun (m.store.thread g.thread).get wanted (m.after .bare 1))
    (healthy : m.Healthy) (calls : g.Calls floor rest)
    (back : ReturnsAt (m.after .bare) g.thread g.frames.length floor rest n) :
    ((m.after .bare (n + 1)).store.thread g.thread).frames = g.frames ∧
    (∀ k, k ≤ n → ∀ index, index < g.slot →
      ((m.after .bare (k + 1)).store.thread g.thread).get index =
          ((m.after .bare k).store.thread g.thread).get index ∨
        ∃ cell, (m.after .bare k).assignment? =
            some (cell, ((m.after .bare (k + 1)).store.thread g.thread).get index) ∧
          (m.after .bare k).store.cells[cell]? = some (.slot g.thread index)) ∧
    ∃ results last, (m.after .bare n).results? = some results ∧
      ((m.after .bare n).store.thread g.thread).frame? = some last ∧
      Delivered g.slot wanted g.frames last results
        ((m.after .bare (n + 1)).store.thread g.thread) := by
  have longer : ∀ k, k ≤ n → rest.length < (m.after .bare (k + 1)).activities.length := by
    intro k bound
    by_cases last : k = n
    · rw [last, back.activities]
      exact Nat.lt_succ_self _
    · exact back.waits k (by omega)
  obtain ⟨positive, entered, first⟩ := begun.running calls longer back.well back.returned
  have running := running_after first healthy calls back.deep longer
  obtain ⟨last, rfl⟩ : ∃ last, n = last + 1 := ⟨n - 1, by omega⟩
  obtain ⟨runs, calling⟩ := running last (Nat.lt_succ_self _)
  have deepest := back.deep last (Nat.lt_succ_self _)
  -- The step that ends the call leaves none of its frames and so does not keep `Running`.
  have frames : ((m.after .bare (last + 1 + 1)).store.thread g.thread).frames = g.frames := by
    obtain ⟨values', -, next⟩ := runs.step_called calls deepest (longer (last + 1) (Nat.le_refl _))
    exact next.frames_eq back.returned
  refine ⟨frames, ?_, ?_⟩
  · intro k bound index below
    cases k with
    | zero => exact .inl (entered.slots below)
    | succ k =>
        have current := (running k (by omega)).runs
        obtain ⟨values', follows, next⟩ :=
          current.step_called calls (back.deep k (by omega)) (longer (k + 1) bound)
        exact next.below follows below
  · have ends : (m.after .bare (last + 1)).step .bare = ⟨(m.after .bare (last + 1 + 1)).store, g.under,
        (m.after .bare (last + 1 + 1)).control⟩ := by
      change m.after .bare (last + 1 + 1) = _
      rw [calls.under, ← back.activities]
    obtain ⟨results, found, handed⟩ :=
      runs.handed (healthy.after (last + 1)) calls deepest ends back.well back.returned
    obtain ⟨innermost, top, delivered⟩ := handed.delivered frames calling
    exact ⟨results, innermost, found, top, delivered⟩

end Guarding

/-- A call that returns touches only the slots of its results, and those that captured variables
stand for. -/
theorem Machine.call_returns {limits : Limits} {m : Machine} {t : ThreadRef} {f : Frame}
    {below : List Frame} {i : Instruction} {floor n : Nat} {rest : List Activity}
    (reachable : m.Reachable limits) (calls : AtCall m t f below i floor rest)
    (back : ReturnsAt (m.after .bare) t (below.length + 1) floor rest n) :
    ∃ results, (m.after .bare n).results? = some results ∧ Returned t f below i (m.after .bare) n results := by
  have healthy := reachable.healthy
  obtain ⟨ref, callee, code⟩ := calls.code
  have script : f.kind = .script := by
    obtain ⟨mine, tidy⟩ := healthy.tidy t
    have typed := (tidy.frames f (calls.head ▸ .head _)).typed
    simpa only [Frame.Typed, callee] using typed
  obtain ⟨s, activities, control⟩ := m
  obtain ⟨rfl, rfl, head, inside, -, opcode⟩ := calls
  have held : (s.thread t).held = true := healthy.worker_held rfl (Store.lt_of_frames head)
  have begun := Guarding.step_begun rest healthy.linked held head inside callee code opcode
  obtain ⟨frames, beneath, results, last, found, top, delivered⟩ := begun.returns
    (m := ⟨s, .script t floor :: rest, .run⟩) healthy (Guarding.beginning_calls _ inside) back
  refine ⟨results, found, frames, beneath, ?_, ?_, ?_⟩
  · intro asks
    have wanted : i.wanted = some (i.c - 1) := if_neg (by simpa using asks)
    refine ⟨delivered.asked _ { f with pc := f.pc + 1 } below wanted rfl script, ?_⟩
    exact fun place bound => delivered.values place (by rw [wanted]; exact bound)
  · intro all
    have wanted : i.wanted = none := if_pos (by simpa using all)
    refine ⟨delivered.taken wanted, ?_⟩
    exact fun place bound => delivered.values place (by rw [wanted]; exact bound)
  · intro innermost member index past bound
    obtain rfl : last = innermost := Option.some.inj (top.symm.trans member)
    have count : i.wanted.getD results.length = if i.c = 0 then results.length else i.c - 1 := by
      by_cases all : i.c = 0 <;> simp [Instruction.wanted, all]
    exact delivered.cleared index (by rw [count]; exact past) bound

namespace Machine

def answeringPrototype : Prototype :=
  { Prototype.empty with
    code := #[.abc .loadBool 0 1 0, .abc .ret 0 2 0]
    window := 1 }

def askingPrototype : Prototype :=
  { Prototype.empty with
    code := #[.abx .closure 1 0, .abc .call 1 1 3, .abc .ret 0 1 0]
    children := #[answeringPrototype]
    window := 3 }

/-- A host has made the asking function and has called it, and it has made the answering one. -/
def askingCall : Machine :=
  (beginRestoringCall (Engine.setHeld
    ((Vm.new .standard).store.newClosure ⟨askingPrototype, #[]⟩).2 0 true) [] 0 (.closure 0)
    #[]).step .bare

def askingFrame : Frame := { Frame.script (.closure 0) 0 1 4 with pc := 1 }

theorem call_returns_asking :
    askingCall.Reachable .standard ∧
      AtCall askingCall 0 askingFrame [] (.abc .call 1 1 3) 0 [.collect 0 0, .restore 0 0 0] ∧
      ReturnsAt (askingCall.after .bare) 0 1 0 [.collect 0 0, .restore 0 0 0] 2 ∧
      ∃ results, (askingCall.after .bare 2).results? = some results ∧
        Returned 0 askingFrame [] (.abc .call 1 1 3) (askingCall.after .bare) 2 results := by
  have made : Reachable .standard
      ⟨((Vm.new .standard).store.newClosure ⟨askingPrototype, #[]⟩).2, [], .done #[]⟩ :=
    .single (.heap rfl rfl)
  have called : Reachable .standard (beginRestoringCall (Engine.setHeld
      ((Vm.new .standard).store.newClosure ⟨askingPrototype, #[]⟩).2 0 true) [] 0 (.closure 0)
      #[]) := made.tail (.call rfl rfl _ _)
  have reachable : askingCall.Reachable .standard := called.tail (.step _)
  have calls : AtCall askingCall 0 askingFrame [] (.abc .call 1 1 3) 0
      [.collect 0 0, .restore 0 0 0] :=
    ⟨rfl, rfl, rfl, Nat.le_refl 0, ⟨0, rfl, rfl⟩, rfl⟩
  have back : ReturnsAt (askingCall.after .bare) 0 1 0 [.collect 0 0, .restore 0 0 0] 2 :=
    ⟨by decide, by decide, rfl, nofun, by decide⟩
  exact ⟨reachable, calls, back, call_returns reachable calls back⟩

end Machine

end RegisterVm
