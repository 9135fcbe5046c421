import RegisterVm.Machine.Step
import RegisterVm.Proofs.Machine.Calls

/-!
Switching between threads: a yield, the start of a coroutine, its continuation, and the results that
a call hands to native code.
-/

namespace RegisterVm

variable {t : ThreadRef} {s : Store}

structure Store.Yielded (t : ThreadRef) (s s' : Store) : Prop where
  frame : ∃ f, (s.thread t).frame? = some f ∧ f.yieldable = true
  store : s' = s.modifyThread t fun th => { th with yielded := th.arguments, yielding := true }

theorem leads_yieldArguments (t : ThreadRef) (s : Store) :
    Leads (yieldArguments t) s
      (fun outcome s' => outcome = .returns 0 ∧ s.Yielded t s') (fun s' => s' = s) := by
  refine .lookThread_bind ?_
  split
  · rfl
  · refine .lookThread_bind ?_
    split
    · rfl
    · rename_i accepted
      refine .modifyThread_bind (.pure ⟨rfl, ?_, rfl⟩)
      cases frame : (s.thread t).frame? with
      | none => simp [frame] at accepted
      | some f => exact ⟨f, rfl, by simpa [frame] using accepted⟩

theorem leads_layOutEntry (t : ThreadRef) (values : Array Value) (s : Store) :
    Leads (Machine.layOutEntry t values) s (fun _ s' => Calm t 0 s s') (fun s' => s' = s) := by
  refine .reserve_bind (.modifyThread ?_) rfl
  refine ((Calm.refl t 0 s).reserve _).modifyThread ?_ (by simp) (.inr (Nat.zero_le _))
  exact (Thread.reworked_putAll _ _ (Nat.zero_le _)).trans (Thread.reworked_withTop _ _ _)

def Store.awaken (s : Store) (t : ThreadRef) : Store :=
  s.modifyThread t fun th => { th with yielding := false }

theorem leads_deliver {low : Nat} (valid : t < s.threads.size) (base : Nat) (values : Array Value)
    (above : low ≤ base)
    (owned : ∀ f below, (s.thread t).frames = f :: below → low ≤ f.slot ∧ low ≤ f.target) :
    Leads (do
        reserve t (base + values.size)
        modifyThread t fun th =>
          ((th.putAll base values.toList).withTop (base + values.size)).finish base values.size) s
      (fun _ s' => s.Popped t low (s.thread t).frames.tail s' ∧ s'.cells = s.cells)
      (fun s' => s' = s) := by
  refine .reserve_bind (.modifyThread ?_) rfl
  have calm := (Calm.refl t low s).reserve (base + values.size)
  generalize Store.modifyThread _ _ _ = reserved at calm ⊢
  have valid := Nat.lt_of_lt_of_le valid calm.confined.grown
  have laid : Thread.Reworked low (reserved.thread t)
      (((reserved.thread t).putAll base values.toList).withTop (base + values.size)) :=
    (Thread.reworked_putAll _ _ above).trans (Thread.reworked_withTop _ _ _)
  have kept : (((reserved.thread t).putAll base values.toList).withTop
      (base + values.size)).frames = (reserved.thread t).frames := by simp
  rw [← calm.frames] at owned ⊢
  refine ⟨.after calm.confined ?_, calm.cells⟩
  cases frames : (reserved.thread t).frames with
  | nil =>
      have empty := kept.trans frames
      refine ⟨Store.confined_reworked ?_, ?_, .inl ?_⟩
      · rw [Thread.finish_nil _ empty]
        exact laid
      · rw [Store.thread_modifyThread_self _ _ valid, Thread.finish_nil _ empty]
        exact empty
      · rw [Store.thread_modifyThread_self _ _ valid, Thread.finish_nil _ empty,
          Thread.top_withTop]
        omega
  | cons f below =>
      have head := kept.trans frames
      obtain ⟨slot, target⟩ := owned f below frames
      refine ⟨Store.confined_reworked (laid.trans (Thread.reworked_finish _ head slot target _ _)),
        ?_, ?_⟩ <;> rw [Store.thread_modifyThread_self _ _ valid]
      · exact Thread.frames_finish _ head _ _
      · exact (Thread.top_finish _ head _ _).imp_left (Nat.le_trans target)

theorem leads_deliverYield_above {low : Nat} (valid : t < s.threads.size) (values : Array Value)
    (owned : ∀ f below, (s.thread t).frames = f :: below →
      low ≤ f.base ∧ low ≤ f.slot ∧ low ≤ f.target)
    (empty : (s.thread t).frames = [] → low = 0) :
    Leads (Machine.deliverYield t values) s
      (fun _ s' => (s.awaken t).Popped t low (s.thread t).frames.tail s' ∧ s'.cells = s.cells)
      (fun s' => s' = s.awaken t) := by
  have frames : ((s.awaken t).thread t).frames = (s.thread t).frames := by
    rw [Store.awaken, Store.thread_modifyThread_self _ _ valid]
  have valid : t < (s.awaken t).threads.size := by simpa [Store.awaken] using valid
  refine .modifyThread_bind (.lookThread_bind ?_)
  change Leads _ (s.awaken t) _ _
  rw [← frames] at owned empty ⊢
  refine leads_deliver valid _ values ?_ fun f below head => (owned f below head).2
  split
  · rename_i f head
    obtain ⟨below, head⟩ := List.head?_eq_some_iff.1 head
    exact (owned f below head).1
  · rename_i none
    rw [empty (List.head?_eq_none_iff.1 none)]
    exact Nat.zero_le _

theorem leads_deliverYield (valid : t < s.threads.size) (values : Array Value) :
    Leads (Machine.deliverYield t values) s
      (fun _ s' => (s.awaken t).Popped t 0 (s.thread t).frames.tail s' ∧ s'.cells = s.cells)
      (fun s' => s' = s.awaken t) :=
  leads_deliverYield_above valid values (fun _ _ _ => ⟨Nat.zero_le _, Nat.zero_le _, Nat.zero_le _⟩)
    fun _ => rfl

theorem leads_takeResults (t : ThreadRef) (slot : Nat) (s : Store) :
    Leads (Machine.takeResults t slot) s
      (fun _ s' => s' = s.modifyThread t fun th =>
        (Machine.unpin (th.clear slot th.top)).withTop slot)
      (fun _ => False) :=
  .lookThread_bind (.modifyThread_bind (.pure rfl))

namespace Machine

theorem modifyThread_invalid (invalid : s.threads.size ≤ t) (f : Thread → Thread) :
    s.modifyThread t f = s := by
  have threads : s.threads.modify t f = s.threads := by
    apply Array.ext_getElem?
    intro i
    rw [Array.getElem?_modify]
    split
    · rename_i same
      rw [← same, Array.getElem?_eq_none invalid]
      rfl
    · rfl
  rw [Store.modifyThread, threads]

theorem beginResumption_invalid (invalid : s.threads.size ≤ t) (activities : List Activity)
    (values : Array Value) :
    ∃ e, beginResumption s activities t values = ⟨s, .resumption t :: activities, .fail e⟩ := by
  have fresh : (s.thread t).status = .fresh := by rw [Store.thread_invalid s invalid]; rfl
  have refused : (s.thread t).fits (1 + values.size) = false := by
    rw [Store.thread_invalid s invalid]
    exact decide_eq_false (show ¬1 + values.size ≤ 0 by omega)
  have stuck : ∃ e, layOutEntry t values s = .error e s := by
    refine ⟨.overflow (s.place t 0 ++ "stack overflow"), ?_⟩
    simp only [layOutEntry, reserve, lookThread, look, bind, EStateM.bind, refused]
    rfl
  obtain ⟨e, stuck⟩ := stuck
  simp only [beginResumption, fresh, modifyThread_invalid invalid, perform, stuck]
  exact ⟨e, rfl⟩

theorem killCoroutine_invalid (invalid : s.threads.size ≤ t) : killCoroutine s t = s := by
  have none : (s.thread t).openCells = [] := by rw [Store.thread_invalid s invalid]; rfl
  rw [killCoroutine, Store.closeCells_eq, if_pos none, modifyThread_invalid invalid]

end Machine

end RegisterVm
