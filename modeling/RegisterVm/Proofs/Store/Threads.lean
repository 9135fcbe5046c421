import RegisterVm.Machine.Store

/-!
Reading a thread after the store has changed.
-/

namespace RegisterVm.Store

theorem thread_modifyThread (s : Store) (t other : ThreadRef) (f : Thread → Thread) :
    (s.modifyThread t f).thread other =
      if other = t ∧ t < s.threads.size then f (s.thread t) else s.thread other := by
  simp only [modifyThread, thread, Array.getD_eq_getD_getElem?, Array.getElem?_modify]
  by_cases same : other = t
  · subst same
    by_cases valid : other < s.threads.size
    · simp [valid]
    · simp [valid]
  · simp [same, Ne.symm same]

@[simp] theorem thread_modifyThread_other (s : Store) {t other : ThreadRef} (f : Thread → Thread)
    (different : other ≠ t) : (s.modifyThread t f).thread other = s.thread other := by
  rw [thread_modifyThread, if_neg (by simp [different])]

theorem thread_modifyThread_self (s : Store) {t : ThreadRef} (f : Thread → Thread)
    (valid : t < s.threads.size) : (s.modifyThread t f).thread t = f (s.thread t) := by
  rw [thread_modifyThread, if_pos ⟨rfl, valid⟩]

theorem field_modifyThread {α : Type} (field : Thread → α) (s : Store) (t other : ThreadRef)
    (f : Thread → Thread) (kept : ∀ th, field (f th) = field th) :
    field ((s.modifyThread t f).thread other) = field (s.thread other) := by
  rw [thread_modifyThread]
  split
  · rename_i same
    rw [same.1, kept]
  · rfl

theorem modifyThread_congr {s : Store} {t : ThreadRef} {f g : Thread → Thread}
    (same : f (s.thread t) = g (s.thread t)) : s.modifyThread t f = s.modifyThread t g := by
  have threads : s.threads.modify t f = s.threads.modify t g := by
    apply Array.ext_getElem?
    intro i
    simp only [Array.getElem?_modify]
    split
    · rename_i own
      subst own
      cases found : s.threads[t]? with
      | none => rfl
      | some th =>
          have here : s.thread t = th := by
            simp [thread, Array.getD_eq_getD_getElem?, found]
          rw [here] at same
          exact congrArg some same
    · rfl
  rw [modifyThread, threads, modifyThread]

theorem modifyThread_id (s : Store) (t : ThreadRef) : s.modifyThread t id = s := by
  have threads : s.threads.modify t id = s.threads := by
    apply Array.ext_getElem?
    intro i
    simp [Array.getElem?_modify]
  rw [modifyThread, threads]

theorem modifyThread_modifyThread (s : Store) (t : ThreadRef) (f g : Thread → Thread) :
    (s.modifyThread t g).modifyThread t f = s.modifyThread t (f ∘ g) := by
  have threads : (s.threads.modify t g).modify t f = s.threads.modify t (f ∘ g) := by
    apply Array.ext_getElem?
    intro i
    simp only [Array.getElem?_modify]
    split <;> simp
  simp only [modifyThread, threads]

@[simp] theorem cells_modifyThread (s : Store) (t : ThreadRef) (f : Thread → Thread) :
    (s.modifyThread t f).cells = s.cells := rfl

@[simp] theorem threadCount_modifyThread (s : Store) (t : ThreadRef) (f : Thread → Thread) :
    (s.modifyThread t f).threads.size = s.threads.size := by
  simp [modifyThread]

theorem thread_newThread (s : Store) (th : Thread) (other : ThreadRef) :
    (s.newThread th).2.thread other = if other = s.threads.size then th else s.thread other := by
  simp only [newThread, thread, Array.getD_eq_getD_getElem?, Array.getElem?_push]
  split <;> rfl

theorem thread_invalid (s : Store) {t : ThreadRef} (invalid : s.threads.size ≤ t) :
    s.thread t = default := by
  simp [thread, Array.getD, Nat.not_lt.2 invalid]

theorem lt_of_field {α : Type} (field : Thread → α) {s : Store} {t : ThreadRef}
    (other : field (s.thread t) ≠ field default) : t < s.threads.size := by
  apply Nat.lt_of_not_le
  intro invalid
  apply other
  rw [thread_invalid s invalid]

theorem lt_of_held {s : Store} {t : ThreadRef} (held : (s.thread t).held = true) :
    t < s.threads.size := by
  apply lt_of_field Thread.held
  rw [held]
  decide

theorem lt_of_main {s : Store} {t : ThreadRef} (main : (s.thread t).isMain = true) :
    t < s.threads.size := by
  apply lt_of_field Thread.isMain
  rw [main]
  decide

theorem lt_of_frames {s : Store} {t : ThreadRef} {f : Frame} {below : List Frame}
    (head : (s.thread t).frames = f :: below) : t < s.threads.size := by
  apply lt_of_field Thread.frames
  rw [head]
  exact List.cons_ne_nil f below

theorem lt_of_closure {s : Store} {t : ThreadRef} {slot : Nat} {ref : ClosureRef}
    (found : (s.thread t).get slot = .closure ref) : t < s.threads.size := by
  apply lt_of_field (fun th => th.get slot)
  have empty : (default : Thread).get slot = .nil := rfl
  rw [found, empty]
  simp

end RegisterVm.Store
