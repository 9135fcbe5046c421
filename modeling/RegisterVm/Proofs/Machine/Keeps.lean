import RegisterVm.Machine.Native
import RegisterVm.Proofs.Store.Confined

/-!
Actions that keep an invariant of the store, whether they succeed or fail. Most of what natives and
instructions do is calm: the running thread keeps its frames, works on its stack from some slot up,
and no cell changes.
-/

namespace RegisterVm

/-- From a store with the invariant the action leads to one with the invariant, and what it returns
meets `post`. -/
def Keeps {α : Type} (inv : Store → Prop) (x : Action α) (post : α → Prop) : Prop :=
  ∀ s, inv s → match x s with
    | .ok a s' => inv s' ∧ post a
    | .error _ s' => inv s'

abbrev Any {α : Type} (_ : α) : Prop := True

namespace Keeps

variable {α β : Type} {inv : Store → Prop}

theorem pure {a : α} {post : α → Prop} (holds : post a) : Keeps inv (Pure.pure a) post :=
  fun _ before => ⟨before, holds⟩

theorem throw {e : Error} {post : α → Prop} : Keeps inv (throw e : Action α) post :=
  fun _ before => before

theorem bind {x : Action α} {f : α → Action β} {mid : α → Prop} {post : β → Prop}
    (first : Keeps inv x mid) (second : ∀ a, mid a → Keeps inv (f a) post) :
    Keeps inv (x >>= f) post := by
  intro s before
  have after := first s before
  simp only [Bind.bind, EStateM.bind]
  cases result : x s with
  | ok a s' =>
      rw [result] at after
      exact second a after.2 s' after.1
  | error e s' =>
      rw [result] at after
      exact after

theorem any_bind {x : Action α} {f : α → Action β} {post : β → Prop}
    (first : Keeps inv x Any) (second : ∀ a, Keeps inv (f a) post) : Keeps inv (x >>= f) post :=
  first.bind fun a _ => second a

theorem always {x : Action α} : Keeps (fun _ => True) x Any := by
  intro s _
  cases x s <;> trivial

theorem pure_any {a : α} : Keeps inv (Pure.pure a) Any := pure trivial

theorem ite {c : Prop} [Decidable c] {x y : Action α} {post : α → Prop}
    (left : Keeps inv x post) (right : Keeps inv y post) :
    Keeps inv (if c then x else y) post := by
  split
  · exact left
  · exact right

theorem mono {x : Action α} {post post' : α → Prop} (keeps : Keeps inv x post)
    (weaker : ∀ a, post a → post' a) : Keeps inv x post' := by
  intro s before
  have after := keeps s before
  cases result : x s with
  | ok a s' =>
      rw [result] at after
      exact ⟨after.1, weaker a after.2⟩
  | error e s' =>
      rw [result] at after
      exact after

theorem any {x : Action α} {post : α → Prop} (keeps : Keeps inv x post) : Keeps inv x Any :=
  keeps.mono fun _ _ => trivial

theorem look {f : Store → α} : Keeps inv (look f) fun a => ∃ s, inv s ∧ a = f s :=
  fun s before => ⟨before, s, before, rfl⟩

theorem lookThread {t : ThreadRef} {f : Thread → α} :
    Keeps inv (lookThread t f) fun a => ∃ s, inv s ∧ a = f (s.thread t) := look

theorem modify {f : Store → Store} (step : ∀ s, inv s → inv (f s)) :
    Keeps inv (modify f : Action Unit) Any :=
  fun s before => ⟨step s before, trivial⟩

theorem modifyGet {f : Store → α × Store} (step : ∀ s, inv s → inv (f s).2) :
    Keeps inv (modifyGet f : Action α) Any :=
  fun s before => ⟨step s before, trivial⟩

theorem modifyThread {t : ThreadRef} {f : Thread → Thread}
    (step : ∀ s, inv s → inv (s.modifyThread t f)) : Keeps inv (modifyThread t f) Any :=
  modify step

theorem typeError {t : ThreadRef} {message : String} {post : α → Prop} :
    Keeps inv (typeError t message : Action α) post :=
  look.bind fun _ _ => throw

theorem overflowError {t : ThreadRef} {post : α → Prop} :
    Keeps inv (overflowError t : Action α) post :=
  look.bind fun _ _ => throw

theorem raiseText {t : ThreadRef} {message : String} {post : α → Prop} :
    Keeps inv (raiseText t message : Action α) post :=
  look.bind fun _ _ => throw

theorem argumentError {t : ThreadRef} {message : String} {post : α → Prop} :
    Keeps inv (argumentError t message : Action α) post :=
  look.bind fun _ _ => throw

theorem invalid {message : String} {post : α → Prop} :
    Keeps inv (invalid message : Action α) post := throw

theorem reserve {t : ThreadRef} {needed : Nat}
    (step : ∀ s, inv s → inv (s.modifyThread t fun th => th.reserve needed)) :
    Keeps inv (reserve t needed) Any := by
  refine lookThread.bind fun fits _ => ?_
  split
  · exact modifyThread step
  · exact overflowError

end Keeps

/-- Run from a store, the action succeeds as `ok` says or fails as `failed` says. -/
def Leads {α : Type} (x : Action α) (s : Store) (ok : α → Store → Prop) (failed : Store → Prop) :
    Prop :=
  match x s with
  | .ok a s' => ok a s'
  | .error _ s' => failed s'

namespace Leads

variable {α β : Type} {s : Store} {ok : α → Store → Prop} {failed : Store → Prop}

theorem bind {x : Action α} {f : α → Action β} {mid : α → Store → Prop} {done : β → Store → Prop}
    (first : Leads x s mid failed) (second : ∀ a s', mid a s' → Leads (f a) s' done failed) :
    Leads (x >>= f) s done failed := by
  simp only [Leads, Bind.bind, EStateM.bind] at first ⊢
  cases result : x s with
  | ok a s' =>
      rw [result] at first
      exact second a s' first
  | error e s' =>
      rw [result] at first
      exact first

theorem and {x : Action α} {ok' : α → Store → Prop} {failed' : Store → Prop}
    (first : Leads x s ok failed) (second : Leads x s ok' failed') :
    Leads x s (fun a s' => ok a s' ∧ ok' a s') fun s' => failed s' ∧ failed' s' := by
  simp only [Leads] at first second ⊢
  cases result : x s with
  | ok a s' =>
      rw [result] at first second
      exact ⟨first, second⟩
  | error e s' =>
      rw [result] at first second
      exact ⟨first, second⟩

theorem mono {x : Action α} {ok' : α → Store → Prop} {failed' : Store → Prop}
    (leads : Leads x s ok failed) (weaker : ∀ a s', ok a s' → ok' a s')
    (weakerFailure : ∀ s', failed s' → failed' s') : Leads x s ok' failed' := by
  simp only [Leads] at leads ⊢
  cases result : x s with
  | ok a s' =>
      rw [result] at leads
      exact weaker a s' leads
  | error e s' =>
      rw [result] at leads
      exact weakerFailure s' leads

theorem pure {a : α} (holds : ok a s) : Leads (Pure.pure a) s ok failed := holds

theorem throw {e : Error} (holds : failed s) : Leads (throw e : Action α) s ok failed := holds

theorem look_bind {f : Store → α} {k : α → Action β} {ok : β → Store → Prop}
    (rest : Leads (k (f s)) s ok failed) : Leads (RegisterVm.look f >>= k) s ok failed := rest

theorem lookThread_bind {t : ThreadRef} {f : Thread → α} {k : α → Action β}
    {ok : β → Store → Prop} (rest : Leads (k (f (s.thread t))) s ok failed) :
    Leads (lookThread t f >>= k) s ok failed := rest

theorem modify_bind {f : Store → Store} {k : Unit → Action β} {ok : β → Store → Prop}
    (rest : Leads (k ()) (f s) ok failed) :
    Leads ((modify f : Action Unit) >>= k) s ok failed := rest

theorem modifyThread {t : ThreadRef} {f : Thread → Thread} {ok : Unit → Store → Prop}
    (holds : ok () (s.modifyThread t f)) : Leads (modifyThread t f) s ok failed := holds

theorem modifyThread_bind {t : ThreadRef} {f : Thread → Thread} {k : Unit → Action β}
    {ok : β → Store → Prop} (rest : Leads (k ()) (s.modifyThread t f) ok failed) :
    Leads (RegisterVm.modifyThread t f >>= k) s ok failed := rest

theorem typeError {t : ThreadRef} {message : String} (holds : failed s) :
    Leads (typeError t message : Action α) s ok failed := holds

theorem overflowError {t : ThreadRef} (holds : failed s) :
    Leads (overflowError t : Action α) s ok failed := holds

theorem raiseText {t : ThreadRef} {message : String} (holds : failed s) :
    Leads (raiseText t message : Action α) s ok failed := holds

theorem invalid {message : String} (holds : failed s) :
    Leads (invalid message : Action α) s ok failed := holds

theorem reserve_fits_bind {t : ThreadRef} {needed : Nat} {k : Unit → Action β}
    {ok : β → Store → Prop}
    (granted : (s.thread t).fits needed = true →
      Leads (k ()) (s.modifyThread t fun th => th.reserve needed) ok failed)
    (refused : failed s) : Leads (reserve t needed >>= k) s ok failed := by
  have first : Leads (reserve t needed) s (fun _ s' => (s.thread t).fits needed = true ∧
      s' = s.modifyThread t fun th => th.reserve needed) failed := by
    refine lookThread_bind ?_
    split
    · rename_i fits
      exact modifyThread ⟨fits, rfl⟩
    · exact overflowError refused
  refine first.bind ?_
  rintro _ _ ⟨fits, rfl⟩
  exact granted fits

theorem reserve_bind {t : ThreadRef} {needed : Nat} {k : Unit → Action β} {ok : β → Store → Prop}
    (granted : Leads (k ()) (s.modifyThread t fun th => th.reserve needed) ok failed)
    (refused : failed s) : Leads (reserve t needed >>= k) s ok failed :=
  reserve_fits_bind (fun _ => granted) refused

end Leads

theorem Keeps.leads {α : Type} {inv : Store → Prop} {x : Action α} {post : α → Prop} {s : Store}
    (keeps : Keeps inv x post) (before : inv s) : Leads x s (fun a s' => inv s' ∧ post a) inv :=
  keeps s before

theorem Keeps.leads_bind {α β : Type} {inv : Store → Prop} {x : Action α} {post : α → Prop}
    {f : α → Action β} {s : Store} {ok : β → Store → Prop} {failed : Store → Prop}
    (keeps : Keeps inv x post) (before : inv s) (failure : ∀ s', inv s' → failed s')
    (rest : ∀ a s', inv s' → post a → Leads (f a) s' ok failed) : Leads (x >>= f) s ok failed :=
  ((keeps.leads before).mono (fun _ _ after => after) failure).bind
    fun a s' after => rest a s' after.1 after.2

/-- Thread `t` has kept its frames and worked on its stack from `low` up; no cell has changed. -/
structure Calm (t : ThreadRef) (low : Nat) (start s : Store) : Prop where
  confined : start.Confined t low s
  frames : (s.thread t).frames = (start.thread t).frames
  cells : s.cells = start.cells
  top : (s.thread t).top = (start.thread t).top ∨ low ≤ (s.thread t).top

structure Within (t : ThreadRef) (low : Nat) (start s : Store) : Prop where
  confined : start.Confined t low s
  frames : (s.thread t).frames = (start.thread t).frames
  top : (s.thread t).top = (start.thread t).top ∨ low ≤ (s.thread t).top

namespace Calm

variable {t : ThreadRef} {low : Nat} {start s : Store}

theorem refl (t : ThreadRef) (low : Nat) (s : Store) : Calm t low s s :=
  ⟨.refl s, rfl, rfl, .inl rfl⟩

theorem trans {a b c : Store} (first : Calm t low a b) (second : Calm t low b c) :
    Calm t low a c where
  confined := first.confined.trans second.confined
  frames := second.frames.trans first.frames
  cells := second.cells.trans first.cells
  top := by
    have left := first.top
    have right := second.top
    omega

theorem low_le_top (calm : Calm t low start s) (ready : low ≤ (start.thread t).top) :
    low ≤ (s.thread t).top := by
  have := calm.top
  omega

theorem modifyThread (calm : Calm t low start s) {f : Thread → Thread}
    (reworked : (s.thread t).Reworked low (f (s.thread t)))
    (frames : (f (s.thread t)).frames = (s.thread t).frames)
    (top : (f (s.thread t)).top = (s.thread t).top ∨ low ≤ (f (s.thread t)).top) :
    Calm t low start (s.modifyThread t f) := by
  refine calm.trans ⟨Store.confined_reworked reworked, ?_, rfl, ?_⟩
  · rw [Store.thread_modifyThread]
    split
    · exact frames
    · rfl
  · rw [Store.thread_modifyThread]
    split
    · exact top
    · exact .inl rfl

theorem heap {s' : Store} (calm : Calm t low start s) (cells : s'.cells = s.cells)
    (threads : s'.threads = s.threads) : Calm t low start s' := by
  have same : s'.thread t = s.thread t := by rw [Store.thread, threads, Store.thread]
  exact calm.trans ⟨Store.confined_heap cells threads, by rw [same], cells, .inl (by rw [same])⟩

theorem reserve (calm : Calm t low start s) (needed : Nat) :
    Calm t low start (s.modifyThread t fun th => th.reserve needed) :=
  calm.modifyThread (Thread.reworked_reserve _ _ _) (Thread.frames_reserve _ _)
    (.inl (Thread.top_reserve _ _))

theorem put (calm : Calm t low start s) {index : Nat} (value : Value) (above : low ≤ index) :
    Calm t low start (s.modifyThread t fun th => th.put index value) :=
  calm.modifyThread (Thread.reworked_put _ _ above) rfl (.inl rfl)

end Calm

theorem Calm.within {t : ThreadRef} {low : Nat} {start s : Store} (calm : Calm t low start s) :
    Within t low start s :=
  ⟨calm.confined, calm.frames, calm.top⟩

namespace Within

variable {t : ThreadRef} {low : Nat} {a b c : Store}

theorem refl (t : ThreadRef) (low : Nat) (s : Store) : Within t low s s := ⟨.refl s, rfl, .inl rfl⟩

theorem trans (first : Within t low a b) (second : Within t low b c) : Within t low a c where
  confined := first.confined.trans second.confined
  frames := second.frames.trans first.frames
  top := by
    have left := first.top
    have right := second.top
    omega

theorem modifyThread (within : Within t low a b) {f : Thread → Thread}
    (reworked : (b.thread t).Reworked low (f (b.thread t)))
    (frames : (f (b.thread t)).frames = (b.thread t).frames)
    (top : (f (b.thread t)).top = (b.thread t).top ∨ low ≤ (f (b.thread t)).top) :
    Within t low a (b.modifyThread t f) :=
  within.trans ((Calm.refl t low b).modifyThread reworked frames top).within

theorem heap (within : Within t low a b) (cells : c.cells = b.cells)
    (threads : c.threads = b.threads) : Within t low a c :=
  within.trans ((Calm.refl t low b).heap cells threads).within

theorem closeCells (within : Within t low a b) (level : Nat) :
    Within t low a (b.closeCells t level) := by
  refine within.trans ⟨Store.confined_closeCells b t, ?_, .inl ?_⟩ <;>
    rw [Store.thread_closeCells, if_pos rfl]

theorem captureSlot (within : Within t low a b) (valid : t < b.threads.size) {index : Nat}
    (above : low ≤ index) : Within t low a (b.captureSlot t index).2 := by
  obtain ⟨openCells, captured⟩ := Store.thread_captureSlot b t index t
  refine within.trans ⟨Store.confined_captureSlot valid above, ?_, .inl ?_⟩ <;> rw [captured]

end Within

end RegisterVm
