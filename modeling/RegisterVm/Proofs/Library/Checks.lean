import RegisterVm.Library.Dispatch
import RegisterVm.Proofs.Machine.Keeps

/-!
The helpers of native functions. Looking at arguments and refusing them changes nothing; pushing
results works above the top of the stack.
-/

namespace RegisterVm

variable {t : ThreadRef} {low : Nat} {start : Store} {inv : Store → Prop} {may : Prop}

theorem Calm.keeps_push (ready : low ≤ (start.thread t).top) (value : Value) :
    Keeps (Calm t low start) (push t value) Any := by
  refine Keeps.lookThread.bind fun top read => ?_
  obtain ⟨s, calm, rfl⟩ := read
  have above : low ≤ (s.thread t).top := calm.low_le_top ready
  refine (Keeps.reserve fun s calm => calm.reserve _).bind fun _ _ => ?_
  refine Keeps.modifyThread fun s calm => calm.modifyThread ?_ rfl (.inr ?_)
  · exact (Thread.reworked_put _ _ above).trans (Thread.reworked_withTop _ _ _)
  · rw [Thread.top_withTop]
    omega

/-- An invariant that allows native functions of thread `t` what they do: they change the heap, push
results and make coroutines, and are calm all the while. -/
structure Permits (t : ThreadRef) (low : Nat) (start : Store) (inv : Store → Prop) : Prop where
  calm : ∀ {s : Store}, inv s → Calm t low start s
  heap : ∀ {s s' : Store}, inv s → s'.cells = s.cells → s'.threads = s.threads →
    s'.closures = s.closures → inv s'
  push : ∀ value, Keeps inv (push t value) Any
  newCoroutine : ∀ entry, Keeps inv (Coroutine.newCoroutine t entry) Any

theorem Permits.modify_bind {α : Type} {f : Store → Store} {k : Unit → Action α} {post : α → Prop}
    (permits : Permits t low start inv) (rest : Keeps inv (k ()) post)
    (same : ∀ s, (f s).cells = s.cells ∧ (f s).threads = s.threads ∧ (f s).closures = s.closures) :
    Keeps inv ((modify f : Action Unit) >>= k) post :=
  Keeps.any_bind
    (Keeps.modify fun s before => permits.heap before (same s).1 (same s).2.1 (same s).2.2)
    fun _ => rest

theorem keeps_pushAll (permits : Permits t low start inv) (values : List Value) :
    Keeps inv (pushAll t values) Any := by
  induction values with
  | nil => exact .pure trivial
  | cons value rest ih => exact (permits.push value).bind fun _ _ => ih

theorem keeps_argument (index : Nat) : Keeps inv (argument? t index) Any := Keeps.lookThread.any

theorem keeps_argumentCount : Keeps inv (argumentCount t) Any := Keeps.lookThread.any

theorem keeps_arguments : Keeps inv (arguments t) Any := Keeps.lookThread.any

theorem keeps_currentNative : Keeps inv (currentNative? t) Any := Keeps.look.any

theorem keeps_boundValue (index : Nat) : Keeps inv (boundValue t index) Any := by
  refine keeps_currentNative.bind fun native _ => ?_
  split
  · exact .pure trivial
  · exact .pure trivial

theorem keeps_badArgument {α : Type} (index : Nat) (why : String) {post : α → Prop} :
    Keeps inv (badArgument t index why : Action α) post :=
  keeps_currentNative.bind fun _ _ => Keeps.argumentError

theorem keeps_expected {α : Type} (index : Nat) (what : String) {post : α → Prop} :
    Keeps inv (expected t index what : Action α) post :=
  (keeps_argument index).bind fun _ _ => keeps_badArgument _ _

theorem keeps_checkAny (index : Nat) : Keeps inv (checkAny t index) Any := by
  refine (keeps_argument index).bind fun argument _ => ?_
  split
  · exact .pure trivial
  · exact keeps_badArgument _ _

theorem keeps_checkTable (index : Nat) : Keeps inv (checkTable t index) Any := by
  refine (keeps_argument index).bind fun argument _ => ?_
  split
  · exact .pure trivial
  · exact keeps_expected _ _

theorem keeps_checkNumber (index : Nat) : Keeps inv (checkNumber t index) Any := by
  refine (keeps_argument index).bind fun argument _ => ?_
  split
  · exact .pure trivial
  · exact keeps_expected _ _

theorem keeps_checkInteger (index : Nat) : Keeps inv (checkInteger t index) Any := by
  refine (keeps_checkNumber index).bind fun n _ => ?_
  split
  · exact .pure trivial
  · exact keeps_badArgument _ _

theorem keeps_checkString (index : Nat) : Keeps inv (checkString t index) Any := by
  refine (keeps_argument index).bind fun argument _ => ?_
  split
  · exact .pure trivial
  · exact keeps_expected _ _

theorem keeps_optional (index : Nat) : Keeps inv (optional? t index) Any := by
  refine (keeps_argument index).bind fun argument _ => ?_
  split
  · exact .pure trivial
  · exact .pure trivial

theorem keeps_checkOptionalInteger (index : Nat) (fallback : Int) :
    Keeps inv (checkOptionalInteger t index fallback) Any := by
  refine (keeps_optional index).bind fun argument _ => ?_
  split
  · exact .pure trivial
  · exact keeps_checkInteger index

theorem keeps_newNative (permits : Permits t low start inv) (name : String) (function : Builtin)
    (bound : Array Value) : Keeps inv (Basic.newNative name function bound) Any :=
  Keeps.modifyGet fun _ before => permits.heap before rfl rfl rfl

/-- How a native function of thread `t` may leave off when it does not yield. What it wants called
is a value that it collects, or the value at the base of its frame; a coroutine that it resumes, if
it `may`, is another thread that nothing runs. -/
def Leaves (t : ThreadRef) (start : Store) (may : Prop) : NativeOutcome → Prop
  | .returns _ => True
  | .calls _ _ restoring next => restoring = false ∧
      match next with
      | .pairs | .tostring | .print _ _ => True
      | _ => False
  | .protects slot _ next => next = .protectedCall ∧
      slot = ((start.thread t).frame?.map Frame.base).getD 0
  | .resumes co _ next => (next = .resumed ∨ next = .wrapped) ∧
      Coroutine.refusal? start t co = none ∧ may

theorem Calm.refusal_eq_none {s : Store} {co : ThreadRef} (calm : Calm t low start s)
    (free : Coroutine.refusal? start t co = none) : Coroutine.refusal? s t co = none := by
  have other : co ≠ t := by
    rintro rfl
    simp [Coroutine.refusal?] at free
  by_cases known : co < start.threads.size
  · rwa [Coroutine.refusal?, calm.confined.others co other known, ← Coroutine.refusal?]
  · have unstarted : (s.thread co).held = false ∧ (s.thread co).status = .fresh := by
      by_cases made : co < s.threads.size
      · have fresh := calm.confined.created co other (Nat.not_lt.1 known) made
        exact ⟨fresh.held, fresh.status⟩
      · rw [Store.thread_invalid s (Nat.not_lt.1 made)]
        exact ⟨rfl, rfl⟩
    simp [Coroutine.refusal?, unstarted, Ne.symm other]

theorem Coroutine.held_of_refusal {s : Store} {co : ThreadRef}
    (free : Coroutine.refusal? s t co = none) : (s.thread co).held = false := by
  simp only [Coroutine.refusal?] at free
  split at free
  · contradiction
  · rename_i allowed
    simp only [Bool.or_eq_true, not_or, Bool.not_eq_true] at allowed
    exact allowed.2

theorem Leaves.calm {s : Store} {outcome : NativeOutcome} (leaves : Leaves t start may outcome)
    (calm : Calm t low start s) : Leaves t s may outcome := by
  cases outcome with
  | returns => trivial
  | calls => exact leaves
  | protects =>
      rw [Leaves, Thread.frame?, calm.frames, ← Thread.frame?]
      exact leaves
  | resumes => exact ⟨leaves.1, calm.refusal_eq_none leaves.2.1, leaves.2.2⟩

theorem Leaves.imp {may' : Prop} {outcome : NativeOutcome} (leaves : Leaves t start may outcome)
    (weaker : may → may') : Leaves t start may' outcome := by
  cases outcome with
  | resumes => exact ⟨leaves.1, leaves.2.1, weaker leaves.2.2⟩
  | _ => exact leaves

theorem keeps_returnOne (permits : Permits t low start inv) (value : Value) :
    Keeps inv (returnOne t value) (Leaves t start may) :=
  (permits.push value).bind fun _ _ => .pure trivial

end RegisterVm
