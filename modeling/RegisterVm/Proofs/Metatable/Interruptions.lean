import RegisterVm.Proofs.Call.Below
import RegisterVm.Proofs.Call.Tail
import RegisterVm.Proofs.Coroutine.Yielding
import RegisterVm.Proofs.Metatable.Tops

/-!
An interrupted instruction and the handler that it waits for: what a machine looks like while the
handler is running, rests in a coroutine or has failed, and what may become of it in one step.
-/

namespace RegisterVm

open Machine

theorem leads_self {α : Type} (x : Action α) (s : Store) :
    Leads x s (fun a s' => x s = .ok a s') fun s' => ∃ e, x s = .error e s' := by
  simp only [Leads]
  cases result : x s with
  | ok a s' => exact rfl
  | error e s' => exact ⟨e, rfl⟩

/-- An instruction of frame `caller` waits for the handler in slot `place`. As many results as are
wanted go to slot `target` and those above it. -/
structure Interruption where
  thread : ThreadRef
  place : Nat
  target : Nat
  wanted : Nat
  caller : Frame
  below : List Frame

def MarkedBelow (t : ThreadRef) (depth : Nat) (activities : List Activity) : Prop :=
  ∀ level deep, (level, deep) ∈ marks (ofThread t activities) → deep < depth

namespace Machine

variable {m : Machine} {s : Store} {t : ThreadRef} {floor : Nat} {rest activities : List Activity}
  {control : Control}

theorem Healthy.floor_le (healthy : Healthy ⟨s, .script t floor :: rest, control⟩)
    {level deep : Nat} (mark : (level, deep) ∈ marks (ofThread t rest)) : deep ≤ floor := by
  cases healthy with
  | settled sound => exact (sound.top rfl).expects.floor_le mark
  | @entered _ _ r _ _ _ apart working serves =>
      obtain rfl : t = r := serves
      have expects := working.expects
      rw [ofThread_self (by rfl)] at expects
      exact expects.floor_le mark
  | leaving apart leaving shape =>
      obtain shape | ⟨floor', shape⟩ := shape
      · cases shape
      · cases shape
        rw [ofThread_self (by rfl), leaving.alone] at mark
        simp [marks] at mark
  | @failing _ _ r _ apart failing hears =>
      obtain rfl : t = r := hears
      obtain ⟨base, -, expects⟩ := failing.expects
      rw [ofThread_self (by rfl)] at expects
      exact expects.floor_le mark

theorem Healthy.leaving_of_yielding (healthy : m.Healthy)
    (yielding : (m.store.thread t).yielding = true) (active : ofThread t m.activities ≠ []) :
    ∃ s activities values below, m = ⟨s, activities, .done values⟩ ∧ s.Leaving t below ∧
      (activities = .resumption t :: below ∨
        ∃ floor, activities = .script t floor :: .resumption t :: below) := by
  have settled : ∀ {s : Store} {mine : List Activity}, s.Settled t mine → mine ≠ [] →
      (s.thread t).yielding = true → False := by
    intro s mine settled active yielding
    rw [settled.quiet active] at yielding
    contradiction
  cases healthy with
  | settled sound => exact (settled (sound.settled t) active yielding).elim
  | @entered s activities r body f base apart working serves =>
      by_cases same : t = r
      · subst same
        rw [working.quiet] at yielding
        contradiction
      · exact (settled (apart.others t same) active yielding).elim
  | @leaving s r activities below values apart leaving shape =>
      by_cases same : t = r
      · subst same
        exact ⟨s, activities, values, below, rfl, leaving, shape⟩
      · exact (settled (apart.others t same) active yielding).elim
  | @failing s activities r e apart failing hears =>
      by_cases same : t = r
      · subst same
        rw [failing.quiet] at yielding
        contradiction
      · exact (settled (apart.others t same) active yielding).elim
  | @lost s r below e sound invalid =>
      by_cases same : r = t
      · subst same
        rw [Store.thread_invalid s invalid] at yielding
        contradiction
      · rw [ofThread_other (a := .resumption r) same] at active
        exact (settled (sound.settled t) active yielding).elim

theorem Healthy.below_resumption {e : Error}
    (healthy : Healthy ⟨s, .resumption t :: rest, .fail e⟩) (valid : t < s.threads.size) :
    ofThread t rest = [] := by
  cases healthy with
  | settled sound => exact (sound.top rfl).expects.1
  | @failing _ _ r _ apart failing hears =>
      obtain rfl : t = r := hears
      obtain ⟨base, -, expects⟩ := failing.expects
      rw [ofThread_self (by rfl)] at expects
      exact expects.1
  | lost sound invalid => exact absurd valid (Nat.not_lt.2 invalid)

theorem Next.busy {m' : Machine} (next : Next m m') (busy : m.activities ≠ []) :
    m' = m.step .bare ∨ ∃ r, m' = m.drop r := by
  cases next with
  | step => exact .inl rfl
  | drop _ r => exact .inr ⟨r, rfl⟩
  | _ => exact absurd rfl busy

theorem get_drop (m : Machine) (r t : ThreadRef) (index : Nat) :
    ((m.drop r).store.thread t).get index = (m.store.thread t).get index := by
  obtain ⟨openCells, thread⟩ := Store.alike_closeCells m.store r t 0
  exact (congrArg (fun th => Thread.get th index) thread).trans rfl

theorem deliverYield_exceeds {f : Frame} {caller : List Frame}
    (head : (s.thread t).frames = f :: caller) (values : Array Value)
    (exceeds : (s.thread t).limits.maxStack < f.base + values.size) :
    ∃ e, deliverYield t values s = .error e (s.awaken t) := by
  have awake := Store.thread_modifyThread_self s (fun th => { th with yielding := false })
    (Store.lt_of_frames head)
  have innermost : ((s.awaken t).thread t).frame? = some f := by
    rw [Store.awaken, awake, Thread.frame?, head]
    rfl
  have refused : ((s.awaken t).thread t).fits (f.base + values.size) = false := by
    rw [Store.awaken, awake]
    exact decide_eq_false (Nat.not_le.2 exceeds)
  have modifies : ∀ s : Store, modifyThread t (fun th => { th with yielding := false }) s =
      .ok () (s.awaken t) := fun _ => rfl
  refine ⟨.overflow ((s.awaken t).place t 0 ++ "stack overflow"), ?_⟩
  simp only [deliverYield, lookThread, look, bind, EStateM.bind, modifies, innermost, reserve,
    refused]
  rfl

theorem beginResumption_exceeds (activities : List Activity) {f : Frame} {caller : List Frame}
    (status : (s.thread t).status = .suspended) (head : (s.thread t).frames = f :: caller)
    (values : Array Value) (exceeds : (s.thread t).limits.maxStack < f.base + values.size) :
    ∃ s' e, beginResumption s activities t values = ⟨s', .resumption t :: activities, .fail e⟩ ∧
      s'.thread t =
        { s.thread t with status := .running, held := true, yielding := false } := by
  have valid := Store.lt_of_frames head
  have woken := Store.thread_modifyThread_self s
    (fun th => { th with status := .running, held := true }) valid
  obtain ⟨e, fails⟩ := deliverYield_exceeds (s := s.modifyThread t fun th =>
    { th with status := .running, held := true }) (by rw [woken]; exact head) values
    (by rw [woken]; exact exceeds)
  simp only [beginResumption, status, perform, fails]
  refine ⟨_, e, rfl, ?_⟩
  rw [Store.awaken, Store.modifyThread_modifyThread, Store.thread_modifyThread_self _ _ valid]
  rfl

end Machine

/-- Thread `t` keeps more frames than `below` for `n` events, and the next one takes it back to
them. -/
structure ComesBack (t : ThreadRef) (below : List Frame) (path : Nat → Machine) (n : Nat) : Prop
    extends Deep t below path n where
  last : Next (path n) (path (n + 1))
  back : ((path (n + 1)).store.thread t).frames.length = below.length
  well : ∀ e, (path (n + 1)).control ≠ .fail e

namespace Guarding

variable {g : Guarding} {values : Nat → Value} {above : List Activity} {s : Store} {m : Machine}

theorem Holds.dropThread (holds : g.Holds values above s) (t : ThreadRef) :
    g.Holds values above (s.dropThread t) := by
  obtain ⟨openCells, thread⟩ := Store.alike_closeCells s t g.thread 0
  refine ⟨holds.linked.closeCells t 0, ?_, ?_, ?_, ?_, ?_, ?_⟩ <;> simp only [Store.dropThread]
  · exact (congrArg Thread.held thread).trans holds.held
  · exact (Store.threadCount_closeCells s t 0).symm ▸ holds.clear
  · exact thread ▸ ⟨holds.mark.stacked, holds.mark.top⟩
  · exact thread ▸ holds.enough
  · exact (congrArg Thread.pinned thread).trans holds.pinned
  · exact fun index low => (congrArg (fun th => Thread.get th index) thread).trans
      (holds.slots index low)

theorem Runs.drop (runs : g.Runs values m) (t : ThreadRef) : g.Runs values (m.drop t) := by
  cases runs with
  | @intro s control above holds enters =>
      refine .intro above (holds.dropThread t) ?_
      cases control with
      | enter r body =>
          refine ⟨(Store.threadCount_closeCells s t 0).symm ▸ enters.1, fun own => ?_⟩
          rw [Store.dropThread, Store.frames_closeCells]
          exact enters.2 own
      | _ => trivial

end Guarding

namespace Interruption

def frames (c : Interruption) : List Frame := c.caller :: c.below

structure Handler (c : Interruption) (h : Frame) : Prop where
  slot : h.slot = c.place
  target : h.target = c.target
  wanted : h.wanted = some c.wanted
  formed : h.Formed

def guarding (c : Interruption) (h : Frame) (pinned : Nat) (under : List Activity) : Guarding :=
  ⟨c.thread, h.base, h :: c.frames, pinned, under⟩

/-- The handler is running or rests in a coroutine, or has failed. -/
inductive Handling (c : Interruption) : Machine → Prop where
  | script {m : Machine} {h : Frame} {pinned floor : Nat} {rest : List Activity}
      (handler : c.Handler h) (script : h.kind = .script) (inside : floor < c.frames.length)
      (runs : (c.guarding h pinned (.script c.thread floor :: rest)).Runs
        (m.store.thread c.thread).get m) : Handling c m
  | waits {m : Machine} {h : Frame} {pinned floor : Nat} {next : Pending} {rest : List Activity}
      (handler : c.Handler h) (native : h.kind = .native) (inside : floor < c.frames.length)
      (runs : (c.guarding h pinned (.native c.thread next :: .script c.thread floor :: rest)).Runs
        (m.store.thread c.thread).get m)
      (top : h.base ≤ (m.store.thread c.thread).top) : Handling c m
  | enters {s : Store} {h : Frame} {floor : Nat} {rest : List Activity} {body : NativeBody}
      (handler : c.Handler h) (native : h.kind = .native) (inside : floor < c.frames.length)
      (frames : (s.thread c.thread).frames = h :: c.frames) :
      Handling c ⟨s, .script c.thread floor :: rest, .enter c.thread body⟩
  | yields {m : Machine} {h : Frame} (handler : c.Handler h)
      (above : (m.store.thread c.thread).Above h.base (h :: c.frames))
      (yielding : (m.store.thread c.thread).yielding = true)
      (resumed : .resumption c.thread ∈ m.activities) : Handling c m
  | rests {m : Machine} {h : Frame} (handler : c.Handler h)
      (above : (m.store.thread c.thread).Above h.base (h :: c.frames))
      (coroutine : (m.store.thread c.thread).isMain = false)
      (idle : .resumption c.thread ∉ m.activities) : Handling c m
  | fails {s : Store} {activities : List Activity} {e : Error}
      (valid : c.thread < s.threads.size) (hears : Hears c.thread activities)
      (marked : MarkedBelow c.thread c.frames.length activities) :
      Handling c ⟨s, activities, .fail e⟩

def Kept (c : Interruption) (m m' : Machine) : Prop :=
  ∀ index, index < c.place →
    (m'.store.thread c.thread).get index = (m.store.thread c.thread).get index ∨
      m.Assigns m' c.thread index ((m'.store.thread c.thread).get index)

structure Served (c : Interruption) (th th' : Thread) (results : List Value) : Prop where
  frames : th'.frames = c.frames
  top : th'.top = c.caller.top
  taken : ∀ place, place < c.wanted → th'.get (c.target + place) = results.getD place .nil
  kept : ∀ index, index < c.place → ¬(c.target ≤ index ∧ index < c.target + c.wanted) →
    th'.get index = th.get index

inductive Gives (c : Interruption) (m m' : Machine) : List Value → Prop where
  | returned {results : List Value} (steps : m' = m.step .bare)
      (returned : m.results? = some results) : Gives c m m' results
  | resumed {s : Store} {activities : List Activity} {values : Array Value}
      (same : s.thread c.thread = m.store.thread c.thread)
      (begins : m' = beginResumption s activities c.thread values) : Gives c m m' values.toList

def GoesOn (c : Interruption) (m : Machine) : Prop :=
  ∃ floor rest, m.activities = .script c.thread floor :: rest ∧ floor < c.frames.length ∧
    (m.control = .run ∨ (∃ values, m.control = .done values) ∧
      (m.store.thread c.thread).yielding = false)

inductive Outcome (c : Interruption) (m m' : Machine) : Prop where
  | handling (handling : c.Handling m') (kept : c.Kept m m')
  | lost (fewer : (m'.store.thread c.thread).frames.length < c.frames.length)
  | failed {e : Error} (control : m'.control = .fail e)
      (gone : (m'.store.thread c.thread).frames.length ≤ c.frames.length)
  | ends {results : List Value} (gives : c.Gives m m' results)
      (served : c.Served (m.store.thread c.thread) (m'.store.thread c.thread) results)
      (goes : c.GoesOn m')

variable {c : Interruption} {h : Frame} {m m' : Machine} {s : Store} {pinned floor : Nat}
  {under rest activities : List Activity} {values : Nat → Value}

theorem Handler.place_lt (handler : c.Handler h) : c.place < h.base :=
  handler.slot ▸ handler.formed.owned.base

theorem Handler.move (handler : c.Handler h) (pc : Nat) : c.Handler { h with pc } :=
  ⟨handler.slot, handler.target, handler.wanted, handler.formed.typed,
    ⟨handler.formed.owned.slot, handler.formed.owned.target, handler.formed.owned.base,
      handler.formed.owned.top⟩, handler.formed.delivers⟩

theorem Handler.kind_of_closure (handler : c.Handler h) {ref : ClosureRef}
    (callee : h.callee = .closure ref) : h.kind = .script := by
  simpa only [Frame.Typed, callee] using handler.formed.typed

theorem Handler.replaced (handler : c.Handler h) {g : Frame} {mayYield : Bool} {callee : Entered}
    (fresh : g.Fresh mayYield h.slot h.target callee) (wanted : g.wanted = h.wanted) :
    c.Handler g where
  slot := fresh.slot.trans handler.slot
  target := fresh.target.trans handler.target
  wanted := wanted.trans handler.wanted
  formed := by
    refine fresh.formed ?_
    have delivers := handler.formed.delivers
    rwa [Frame.Delivers, ← fresh.slot, ← fresh.target, ← wanted] at delivers

theorem Handler.finish (handler : c.Handler h) (script : c.caller.kind = .script) {th : Thread}
    (frames : th.frames = h :: c.frames) {source : Nat} (above : c.place ≤ source) (n : Nat) :
    c.Served th (th.finish source n) (th.values source n) := by
  have order := handler.formed.delivers.order (handler.slot ▸ above) n
  have takes : h.takes n = c.wanted := by simp [Frame.takes, handler.wanted]
  have slots := th.get_finish frames order
  rw [takes, handler.target, handler.slot] at slots
  refine ⟨th.frames_finish frames _ _, ?_, fun place taken => ?_, fun index low other => ?_⟩
  · rw [th.top_finish_eq frames]
    simp only [Thread.topAfter, handler.wanted, Interruption.frames, script]
  · rw [slots, if_pos (by omega), Nat.add_sub_cancel_left]
    by_cases given : place < n
    · rw [if_pos given, Thread.getD_values _ _ given]
    · rw [if_neg given, List.getD_eq_getElem?_getD, List.getElem?_eq_none (by simpa using given)]
      rfl
  · rw [slots, if_neg other, if_neg (by omega)]

theorem Served.of_looks {th th' th'' : Thread} {results : List Value}
    (served : c.Served th th' results) (looks : th'.Looks th'') : c.Served th th'' results where
  frames := looks.frames.trans served.frames
  top := looks.top.trans served.top
  taken place taken := (looks.slots _).trans (served.taken place taken)
  kept index low other := (looks.slots _).trans (served.kept index low other)

theorem Served.of_slots {th th₁ th' : Thread} {results : List Value}
    (served : c.Served th₁ th' results)
    (slots : ∀ index, index < c.place → th₁.get index = th.get index) :
    c.Served th th' results :=
  { served with
    kept := fun index low other => (served.kept index low other).trans (slots index low) }

theorem Kept.of_same (same : ∀ index, index < c.place →
    (m'.store.thread c.thread).get index = (m.store.thread c.thread).get index) : c.Kept m m' :=
  fun index bound => .inl (same index bound)

theorem Kept.of_runs (handler : c.Handler h) {g : Guarding} (own : g = c.guarding h pinned under)
    (follows : g.Follows m (m.store.thread c.thread).get values)
    (next : g.Runs values (m.step .bare)) : c.Kept m (m.step .bare) := by
  subst own
  intro index bound
  have low : index < (c.guarding h pinned under).slot := Nat.lt_trans bound handler.place_lt
  exact (next.below follows low).imp_right fun assigns => ⟨rfl, assigns⟩

theorem holds_top (linked : s.Linked) (held : (s.thread c.thread).held = true)
    (frames : (s.thread c.thread).frames = h :: c.frames) (under : List Activity) :
    (c.guarding h (s.thread c.thread).pinned under).Holds (s.thread c.thread).get [] s where
  linked := linked
  held := held
  clear := .nil
  mark := ⟨frames ▸ .base, .inl (Nat.le_of_eq (congrArg List.length frames))⟩
  enough := Nat.le_of_eq (congrArg List.length frames).symm
  pinned := rfl
  slots _ _ := rfl

theorem marked_of_healthy {control : Control} (inside : floor < c.frames.length)
    (healthy : Healthy ⟨s, .script c.thread floor :: rest, control⟩) :
    MarkedBelow c.thread c.frames.length rest :=
  fun _ _ mark => Nat.lt_of_le_of_lt (healthy.floor_le mark) inside

theorem marked_script (marked : MarkedBelow c.thread c.frames.length rest) :
    MarkedBelow c.thread c.frames.length (.script c.thread floor :: rest) := by
  intro level deep mark
  rw [ofThread_self (by rfl)] at mark
  exact marked level deep mark

end Interruption

end RegisterVm
