import RegisterVm.Proofs.Call.Opening
import RegisterVm.Proofs.Coroutine.Idle

/-!
The arguments of a call, whichever way a closure comes to be called: by an instruction, as the
handler of an event, by a native function, by a host, or by the resumption of a coroutine.
-/

namespace RegisterVm

namespace Machine

variable {m m' : Machine} {s : Store} {t : ThreadRef} {ref : ClosureRef} {c : ScriptCall}
  {activities : List Activity}

structure Opens (m : Machine) (c : ScriptCall) (g : Frame) (below : List Frame) : Prop
    extends m.store.Opens c g below where
  control : m.control = .run
  activities : ∃ floor rest, m.activities = .script c.thread floor :: rest ∧
    floor ≤ below.length

def Called (m : Machine) (c : ScriptCall) : Prop :=
  ((∃ text, m.control = .fail (.overflow text)) ∧
    (m.store.thread c.thread).Lacks c.room) ∨ ∃ g below, m.Opens c g below

theorem perform_called {α : Type} {action : Action α} {k : Store → α → Machine}
    {p : α → Store → Prop} (affords : Affords c.thread c.room action s p)
    (goes : ∀ a s', p a s' → (k s' a).Called c) :
    (perform s activities action k).Called c := by
  simp only [Affords] at affords
  simp only [perform]
  cases result : action s with
  | ok a s' =>
      rw [result] at affords
      exact goes a s' affords
  | error e s' =>
      rw [result] at affords
      obtain ⟨⟨text, rfl⟩, lacks⟩ := affords
      exact .inl ⟨⟨text, rfl⟩, lacks⟩

theorem proceed_called {g : Frame} {below : List Frame} {floor : Nat}
    (opens : s.Opens c g below) (inside : floor ≤ below.length) :
    (proceed s activities c.thread floor .script).Called c :=
  .inr ⟨g, below, opens, rfl, floor, activities, rfl, inside⟩

theorem beginCall_called (activities : List Activity) {slot count : Nat} (wanted : Option Nat)
    (valid : t < s.threads.size) (callee : (s.thread t).get slot = .closure ref)
    {arguments : List Value} (called : (s.thread t).values (slot + 1) count = arguments) :
    (beginCall s activities t slot count wanted).Called (s.callOf t slot ref arguments) := by
  refine perform_called (c := s.callOf t slot ref arguments)
    (p := fun result s' => result = ((s.thread t).frames.length, .script) ∧
      ∃ g, s'.Opens (s.callOf t slot ref arguments) g (s.thread t).frames) ?_ ?_
  · refine .lookThread_bind (.bind (enterCall_affords count slot wanted valid callee
      (by rw [called, Store.callOf]) (Nat.le_refl _)) ?_)
    rintro _ s' ⟨rfl, opens⟩
    exact ⟨rfl, opens⟩
  · rintro _ s' ⟨rfl, g, opens⟩
    exact proceed_called opens (Nat.le_refl _)

theorem beginValueCall_called (activities : List Activity) (valid : t < s.threads.size)
    (values : Array Value) :
    (beginValueCall s activities t (.closure ref) values).Called
      (s.callOf t (s.thread t).top ref values.toList) := by
  refine perform_called (c := s.callOf t (s.thread t).top ref values.toList)
    (p := fun slot s' => slot = (s.thread t).top ∧
      s.LaidOut t slot (.closure ref) values.toList s') ?_ ?_
  · refine .lookThread_bind (.reserve_bind ?_ fun _ => .modifyThread_bind ⟨rfl,
      .reserved valid (.of_putAll (by simpa using valid) _ _ _ _ rfl)⟩)
    simp only [ScriptCall.room, Store.callOf, Array.length_toList]
    omega
  · rintro slot s' ⟨rfl, laid⟩
    have pinned := Store.thread_modifyThread_self s' pin laid.valid
    have same : s.callOf t (s.thread t).top ref values.toList =
        (s'.modifyThread t pin).callOf t (s.thread t).top ref values.toList := by
      rw [Store.callOf, Store.callOf, Store.closure, Store.closure, ← laid.closures]
      rfl
    rw [same]
    exact beginCall_called (.collect t (s.thread t).top :: activities) none
      (by simpa using laid.valid) (by rw [pinned]; exact laid.callee)
      (by rw [pinned]; exact laid.arguments)

theorem beginGuardedCall_called (activities : List Activity) (slot count : Nat)
    (valid : t < s.threads.size) (callee : (s.thread t).get slot = .closure ref) :
    (beginGuardedCall s activities t slot count).Called
      (s.callOf t slot ref ((s.thread t).values (slot + 1) count)) := by
  have pinned := Store.thread_modifyThread_self s pin valid
  exact beginCall_called (s := s.modifyThread t pin)
    (.guard t slot (s.thread t).depth :: activities) none (by simpa using valid)
    (by rw [pinned]; exact callee) (by rw [pinned]; rfl)

theorem beginResumption_called (activities : List Activity) (fresh : (s.thread t).status = .fresh)
    (entry : (s.thread t).get 0 = .closure ref) (values : Array Value) :
    (beginResumption s activities t values).Called (s.callOf t 0 ref values.toList) := by
  have valid := Store.lt_of_closure entry
  simp only [beginResumption, fresh]
  have woken := Store.thread_modifyThread_self s
    (fun th => { th with status := .running, held := true }) valid
  refine perform_called (c := s.callOf t 0 ref values.toList)
    (p := fun _ s' => s.LaidOut t 0 (.closure ref) values.toList s') ?_ ?_
  · refine .reserve_bind ?_ fun _ => .after (f := fun th =>
      { th with status := .running, held := true }) valid rfl
      (.reserved (by simpa using valid) (.of_modifyThread (by simpa using valid) ?_ ?_ ?_))
    · simp only [ScriptCall.room, Store.callOf, Array.length_toList]
      omega
    · exact Thread.frames_putAll _ _ _
    · rw [Thread.get_withTop, Thread.get_putAll, if_neg (by omega),
        Store.thread_modifyThread_self _ _ (by simpa using valid), Thread.get_reserve, woken]
      exact entry
    · exact Thread.values_putAll _ 1 values.toList
  · intro _ s' laid
    refine perform_called (laid.enters 0 none) ?_
    rintro _ s'' ⟨rfl, g, opens⟩
    exact proceed_called opens (Nat.zero_le _)

/-- The next step executes instruction `i` of a frame that stands on top of `below`. -/
structure Executes (m : Machine) (x : Context) (below : List Frame) (op : Opcode)
    (i : Instruction) : Prop where
  activities : ∃ floor rest, m.activities = .script x.thread floor :: rest ∧ floor ≤ below.length
  control : m.control = .run
  head : (m.store.thread x.thread).frames = x.frame :: below
  closure : ∃ ref, x.frame.callee = .closure ref ∧ x.closure = m.store.closure ref
  pc : x.pc = x.frame.pc + 1
  code : x.prototype.code[x.frame.pc]? = some i
  opcode : i.opcode? = some op

def follow (x : Context) (activities : List Activity) (s : Store) : Flow → Machine
  | .next pc => goTo s activities x.thread x.prototype.code.size x.pc pc
  | .entered .script => ⟨s, activities, .run⟩
  | .entered (.native body) => ⟨s, activities, .enter x.thread body⟩
  | .returned => ⟨s, activities, .run⟩

section Executes

variable {x : Context} {below : List Frame} {op : Opcode} {i : Instruction}

theorem Executes.step (executes : m.Executes x below op i) {host : Host} :
    m.step host = perform (m.advanced x) m.activities (x.execute op i)
      (follow x m.activities) := by
  obtain ⟨s, activities, control⟩ := m
  obtain ⟨t, f, c, pc⟩ := x
  obtain ⟨⟨floor, rest, waits, inside⟩, runs, head, ⟨own, callee, closure⟩, place, code, opcode⟩ :=
    executes
  dsimp only [Context.prototype] at waits runs head callee closure place code
  subst waits runs closure place
  simp only [Machine.step, runScript_eq rest head inside callee, runInstruction, code, opcode,
    advanced]
  rfl

theorem Executes.moves (executes : m.Executes x below op i) :
    m.store.MovesOn x.thread (m.advanced x) :=
  Store.movesOn_setPc executes.head x.pc

theorem Executes.frames (executes : m.Executes x below op i) :
    ((m.advanced x).thread x.thread).frames = { x.frame with pc := x.pc } :: below := by
  rw [advanced, thread_setPc (Store.lt_of_frames executes.head) executes.head]

theorem Executes.ran (executes : m.Executes x below op i) :
    Ran x.thread x.frame below m.store m.activities (m.step .bare) := by
  obtain ⟨s, activities, control⟩ := m
  obtain ⟨⟨floor, rest, waits, inside⟩, runs, head, ⟨own, callee, closure⟩, -⟩ := executes
  dsimp only at waits runs head
  subst waits runs
  simp only [Machine.step, runScript_eq rest head inside callee]
  exact runInstruction_ran _ (Store.lt_of_frames head) head callee

theorem Executes.deep (executes : m.Executes x below op i) {s' : Store} {g : Frame}
    {waiting : List Frame} (entered : x.execute op i (m.advanced x) = .ok (.entered .script) s')
    (frames : (s'.thread x.thread).frames = g :: waiting) : below.length ≤ waiting.length := by
  have ran := executes.ran
  have step : m.step .bare = ⟨s', m.activities, .run⟩ := by
    simp only [executes.step, perform, entered, follow]
  have valid := Store.lt_of_frames executes.head
  have length : ((m.step .bare).store.thread x.thread).frames.length = waiting.length + 1 := by
    rw [step, frames, List.length_cons]
  have runs : (m.step .bare).control = .run := by rw [step]
  generalize m.step .bare = next at ran length runs
  cases ran with
  | stayed pc confined stays =>
      rw [stays, List.length_cons] at length
      omega
  | assigned pc assigns written =>
      obtain ⟨stack, thread⟩ := thread_assigned valid executes.head pc _ _
      rw [written, thread, List.length_cons] at length
      omega
  | entered pc h fresh above deliver confined cells pushed =>
      rw [pushed, List.length_cons, List.length_cons] at length
      omega
  | replaced h fresh confined pushed =>
      rw [pushed, List.length_cons] at length
      omega
  | vacated => contradiction
  | returned popped shut returns =>
      -- A return enters nothing.
      obtain ⟨ref, j, callee, code, opcode⟩ := returns
      obtain ⟨own, callee', closure⟩ := executes.closure
      obtain rfl : own = ref := by simpa [callee'] using callee
      obtain rfl : i = j := by
        have found := executes.code
        rw [Context.prototype, closure, code] at found
        exact (Option.some.inj found).symm
      obtain rfl : op = .ret := by simpa [executes.opcode] using opcode
      rw [show x.execute .ret i = x.ret i.a i.b from rfl, Context.ret_ok] at entered
      cases entered

theorem Executes.called (executes : m.Executes x below op i) (own : c.thread = x.thread)
    {action : Action Flow} {waiting : List Frame} (runs : x.execute op i (m.advanced x) = action s)
    (affords : Affords x.thread c.room action s (Flow.Opens c waiting)) :
    (m.step .bare).Called c := by
  rw [Affords, ← runs] at affords
  rw [executes.step]
  simp only [perform]
  cases result : x.execute op i (m.advanced x) with
  | error e s' =>
      rw [result] at affords
      obtain ⟨⟨text, rfl⟩, lacks⟩ := affords
      exact .inl ⟨⟨text, rfl⟩, own ▸ lacks⟩
  | ok flow s' =>
      rw [result] at affords
      obtain ⟨rfl, g, opens⟩ := affords
      obtain ⟨floor, rest, activities, inside⟩ := executes.activities
      exact .inr ⟨g, waiting, opens, rfl, floor, rest, own ▸ activities,
        Nat.le_trans inside (executes.deep result (own ▸ opens.frames))⟩

end Executes

def native? (m : Machine) : Option (ThreadRef × List Activity × Action NativeOutcome) :=
  match m with
  | ⟨_, activities, .enter t body⟩ => some (t, activities, body.enter .bare t)
  | ⟨_, .native t next :: rest, .done values⟩ => some (t, rest, next.succeed .bare t values)
  | ⟨_, .native t next :: rest, .fail e⟩ => some (t, rest, next.fail .bare t e)
  | _ => none

/-- What happens to machine `m` calls a closure. -/
inductive Calls (m : Machine) : Machine → ScriptCall → Prop where
  | instruction {x : Context} {below : List Frame} {i : Instruction} {ref : ClosureRef}
      (executes : m.Executes x below .call i)
      (callee : (m.store.thread x.thread).get (x.slot i.a) = .closure ref) :
      Calls m (m.step .bare)
        (m.store.callOf x.thread (x.slot i.a) ref (m.calledWith x.thread x.frame i))
  | tail {x : Context} {below : List Frame} {i : Instruction} {ref : ClosureRef}
      (executes : m.Executes x below .tailCall i)
      (callee : (m.store.thread x.thread).get (x.slot i.a) = .closure ref) :
      Calls m (m.step .bare)
        (m.store.callOf x.thread x.frame.slot ref (m.calledWith x.thread x.frame i))
  | iterator {x : Context} {below : List Frame} {i : Instruction} {ref : ClosureRef}
      (executes : m.Executes x below .iterCall i)
      (callee : (m.store.thread x.thread).get (x.slot i.a) = .closure ref) :
      Calls m (m.step .bare) (m.store.callOf x.thread (x.slot (i.a + 3)) ref
        ((m.store.thread x.thread).values (x.slot i.a + 1) 2))
  | handler {x : Context} {below : List Frame} {op : Opcode} {i : Instruction} {ref : ClosureRef}
      {values : List Value} {target : Option Nat} {s : Store}
      (executes : m.Executes x below op i)
      (enters : x.execute op i (m.advanced x) =
        x.enterHandler (.closure ref) values target s) :
      Calls m (m.step .bare)
        (s.callOf x.thread (max x.frame.top (s.thread x.thread).top) ref values)
  | value {t : ThreadRef} {activities : List Activity} {action : Action NativeOutcome}
      {ref : ClosureRef} {values : Array Value} {restoring : Bool} {next : Pending} {s : Store}
      (works : m.native? = some (t, activities, action))
      (asks : action m.store = .ok (.calls (.closure ref) values restoring next) s) :
      Calls m (m.step .bare) (s.callOf t (s.thread t).top ref values.toList)
  | guarded {t : ThreadRef} {activities : List Activity} {action : Action NativeOutcome}
      {ref : ClosureRef} {slot count : Nat} {next : Pending} {s : Store}
      (works : m.native? = some (t, activities, action))
      (asks : action m.store = .ok (.protects slot count next) s)
      (callee : (s.thread t).get slot = .closure ref) :
      Calls m (m.step .bare) (s.callOf t slot ref ((s.thread t).values (slot + 1) count))
  | resumption {t co : ThreadRef} {activities : List Activity} {action : Action NativeOutcome}
      {ref : ClosureRef} {values : Array Value} {next : Pending} {s : Store}
      (works : m.native? = some (t, activities, action))
      (asks : action m.store = .ok (.resumes co values next) s)
      (fresh : (s.thread co).status = .fresh) (entry : (s.thread co).get 0 = .closure ref) :
      Calls m (m.step .bare) (s.callOf co 0 ref values.toList)
  | hostCall {t : ThreadRef} {ref : ClosureRef} (idle : m.activities = [])
      (main : (m.store.thread t).isMain = true) (free : (m.store.thread t).held = false)
      (values : Array Value) :
      Calls m (beginRestoringCall (Engine.setHeld m.store t true) [] t (.closure ref) values)
        (m.store.callOf t (m.store.thread t).top ref values.toList)
  | hostResumption {t : ThreadRef} {ref : ClosureRef} (idle : m.activities = [])
      (free : (m.store.thread t).held = false) (fresh : (m.store.thread t).status = .fresh)
      (entry : (m.store.thread t).get 0 = .closure ref) (values : Array Value) :
      Calls m (beginResumption m.store [] t values) (m.store.callOf t 0 ref values.toList)

theorem Calls.next (calls : m.Calls m' c) : Next m m' := by
  obtain ⟨s, activities, control⟩ := m
  cases calls with
  | hostCall idle main free values =>
      cases idle
      exact .call main free _ _
  | hostResumption idle free fresh entry values =>
      cases idle
      exact .resume free _
  | _ => exact .step _

theorem step_of_native {action : Action NativeOutcome}
    (works : m.native? = some (t, activities, action)) : m.step .bare =
      perform m.store activities action (fun s outcome => settle s activities t outcome) ∧
        (m.Real → t < m.store.threads.size) := by
  obtain ⟨s, waiting, control⟩ := m
  cases control with
  | enter r body =>
      cases works
      exact ⟨rfl, id⟩
  | run => cases waiting <;> cases works
  | done values | fail e =>
      cases waiting with
      | nil => cases works
      | cons top rest =>
          cases top with
          | native r next =>
              cases works
              exact ⟨rfl, id⟩
          | _ => cases works

section Counting

variable {n : Nat}

theorem keeps_count_enterCall (t : ThreadRef) (slot count target : Nat) (wanted : Option Nat) :
    Keeps (fun s => s.threads.size = n) (enterCall t slot count target wanted) Any := by
  have modifies : ∀ (f : Thread → Thread) (s : Store), s.threads.size = n →
      (s.modifyThread t f).threads.size = n :=
    fun f s same => (Store.threadCount_modifyThread s t f).trans same
  refine Keeps.lookThread.bind fun deep _ => ?_
  split
  · exact .overflowError
  · refine Keeps.lookThread.bind fun callee _ => ?_
    split
    · refine Keeps.look.bind fun p _ => (Keeps.reserve (modifies _)).bind fun _ _ => ?_
      exact (Keeps.modifyThread (modifies _)).bind fun _ _ => .pure_any
    · refine Keeps.look.bind fun body _ => (Keeps.reserve (modifies _)).bind fun _ _ => ?_
      exact (Keeps.modifyThread (modifies _)).bind fun _ _ => .pure_any
    · exact .typeError

theorem keeps_count_enterHandler (x : Context) (handler : Value) (values : List Value)
    (target : Option Nat) :
    Keeps (fun s => s.threads.size = n) (x.enterHandler handler values target) Any := by
  have modifies : ∀ (f : Thread → Thread) (s : Store), s.threads.size = n →
      (s.modifyThread x.thread f).threads.size = n :=
    fun f s same => (Store.threadCount_modifyThread s x.thread f).trans same
  refine Keeps.lookThread.bind fun slot _ => (Keeps.reserve (modifies _)).bind fun _ _ => ?_
  refine (Keeps.modifyThread (modifies _)).bind fun _ _ => ?_
  cases target with
  | none => exact (keeps_count_enterCall _ _ _ _ _).bind fun _ _ => .pure_any
  | some target => exact (keeps_count_enterCall _ _ _ _ _).bind fun _ _ => .pure_any

theorem count_perform {α : Type} {action : Action α} {k : Store → α → Machine}
    (keeps : Keeps (fun s => s.threads.size = n) action Any) (before : s.threads.size = n)
    (goes : ∀ s a, s.threads.size = n → (k s a).store.threads.size = n) :
    (perform s activities action k).store.threads.size = n :=
  perform_elim (p := fun m => m.store.threads.size = n) (keeps.leads before)
    (fun a s' after => goes s' a after.1) fun _ _ after => after

theorem count_beginValueCall (s : Store) (activities : List Activity) (t : ThreadRef)
    (callee : Value) (values : Array Value) :
    (beginValueCall s activities t callee values).store.threads.size = s.threads.size := by
  have modifies : ∀ (f : Thread → Thread) (s' : Store), s'.threads.size = s.threads.size →
      (s'.modifyThread t f).threads.size = s.threads.size :=
    fun f s' same => (Store.threadCount_modifyThread s' t f).trans same
  have lays : Keeps (fun s' => s'.threads.size = s.threads.size) (layOut t callee values) Any :=
    Keeps.lookThread.bind fun _ _ => (Keeps.reserve (modifies _)).bind fun _ _ =>
      (Keeps.modifyThread (modifies _)).bind fun _ _ => .pure_any
  have enters : ∀ slot, Keeps (fun s' => s'.threads.size = s.threads.size)
      (enterFrom t slot values.size none) Any :=
    fun slot => Keeps.lookThread.bind fun _ _ =>
      (keeps_count_enterCall _ _ _ _ _).bind fun _ _ => .pure_any
  refine count_perform lays rfl fun s' slot same => ?_
  refine count_perform (enters slot) (modifies pin s' same) ?_
  rintro s'' ⟨floor, entered⟩ same
  cases entered <;> exact same

theorem count_follow (x : Context) (activities : List Activity) (s : Store) (flow : Flow) :
    (follow x activities s flow).store.threads.size = s.threads.size := by
  rcases flow with pc | (_ | body) | _
  · simp only [follow, goTo]
    split
    · split
      · rfl
      · exact Store.threadCount_modifyThread _ _ _
    · rfl
  all_goals rfl

end Counting

/-- However a closure is called, it is opened with the arguments that it is called with, unless its
thread lacks frames or slots. -/
theorem Calls.called (healthy : m.Healthy) (calls : m.Calls m' c) : m'.Called c := by
  have later := calls.next.grown healthy
  cases calls with
  | @instruction x below i ref executes callee =>
      have moves := executes.moves
      exact executes.called rfl rfl (Context.call_affords (s := m.advanced x) i.a i.b
        (if i.c == 0 then none else some (i.c - 1)) moves.valid ((moves.slots _).trans callee)
        (by rw [moves.countAbove, Thread.values_congr moves.slots]; rfl))
  | @tail x below i ref executes callee =>
      have moves := executes.moves
      have live : x.Live below (m.advanced x) := ⟨moves.valid, x.pc, executes.frames⟩
      have down : x.frame.slot ≤ x.slot i.a := by
        obtain ⟨mine, tidy⟩ := healthy.tidy x.thread
        have base := (tidy.frames x.frame (executes.head ▸ .head _)).owned.base
        exact Nat.le_trans (Nat.le_of_lt base) (Nat.le_add_right _ _)
      exact executes.called rfl rfl (Context.tailCall_affords i.a i.b live down
        ((moves.slots _).trans callee)
        (by rw [moves.countAbove, Thread.values_congr moves.slots]; rfl))
  | @iterator x below i ref executes callee =>
      have moves := executes.moves
      exact executes.called rfl rfl (Context.iterCall_affords moves.valid
        ((moves.slots _).trans callee) (Thread.values_congr moves.slots _ _))
  | @handler x below op i ref values target s executes enters =>
      refine executes.called rfl enters (Context.enterHandler_affords ?_ values target)
      have runs : m.step .bare = perform s m.activities
          (x.enterHandler (.closure ref) values target) (follow x m.activities) := by
        simp only [executes.step, perform, enters]
      have count : (m.step .bare).store.threads.size = s.threads.size := by
        rw [runs]
        exact count_perform (keeps_count_enterHandler x _ _ _) rfl fun s' flow same =>
          (count_follow x m.activities s' flow).trans same
      exact count ▸ Nat.lt_of_lt_of_le (Store.lt_of_frames executes.head) later
  | @value t activities action ref values restoring next s works asks =>
      obtain ⟨step, real⟩ := step_of_native works
      simp only [step, perform, asks, settle] at later ⊢
      have begun : ∀ activities, m.store.threads.size ≤
          (beginValueCall s activities t (.closure ref) values).store.threads.size →
          (beginValueCall s activities t (.closure ref) values).Called
            (s.callOf t (s.thread t).top ref values.toList) := by
        intro activities grown
        rw [count_beginValueCall] at grown
        exact beginValueCall_called _ (Nat.lt_of_lt_of_le (real healthy.real) grown) values
      cases restoring with
      | false => exact begun _ later
      | true => exact begun _ later
  | @guarded t activities action ref slot count next s works asks callee =>
      rw [(step_of_native works).1, perform, asks]
      exact beginGuardedCall_called _ slot count (Store.lt_of_closure callee) callee
  | @resumption t co activities action ref values next s works asks fresh entry =>
      rw [(step_of_native works).1, perform, asks]
      exact beginResumption_called _ fresh entry values
  | @hostCall t ref idle main free values =>
      have held := Store.thread_modifyThread_self m.store (fun th => { th with held := true })
        (Store.lt_of_main main)
      have same : m.store.callOf t (m.store.thread t).top ref values.toList =
          (Engine.setHeld m.store t true).callOf t
            ((Engine.setHeld m.store t true).thread t).top ref values.toList := by
        rw [Engine.setHeld, held]
        rfl
      rw [same]
      exact beginValueCall_called _ (by simpa [Engine.setHeld] using Store.lt_of_main main) values
  | @hostResumption t ref idle free fresh entry values =>
      exact beginResumption_called [] fresh entry values

end Machine

end RegisterVm
