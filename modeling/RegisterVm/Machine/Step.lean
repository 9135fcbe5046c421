import RegisterVm.Instruction.Text
import RegisterVm.Library.Dispatch
import RegisterVm.Machine.Execute

/-!
The machine: a store, the activities that wait for one another, innermost first, and what is to be
done next. Each step runs one instruction, enters or continues one native function, or lets one
activity react to how the activity above it has ended. Nothing recurses, so every state of a run
is a machine.
-/

namespace RegisterVm

/-- Something in progress that waits for what is above it. -/
inductive Activity where
  /-- Runs the script frames of a thread until only `floor` frames are left. -/
  | script (thread : ThreadRef) (floor : Nat)
  /-- A native function that asked for a call. -/
  | native (thread : ThreadRef) (next : Pending)
  /-- A call from native code, whose results start at `slot`. -/
  | collect (thread : ThreadRef) (slot : Nat)
  /-- A call that puts the stack and the frames back if it fails. -/
  | restore (thread : ThreadRef) (level depth : Nat)
  /-- A call that turns a failure into a value at `slot`. -/
  | guard (thread : ThreadRef) (slot depth : Nat)
  /-- The resumption of a coroutine. -/
  | resumption (thread : ThreadRef)
  deriving Inhabited

/-- What is to be done next. -/
inductive Control where
  | run
  | enter (thread : ThreadRef) (body : NativeBody)
  | done (values : Array Value)
  | fail (e : Error)
  deriving Inhabited

structure Machine where
  store : Store
  activities : List Activity
  control : Control
  deriving Inhabited

namespace Machine

def isFinished (m : Machine) : Bool := m.activities.isEmpty &&
  match m.control with
  | .done _ | .fail _ => true
  | _ => false

def perform {α : Type} (s : Store) (activities : List Activity) (action : Action α)
    (k : Store → α → Machine) : Machine :=
  match action s with
  | .ok x s => k s x
  | .error e s => ⟨s, activities, .fail e⟩

def proceed (s : Store) (activities : List Activity) (t : ThreadRef) (floor : Nat) :
    Entered → Machine
  | .script => ⟨s, .script t floor :: activities, .run⟩
  | .native body => ⟨s, activities, .enter t body⟩

def enterFrom (t : ThreadRef) (slot arguments : Nat) (wanted : Option Nat) :
    Action (Nat × Entered) := do
  let floor ← lookThread t Thread.depth
  let entered ← enterCall t slot arguments slot wanted
  return (floor, entered)

@[noinline] def beginCall (s : Store) (activities : List Activity) (t : ThreadRef)
    (slot arguments : Nat) (wanted : Option Nat) : Machine :=
  perform s activities (enterFrom t slot arguments wanted) fun s (floor, entered) =>
    proceed s activities t floor entered

def pin (th : Thread) : Thread := { th with pinned := th.pinned + 1 }

def unpin (th : Thread) : Thread := { th with pinned := th.pinned - 1 }

@[noinline] def beginValueCall (s : Store) (activities : List Activity) (t : ThreadRef)
    (callee : Value) (values : Array Value) : Machine :=
  perform s activities (layOut t callee values) fun s slot =>
    beginCall (s.modifyThread t pin) (.collect t slot :: activities) t slot values.size none

def beginRestoringCall (s : Store) (activities : List Activity) (t : ThreadRef) (callee : Value)
    (values : Array Value) : Machine :=
  let level := (s.thread t).top
  let depth := (s.thread t).depth
  beginValueCall s (.restore t level depth :: activities) t callee values

def beginGuardedCall (s : Store) (activities : List Activity) (t : ThreadRef)
    (slot arguments : Nat) : Machine :=
  let depth := (s.thread t).depth
  beginCall (s.modifyThread t pin) (.guard t slot depth :: activities) t slot arguments none

def layOutEntry (t : ThreadRef) (values : Array Value) : Action Unit := do
  reserve t (1 + values.size)
  modifyThread t fun th => (th.putAll 1 values.toList).withTop (1 + values.size)

def deliverYield (t : ThreadRef) (values : Array Value) : Action Unit := do
  modifyThread t fun th => { th with yielding := false }
  let base ← lookThread t fun th =>
    match th.frame? with
    | some f => f.base
    | none => 1
  reserve t (base + values.size)
  modifyThread t fun th =>
    ((th.putAll base values.toList).withTop (base + values.size)).finish base values.size

/-- Starts a fresh coroutine or continues a suspended one. -/
def beginResumption (s : Store) (activities : List Activity) (t : ThreadRef)
    (values : Array Value) : Machine :=
  let status := (s.thread t).status
  match status with
  | .fresh =>
    let s := s.modifyThread t fun th => { th with status := .running, held := true }
    let activities := .resumption t :: activities
    perform s activities (layOutEntry t values) fun s _ =>
      perform s activities (enterCall t 0 values.size 0 none) fun s entered =>
        proceed s activities t 0 entered
  | .suspended =>
    let s := s.modifyThread t fun th => { th with status := .running, held := true }
    let activities := .resumption t :: activities
    perform s activities (deliverYield t values) fun s _ =>
      if (s.thread t).frames.isEmpty then ⟨s, activities, .done #[]⟩
      else ⟨s, .script t 0 :: activities, .run⟩
  | .running => ⟨s, activities, .fail (.invalid Coroutine.runningRefusal)⟩
  | .dead => ⟨s, activities, .fail (.invalid Coroutine.deadRefusal)⟩

/-- Goes on as a native function of thread `t` has left off. -/
def settle (s : Store) (activities : List Activity) (t : ThreadRef) : NativeOutcome → Machine
  | .returns count =>
    perform s activities (finishNative t count) fun s _ => ⟨s, activities, .done #[]⟩
  | .calls callee values restoring next =>
    let activities := .native t next :: activities
    if restoring then beginRestoringCall s activities t callee values
    else beginValueCall s activities t callee values
  | .protects slot arguments next =>
    beginGuardedCall s (.native t next :: activities) t slot arguments
  | .resumes co values next => beginResumption s (.native t next :: activities) co values

def pastEnd (pc : Int) : Error :=
  .invalid ("pc " ++ toString (pc % 18446744073709551616) ++ " past the end of the code")

def goTo (s : Store) (activities : List Activity) (t : ThreadRef) (codeSize current : Nat)
    (pc : Int) : Machine :=
  if 0 ≤ pc && pc < codeSize then
    if pc == current then ⟨s, activities, .run⟩
    else ⟨s.modifyThread t fun th => th.setPc pc.toNat, activities, .run⟩
  else ⟨s, activities, .fail (pastEnd pc)⟩

@[noinline] def runInstruction (s : Store) (activities : List Activity) (t : ThreadRef)
    (f : Frame) (closure : Closure) : Machine :=
  match closure.prototype.code[f.pc]? with
  | none => ⟨s, activities, .fail (pastEnd f.pc)⟩
  | some i =>
    let s := s.modifyThread t fun th => th.setPc (f.pc + 1)
    match i.opcode? with
    | none =>
      ⟨s, activities, .fail (.invalid ("invalid instruction " ++ wordText i.word.toNat))⟩
    | some op =>
      perform s activities (Context.execute ⟨t, f, closure, f.pc + 1⟩ op i) fun s flow =>
        match flow with
        | .next pc => goTo s activities t closure.prototype.code.size (f.pc + 1) pc
        | .entered .script => ⟨s, activities, .run⟩
        | .entered (.native body) => ⟨s, activities, .enter t body⟩
        | .returned => ⟨s, activities, .run⟩

/-- Runs the innermost frame of a thread, or ends the activity when its floor is reached. -/
def runScript (s : Store) (rest : List Activity) (t : ThreadRef) (floor : Nat) : Machine :=
  let frames := (s.thread t).frames
  if frames.length ≤ floor then ⟨s, rest, .done #[]⟩
  else
    match frames with
    | [] => ⟨s, rest, .done #[]⟩
    | f :: _ =>
      match f.callee with
      | .closure ref => runInstruction s (.script t floor :: rest) t f (s.closure ref)
      | _ => ⟨s, rest, .fail (.invalid "dispatch entered on a native frame")⟩

def endResumption (s : Store) (rest : List Activity) (t : ThreadRef) : Machine :=
  let th := s.thread t
  if th.yielding then
    ⟨s.modifyThread t fun th => { th with status := .suspended, yielded := #[], held := false },
      rest, .done th.yielded⟩
  else
    ⟨s.modifyThread t fun th => { th with status := .dead, held := false }, rest,
      .done (th.slots 0 th.top)⟩

def killCoroutine (s : Store) (t : ThreadRef) : Store :=
  (s.closeCells t 0).modifyThread t fun th =>
    { th with status := .dead, yielding := false, frames := [], held := false }

def takeResults (t : ThreadRef) (slot : Nat) : Action (Array Value) := do
  let values ← lookThread t fun th => th.slots slot th.top
  modifyThread t fun th => (unpin (th.clear slot th.top)).withTop slot
  return values

def succeed (host : Host) (s : Store) (top : Activity) (rest : List Activity)
    (values : Array Value) : Machine :=
  match top with
  | .script t floor =>
    if (s.thread t).yielding then ⟨s, rest, .done #[]⟩ else ⟨s, .script t floor :: rest, .run⟩
  | .native t next =>
    perform s rest (next.succeed host t values) fun s outcome => settle s rest t outcome
  | .collect t slot =>
    perform s rest (takeResults t slot) fun s values => ⟨s, rest, .done values⟩
  | .restore _ _ _ => ⟨s, rest, .done values⟩
  | .guard t _ _ => ⟨s.modifyThread t unpin, rest, .done #[.boolean true]⟩
  | .resumption t => endResumption s rest t

def catchFailure (s : Store) (t : ThreadRef) (slot depth : Nat) (e : Error) : Store :=
  (s.unwind t slot depth).modifyThread t fun th => (th.put slot e.value).withTop (slot + 1)

def failTop (host : Host) (s : Store) (top : Activity) (rest : List Activity) (e : Error) :
    Machine :=
  match top with
  | .script _ _ => ⟨s, rest, .fail e⟩
  | .native t next =>
    perform s rest (next.fail host t e) fun s outcome => settle s rest t outcome
  | .collect t _ => ⟨s.modifyThread t unpin, rest, .fail e⟩
  | .restore t level depth => ⟨s.unwind t level depth, rest, .fail e⟩
  | .guard t slot depth =>
    let s := s.modifyThread t unpin
    if e.isCatchable then ⟨catchFailure s t slot depth e, rest, .done #[.boolean false]⟩
    else ⟨s, rest, .fail e⟩
  | .resumption t => ⟨killCoroutine s t, rest, .fail e⟩

/-- One step. A finished machine stays as it is. -/
def step (host : Host) (m : Machine) : Machine :=
  match m with
  | ⟨s, activities, .enter t body⟩ =>
    perform s activities (body.enter host t) fun s outcome => settle s activities t outcome
  | ⟨s, .script t floor :: rest, .run⟩ => runScript s rest t floor
  | ⟨s, top :: rest, .done values⟩ => succeed host s top rest values
  | ⟨s, top :: rest, .fail e⟩ => failTop host s top rest e
  | m => m

/-- Steps until the machine is finished, `fuel` times at most. -/
def run (host : Host) : Nat → Machine → Machine
  | 0, m => m
  | fuel + 1, m => if m.isFinished then m else run host fuel (m.step host)

end Machine

end RegisterVm
