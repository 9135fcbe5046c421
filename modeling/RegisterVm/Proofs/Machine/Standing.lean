import RegisterVm.Proofs.Prototype.Code

/-!
Where a call stands in its code. An instruction that only writes registers leaves the call standing
where the instruction goes on, with the other registers as they were.
-/

namespace RegisterVm

/-- A call of a closure in progress. It is known by its thread, by how many frames the thread has
with its own, and by that frame, whichever instruction the frame is at. -/
structure Activation where
  thread : ThreadRef
  frame : Frame
  depth : Nat
  closure : Closure

def Activation.context (a : Activation) (pc : Nat) : Context :=
  ⟨a.thread, { a.frame with pc }, a.closure, pc + 1⟩

def Activation.code (a : Activation) : Array Instruction := a.closure.prototype.code

namespace Thread

theorem setPc_setPc (th : Thread) (pc next : Nat) : (th.setPc pc).setPc next = th.setPc next := by
  obtain ⟨stack, top, frames⟩ := th
  cases frames <;> rfl

theorem put_setPc (th : Thread) (pc index : Nat) (v : Value) :
    (th.setPc pc).put index v = (th.put index v).setPc pc := by
  obtain ⟨stack, top, frames⟩ := th
  cases frames <;> rfl

def assign (base : Nat) (values : List (Nat × Value)) (th : Thread) : Thread :=
  values.foldl (fun th (register, v) => th.put (base + register) v) th

theorem assign_setPc (base : Nat) (values : List (Nat × Value)) (th : Thread) (pc : Nat) :
    (th.setPc pc).assign base values = (th.assign base values).setPc pc := by
  induction values generalizing th with
  | nil => rfl
  | cons w values ih =>
      refine (congrArg (assign base values) (put_setPc th pc (base + w.1) w.2)).trans ?_
      exact ih (th.put (base + w.1) w.2)

theorem frames_assign (base : Nat) (values : List (Nat × Value)) (th : Thread) :
    (th.assign base values).frames = th.frames := by
  induction values generalizing th with
  | nil => rfl
  | cons _ _ ih => exact ih _

theorem get_assign (base : Nat) (values : List (Nat × Value)) (th : Thread)
    (register : Nat) : (th.assign base values).get (base + register) =
      values.foldl (fun read (other, v) => Function.update read other v)
        (fun other => th.get (base + other)) register := by
  induction values generalizing th with
  | nil => rfl
  | cons w values ih =>
      refine (ih (th.put (base + w.1) w.2)).trans (congrFun (congrArg (values.foldl _ ·) ?_) register)
      funext other
      simp only [get_put, Function.update_apply, Nat.add_left_cancel_iff]

end Thread

namespace Context

theorem register_eq (x : Context) (s : Store) (register : Nat) :
    x.register register s = .ok (x.registerIn s register) s := rfl

theorem execute_move (x : Context) (s : Store) (i : Instruction) :
    x.execute .move i s = .ok (.next x.pc) (s.modifyThread x.thread
      (Thread.assign x.frame.base [(i.a, x.registerIn s i.b)])) := rfl

end Context

namespace Machine

variable {m : Machine} {a : Activation} {pc next : Nat} {i : Instruction} {op : Opcode}
  {values : List (Nat × Value)}

theorem Fetches.step_assigns {t : ThreadRef} {f : Frame} {closure : Closure}
    (fetches : m.Fetches t f closure) (host : Host)
    (code : closure.prototype.code[f.pc]? = some i) (opcode : i.opcode? = some op)
    (inside : next < closure.prototype.code.size)
    (executes : Context.execute ⟨t, f, closure, f.pc + 1⟩ op i
        (m.store.modifyThread t fun th => th.setPc (f.pc + 1)) =
      .ok (.next next) ((m.store.modifyThread t fun th => th.setPc (f.pc + 1)).modifyThread t
        (Thread.assign f.base values))) :
    m.step host = ⟨m.store.modifyThread t fun th => (th.assign f.base values).setPc next,
      m.activities, .run⟩ := by
  rw [fetches.step_next host code opcode executes, goTo, if_pos (by simpa using inside),
    Store.modifyThread_modifyThread]
  split
  · rename_i follows
    obtain rfl : next = f.pc + 1 := Int.ofNat.inj (beq_iff_eq.1 follows)
    congr 2
    funext th
    exact Thread.assign_setPc f.base values th (f.pc + 1)
  · rw [Store.modifyThread_modifyThread]
    congr 2
    funext th
    exact (congrArg (Thread.setPc · next) (Thread.assign_setPc f.base values th (f.pc + 1))).trans
      (Thread.setPc_setPc _ _ _)

/-- The next step runs the instruction at `pc` of the call. -/
structure Stands (m : Machine) (a : Activation) (pc : Nat) : Prop where
  fetches : m.Fetches a.thread { a.frame with pc } a.closure
  depth : (m.store.thread a.thread).depth = a.depth

def register (m : Machine) (a : Activation) (register : Nat) : Value :=
  (m.store.thread a.thread).get (a.frame.base + register)

theorem registerIn_context (m : Machine) (a : Activation) (pc register : Nat) :
    (a.context pc).registerIn (m.advanced (a.context pc)) register = m.register a register :=
  registerIn_advanced m (a.context pc) register

namespace Stands

theorem unique (first : m.Stands a pc) (second : m.Stands a next) : pc = next := by
  obtain ⟨_, _, below, -, frames, -⟩ := first.fetches.head
  obtain ⟨_, _, below', -, frames', -⟩ := second.fetches.head
  rw [frames] at frames'
  exact congrArg Frame.pc (List.cons.inj frames').1

/-- After the step the call stands at `next`, with the registers that have been assigned. -/
theorem step (stands : m.Stands a pc) (host : Host) (code : a.code[pc]? = some i)
    (opcode : i.opcode? = some op) (inside : next < a.code.size)
    (executes : (a.context pc).execute op i (m.advanced (a.context pc)) =
      .ok (.next next) ((m.advanced (a.context pc)).modifyThread a.thread
        (Thread.assign a.frame.base values))) :
    (m.step host).Stands a next ∧ (m.step host).register a =
      values.foldl (fun read (register, v) => Function.update read register v) (m.register a) := by
  have moved := stands.fetches.step_assigns host code opcode inside executes
  obtain ⟨runs, ⟨floor, rest, below, head, standing, deep⟩, ref, callee, closure⟩ := stands.fetches
  have thread : (m.step host).store.thread a.thread =
      ((m.store.thread a.thread).assign a.frame.base values).setPc next := by
    rw [moved, Store.thread_modifyThread_self _ _ (Store.lt_of_frames standing)]
  rw [Thread.setPc_cons ((Thread.frames_assign _ _ _).trans standing)] at thread
  refine ⟨⟨⟨by rw [moved], ⟨floor, rest, below, by rw [moved]; exact head, by rw [thread], deep⟩,
    ref, callee, by rw [moved]; exact closure⟩, ?_⟩, ?_⟩
  · rw [← stands.depth, thread, Thread.depth, Thread.depth, standing]
    rfl
  · funext register
    rw [Machine.register, thread]
    exact Thread.get_assign a.frame.base values _ register

end Stands

/-- A function stands at its first instruction and has values in its registers. -/
def holding (p : Prototype) (values : Array Value) : Machine :=
  ⟨(standing p 0).store.modifyThread 0 fun th => { th with stack := #[.closure 0] ++ values },
    [.script 0 0], .run⟩

def holdingCall (p : Prototype) : Activation := ⟨0, standingFrame 0, 1, ⟨p, #[]⟩⟩

theorem holding_stands (p : Prototype) (values : Array Value) :
    (holding p values).Stands (holdingCall p) 0 :=
  ⟨⟨rfl, ⟨0, [], [], rfl, rfl, Nat.le_refl 0⟩, 0, rfl, rfl⟩, rfl⟩

end Machine

end RegisterVm
