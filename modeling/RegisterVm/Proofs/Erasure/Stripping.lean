import RegisterVm.Proofs.Erasure.Machines
import RegisterVm.Proofs.Prototype.Canonical

/-!
Running what was written without its debug records. It comes back as the original without them,
and a run of it is step by step the run of the original, as long as nothing fails in that one.
-/

namespace RegisterVm

namespace Prototype

variable {p : Prototype}

def Survives (p : Prototype) : Prop :=
  ∃ bytes, p.encode false = .ok bytes ∧ decode bytes = .ok (p.stored false)

theorem Nests.stored {depth : Nat} {q : Prototype} (nests : p.Nests depth q) (strip : Bool) :
    (p.stored strip).Nests depth (q.stored strip) := by
  induction nests with
  | here p => exact .here _
  | nested member _ ih =>
      refine .nested ?_ ih
      rw [stored_eq]
      simpa using ⟨_, member, rfl⟩

theorem fits_of_stored (fits : (p.stored false).Fits) : p.Fits := by
  rw [stored_eq] at fits
  refine ⟨fits.code, fits.constants, ?_, fits.captures, fits.lines, fits.locals, fits.parameters,
    fits.window, fits.strings, fun s present => ?_, fits.localNames, fits.captureNames⟩
  · simpa using fits.children
  · by_cases empty : s = ""
    · rw [empty]
      decide
    · exact fits.source s (by simp [present, empty])

theorem loadable_of_stored (loadable : (p.stored false).Loadable) : p.Loadable := by
  rw [stored_eq] at loadable
  exact ⟨loadable.valid, loadable.returns, loadable.window⟩

theorem survives_of_decode {bytes : List UInt8} (accepted : decode bytes = .ok p) : p.Survives := by
  obtain ⟨again, written, read⟩ := encode_decoded accepted
  obtain ⟨f, strip, ⟨readable, -⟩, rfl⟩ := decode_ok.mp accepted
  have same : f.prototype.stored false = f.prototype := stored_self fun depth q nests => by
    obtain ⟨-, g, -, rfl⟩ := readable.nests nests
    exact g.source_ne_empty
  exact ⟨again, written, by rw [read, same]⟩

theorem Survives.strips (survives : p.Survives) :
    ∃ bytes, p.encode true = .ok bytes ∧ decode bytes = .ok p.erase := by
  obtain ⟨whole, written, read⟩ := survives
  obtain ⟨f, strip, ⟨readable, -⟩, same⟩ := decode_ok.mp read
  have levels (depth : Nat) (q : Prototype) (nests : p.Nests depth q) :
      depth < Binary.maxNesting + 1 ∧ ∃ g : Form, g.Sound ∧ g.prototype = q.stored false :=
    readable.nests (same ▸ nests.stored false)
  cases stripped : p.encode true with
  | error fault =>
      have unwritable := (encodeBody_error true p).mp ((encode_error p true).mp ⟨fault, stripped⟩)
      obtain ⟨_, refused⟩ := (encode_error p false).mpr ((encodeBody_error false p).mpr unwritable)
      rw [written] at refused
      contradiction
  | ok bytes =>
      obtain ⟨reads, only⟩ := decode_written (fun depth q nests => by
        obtain ⟨-, g, sound, image⟩ := levels depth q nests
        exact fits_of_stored (image ▸ sound.fits)) stripped
      obtain ⟨q, decoded⟩ := reads.mpr fun depth q nests => by
        obtain ⟨bound, g, sound, image⟩ := levels depth q nests
        exact ⟨loadable_of_stored (image ▸ sound.loadable), Nat.le_of_lt_succ bound⟩
      exact ⟨bytes, rfl, by rw [decoded, only q decoded]⟩

end Prototype

theorem Store.erase_self {s : Store} (plain : s.closures = #[]) : s.erase = s := by
  rw [erase, plain, Array.map_empty, ← plain]

namespace Vm

def erase (vm : Vm) : Vm := { vm with store := vm.store.erase }

def captureNil (c : Array CellRef × Store) : Array CellRef × Store :=
  (c.1.push (c.2.newCell (.closed .nil)).1, (c.2.newCell (.closed .nil)).2)

def captureGlobals (vm : Vm) : Array CellRef × Store :=
  (#[(vm.store.newCell (.closed (.table vm.globals))).1],
    (vm.store.newCell (.closed (.table vm.globals))).2)

def captured (vm : Vm) (count : Nat) : Array CellRef × Store :=
  (List.range (count - 1)).foldl (fun c _ => captureNil c) vm.captureGlobals

theorem load_eq (vm : Vm) (p : Prototype) :
    vm.load p =
      (.closure ((vm.captured p.captures.size).2.newClosure
          ⟨p, (vm.captured p.captures.size).1⟩).1,
        { vm with
          store := ((vm.captured p.captures.size).2.newClosure
            ⟨p, (vm.captured p.captures.size).1⟩).2 }) := rfl

theorem captured_erase (vm : Vm) (count : Nat) :
    vm.erase.captured count = ((vm.captured count).1, (vm.captured count).2.erase) := by
  have more : ∀ (indices : List Nat) (c : Array CellRef × Store),
      indices.foldl (fun c _ => captureNil c) (c.1, c.2.erase) =
        ((indices.foldl (fun c _ => captureNil c) c).1,
          (indices.foldl (fun c _ => captureNil c) c).2.erase) := by
    intro indices
    induction indices with
    | nil => exact fun _ => rfl
    | cons _ rest ih => exact fun c => ih (captureNil c)
  exact more _ vm.captureGlobals

theorem load_erase (vm : Vm) (p : Prototype) :
    vm.erase.load p.erase = ((vm.load p).1, (vm.load p).2.erase) := by
  have made : ∀ (s : Store) cells, s.erase.newClosure ⟨p.erase, cells⟩ =
      ((s.newClosure ⟨p, cells⟩).1, (s.newClosure ⟨p, cells⟩).2.erase) :=
    fun s cells => s.newClosure_erase ⟨p, cells⟩
  rw [load_eq, load_eq, Prototype.size_captures_erase, captured_erase, made]
  rfl

/-- The machine in which the host has loaded a prototype and has called it. -/
def start (vm : Vm) (p : Prototype) (values : Array Value) : Machine :=
  .beginRestoringCall (Engine.setHeld (vm.load p).2.store vm.main true) [] vm.main (vm.load p).1
    values

def loadAndCall (vm : Vm) (engine : Engine) (p : Prototype) (values : Array Value) : Outcome × Vm :=
  (vm.load p).2.call engine (vm.load p).1 values

end Vm

/-- For `n` steps nothing fails in the second run, and it is the first one but for debug records. -/
structure SameRun (host : Host) (n : Nat) (m m' : Machine) : Prop where
  clean : m'.Clean host n
  instructions : ∀ k ≤ n, (m'.run host k).instruction? = (m.run host k).instruction?
  writes : ∀ k ≤ n, (m'.run host k).store.tables = (m.run host k).store.tables ∧
    (m'.run host k).store.cells = (m.run host k).store.cells
  yields : ∀ k ≤ n, (m'.run host k).store.threads = (m.run host k).store.threads
  states : ∀ k ≤ n, m'.run host k = (m.run host k).erase

namespace Machine.Clean

variable {host : Host} {n : Nat} {m : Machine}

theorem sameRun (blind : host.Blind) (clean : m.Clean host n) : SameRun host n m m.erase := by
  have states : ∀ k ≤ n, m.erase.run host k = (m.run host k).erase := fun k le =>
    run_erase blind fun j early => clean j (Nat.le_trans early le)
  refine ⟨fun k le => ?_, fun k le => ?_, fun k le => ?_, fun k le => ?_, states⟩
  · rw [states k le]
    exact clean k le
  · rw [states k le, instruction?_erase]
  · rw [states k le]
    exact ⟨rfl, rfl⟩
  · rw [states k le]
    rfl

end Machine.Clean

namespace Vm

variable {engine : Engine} {vm : Vm} {p : Prototype} {values : Array Value}

theorem start_erase (sound : (vm.start p values).isFailing = false) :
    vm.erase.start p.erase values = (vm.start p values).erase := by
  have same : Machine.Mirrors (vm.start p values)
      (.beginRestoringCall (Engine.setHeld (vm.load p).2.store vm.main true).erase [] vm.main
        (vm.load p).1 values) := Machine.mirrors_beginRestoringCall _ _
  rw [← same sound, start, load_erase]
  rfl

theorem loadAndCall_eq (engine : Engine) (vm : Vm) (p : Prototype) (values : Array Value) :
    vm.loadAndCall engine p values =
      if ((vm.load p).2.store.thread vm.main).held then
        (.failed (.invalid "main thread is already running"), (vm.load p).2)
      else
        (((vm.start p values).run engine.host engine.steps).outcome,
          { (vm.load p).2 with
            store := Engine.setHeld ((vm.start p values).run engine.host engine.steps).store vm.main
              false }) := rfl

theorem loadAndCall_erase (blind : engine.host.Blind)
    (clean : (vm.start p values).Clean engine.host engine.steps) :
    vm.erase.loadAndCall engine p.erase values =
      ((vm.loadAndCall engine p values).1, (vm.loadAndCall engine p values).2.erase) := by
  have ends : (vm.erase.start p.erase values).run engine.host engine.steps =
      ((vm.start p values).run engine.host engine.steps).erase := by
    rw [start_erase (clean 0 (Nat.zero_le _)), clean.run_erase blind]
  have held : (((vm.load p).2.erase.store.thread vm.erase.main).held = true) =
      (((vm.load p).2.store.thread vm.main).held = true) := rfl
  rw [loadAndCall_eq, loadAndCall_eq, ends, load_erase]
  simp only [held]
  split <;> rfl

/-- On a machine without other functions, a prototype and what is left of it when its debug records
are not written run alike, as long as nothing fails: step by step they execute the same instruction
and leave the same tables, cells and threads, and they come to the same end. Both runs start from one
store, and so in the same surroundings: with one generator, the same entropy for it, and the same
addresses. -/
theorem stripped_sameRun (blind : engine.host.Blind) (alone : vm.store.closures = #[])
    (survives : p.Survives) (clean : (vm.start p values).Clean engine.host engine.steps) :
    ∃ bytes stripped, p.encode true = .ok bytes ∧ Prototype.decode bytes = .ok stripped ∧
      SameRun engine.host engine.steps (vm.start p values) (vm.start stripped values) ∧
      (vm.loadAndCall engine stripped values).1 = (vm.loadAndCall engine p values).1 ∧
      (vm.loadAndCall engine stripped values).2 = (vm.loadAndCall engine p values).2.erase := by
  obtain ⟨bytes, written, read⟩ := survives.strips
  have plain : vm.erase = vm := congrArg (fun s => { vm with store := s }) (Store.erase_self alone)
  have started := start_erase (clean 0 (Nat.zero_le _))
  have ended := loadAndCall_erase blind clean
  rw [plain] at started ended
  refine ⟨bytes, p.erase, written, read, ?_, ?_, ?_⟩
  · rw [started]
    exact clean.sameRun blind
  · rw [ended]
  · rw [ended]

def givingForm : Form :=
  ⟨[.abc .getCell 0 0 0, .abc .ret 0 2 0], [], 0, 0, 2, 2, 4, [⟨0, 0⟩], [], "main", [3, 3], [],
    ["globals"]⟩

def askingForm : Form :=
  ⟨[.abx .closure 0 0, .abc .call 0 1 2, .abc .ret 0 2 0], [], 0, 0, 2, 0, 0, [⟨1, 0⟩],
    [givingForm], "main", [4, 5, 5], [⟨"f", 1, 3⟩], ["globals"]⟩

def askingBytes : List UInt8 := Binary.signature ++ [Binary.version, 0] ++ askingForm.bytes

def asking : Prototype :=
  { Prototype.empty with
    code := #[.abx .closure 0 0, .abc .call 0 1 2, .abc .ret 0 2 0]
    children := #[{ Prototype.empty with
      code := #[.abc .getCell 0 0 0, .abc .ret 0 2 0]
      captures := #[⟨"globals", false, 0⟩]
      window := 2
      source := some "main"
      lines := #[3, 3]
      firstLine := 2
      lastLine := 4 }]
    captures := #[⟨"globals", true, 0⟩]
    window := 2
    source := some "main"
    lines := #[4, 5, 5]
    locals := #[⟨"f", 1, 3⟩] }

theorem decode_asking : Prototype.decode askingBytes = .ok asking := by
  have giving : givingForm.Sound := by
    refine ⟨by decide, ⟨by decide, nofun⟩, by decide, by decide, by decide, by decide, by decide,
      by decide, by decide, ?_⟩
    rw [Form.prototype_eq]
    decide
  have sound : askingForm.Sound := by
    refine ⟨by decide, ⟨by decide, nofun⟩, by decide, by decide, by decide, by decide, by decide,
      by decide, by decide, ?_⟩
    rw [Form.prototype_eq]
    decide
  have readable : givingForm.Readable Binary.maxNesting := ⟨giving, nofun⟩
  refine Prototype.decode_ok.mpr ⟨askingForm, 0, ⟨⟨sound, fun child member =>
    List.mem_singleton.mp member ▸ readable⟩, rfl⟩, ?_⟩
  rw [Form.prototype_eq]
  simp only [askingForm, List.map_cons, List.map_nil, Form.prototype_eq givingForm]
  rfl

def brief : Engine := ⟨.bare, 9⟩

def askingRun : Machine := (Vm.new .standard).start asking #[.boolean true]

theorem stripped_sameRun_asking :
    (Vm.new .standard).store.closures = #[] ∧ asking.Survives ∧
      askingRun.Clean brief.host brief.steps ∧
      (askingRun.run brief.host brief.steps).isFinished = true ∧
      ∃ bytes stripped, asking.encode true = .ok bytes ∧ Prototype.decode bytes = .ok stripped ∧
        SameRun brief.host brief.steps askingRun
          ((Vm.new .standard).start stripped #[.boolean true]) ∧
        ((Vm.new .standard).loadAndCall brief stripped #[.boolean true]).1 =
          ((Vm.new .standard).loadAndCall brief asking #[.boolean true]).1 ∧
        ((Vm.new .standard).loadAndCall brief stripped #[.boolean true]).2 =
          ((Vm.new .standard).loadAndCall brief asking #[.boolean true]).2.erase := by
  have blind : brief.host.Blind := Host.bare_blind
  have alone : (Vm.new .standard).store.closures = #[] := rfl
  have survives := Prototype.survives_of_decode decode_asking
  have clean : askingRun.Clean brief.host brief.steps := by
    unfold Machine.Clean
    decide
  have finished : (askingRun.run brief.host brief.steps).isFinished = true := by decide
  exact ⟨alone, survives, clean, finished, stripped_sameRun blind alone survives clean⟩

end Vm

end RegisterVm
