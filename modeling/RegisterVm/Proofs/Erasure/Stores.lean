import RegisterVm.Machine.Step
import RegisterVm.Proofs.Prototype.RoundTrip
import RegisterVm.Proofs.Store.Fields

/-!
Stores without debug records: every closure keeps its code, its constants and its captured
variables, and loses the source, the lines and the names. An action is blind when it does the same
with and without them; only failures read them, for the place that they show.
-/

namespace RegisterVm

namespace Prototype

abbrev erase (p : Prototype) : Prototype := p.stored true

theorem erase_eq (p : Prototype) :
    p.erase =
      { p with
        children := (p.children.toList.map erase).toArray
        captures := p.captures.map fun c => { c with name := "" }
        source := none
        lines := #[]
        locals := #[] } := p.stored_eq true

theorem code_erase (p : Prototype) : p.erase.code = p.code := by rw [erase_eq]

theorem children_erase (p : Prototype) (index : Nat) :
    p.erase.children[index]? = p.children[index]?.map erase := by
  rw [erase_eq]
  simp

theorem size_captures_erase (p : Prototype) : p.erase.captures.size = p.captures.size := by
  rw [erase_eq]
  simp

theorem mentions_eq (object : Value) (p : Prototype) :
    p.mentions object = (p.constants.any (fun k => k.value.same object) ||
      p.children.toList.any (mentions object)) := by
  have any : ∀ ps, mentionsAny object ps = ps.any (mentions object) := by
    intro ps
    induction ps with
    | nil => rfl
    | cons p rest ih => rw [mentionsAny, ih, List.any_cons]
  obtain ⟨code, constants, ⟨children⟩, captures, parameters, isVararg, window, source, lines,
    locals, firstLine, lastLine⟩ := p
  rw [mentions, any]

theorem mentions_erase (object : Value) (p : Prototype) :
    p.erase.mentions object = p.mentions object := by
  induction p using nested_induction with
  | step p ih =>
      have children : (p.children.toList.map erase).any (mentions object) =
          p.children.toList.any (mentions object) := by
        rw [List.any_map, Bool.eq_iff_iff, List.any_eq_true, List.any_eq_true]
        refine exists_congr fun child => and_congr_right fun member => ?_
        rw [Function.comp_apply, ih child (Array.mem_toList_iff.1 member)]
      rw [mentions_eq, mentions_eq object p, ← children, erase_eq]

end Prototype

def Closure.erase (c : Closure) : Closure := { c with prototype := c.prototype.erase }

namespace Store

def erase (s : Store) : Store := { s with closures := s.closures.map Closure.erase }

theorem closure_erase (s : Store) (ref : ClosureRef) :
    s.erase.closure ref = (s.closure ref).erase := by
  have bare : Closure.erase ⟨.empty, #[]⟩ = ⟨.empty, #[]⟩ := by
    simp [Closure.erase, Prototype.erase_eq, Prototype.empty]
  simp only [closure, erase, Array.getD_eq_getD_getElem?, Array.getElem?_map]
  cases s.closures[ref]? with
  | none => exact bare.symm
  | some c => rfl

theorem mentions_erase (s : Store) (object : Value) :
    s.erase.mentions object = s.mentions object := by
  have closures : s.erase.closures.any (fun c => Prototype.mentions object c.prototype) =
      s.closures.any fun c => Prototype.mentions object c.prototype := by
    simp only [erase, Array.any_map, Function.comp_def, Closure.erase, Prototype.mentions_erase]
  simp only [mentions, closures]
  rfl

theorem population_erase (s : Store) (v : Value) : s.erase.population v = s.population v := by
  cases v <;> simp [population, erase]

theorem address_erase (s : Store) (v : Value) : s.erase.address v = s.address v := by
  have mentions : s.erase.mentions = s.mentions := funext s.mentions_erase
  simp only [address, mentions]
  rfl

theorem showAddress_erase (s : Store) (v : Value) :
    s.erase.showAddress v = ((s.showAddress v).1, (s.showAddress v).2.erase) := by
  simp only [showAddress, address_erase, population_erase]
  split <;> rfl

theorem readField_erase (s : Store) (object key : Value) :
    s.erase.readField object key = s.readField object key :=
  readField_congr (show s.erase.tables = s.tables from rfl) object key

theorem fieldOwner_erase (s : Store) (object key : Value) :
    s.erase.fieldOwner object key = s.fieldOwner object key :=
  fieldOwner_congr (show s.erase.tables = s.tables from rfl) object key

theorem writeCell_erase (s : Store) (ref : CellRef) (value : Value) :
    s.erase.writeCell ref value = (s.writeCell ref value).erase := by
  simp only [writeCell, show s.erase.cells = s.cells from rfl]
  cases s.cells[ref]? with
  | none => rfl
  | some cell => cases cell <;> rfl

theorem closeCells_erase (s : Store) (t : ThreadRef) (level : Nat) :
    s.erase.closeCells t level = (s.closeCells t level).erase := by
  have closes : ∀ (closing : List (Nat × CellRef)) (s : Store) (th : Thread),
      closing.foldl (fun s e => s.closeCell e.2 (th.get e.1)) s.erase =
        (closing.foldl (fun s e => s.closeCell e.2 (th.get e.1)) s).erase := by
    intro closing
    induction closing with
    | nil => exact fun _ _ => rfl
    | cons e rest ih => exact fun s th => ih (s.closeCell e.2 (th.get e.1)) th
  simp only [closeCells, show s.erase.thread t = s.thread t from rfl, closes]
  split <;> rfl

theorem captureSlot_erase (s : Store) (t : ThreadRef) (index : Nat) :
    s.erase.captureSlot t index = ((s.captureSlot t index).1, (s.captureSlot t index).2.erase) := by
  simp only [captureSlot, show s.erase.thread t = s.thread t from rfl]
  cases (s.thread t).cellAt? index <;> rfl

theorem newClosure_erase (s : Store) (c : Closure) :
    s.erase.newClosure c.erase = ((s.newClosure c).1, (s.newClosure c).2.erase) := by
  simp [newClosure, erase]

end Store

/-- Where `a` succeeds on a store, `b` does the same on the store without debug records. -/
def Imitated {α : Type} (a b : Action α) : Prop :=
  ∀ s x s', a s = .ok x s' → b s.erase = .ok x s'.erase

namespace Imitated

variable {α β : Type}

theorem bind {a b : Action α} {k l : α → Action β} (first : Imitated a b)
    (rest : ∀ x, Imitated (k x) (l x)) : Imitated (a >>= k) (b >>= l) := by
  intro s y s' ok
  simp only [Bind.bind, EStateM.bind] at ok ⊢
  cases acts : a s with
  | ok x s₁ =>
      rw [acts] at ok
      rw [first s x s₁ acts]
      exact rest x s₁ y s' ok
  | error e s₁ =>
      rw [acts] at ok
      cases ok

theorem modifyGet {f g : Store → α × Store} (same : ∀ s, g s.erase = ((f s).1, (f s).2.erase)) :
    Imitated (modifyGet f : Action α) (modifyGet g) := by
  rintro s _ _ ⟨⟩
  change EStateM.Result.ok (g s.erase).1 (g s.erase).2 = _
  rw [same]

end Imitated

/-- Without debug records the action does the same, unless it fails. -/
def Blind {α : Type} (a : Action α) : Prop := Imitated a a

namespace Blind

variable {α β : Type} {t : ThreadRef}

theorem pure {x : α} : Blind (Pure.pure x : Action α) := by
  rintro s _ _ ⟨⟩
  rfl

theorem bind {a : Action α} {k : α → Action β} (first : Blind a) (rest : ∀ x, Blind (k x)) :
    Blind (a >>= k) := Imitated.bind first rest

theorem look_throw {f : Store → α} {e : α → Error} :
    Blind (look f >>= fun x => (throw (e x) : Action β)) := nofun

theorem look {f : Store → α} (same : ∀ s, f s.erase = f s) : Blind (look f) := by
  rintro s _ _ ⟨⟩
  exact congrArg (fun x => EStateM.Result.ok x s.erase) (same s)

theorem lookThread {f : Thread → α} : Blind (lookThread t f) := look fun _ => rfl

theorem getSlot {index : Nat} : Blind (getSlot t index) := lookThread

theorem modify_bind {f : Store → Store} {k : Unit → Action β} (rest : Blind (k ()))
    (same : ∀ s, f s.erase = (f s).erase) : Blind ((modify f : Action Unit) >>= k) := by
  intro s y s' ok
  change k () (f s.erase) = _
  rw [same]
  exact rest (f s) y s' ok

theorem modify {f : Store → Store} (same : ∀ s, f s.erase = (f s).erase) :
    Blind (modify f : Action Unit) := by
  rintro s _ _ ⟨⟩
  exact congrArg (EStateM.Result.ok ()) (same s)

theorem modifyThread {f : Thread → Thread} : Blind (modifyThread t f) := modify fun _ => rfl

theorem modifyGet {f : Store → α × Store} (same : ∀ s, f s.erase = ((f s).1, (f s).2.erase)) :
    Blind (modifyGet f : Action α) := Imitated.modifyGet same

theorem ite {c : Prop} [Decidable c] {a b : Action α} (left : Blind a) (right : Blind b) :
    Blind (if c then a else b) := by
  split
  · exact left
  · exact right

theorem throw {e : Error} : Blind (throw e : Action α) := nofun

theorem typeError {message : String} : Blind (typeError t message : Action α) := nofun

theorem overflowError : Blind (overflowError t : Action α) := nofun

theorem raiseText {message : String} : Blind (raiseText t message : Action α) := nofun

theorem argumentError {message : String} : Blind (argumentError t message : Action α) := nofun

theorem invalid {message : String} : Blind (invalid message : Action α) := nofun

theorem reserve {needed : Nat} : Blind (reserve t needed) :=
  lookThread.bind fun _ => modifyThread.ite overflowError

theorem closeCells {level : Nat} : Blind (closeCells t level) :=
  modify fun s => s.closeCells_erase t level

theorem look_bind {f : Store → α} {k : α → Action β} (same : ∀ s, k (f s.erase) = k (f s))
    (rest : ∀ x, Blind (k x)) : Blind (RegisterVm.look f >>= k) := by
  intro s y s' ok
  change k (f s.erase) s.erase = _
  rw [same]
  exact rest (f s) s y s' ok

theorem enterCall {slot arguments target : Nat} {wanted : Option Nat} :
    Blind (enterCall t slot arguments target wanted) := by
  refine lookThread.bind fun deep => overflowError.ite (getSlot.bind fun callee => ?_)
  cases callee with
  | closure ref =>
      refine look_bind (fun s => ?_) fun p => reserve.bind fun _ => modifyThread.bind fun _ => pure
      rw [Store.closure_erase, Closure.erase, Prototype.erase_eq]
      rfl
  | native ref =>
      exact (look fun _ => rfl).bind fun body => reserve.bind fun _ =>
        modifyThread.bind fun _ => pure
  | _ => exact typeError

end Blind

end RegisterVm
