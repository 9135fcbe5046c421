import RegisterVm.Proofs.Metatable.Chains
import RegisterVm.Proofs.Metatable.Entering

/-!
Fields read and written through metatables. Where the chain ends decides what an access does: a
read changes no table, and a write changes one entry of one table, the one at the end. At a function
the access calls it, with the table that led there.
-/

namespace RegisterVm

def Action.store {α : Type} (x : Action α) (s : Store) : Store :=
  match x s with
  | .ok _ s' | .error _ s' => s'

theorem Keeps.store {α : Type} {inv : Store → Prop} {x : Action α} {post : α → Prop} {s : Store}
    (keeps : Keeps inv x post) (before : inv s) : inv (Action.store x s) := by
  have after := keeps s before
  simp only [Action.store]
  cases result : x s with
  | ok a s' =>
      rw [result] at after
      exact after.1
  | error e s' =>
      rw [result] at after
      exact after

theorem keeps_enterCall_tables (tables : Array Table) (t : ThreadRef) (slot arguments target : Nat)
    (wanted : Option Nat) :
    Keeps (fun s => s.tables = tables) (enterCall t slot arguments target wanted) Any := by
  refine .bind .lookThread fun _ _ => .ite .overflowError ?_
  refine .bind .lookThread fun callee _ => ?_
  cases callee with
  | closure ref =>
      refine .bind .look fun _ _ => .any_bind (.reserve fun _ same => same) fun _ => ?_
      exact .any_bind (.modifyThread fun _ same => same) fun _ => .pure_any
  | native ref =>
      refine .bind .look fun _ _ => .any_bind (.reserve fun _ same => same) fun _ => ?_
      exact .any_bind (.modifyThread fun _ same => same) fun _ => .pure_any
  | _ => exact .typeError

namespace Context

variable {x : Context} {s : Store}

theorem keeps_enterHandler_tables (tables : Array Table) (x : Context) (handler : Value)
    (values : List Value) (target : Option Nat) :
    Keeps (fun s => s.tables = tables) (x.enterHandler handler values target) Any := by
  refine .bind .lookThread fun _ _ => .any_bind (.reserve fun _ same => same) fun _ => ?_
  refine .any_bind (.modifyThread fun _ same => same) fun _ => ?_
  cases target with
  | some target => exact .any_bind (keeps_enterCall_tables tables _ _ _ _ _) fun _ => .pure_any
  | none => exact .any_bind (keeps_enterCall_tables tables _ _ _ _ _) fun _ => .pure_any

def ReadsAt (x : Context) (s : Store) (key : Value) (register : Nat) (a : Access TableRef)
    (read : Action Flow) : Prop :=
  (Action.store read s).tables = s.tables ∧
  match a with
  | .done ref => read s = .ok (.next x.pc) (s.modifyThread x.thread fun th =>
      th.put (x.slot register) ((s.table ref).get key))
  | .call handler receiver =>
    x.CallsHandler s handler [receiver, key] (some (x.slot register)) read
  | .fail message => read s = .error (.type (s.place x.thread 0 ++ message)) s

def WritesAt (x : Context) (s : Store) (key value : Value) (a : Access TableRef)
    (write : Action Flow) : Prop :=
  match a with
  | .done ref =>
    match Table.keyError? key with
    | none => ∃ s', write s = .ok (.next x.pc) s' ∧ s.OneEntry ref key value s'
    | some e => write s = .error (.type (s.place x.thread 0 ++ e.message)) s
  | .call handler receiver =>
    x.CallsHandler s handler [receiver, key, value] none write ∧
      (Action.store write s).tables = s.tables
  | .fail message => write s = .error (.type (s.place x.thread 0 ++ message)) s

theorem getField_eq_follow (x : Context) (s : Store) (object key : Value) (register : Nat) :
    x.getField object key register s =
      match s.follow "__index" key maxChain object with
      | .done ref => x.setRegister register ((s.table ref).get key) s
      | .call handler receiver =>
        x.enterHandler handler [receiver, key] (some (x.slot register)) s
      | .fail message => typeError x.thread message s := by
  have walk := (s.readField_eq_readChain object key).trans
    (s.readChain_eq_follow key maxChain object)
  generalize s.follow "__index" key maxChain object = a at walk ⊢
  cases a <;> simp only [getField, Bind.bind, EStateM.bind, look, walk, Store.readEnd]

theorem setField_eq_follow (x : Context) (s : Store) (object key value : Value) :
    x.setField object key value s =
      match s.follow "__newindex" key maxChain object with
      | .done ref =>
        match Table.keyError? key with
        | some e => typeError x.thread e.message s
        | none => .ok (.next x.pc) (s.setRaw ref key value)
      | .call handler receiver => x.enterHandler handler [receiver, key, value] none s
      | .fail message => typeError x.thread message s := by
  have walk := (s.fieldOwner_eq_writeChain object key).trans
    (s.writeChain_eq_follow key maxChain object)
  generalize s.follow "__newindex" key maxChain object = a at walk ⊢
  simp only [setField, Bind.bind, EStateM.bind, look, walk]
  cases a with
  | done ref => cases Table.keyError? key <;> rfl
  | call handler receiver => rfl
  | fail message => rfl

theorem calls_of_eq {action : Action Flow} {handler : Value} {arguments : List Value}
    {target : Option Nat} (valid : x.thread < s.threads.size)
    (callable : handler.isFunction = true)
    (enters : action s = x.enterHandler handler arguments target s) :
    x.CallsHandler s handler arguments target action ∧
      (Action.store action s).tables = s.tables := by
  have calls := enterHandler_calls arguments target valid callable
  have kept := (keeps_enterHandler_tables s.tables x handler arguments target).store rfl
  rw [CallsHandler, Action.store, enters]
  exact ⟨calls, kept⟩

theorem readsAt_getField (valid : x.thread < s.threads.size) (object key : Value)
    (register : Nat) : x.ReadsAt s key register (s.follow "__index" key maxChain object)
      (x.getField object key register) := by
  have ends := s.follow_ends "__index" key maxChain object
  have reads := x.getField_eq_follow s object key register
  generalize s.follow "__index" key maxChain object = a at ends reads ⊢
  cases ends with
  | held | unhandled => exact ⟨by rw [Action.store, reads]; rfl, reads⟩
  | handled near chain absent found callable => exact (calls_of_eq valid callable reads).symm
  | stranger | endless => exact ⟨by rw [Action.store, reads]; rfl, reads⟩

theorem writesAt_setField (valid : x.thread < s.threads.size) (heap : s.Heap) {object : Value}
    (known : ∀ ref, object = .table ref → ref < s.tables.size) (key value : Value)
    (room : ∀ ref, ((s.table ref).assign key value).length < 2 ^ 53) :
    x.WritesAt s key value (s.follow "__newindex" key maxChain object)
      (x.setField object key value) := by
  have ends := s.follow_ends "__newindex" key maxChain object
  have inside : ∀ ref, s.follow "__newindex" key maxChain object = .done ref →
      ref < s.tables.size := fun ref => heap.follow known
  have writes := x.setField_eq_follow s object key value
  generalize s.follow "__newindex" key maxChain object = a at ends inside writes ⊢
  cases ends with
  | @held _ ref | @unhandled _ ref =>
      simp only [WritesAt]
      split
      · rename_i accepted
        rw [accepted] at writes
        exact ⟨_, writes, Store.oneEntry_setRaw heap (inside ref rfl) accepted (room ref)⟩
      · rename_i e refused
        rw [refused] at writes
        exact writes
  | handled near chain absent found callable => exact calls_of_eq valid callable writes
  | stranger | endless => exact writes

/-- Reading and writing a field do what the end of the chain says, and each chain has one end. -/
structure FollowsChains (x : Context) (s : Store) (object key value : Value) (register : Nat) :
    Prop where
  reads : ∃ a, (∀ b, s.ChainEnds "__index" key maxChain object b ↔ b = a) ∧
    x.ReadsAt s key register a (x.getField object key register)
  writes : ∃ a, (∀ b, s.ChainEnds "__newindex" key maxChain object b ↔ b = a) ∧
    x.WritesAt s key value a (x.setField object key value)
  readShortcut : s.readField object key = s.readChain key maxChain object
  writeShortcut : s.fieldOwner object key = s.writeChain key maxChain object

theorem fields_follow_chains (valid : x.thread < s.threads.size) (heap : s.Heap) {object : Value}
    (known : ∀ ref, object = .table ref → ref < s.tables.size) (key value : Value) (register : Nat)
    (room : ∀ ref, ((s.table ref).assign key value).length < 2 ^ 53) :
    x.FollowsChains s object key value register where
  reads := ⟨_, fun _ => Store.chainEnds_iff, readsAt_getField valid object key register⟩
  writes := ⟨_, fun _ => Store.chainEnds_iff, writesAt_setField valid heap known key value room⟩
  readShortcut := s.readField_eq_readChain object key
  writeShortcut := s.fieldOwner_eq_writeChain object key

def circularTable : Table :=
  ⟨#[], #[(.string "__index", .table 0), (.string "__newindex", .native 0)], some 0⟩

def circularStore : Store := { (Vm.new .standard).store with tables := #[circularTable] }

theorem get_circularStore {ref : TableRef} {key : Value} {target : TableRef}
    (found : (circularStore.table ref).get key = .table target) : target = 0 := by
  have entry : ∀ t : Table, t.items = #[] → t.get key = .table target →
      ∃ e ∈ t.entries, e.2 = .table target := by
    intro t bare found
    have found : t.getEntry key = .table target := by
      rwa [Table.get_entry] at found
      intro n named
      rw [bare]
      exact (Value.same_integer_of_position named).1
    simp only [Table.getEntry] at found
    split at found
    · rename_i e listed
      exact ⟨e, Array.mem_of_find?_eq_some listed, found⟩
    · contradiction
  cases ref with
  | zero =>
      obtain ⟨e, member, value⟩ := entry circularTable rfl found
      obtain rfl | rfl : e = (.string "__index", .table 0) ∨ e = (.string "__newindex", .native 0) :=
        by simpa [circularTable] using member
      · exact (Value.table.inj value).symm
      · cases value
  | succ ref =>
      obtain ⟨e, member, -⟩ := entry Table.empty rfl found
      simp [Table.empty] at member

def idleContext : Context := ⟨0, .script .nil 0 1 3, ⟨.empty, #[]⟩, 1⟩

theorem fields_follow_chains_circular :
    circularStore.Heap ∧
      idleContext.FollowsChains circularStore (.table 0) (.boolean true) .nil 0 := by
  have heap : circularStore.Heap := by
    refine ⟨fun ref => ?_, fun ref key target found => ?_⟩
    · cases ref with
      | zero =>
          have built := Table.Built.edit (.setString "__newindex" (.native 0))
            (Table.Built.edit (.setString "__index" (.table 0)) .empty (by decide +kernel))
            (by decide +kernel)
          have same : (Table.empty.edit (.setString "__index" (.table 0))).edit
              (.setString "__newindex" (.native 0)) = circularTable.withMetatable none := by
            simp [Table.edit, Table.setString, Table.assign, Table.setEntry, Table.findEntry?,
              Table.empty, Value.position?, Value.isNil, Value.same, circularTable,
              Table.withMetatable]
          rwa [same] at built
      | succ ref => exact .empty
    · rw [get_circularStore found]
      decide
  refine ⟨heap, fields_follow_chains (by decide) heap ?_ (.boolean true) .nil 0 ?_⟩
  · rintro ref ⟨⟩
    decide
  · intro ref
    have length : ((circularStore.table ref).assign (.boolean true) .nil).length =
        (circularStore.table ref).length := Table.setEntry_length _ _ _
    rw [length]
    cases ref with
    | zero => decide
    | succ ref => exact (by decide : Table.empty.length < 2 ^ 53)

end Context

end RegisterVm
