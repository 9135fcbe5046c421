import RegisterVm.Machine.Execute
import RegisterVm.Proofs.Machine.Keeps
import RegisterVm.Proofs.Table.FiniteMap

/-!
Chains of metatables. The chain of an event leads from a table that lacks a key to what its
metatable names, and on from there; its end says which table an access is about, or which handler.
-/

namespace RegisterVm

namespace Store

/-- `last` stands `hops` links behind an object. Every table before it lacks the key and hands the
access on to something that is no function. -/
inductive Chain (s : Store) (event : String) (key : Value) : Nat → Value → Value → Prop where
  | start (object : Value) : Chain s event key 0 object object
  | link {ref : TableRef} {next last : Value} {hops : Nat} (absent : (s.table ref).get key = .nil)
      (handler : s.handler? (.table ref) event = some next) (passes : next.isFunction = false)
      (rest : Chain s event key hops next last) : Chain s event key (hops + 1) (.table ref) last

def chainFailure (event : String) : String := "'" ++ event ++ "' chain too long; possible loop"

/-- How a chain ends within `limit` links: at the first table that holds the key, that has no
handler or whose handler is a function, at a value that is no table, or not at all. -/
inductive ChainEnds (s : Store) (event : String) (key : Value) (limit : Nat) (object : Value) :
    Access TableRef → Prop where
  | held {hops : Nat} {ref : TableRef} (near : hops < limit)
      (chain : s.Chain event key hops object (.table ref))
      (present : (s.table ref).get key ≠ .nil) : ChainEnds s event key limit object (.done ref)
  | unhandled {hops : Nat} {ref : TableRef} (near : hops < limit)
      (chain : s.Chain event key hops object (.table ref))
      (absent : (s.table ref).get key = .nil) (bare : s.handler? (.table ref) event = none) :
      ChainEnds s event key limit object (.done ref)
  | handled {hops : Nat} {ref : TableRef} {handler : Value} (near : hops < limit)
      (chain : s.Chain event key hops object (.table ref))
      (absent : (s.table ref).get key = .nil)
      (found : s.handler? (.table ref) event = some handler)
      (callable : handler.isFunction = true) :
      ChainEnds s event key limit object (.call handler (.table ref))
  | stranger {hops : Nat} {last : Value} (near : hops < limit)
      (chain : s.Chain event key hops object last) (other : last.isTable = false) :
      ChainEnds s event key limit object (.fail (indexFailure last))
  | endless {last : Value} (chain : s.Chain event key limit object last) :
      ChainEnds s event key limit object (.fail (chainFailure event))

def follow (s : Store) (event : String) (key : Value) : Nat → Value → Access TableRef
  | 0, _ => .fail (chainFailure event)
  | limit + 1, .table ref =>
    if ((s.table ref).get key).isNil then
      match s.handler? (.table ref) event with
      | none => .done ref
      | some handler =>
        if handler.isFunction then .call handler (.table ref) else follow s event key limit handler
    else .done ref
  | _ + 1, other => .fail (indexFailure other)

section Follow

variable {s : Store} {event : String} {key object last : Value} {ref : TableRef} {hops : Nat}

theorem isNil_iff (v : Value) : v.isNil = true ↔ v = .nil := by
  cases v <;> simp [Value.isNil]

theorem follow_stranger (other : last.isTable = false) (limit : Nat) :
    s.follow event key (limit + 1) last = .fail (indexFailure last) := by
  cases last with
  | table ref => simp [Value.isTable] at other
  | _ => rfl

theorem Chain.follow (chain : s.Chain event key hops object last) (limit : Nat) :
    s.follow event key (hops + limit) object = s.follow event key limit last := by
  induction chain with
  | start object => rw [Nat.zero_add]
  | link absent handler passes rest ih =>
      rw [Nat.add_right_comm, Store.follow, absent, handler, ← ih]
      simp [Value.isNil, passes]

theorem follow_ends (s : Store) (event : String) (key : Value) (limit : Nat) (object : Value) :
    s.ChainEnds event key limit object (s.follow event key limit object) := by
  induction limit generalizing object with
  | zero => exact .endless (.start object)
  | succ limit ih =>
      by_cases other : object.isTable = false
      · rw [follow_stranger other]
        exact .stranger (Nat.succ_pos _) (.start object) other
      obtain ⟨ref, rfl⟩ : ∃ ref, object = .table ref := by
        cases object with
        | table ref => exact ⟨ref, rfl⟩
        | _ => simp [Value.isTable] at other
      rw [Store.follow]
      split
      · rename_i missing
        have absent := (isNil_iff _).1 missing
        split
        · rename_i bare
          exact .unhandled (Nat.succ_pos _) (.start _) absent bare
        · rename_i handler found
          split
          · rename_i callable
            exact .handled (Nat.succ_pos _) (.start _) absent found callable
          · rename_i passes
            have passes : handler.isFunction = false := by simpa using passes
            -- The chain from the handler on is one link shorter.
            have ends := ih handler
            generalize s.follow event key limit handler = outcome at ends
            cases ends with
            | held near chain present =>
                exact .held (Nat.succ_lt_succ near) (.link absent found passes chain) present
            | unhandled near chain absent' bare =>
                exact .unhandled (Nat.succ_lt_succ near) (.link absent found passes chain) absent'
                  bare
            | handled near chain absent' found' callable =>
                exact .handled (Nat.succ_lt_succ near) (.link absent found passes chain) absent'
                  found' callable
            | stranger near chain other =>
                exact .stranger (Nat.succ_lt_succ near) (.link absent found passes chain) other
            | endless chain => exact .endless (.link absent found passes chain)
      · rename_i present
        exact .held (Nat.succ_pos _) (.start _) fun absent => present ((isNil_iff _).2 absent)

/-- A chain ends in one way. -/
theorem chainEnds_iff {limit : Nat} {a : Access TableRef} :
    s.ChainEnds event key limit object a ↔ a = s.follow event key limit object := by
  constructor
  · intro ends
    have rest : ∀ {hops last}, hops < limit → s.Chain event key hops object last →
        s.follow event key limit object = s.follow event key (limit - hops - 1 + 1) last := by
      intro hops last near chain
      rw [← chain.follow]
      congr 1
      omega
    cases ends with
    | held near chain present =>
        have present := mt (isNil_iff _).1 present
        rw [rest near chain, Store.follow, if_neg present]
    | unhandled near chain absent bare =>
        rw [rest near chain, Store.follow, if_pos ((isNil_iff _).2 absent), bare]
    | handled near chain absent found callable =>
        rw [rest near chain, Store.follow, if_pos ((isNil_iff _).2 absent), found]
        simp only [callable, if_true]
    | stranger near chain other => rw [rest near chain, follow_stranger other]
    | endless chain => rw [← Nat.add_zero limit, chain.follow, Store.follow]
  · rintro rfl
    exact follow_ends s event key limit object

end Follow

def readEnd (s : Store) (key : Value) : Access TableRef → Access Value
  | .done ref => .done ((s.table ref).get key)
  | .call handler receiver => .call handler receiver
  | .fail message => .fail message

theorem writeChain_eq_follow (s : Store) (key : Value) (limit : Nat) (object : Value) :
    s.writeChain key limit object = s.follow "__newindex" key limit object := by
  induction limit generalizing object with
  | zero => rfl
  | succ limit ih =>
      cases object with
      | table ref =>
          simp only [writeChain, follow, Table.contains]
          by_cases missing : ((s.table ref).get key).isNil = true
          · simp only [missing, Bool.not_true, Bool.false_eq_true, if_false, if_true]
            cases s.handler? (.table ref) "__newindex" with
            | none => rfl
            | some handler => simp only [ih]
          · simp [missing]
      | _ => rfl

theorem readChain_eq_follow (s : Store) (key : Value) (limit : Nat) (object : Value) :
    s.readChain key limit object = s.readEnd key (s.follow "__index" key limit object) := by
  induction limit generalizing object with
  | zero => rfl
  | succ limit ih =>
      cases object with
      | table ref =>
          simp only [readChain, follow]
          by_cases missing : ((s.table ref).get key).isNil = true
          · have absent := (isNil_iff _).1 missing
            simp only [missing, Bool.not_true, Bool.false_eq_true, if_false, if_true]
            cases s.handler? (.table ref) "__index" with
            | none => simp only [readEnd, absent]
            | some handler =>
                by_cases callable : handler.isFunction = true
                · simp [callable, readEnd]
                · simp [callable, ih]
          · simp [missing, readEnd]
      | _ => rfl

theorem handler_of_plain {s : Store} {ref : TableRef} (event : String)
    (plain : (s.table ref).metatable.isNone = true) : s.handler? (.table ref) event = none := by
  simp only [handler?, metatable?, Option.isNone_iff_eq_none.1 plain]

/-- The shortcut of a read agrees with the walk. -/
theorem readField_eq_readChain (s : Store) (object key : Value) :
    s.readField object key = s.readChain key maxChain object := by
  cases object with
  | table ref =>
      simp only [readField]
      split
      · rename_i short
        rw [show maxChain = 1999 + 1 from rfl, readChain]
        by_cases missing : ((s.table ref).get key).isNil = true
        · have plain : (s.table ref).metatable.isNone = true := by simpa [missing] using short
          simp [handler_of_plain "__index" plain, (isNil_iff _).1 missing]
        · simp [missing]
      · rfl
  | _ => rfl

/-- The shortcut of a write agrees with the walk. -/
theorem fieldOwner_eq_writeChain (s : Store) (object key : Value) :
    s.fieldOwner object key = s.writeChain key maxChain object := by
  cases object with
  | table ref =>
      simp only [fieldOwner]
      split
      · rename_i plain
        rw [show maxChain = 1999 + 1 from rfl, writeChain]
        simp [handler_of_plain "__newindex" plain]
      · rfl
  | _ => rfl

structure Heap (s : Store) : Prop where
  built : ∀ ref, Table.Built ((s.table ref).withMetatable none)
  inhabited : ∀ ref key target, (s.table ref).get key = .table target → target < s.tables.size

theorem Heap.chain {s : Store} {event : String} {key object last : Value} {hops : Nat}
    (heap : s.Heap) (chain : s.Chain event key hops object last)
    (valid : ∀ ref, object = .table ref → ref < s.tables.size) :
    ∀ ref, last = .table ref → ref < s.tables.size := by
  induction chain with
  | start object => exact valid
  | @link source next last hops absent handler passes rest ih =>
      refine ih fun ref isTable => ?_
      simp only [handler?] at handler
      split at handler
      · rename_i events _
        split at handler
        · contradiction
        · refine heap.inhabited events (.string event) ref ?_
          rw [← isTable]
          exact Option.some.inj handler
      · contradiction

theorem Heap.follow {s : Store} {event : String} {key object : Value} {limit : Nat}
    {ref : TableRef} (heap : s.Heap) (valid : ∀ ref, object = .table ref → ref < s.tables.size)
    (ends : s.follow event key limit object = .done ref) : ref < s.tables.size := by
  cases chainEnds_iff.2 ends.symm with
  | held near chain present => exact heap.chain chain valid ref rfl
  | unhandled near chain absent bare => exact heap.chain chain valid ref rfl

/-- The store has changed in one entry of one table. -/
structure OneEntry (s : Store) (ref : TableRef) (key value : Value) (s' : Store) : Prop where
  exists' : ref < s.tables.size
  size : s'.tables.size = s.tables.size
  others : ∀ other, other ≠ ref → s'.table other = s.table other
  metatable : (s'.table ref).metatable = (s.table ref).metatable
  entry : ∀ k, (s'.table ref).get k = if k.same key then value else (s.table ref).get k
  rest : s' = { s with tables := s'.tables }

end Store

theorem Table.metatable_assign (t : Table) (key value : Value) :
    (t.assign key value).metatable = t.metatable := by
  rcases t.assign_cases key value with ⟨n, -, -, equal⟩ | ⟨-, -, equal⟩ | ⟨-, equal⟩ | ⟨-, equal⟩
  · rw [equal]
  · rw [equal]
  · rw [equal]
    rfl
  · rw [equal, setEntry]
    split
    · rfl
    · split <;> rfl

theorem Store.oneEntry_setRaw {s : Store} {ref : TableRef} {key value : Value} (heap : s.Heap)
    (exists' : ref < s.tables.size) (accepted : Table.keyError? key = none)
    (room : ((s.table ref).assign key value).length < 2 ^ 53) :
    s.OneEntry ref key value (s.setRaw ref key value) := by
  have table : (s.setRaw ref key value).table ref = (s.table ref).assign key value := by
    simp [Store.table, setRaw, modifyTable, Array.getD_eq_getD_getElem?, Array.getElem_modify,
      exists']
  refine ⟨exists', by simp [setRaw, modifyTable], ?_, ?_, ?_, rfl⟩
  · intro other different
    simp [Store.table, setRaw, modifyTable, Array.getD_eq_getD_getElem?, Array.getElem?_modify,
      different.symm]
  · rw [table, Table.metatable_assign]
  · rw [table]
    have sound : (s.table ref).Sound := (heap.built ref).sound.2
    exact (Table.assign_correct value sound accepted room).2

end RegisterVm
