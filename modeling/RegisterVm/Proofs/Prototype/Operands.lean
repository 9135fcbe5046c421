import Mathlib.Logic.Relation
import RegisterVm.Machine.Execute
import RegisterVm.Proofs.Prototype.Building
import RegisterVm.Proofs.Table.Keys

/-!
Constants as operands. A field has nine bits for an operand, one of which tells constants from
registers, so that eight are left for the index. Of the constants of a pool the first 256 are read
as they were given, whatever is added before and after them; each later one is read as another
constant.
-/

namespace RegisterVm

open Relation

namespace Instruction

def Leaves (operand field : Nat) : Prop :=
  ∃ op a other, field = (abc op a operand other).b ∨ field = (abc op a other operand).c

theorem Leaves.eq {operand field : Nat} (leaves : Leaves operand field) :
    field = operand % 512 := by
  obtain ⟨op, a, other, rfl | rfl⟩ := leaves
  · exact b_abc op a operand other
  · exact c_abc op a other operand

theorem constantOperand_mod (index : Nat) :
    constantOperand index % 512 = 256 + index % 256 := by
  have low : index % 256 < 2 ^ 8 := Nat.mod_lt _ (by decide)
  have flagged : 256 ||| index % 256 = 256 + index % 256 :=
    (Nat.two_pow_add_eq_or_of_lt low 1).symm
  have kept : constantOperand index % 2 ^ 9 = 256 ||| index % 2 ^ 9 := by
    rw [constantOperand, Nat.or_mod_two_pow, Nat.or_comm]
    rfl
  rw [show (512 : Nat) = 2 ^ 9 from rfl, kept, ← flagged]
  by_cases small : index % 2 ^ 9 < 256
  · rw [show index % 2 ^ 9 = index % 256 by omega]
  · rw [show index % 2 ^ 9 = 256 + index % 256 by omega, ← flagged, ← Nat.or_assoc, Nat.or_self]

theorem isConstant_add {low : Nat} (small : low < 256) : isConstant (256 + low) = true := by
  have flag : (256 + low) &&& 256 = 256 := by
    rw [show (256 : Nat) = 2 ^ 8 from rfl, Nat.and_two_pow, Nat.testBit_two_pow_add_eq,
      Nat.testBit_lt_two_pow small]
    rfl
  rw [isConstant, constantBit, flag]
  rfl

theorem Leaves.constant {index field : Nat} (leaves : Leaves (constantOperand index) field) :
    isConstant field = true ∧ operandIndex field = index % 256 := by
  have flagged := isConstant_add (Nat.mod_lt index (by decide : 0 < 256))
  rw [leaves.eq, constantOperand_mod]
  refine ⟨flagged, ?_⟩
  rw [operandIndex, if_pos flagged, constantBit, Nat.add_sub_cancel_left]

end Instruction

namespace Builder

/-- One call of a builder. -/
inductive Calls : Builder → Builder → Prop where
  | parameters (b : Builder) (n : Nat) : Calls b (b.parameters n)
  | vararg (b : Builder) : Calls b b.vararg
  | window (b : Builder) (n : Nat) : Calls b (b.window n)
  | lines (b : Builder) (first last : UInt32) : Calls b (b.lines first last)
  | atLine (b : Builder) (line : UInt32) : Calls b (b.atLine line)
  | constant (b : Builder) (k : Constant) : Calls b (b.constant k).2
  | operand (b : Builder) (k : Constant) : Calls b (b.operand k).2
  | emit (b : Builder) (i : Instruction) : Calls b (b.emit i)
  | loadConstant (b : Builder) (register : Nat) (k : Constant) : Calls b (b.loadConstant register k)
  | patchJump (b : Builder) (pc target : Nat) : Calls b (b.patchJump pc target)
  | capture (b : Builder) (c : Capture) : Calls b (b.capture c)
  | child (b : Builder) (p : Prototype) : Calls b (b.child p)
  | localRange (b : Builder) (l : LocalRange) : Calls b (b.localRange l)

def pool (b : Builder) : List Constant := b.prototype.constants.toList

/-- No two constants of a pool are equal. -/
def Shared (b : Builder) : Prop := b.pool.Pairwise fun x y => x.same y = false

variable {b b' : Builder} {k : Constant}

theorem constant_cases (b : Builder) (k : Constant) :
    (∃ index known, b.constant k = (index, b) ∧ b.pool[index]? = some known ∧
      known.same k = true) ∨
    ((b.constant k).1 = b.pool.length ∧ (b.constant k).2.pool = b.pool ++ [k] ∧
      ∀ x ∈ b.pool, x.same k = false) := by
  cases found : b.prototype.constants.findIdx? (·.same k) with
  | some index =>
      obtain ⟨bound, equal, -⟩ := Array.findIdx?_eq_some_iff_getElem.1 found
      refine .inl ⟨index, b.prototype.constants[index], ?_, ?_, equal⟩
      · simp only [constant, found]
      · simp [pool, bound]
  | none =>
      refine .inr ⟨?_, ?_, fun x member => ?_⟩
      · simp only [constant, found, pool, Array.length_toList]
      · simp only [constant, found, pool, Array.toList_push]
      · exact Array.findIdx?_eq_none_iff.1 found x ⟨member⟩

theorem pool_constant (b : Builder) (k : Constant) : b.pool <+: (b.constant k).2.pool := by
  rcases constant_cases b k with ⟨index, known, known_there, -⟩ | ⟨-, added, -⟩
  · rw [known_there]
  · rw [added]
    exact List.prefix_append _ _

theorem Shared.constant (shared : b.Shared) (k : Constant) : (b.constant k).2.Shared := by
  rcases constant_cases b k with ⟨index, known, known_there, -⟩ | ⟨-, added, absent⟩
  · rwa [known_there]
  · rw [Shared, added, List.pairwise_append]
    refine ⟨shared, List.pairwise_singleton _ _, fun x member y last => ?_⟩
    rw [List.mem_singleton.1 last]
    exact absent x member

theorem pool_loadConstant (b : Builder) (register : Nat) (k : Constant) :
    (b.loadConstant register k).pool = (b.constant k).2.pool := by
  simp only [loadConstant]
  split <;> rfl

theorem Calls.cases (calls : b.Calls b') :
    b'.pool = b.pool ∨ ∃ k, b'.pool = (b.constant k).2.pool := by
  cases calls with
  | constant k => exact .inr ⟨k, rfl⟩
  | operand k => exact .inr ⟨k, rfl⟩
  | loadConstant register k => exact .inr ⟨k, pool_loadConstant b register k⟩
  | _ => exact .inl rfl

/-- What a builder may come to by any calls. -/
abbrev Follows : Builder → Builder → Prop := ReflTransGen Calls

theorem Follows.pool (follows : b.Follows b') : b.pool <+: b'.pool := by
  induction follows with
  | refl => exact List.prefix_refl _
  | tail _ calls ih =>
      refine ih.trans ?_
      rcases calls.cases with same | ⟨k, added⟩
      · rw [same]
      · rw [added]
        exact pool_constant _ k

theorem Follows.shared (follows : b.Follows b') (shared : b.Shared) : b'.Shared := by
  induction follows with
  | refl => exact shared
  | tail _ calls ih =>
      rcases calls.cases with same | ⟨k, added⟩
      · rwa [Shared, same]
      · rw [Shared, added]
        exact ih.constant k

theorem shared_new (source : String) : (new source).Shared := List.Pairwise.nil

theorem pool_build (b : Builder) : b.build.constants.toList = b.pool := by
  simp only [build]
  split <;> split <;> rfl

end Builder

def Constant.Denotes (k : Constant) (v : Value) : Prop :=
  v.same k.value = true ∨ v = .number .nan ∧ k.value = .number .nan

theorem Constant.denotes_self (k : Constant) : k.Denotes k.value := by
  by_cases nan : k.value = .number .nan
  · exact .inr ⟨nan, nan⟩
  · refine .inl ?_
    cases value : k.value with
    | number n =>
        rw [value] at nan
        exact Float.beq_self_iff.2 fun same => nan (by rw [same])
    | _ => simp [Value.same]

namespace Builder

variable {b b' : Builder} {k : Constant}

theorem constant_known (b : Builder) (k : Constant) :
    ∃ known, (b.constant k).2.pool[(b.constant k).1]? = some known ∧
      (known = k ∨ known.same k = true) := by
  rcases constant_cases b k with ⟨index, known, there, found, equal⟩ | ⟨last, added, -⟩
  · rw [there]
    exact ⟨known, found, .inr equal⟩
  · refine ⟨k, ?_, .inl rfl⟩
    rw [added, last]
    simp

theorem Shared.constant_apart (shared : b.Shared) {place : Nat} {other : Constant}
    (found : (b.constant k).2.pool[place]? = some other) (before : place < (b.constant k).1) :
    other.same k = false := by
  obtain ⟨known, there, equal⟩ := constant_known b k
  obtain ⟨first, rfl⟩ := List.getElem?_eq_some_iff.1 found
  obtain ⟨second, rfl⟩ := List.getElem?_eq_some_iff.1 there
  have apart := List.pairwise_iff_getElem.1 (shared.constant k) _ _ first second before
  rcases equal with same | same
  · rwa [same] at apart
  · rwa [Constant.same, Value.same_symm, ← Value.same_congr _ same, Value.same_symm]

end Builder

namespace Prototype

theorem constant_built {b : Builder} {place : Nat} {k : Constant}
    (found : b.pool[place]? = some k) : b.build.constant place = k.value := by
  rw [constant, ← Array.getElem?_toList, Builder.pool_build, found]

end Prototype

namespace Builder

variable {b b' : Builder} {k : Constant}

/-- What code that a builder has built reads through an operand made of a constant, whatever calls
came before the operand was made and after. The operand keeps the low eight bits of the index that
the constant has in the pool. So it reads a value equal to the constant if the index is below 256,
and another constant if it is not. -/
theorem operand_reads {source : String} (before : (new source).Follows b)
    (later : (b.operand k).2.Follows b') {x : Context} (runs : x.prototype = b'.build) {field : Nat}
    (leaves : Instruction.Leaves (b.operand k).1 field) (s : Store) :
    ∃ v, x.operand field s = .ok v s ∧ v = b'.build.constant ((b.constant k).1 % 256) ∧
      ((b.constant k).1 < 256 → k.Denotes v) ∧
      (256 ≤ (b.constant k).1 → v.same k.value = false) := by
  obtain ⟨known, there, equal⟩ := constant_known b k
  have kept : (b.constant k).2.pool <+: b'.pool := later.pool
  have inside := (List.getElem?_eq_some_iff.1 there).1
  have made : Instruction.Leaves (Instruction.constantOperand (b.constant k).1) field := leaves
  obtain ⟨flagged, index⟩ := made.constant
  obtain ⟨place, bound⟩ : ∃ place, place = (b.constant k).1 % 256 := ⟨_, rfl⟩
  have low : place < (b.constant k).2.pool.length := by omega
  obtain ⟨other, found⟩ : ∃ other, (b.constant k).2.pool[place]? = some other :=
    ⟨_, List.getElem?_eq_getElem low⟩
  have read : b'.build.constant place = other.value := by
    apply Prototype.constant_built
    rw [List.prefix_iff_getElem?.1 kept place low, ← List.getElem?_eq_getElem low, found]
  refine ⟨other.value, ?_, ?_, fun small => ?_, fun large => ?_⟩
  · rw [Context.operand, if_pos flagged, index, ← bound, runs, read]
    rfl
  · rw [← bound, read]
  · rw [Nat.mod_eq_of_lt small] at bound
    rw [bound, there, Option.some.injEq] at found
    subst found
    rcases equal with rfl | same
    · exact known.denotes_self
    · exact .inl same
  · exact (before.shared (shared_new source)).constant_apart found (by omega)

def tables (count : Nat) : Builder :=
  (List.range count).foldl (fun b ref => (b.constant (.table ref)).2) (new "=main")

theorem tables_succ (count : Nat) :
    tables (count + 1) = ((tables count).constant (.table count)).2 := by
  rw [tables, List.range_succ, List.foldl_append]
  rfl

theorem follows_tables (count : Nat) : (new "=main").Follows (tables count) := by
  induction count with
  | zero => exact .refl
  | succ count ih =>
      rw [tables_succ]
      exact ih.tail (.constant _ _)

theorem constant_tables (count : Nat) :
    ((tables count).constant (.table count)).1 = count ∧
      (tables count).pool = (List.range count).map .table := by
  have apart {refs : Nat} {x : Constant} (member : x ∈ (List.range refs).map .table) :
      x.same (.table refs) = false := by
    obtain ⟨ref, inside, rfl⟩ := List.mem_map.1 member
    simp only [Constant.same, Constant.value, Value.same, beq_eq_false_iff_ne]
    exact Nat.ne_of_lt (List.mem_range.1 inside)
  have pool : (tables count).pool = (List.range count).map .table := by
    induction count with
    | zero => rfl
    | succ count ih =>
        rcases constant_cases (tables count) (.table count) with ⟨_, known, -, found, equal⟩ |
          ⟨-, added, -⟩
        · rw [ih] at found
          rw [apart (List.mem_of_getElem? found)] at equal
          contradiction
        · rw [tables_succ, added, ih, List.range_succ, List.map_append]
          rfl
  refine ⟨?_, pool⟩
  rcases constant_cases (tables count) (.table count) with ⟨_, known, -, found, equal⟩ |
    ⟨last, -, -⟩
  · rw [pool] at found
    rw [apart (List.mem_of_getElem? found)] at equal
    contradiction
  · rw [last, pool, List.length_map, List.length_range]

/-- The last of 257 constants is read as the first. -/
theorem operand_reads_crowded : ∃ (b : Builder) (x : Context), (new "=main").Follows b ∧
    x.prototype = (b.operand (.table 256)).2.build ∧
      Instruction.Leaves (b.operand (.table 256)).1 256 ∧
        x.operand 256 .empty = .ok (.table 0) .empty := by
  obtain ⟨b, follows, index, pool⟩ : ∃ b, (new "=main").Follows b ∧
      (b.constant (.table 256)).1 = 256 ∧ b.pool = (List.range 256).map .table :=
    ⟨tables 256, follows_tables 256, constant_tables 256⟩
  have leaves : Instruction.Leaves (b.operand (.table 256)).1 256 := by
    have made : (b.operand (.table 256)).1 = Instruction.constantOperand 256 :=
      congrArg Instruction.constantOperand index
    rw [made]
    exact ⟨.add, 0, 0, .inl (by decide)⟩
  have first : (b.operand (.table 256)).2.pool[0]? = some (.table 0) := by
    obtain ⟨rest, longer⟩ := pool_constant b (.table 256)
    have same : (b.operand (.table 256)).2.pool = b.pool ++ rest := longer.symm
    rw [same, pool]
    rfl
  let x : Context := ⟨0, default, ⟨(b.operand (.table 256)).2.build, #[]⟩, 0⟩
  obtain ⟨v, reads, same, -⟩ := operand_reads follows .refl (x := x) rfl leaves .empty
  refine ⟨b, x, follows, rfl, leaves, ?_⟩
  rw [reads, same, index, Prototype.constant_built first]
  rfl

end Builder

end RegisterVm
