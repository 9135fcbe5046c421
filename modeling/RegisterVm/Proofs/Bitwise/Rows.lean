import RegisterVm.Proofs.Bitwise.Words
import RegisterVm.Proofs.Host.Runs
import RegisterVm.Proofs.Machine.Standing

/-!
Bit operations as instructions. Each one puts the double of the 64-bit result into its register. A
row of them, as an expression of any depth is made of, computes in 64 bits as long as doubles hold
the results.
-/

namespace RegisterVm

open Number

def Prototype.operandInteger? (p : Prototype) (reads : Nat → Option Int) (operand : Nat) :
    Option Int :=
  if Instruction.isConstant operand then
    (p.constant (Instruction.operandIndex operand)).toInteger?
  else reads operand

def Prototype.bitResult? (p : Prototype) (reads : Nat → Option Int) (i : Instruction) :
    Option Int :=
  match i.opcode? with
  | some .bitNot => (reads i.b).map fun x => bitResult .bitNot x x
  | some op =>
    if isBitwise op then
      match p.operandInteger? reads i.b, p.operandInteger? reads i.c with
      | some x, some y => some (bitResult op x y)
      | _, _ => none
    else none
  | none => none

/-- A row of bit operations computes these results in 64 bits, one after the other, and leaves the
registers standing for the integers that it puts there. -/
inductive Computes (p : Prototype) :
    (Nat → Option Int) → List Instruction → List Int → (Nat → Option Int) → Prop where
  | nil (reads : Nat → Option Int) : Computes p reads [] [] reads
  | cons {reads reads' : Nat → Option Int} {i : Instruction} {row : List Instruction} {r : Int}
      {results : List Int} (result : p.bitResult? reads i = some r)
      (rest : Computes p (Function.update reads i.a (some r)) row results reads') :
      Computes p reads (i :: row) (r :: results) reads'

theorem binary?_bits {op : Opcode} {left right : Value} {x y : Int} (bits : isBitwise op = true)
    (first : left.toInteger? = some x) (second : right.toInteger? = some y) :
    binary? op left right = some (.integer (bitResult op x y)) := by
  rw [binary?, if_pos bits, first, second]
  exact bitwise?_eq bits x y

theorem unary?_bits {v : Value} {x : Int} (read : v.toInteger? = some x) :
    unary? .bitNot v = some (.integer (bitResult .bitNot x x)) := by
  simp only [unary?, read, Option.map_some]
  exact @bitwise?_eq .bitNot rfl x x

theorem Prototype.bitResult?_cases {p : Prototype} {reads : Nat → Option Int} {i : Instruction}
    {op : Opcode} {r : Int} (opcode : i.opcode? = some op) (result : p.bitResult? reads i = some r) :
    (op = .bitNot ∧ ∃ x, reads i.b = some x ∧ r = bitResult .bitNot x x) ∨
    (op ≠ .bitNot ∧ isBitwise op = true ∧ ∃ x y, p.operandInteger? reads i.b = some x ∧
      p.operandInteger? reads i.c = some y ∧ r = bitResult op x y) := by
  rw [bitResult?, opcode] at result
  split at result
  · rename_i inverts
    obtain ⟨x, read, rfl⟩ := Option.map_eq_some_iff.1 result
    exact .inl ⟨Option.some.inj inverts, x, read, rfl⟩
  · rename_i op' other same
    obtain rfl := Option.some.inj same
    split at result
    · rename_i bits
      split at result
      · rename_i x y first second
        exact .inr ⟨other, bits, x, y, first, second,
          (Option.some.inj result).symm⟩
      · contradiction
    · contradiction
  · contradiction

theorem Prototype.bitResult?_bounds {p : Prototype} {reads : Nat → Option Int} {i : Instruction}
    {r : Int} (result : p.bitResult? reads i = some r) : -2 ^ 63 ≤ r ∧ r < 2 ^ 63 := by
  cases opcode : i.opcode? with
  | none =>
      rw [bitResult?, opcode] at result
      contradiction
  | some op =>
      rcases bitResult?_cases opcode result with ⟨-, _, -, rfl⟩ | ⟨-, -, _, _, -, -, rfl⟩
      · exact bitResult_bounds _ _ _
      · exact bitResult_bounds _ _ _

namespace Context

variable {x : Context} {s : Store} {i : Instruction} {op : Opcode} {v : Value}

theorem execute_binary (bits : isBitwise op = true) (other : op ≠ .bitNot)
    (value : binary? op (x.operandIn s i.b) (x.operandIn s i.c) = some v) :
    x.execute op i s =
      .ok (.next x.pc) (s.modifyThread x.thread (Thread.assign x.frame.base [(i.a, v)])) := by
  have dispatch : x.execute op i = x.binary op i := by
    cases op <;> first | rfl | contradiction
  simp only [dispatch, binary, bind, EStateM.bind, operand_eq, value]
  rfl

theorem execute_bitNot (value : unary? .bitNot (x.registerIn s i.b) = some v) :
    x.execute .bitNot i s =
      .ok (.next x.pc) (s.modifyThread x.thread (Thread.assign x.frame.base [(i.a, v)])) := by
  simp only [execute, unary, bind, EStateM.bind, register_eq, value]
  rfl

end Context

namespace Machine

variable {m : Machine} {a : Activation} {pc : Nat} {i : Instruction} {r : Int}

def integers (m : Machine) (a : Activation) (register : Nat) : Option Int :=
  (m.register a register).toInteger?

theorem operandInteger?_eq (m : Machine) (a : Activation) (pc operand : Nat) :
    a.closure.prototype.operandInteger? (m.integers a) operand =
      ((a.context pc).operandIn m.store operand).toInteger? := by
  rw [Prototype.operandInteger?, Context.operandIn]
  split <;> rfl

theorem Stands.step_bits (stands : m.Stands a pc) (host : Host) (code : a.code[pc]? = some i)
    (inside : pc + 1 < a.code.size)
    (result : a.closure.prototype.bitResult? (m.integers a) i = some r) :
    (m.step host).Stands a (pc + 1) ∧
      (m.step host).register a = Function.update (m.register a) i.a (.integer r) := by
  obtain ⟨op, opcode⟩ : ∃ op, i.opcode? = some op := by
    cases opcode : i.opcode? with
    | none =>
        rw [Prototype.bitResult?, opcode] at result
        contradiction
    | some op => exact ⟨op, rfl⟩
  refine @Stands.step m a pc (pc + 1) i op [(i.a, .integer r)] stands host code opcode inside ?_
  rcases Prototype.bitResult?_cases opcode result with
    ⟨rfl, x, read, rfl⟩ | ⟨other, bits, x, y, first, second, rfl⟩
  · refine Context.execute_bitNot (unary?_bits ?_)
    rw [registerIn_context]
    exact read
  · rw [operandInteger?_eq m a pc, ← operandIn_advanced] at first second
    exact Context.execute_binary bits other (binary?_bits bits first second)

theorem Stands.row (host : Host) {reads reads' : Nat → Option Int} {row : List Instruction} {results : List Int}
    (stands : m.Stands a pc) (computes : Computes a.closure.prototype reads row results reads')
    (known : m.integers a = reads) (located : ∀ j < row.length, a.code[pc + j]? = row[j]?)
    (inside : pc + row.length < a.code.size) (exact : ∀ r ∈ results, Exact r) :
    (m.after host row.length).Stands a (pc + row.length) ∧
      (m.after host row.length).integers a = reads' := by
  induction computes generalizing m pc with
  | nil reads => exact ⟨stands, known⟩
  | @cons reads reads' i row r results result rest ih =>
      have code : a.code[pc]? = some i := located 0 (Nat.succ_pos _)
      rw [List.length_cons] at inside located
      rw [← known] at result
      obtain ⟨moved, registers⟩ := stands.step_bits host code (by omega) result
      obtain ⟨low, high⟩ := Prototype.bitResult?_bounds result
      have held : (Value.integer r).toInteger? = some r :=
        (toInteger_eq_self_iff low high).2 (exact r (.head _))
      have next : (m.step host).integers a = Function.update reads i.a (some r) := by
        funext register
        rw [integers, registers, ← known]
        by_cases same : register = i.a
        · rw [same, Function.update_self, Function.update_self, held]
        · rw [Function.update_of_ne same, Function.update_of_ne same, integers]
      have done := ih moved next (fun j less => by
          rw [Nat.add_assoc, Nat.add_comm 1 j]
          exact located (j + 1) (Nat.succ_lt_succ less)) (by omega)
        (fun r member => exact r (.tail _ member))
      rw [after_step, Nat.add_assoc, Nat.add_comm 1] at done
      exact done

/-- What bit operations leave of their 64-bit results. The double of a result goes to the register,
and it is read as the result itself just if 53 digits with zeros behind them are enough for it; else
it is read as an integer that is at most 512 away, or as none from 2^63 - 512 on. So a row of bit
operations computes in 64 bits if the results are such integers. -/
theorem bit_operations (stands : m.Stands a pc) :
    (∀ i r host, a.code[pc]? = some i → pc + 1 < a.code.size →
      a.closure.prototype.bitResult? (m.integers a) i = some r →
      (m.step host).Stands a (pc + 1) ∧
      (m.step host).register a = Function.update (m.register a) i.a (.integer r) ∧
      ((Value.integer r).toInteger? = some r ↔ Exact r) ∧
      (Value.integer r).toInteger? = (if r < 2 ^ 63 - 512 then some (nearest r) else none) ∧
      (nearest r - r).natAbs ≤ 512) ∧
    ∀ row results reads host, (∀ j < row.length, a.code[pc + j]? = row[j]?) →
      pc + row.length < a.code.size →
      Computes a.closure.prototype (m.integers a) row results reads → (∀ r ∈ results, Exact r) →
      (m.after host row.length).Stands a (pc + row.length) ∧
      (m.after host row.length).integers a = reads := by
  constructor
  · intro i r host code inside result
    obtain ⟨moved, registers⟩ := stands.step_bits host code inside result
    obtain ⟨low, high⟩ := Prototype.bitResult?_bounds result
    exact ⟨moved, registers, toInteger_eq_self_iff low high, toInteger_rounded low high⟩
  · intro row results reads host located inside computes exact
    exact stands.row host computes rfl located inside exact

def inverting : Prototype :=
  { Prototype.empty with code := #[.abc .bitNot 1 0 0, .abc .bitNot 2 1 0, .abc .ret 2 2 0] }

/-- The least integer of 64 bits, inverted, is the greatest one, which has become 2^63 when it is
read back. -/
theorem bitNot_least :
    (holding inverting #[.integer (-2 ^ 63)]).integers (holdingCall inverting) 0 =
      some (-2 ^ 63) ∧
    bitResult .bitNot (-2 ^ 63) (-2 ^ 63) = 2 ^ 63 - 1 ∧
    ((holding inverting #[.integer (-2 ^ 63)]).after .bare 1).Stands (holdingCall inverting) 1 ∧
    ((holding inverting #[.integer (-2 ^ 63)]).after .bare 1).integers (holdingCall inverting) 1 =
      none := by
  refine ⟨by decide +kernel, by decide, ?_, by decide +kernel⟩
  exact ⟨⟨rfl, ⟨0, [], [], rfl, rfl, Nat.le_refl 0⟩, 0, rfl, rfl⟩, rfl⟩

def combining : Prototype :=
  { Prototype.empty with
    code := #[.abc .bitAnd 2 0 1, .abc .shiftLeft 3 2 2, .abc .bitNot 4 3 0, .abc .ret 4 2 0] }

theorem bit_operations_combining :
    ((holding combining #[.integer 12, .string "10"]).after .bare 3).Stands (holdingCall combining) 3 ∧
    ((holding combining #[.integer 12, .string "10"]).after .bare 3).integers (holdingCall combining) 4 =
      some (-2049) := by
  obtain ⟨-, row⟩ := bit_operations (holding_stands combining #[.integer 12, .string "10"])
  have computes : Computes combining
      ((holding combining #[.integer 12, .string "10"]).integers (holdingCall combining))
      [.abc .bitAnd 2 0 1, .abc .shiftLeft 3 2 2, .abc .bitNot 4 3 0] [8, 2048, -2049] _ :=
    .cons (by rfl) (.cons (by rfl) (.cons (by rfl) (.nil _)))
  obtain ⟨moved, integers⟩ := row _ _ _ .bare (by decide) (by decide) computes (by
    intro r member
    exact ⟨r, 0, by revert r; decide, by simp⟩)
  exact ⟨moved, congrFun integers 4⟩

end Machine

end RegisterVm
