import RegisterVm.Proofs.Prototype.Building
import RegisterVm.Proofs.Registers.Sparing
import RegisterVm.Proofs.Table.FiniteMap

/-!
The window that a builder computes, against what instructions touch. It covers all of it but the
last item that a table constructor stores and, for an iterator that is asked for fewer than three
results, the copies of the loop's registers that lie above the results.
-/

namespace RegisterVm

namespace Instruction

/-- The registers that an instruction touches and the builder does not count. -/
def Overruns (i : Instruction) (op : Opcode) (r : Nat) : Prop :=
  match op with
  | .setList => r = i.a + i.b
  | .iterCall => i.a + 3 + max i.c 1 ≤ r ∧ r < i.a + 6
  | _ => False

theorem Names.lt_pastOperand {operand r : Nat} (names : Names operand r) :
    r < pastOperand operand := by
  rw [pastOperand, names.1, names.2]
  exact Nat.lt_succ_self _

section Rows

variable {i : Instruction} {op : Opcode} {r : Nat}

-- One case for each row of the builder's table: what its opcode touches against what it counts.
theorem Touches.lt_or_overruns (touches : i.Touches op r) :
    r < max (i.pastTarget op) (i.pastSource op) ∨ i.Overruns op r := by
  have left : Names i.b r → r < pastOperand i.b := Names.lt_pastOperand
  have right : Names i.c r → r < pastOperand i.c := Names.lt_pastOperand
  cases op <;>
    simp only [Touches, Overruns, pastTarget, pastSource, Opcode.usesConstants] at touches ⊢ <;>
    grind

theorem Overruns.touches (overruns : i.Overruns op r) : i.Touches op r := by
  cases op <;> simp only [Touches, Overruns] at overruns ⊢ <;> omega

theorem Overruns.le (overruns : i.Overruns op r) (counted : i.Counted op) :
    r ≤ i.pastTarget op + 1 := by
  cases op <;> simp only [Overruns, Counted, pastTarget] at overruns counted ⊢ <;> omega

end Rows

end Instruction

namespace Prototype

variable {p : Prototype} {i : Instruction} {op : Opcode}

theorem Built.pastOperands_le (built : p.Built) (member : i ∈ p.code)
    (decoded : i.opcode? = some op) : max (i.pastTarget op) (i.pastSource op) ≤ p.window := by
  have covers := (computedWindow_le.1 (Nat.le_of_eq built.window_eq.symm)).2.2 i member
  rwa [Instruction.registers, decoded] at covers

/-- Of the registers that a built prototype's window leaves out, an instruction touches none but
those that the builder does not count, at most two of them; the others it neither reads nor writes,
and it has no result of its call put there. -/
theorem Built.window_covers (built : p.Built) (member : i ∈ p.code) (decoded : i.opcode? = some op)
    (counted : i.Counted op) {r : Nat} (beyond : p.window ≤ r) :
    (i.Touches op r ↔ i.Overruns op r) ∧ (i.Overruns op r → r ≤ p.window + 1) ∧
      (¬i.Overruns op r → ∀ x : Context, x.prototype = p → x.frame.extras ≤ x.frame.base →
        x.Spares op i r) := by
  have named := built.pastOperands_le member decoded
  have only (touches : i.Touches op r) : i.Overruns op r := by
    rcases touches.lt_or_overruns with below | overruns
    · omega
    · exact overruns
  refine ⟨⟨only, Instruction.Overruns.touches⟩, fun overruns => ?_, fun within x _ extras => ?_⟩
  · have := overruns.le counted
    omega
  · exact Context.execute_spares op i counted (fun touches => within (only touches)) extras

def collecting : Prototype :=
  ((((Builder.new "=main").emit (.abc .newTable 1 0 0)).emit (.abc .setList 1 1 1)).emit
    (.abc .ret 0 1 0)).build

def collectingContext : Context :=
  ⟨0, { Frame.script (.closure 0) 0 1 3 with pc := 1 }, ⟨collecting, #[]⟩, 2⟩

def collectingStore (v : Value) : Store :=
  ((Store.empty.newTable .empty).2.newThread
    { Thread.new true 0 .standard with
      stack := #[.nil, .nil, .table 0, v]
      top := 3
      frames := [{ Frame.script (.closure 0) 0 1 3 with pc := 2 }] }).2

theorem collecting_built : collecting.Built :=
  ⟨_, ((((Builder.Used.new _).emit _).emit _).emit _), rfl⟩

theorem collecting_stores (v : Value) (some : v.isNil = false) :
    ∃ s, collectingContext.execute .setList (.abc .setList 1 1 1) (collectingStore v) =
      .ok (.next 2) s ∧ s.table 0 = ⟨#[v], #[], none⟩ :=
  ⟨_, rfl, Table.setInteger_next (t := .empty) rfl (by decide) some⟩

theorem collecting_forks (v v' : Value) :
    collectingContext.Forks 2 v v' (collectingStore v) (collectingStore v') := by
  have linked : (Store.empty.newTable .empty).2.Linked :=
    Store.linked_empty.congr rfl fun _ => rfl
  have others (v : Value) (t : ThreadRef) (other : t ≠ 0) :
      (collectingStore v).thread t = (Store.empty.newTable .empty).2.thread t := by
    rw [collectingStore, Store.thread_newThread]
    exact if_neg other
  refine ⟨⟨⟨⟨_, rfl⟩, rfl, fun t other => ?_, ⟨_, rfl⟩, fun index other => ?_⟩, rfl, rfl⟩,
    ⟨[], Nat.zero_lt_one, 2, rfl⟩, linked.newThread rfl, nofun⟩
  · rw [others v t other, others v' t other]
  · match index, other with
    | 0, _ => rfl
    | 1, _ => rfl
    | 2, _ => rfl
    | 3, other => exact absurd rfl other
    | _ + 4, _ => rfl

/-- Register 2 is beyond the window, and what it holds makes a difference. -/
theorem window_covers_collecting :
    collecting.window = 2 ∧ (Instruction.abc .setList 1 1 1).Touches .setList 2 ∧
      ¬collectingContext.Spares .setList (.abc .setList 1 1 1) 2 ∧
      collectingContext.Spares .setList (.abc .setList 1 1 1) 3 := by
  have member : Instruction.abc .setList 1 1 1 ∈ collecting.code :=
    Array.mem_of_getElem? (i := 1) rfl
  have counted : (Instruction.abc .setList 1 1 1).Counted .setList :=
    (by decide : (Instruction.abc .setList 1 1 1).b ≠ 0)
  have covers {r : Nat} (beyond : collecting.window ≤ r) :=
    Built.window_covers collecting_built member (by decide) counted beyond
  have fits : collecting.window = 2 := by decide
  have touches : (Instruction.abc .setList 1 1 1).Touches .setList 2 :=
    (covers (by omega)).1.2 (by decide : 2 = (Instruction.abc .setList 1 1 1).a + 1)
  have spares : collectingContext.Spares .setList (.abc .setList 1 1 1) 3 :=
    (covers (by omega)).2.2 (by decide : ¬3 = (Instruction.abc .setList 1 1 1).a + 1) _ rfl
      (by decide)
  refine ⟨fits, touches, fun spared => ?_, spares⟩
  have paired := spared (.boolean true) (.boolean false) _ _ (collecting_forks _ _)
  obtain ⟨s, ran, table⟩ := collecting_stores (.boolean true) rfl
  obtain ⟨s', ran', table'⟩ := collecting_stores (.boolean false) rfl
  rw [ran, ran'] at paired
  have same : s'.table 0 = s.table 0 := paired.2.agree.field (f := fun s => s.table 0) fun _ => rfl
  rw [table, table'] at same
  simp at same

end Prototype

end RegisterVm
