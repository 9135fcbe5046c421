import RegisterVm.Proofs.Prototype.Code

/-!
Jumps as a builder patches them. The offset of a jump has 18 bits, so that a jump comes out at the
target that it was given if the target is near enough and a multiple of 2^18 away from it if not. A
target at the end of the code has an instruction there only if a return is appended.
-/

namespace RegisterVm

def Instruction.Reaches (place target : Nat) : Prop :=
  (place : Int) + 1 - 131071 ≤ target ∧ (target : Int) ≤ place + 1 + 131072

namespace Context

variable {x : Context} {i : Instruction} {op : Opcode}

/-- A jump adds its offset to the place behind it; only the loops may let it be. -/
def Jumps (x : Context) (op : Opcode) (offset : Int) (flow : Flow) : Prop :=
  flow = .next (x.pc + offset) ∨ flow = .next x.pc ∧ (op = .forLoop ∨ op = .iterLoop)

theorem keeps_jump (i : Instruction) :
    Keeps (fun _ => True) (x.execute .jump i) (x.Jumps .jump i.sbx) := by
  simp only [execute]
  split
  · exact Keeps.always.any_bind fun _ => .pure (.inl rfl)
  · exact .pure (.inl rfl)

theorem keeps_forLoop_jumps (i : Instruction) :
    Keeps (fun _ => True) (x.forLoop i) (x.Jumps .forLoop i.sbx) := by
  refine Keeps.always.any_bind fun index => ?_
  refine Keeps.always.any_bind fun limit => Keeps.always.any_bind fun step => ?_
  split
  · extract_lets index continues
    refine Keeps.ite ?_ (.pure (.inr ⟨rfl, .inl rfl⟩))
    exact Keeps.always.any_bind fun _ => Keeps.always.any_bind fun _ => .pure (.inl rfl)
  · exact .typeError

theorem keeps_forPrep_jumps (i : Instruction) :
    Keeps (fun _ => True) (x.forPrep i) (x.Jumps .forPrep i.sbx) := by
  refine Keeps.always.any_bind fun start => Keeps.always.any_bind fun limit => ?_
  refine Keeps.always.any_bind fun step => Keeps.always.any_bind fun _ => ?_
  exact Keeps.always.any_bind fun _ => Keeps.always.any_bind fun _ => .pure (.inl rfl)

theorem keeps_iterLoop_jumps (i : Instruction) :
    Keeps (fun _ => True) (x.execute .iterLoop i) (x.Jumps .iterLoop i.sbx) := by
  refine Keeps.always.any_bind fun control => ?_
  refine Keeps.ite (.pure (.inr ⟨rfl, .inr rfl⟩)) ?_
  exact Keeps.always.any_bind fun _ => .pure (.inl rfl)

theorem execute_jumps (jumps : op.layout = .asbx) {s s' : Store} {flow : Flow}
    (goes : x.execute op i s = .ok flow s') : x.Jumps op i.sbx flow := by
  have keeps : Keeps (fun _ => True) (x.execute op i) (x.Jumps op i.sbx) := by
    cases op <;> simp only [Opcode.layout, reduceCtorEq] at jumps
    · exact keeps_jump i
    · exact keeps_forLoop_jumps i
    · exact keeps_forPrep_jumps i
    · exact keeps_iterLoop_jumps i
  have after := keeps s trivial
  rw [goes] at after
  exact after.2

end Context

namespace Builder

variable {b unpatched b' : Builder} {op : Opcode} {target : Nat}

theorem landing_patched (i : Instruction) (place target : Nat) :
    ((place : Int) + 1 + (i.setSbx ((target : Int) - (place + 1))).sbx = target ↔
      Instruction.Reaches place target) ∧
    (262144 : Int) ∣ target - (place + 1 + (i.setSbx ((target : Int) - (place + 1))).sbx) := by
  rw [Instruction.sbx_setSbx, Instruction.Reaches]
  omega

/-- Where a jump leads that was pointed to a target, whatever was called before. It comes out at the
target if that is near enough and a multiple of 2^18 away from it if not. An instruction is there if
the target is within the code, or at its end with a return appended. -/
theorem patchJump_lands (jumps : op.layout = .asbx) (a : Nat) (sbx : Int)
    (before : (b.emit (.asbx op a sbx)).Follows unpatched)
    (last : b'.prototype.code[b.pc]? = (unpatched.patchJump b.pc target).prototype.code[b.pc]?)
    (inside : target ≤ b'.pc) :
    ∃ i, b'.build.code[b.pc]? = some i ∧ i.opcode? = some op ∧
      (∀ (x : Context) s flow s', x.pc = b.pc + 1 → x.execute op i s = .ok flow s' →
        flow = .next (b.pc + 1 + i.sbx) ∨
          flow = .next (b.pc + 1) ∧ (op = .forLoop ∨ op = .iterLoop)) ∧
      ((b.pc : Int) + 1 + i.sbx = target ↔ Instruction.Reaches b.pc target) ∧
      (262144 : Int) ∣ target - (b.pc + 1 + i.sbx) ∧
      (target < b'.build.code.size ↔ target < b'.pc ∨ ¬b'.prototype.endsInReturn) := by
  obtain ⟨i, there, opcode, -⟩ := before.code (getElem?_emitted b (.asbx op a sbx))
  have found := getElem?_build (last.trans (getElem?_patchJump there target))
  obtain ⟨lands, near⟩ := landing_patched i b.pc target
  refine ⟨_, found, ?_, ?_, lands, near, ?_⟩
  · exact (Instruction.opcode?_setBx i _).trans (opcode.trans (Instruction.opcode?_abx _ _ _))
  · intro x s flow s' stands goes
    have went := Context.execute_jumps jumps goes
    rw [Context.Jumps, stands] at went
    simpa using went
  · rw [lt_size_build]
    constructor
    · rintro (within | ⟨-, falls⟩)
      · exact .inl within
      · exact .inr falls
    · rintro (within | falls)
      · exact .inl within
      · exact (Nat.lt_or_eq_of_le inside).imp id fun last => ⟨last, falls⟩

theorem exists_follows (b : Builder) (count : Nat) : ∃ b', b.Follows b' ∧ b'.pc = b.pc + count := by
  induction count with
  | zero => exact ⟨b, .refl, rfl⟩
  | succ count ih =>
      obtain ⟨b', follows, pc⟩ := ih
      exact ⟨_, follows.tail (.emit b' (.abc .move 0 0 0)), by rw [pc_emit, pc, Nat.add_assoc]⟩

def escaping : Builder :=
  (((new "=main").emit (.asbx .jump 0 0)).emit (.abc .ret 0 1 0)).patchJump 0 2

/-- A jump that is pointed to the end of the code leaves it where the code ends in a return already.
Pointed 131073 instructions ahead, a jump comes out before the code. -/
theorem patchJump_lands_astray :
    (¬2 < escaping.build.code.size ∧
      (Machine.step .bare (Machine.standing escaping.build 0)).control =
        .fail (Machine.pastEnd 2)) ∧
    ∃ (b' : Builder) (i : Instruction), b'.pc = 131074 ∧ b'.build.code[0]? = some i ∧
      ∀ (x : Context) s flow s', x.pc = 1 → x.execute .jump i s = .ok flow s' →
        flow = .next (-131070) := by
  constructor
  · have before : ((new "=main").emit (.asbx .jump 0 0)).Follows
        (((new "=main").emit (.asbx .jump 0 0)).emit (.abc .ret 0 1 0)) :=
      .single (.emit _ (.abc .ret 0 1 0))
    obtain ⟨-, -, -, -, -, -, stands⟩ := patchJump_lands rfl 0 0 before
      (rfl : escaping.prototype.code[0]? = _) (by decide : 2 ≤ escaping.pc)
    exact ⟨fun within => absurd (stands.mp within) (by decide), rfl⟩
  · obtain ⟨unpatched, follows, pc⟩ :=
      exists_follows ((new "=main").emit (.asbx .jump 0 0)) 131073
    have length : (unpatched.patchJump 0 131074).pc = 131074 := by rw [pc_patchJump, pc]; rfl
    obtain ⟨i, code, -, goes, lands, near, -⟩ := patchJump_lands rfl 0 0 follows
      (rfl : (unpatched.patchJump 0 131074).prototype.code[0]? = _) (Nat.le_of_eq length.symm)
    refine ⟨_, i, length, code, fun x s flow s' stands executes => ?_⟩
    rcases goes x s flow s' stands executes with taken | ⟨-, loop | loop⟩
    · have bounds := i.sbx_bounds
      have start : (new "=main").pc = 0 := rfl
      rw [start] at near taken
      rw [taken]
      congr 1
      omega
    · contradiction
    · contradiction

end Builder

end RegisterVm
