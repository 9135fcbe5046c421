import RegisterVm.Proofs.Flow.Stores
import RegisterVm.Proofs.Machine.Scripts
import RegisterVm.Proofs.Prototype.Operands

/-!
The code that a builder is given. Calls put instructions behind those that are there and change none
of them, except that a patched jump gets another offset. Finishing appends a return where the code
does not end in one, so that every instruction but a return has another behind it.
-/

namespace RegisterVm

namespace Builder

variable {b b' : Builder} {i : Instruction} {place : Nat}

@[simp] theorem code_constant (b : Builder) (k : Constant) :
    (b.constant k).2.prototype.code = b.prototype.code := by
  rcases found : b.prototype.constants.findIdx? (·.same k) with _ | index
  · simp only [constant, found]
  · simp only [constant, found]

@[simp] theorem pc_constant (b : Builder) (k : Constant) : (b.constant k).2.pc = b.pc := by
  rw [pc, code_constant, pc]

theorem getElem?_emit (found : b.prototype.code[place]? = some i) (j : Instruction) :
    (b.emit j).prototype.code[place]? = some i := by
  obtain ⟨inside, -⟩ := Array.getElem?_eq_some_iff.1 found
  exact (Array.getElem?_push_lt inside).trans (by rw [← found, Array.getElem?_eq_getElem inside])

theorem getElem?_emitted (b : Builder) (i : Instruction) :
    (b.emit i).prototype.code[b.pc]? = some i :=
  Array.getElem?_push_size

@[simp] theorem pc_emit (b : Builder) (i : Instruction) : (b.emit i).pc = b.pc + 1 :=
  Array.size_push _

@[simp] theorem pc_patchJump (b : Builder) (place target : Nat) :
    (b.patchJump place target).pc = b.pc :=
  Array.size_modify

theorem getElem?_patchJump (found : b.prototype.code[place]? = some i) (target : Nat) :
    (b.patchJump place target).prototype.code[place]? =
      some (i.setSbx ((target : Int) - (place + 1))) := by
  simp only [patchJump, Array.getElem?_modify, if_pos, found, Option.map_some]

theorem pc_loadConstant (b : Builder) (register : Nat) (k : Constant) :
    (b.loadConstant register k).pc =
      if (b.constant k).1 ≤ Instruction.maxBx then b.pc + 1 else b.pc + 2 := by
  simp only [loadConstant]
  split <;> simp

theorem Calls.code (calls : b.Calls b') (found : b.prototype.code[place]? = some i) :
    b'.prototype.code[place]? = some i ∨
      ∃ offset, b'.prototype.code[place]? = some (i.setSbx offset) := by
  cases calls with
  | constant k => exact .inl (by rw [code_constant, found])
  | operand k => exact .inl ((congrArg (·[place]?) (code_constant b k)).trans found)
  | emit j => exact .inl (getElem?_emit found j)
  | loadConstant register k =>
      rw [← code_constant b k] at found
      simp only [Builder.loadConstant]
      split
      · exact .inl (getElem?_emit found _)
      · exact .inl (getElem?_emit (getElem?_emit found _) _)
  | patchJump patched target =>
      by_cases same : place = patched
      · subst same
        exact .inr ⟨_, getElem?_patchJump found target⟩
      · refine .inl ?_
        simp only [Builder.patchJump, Array.getElem?_modify, if_neg (Ne.symm same), found]
  | _ => exact .inl found

/-- Whatever is called, the operation and A of an instruction are for good. -/
theorem Follows.code (follows : b.Follows b') (found : b.prototype.code[place]? = some i) :
    ∃ j, b'.prototype.code[place]? = some j ∧ j.opcode? = i.opcode? ∧ j.a = i.a := by
  induction follows with
  | refl => exact ⟨i, found, rfl, rfl⟩
  | tail _ calls ih =>
      obtain ⟨j, there, opcode, register⟩ := ih
      rcases calls.code there with same | ⟨offset, patched⟩
      · exact ⟨j, same, opcode, register⟩
      · exact ⟨_, patched, (Instruction.opcode?_setBx j _).trans opcode,
          (Instruction.a_setBx j _).trans register⟩

theorem code_build (b : Builder) : b.build.code =
    if b.prototype.endsInReturn then b.prototype.code
    else b.prototype.code.push (.abc .ret 0 1 0) := by
  simp only [build]
  by_cases returns : b.prototype.endsInReturn = true
  · rw [if_pos returns, if_pos returns]
    split <;> rfl
  · rw [if_neg returns, if_neg returns]
    split <;> rfl

theorem getElem?_build (found : b.prototype.code[place]? = some i) :
    b.build.code[place]? = some i := by
  rw [code_build]
  split
  · exact found
  · exact getElem?_emit found _

theorem lt_size_build (b : Builder) (place : Nat) : place < b.build.code.size ↔
    place < b.pc ∨ place = b.pc ∧ ¬b.prototype.endsInReturn := by
  rw [code_build, pc]
  split
  · rename_i returns
    simp [returns]
  · rename_i returns
    simp only [Array.size_push, returns, Bool.false_eq_true, not_false_eq_true, and_true]
    omega

theorem endsInReturn_build (b : Builder) : b.build.endsInReturn := by
  rw [Prototype.endsInReturn, code_build]
  split
  · assumption
  · rw [Array.back?_push, Option.bind_some, Instruction.opcode?_abc, beq_self_eq_true]

end Builder

namespace Machine

def standingFrame (pc : Nat) : Frame := { Frame.script (.closure 0) 0 1 41 with pc }

def standing (p : Prototype) (pc : Nat) : Machine :=
  ⟨{ Store.empty with
      closures := #[⟨p, #[]⟩]
      threads := #[(Thread.new true 0 .standard).pushFrame (standingFrame pc)] },
    [.script 0 0], .run⟩

theorem standing_fetches (p : Prototype) (pc : Nat) :
    (standing p pc).Fetches 0 (standingFrame pc) ⟨p, #[]⟩ :=
  ⟨rfl, ⟨0, [], [], rfl, rfl, Nat.le_refl 0⟩, 0, rfl, rfl⟩

end Machine

end RegisterVm
