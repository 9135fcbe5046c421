import RegisterVm.Proofs.Instruction.Words

/-!
Words and their operands. A word that has an operation is made again of the operands read from it,
operands are read again from the word made of them, as far as their fields have room, and replacing a
field leaves the operation and every field of other bits as they are.
-/

namespace RegisterVm

namespace Instruction

/-- The operands of an instruction in one of the four layouts. -/
inductive Operands where
  | abc (a b c : Nat)
  | abx (a bx : Nat)
  | asbx (a : Nat) (sbx : Int)
  | ax (n : Nat)
  deriving DecidableEq, Repr

namespace Operands

def layout : Operands → Opcode.Layout
  | .abc .. => .abc
  | .abx .. => .abx
  | .asbx .. => .asbx
  | .ax .. => .ax

def word (op : Opcode) : Operands → Instruction
  | .abc a b c => Instruction.abc op a b c
  | .abx a bx => Instruction.abx op a bx
  | .asbx a sbx => Instruction.asbx op a sbx
  | .ax n => Instruction.ofAx op n

def read (i : Instruction) : Opcode.Layout → Operands
  | .abc => .abc i.a i.b i.c
  | .abx => .abx i.a i.bx
  | .asbx => .asbx i.a i.sbx
  | .ax => .ax i.ax

def InRange : Operands → Prop
  | .asbx _ sbx => -131071 ≤ sbx ∧ sbx ≤ 131072
  | _ => True

def reduced : Operands → Operands
  | .abc a b c => .abc (a % 2 ^ 8) (b % 2 ^ 9) (c % 2 ^ 9)
  | .abx a bx => .abx (a % 2 ^ 8) (bx % 2 ^ 18)
  | .asbx a sbx => .asbx (a % 2 ^ 8) sbx
  | .ax n => .ax (n % 2 ^ 26)

end Operands

/-- The fields that can be replaced. `ax` overlaps all of them and is only read. -/
inductive Field where
  | a
  | b
  | c
  | bx
  | sbx
  deriving DecidableEq, Repr

namespace Field

def position : Field → UInt32
  | .a => 6
  | .b => 23
  | .c | .bx | .sbx => 14

def width : Field → Nat
  | .a => 8
  | .b | .c => 9
  | .bx | .sbx => 18

/-- What is added to a value before it is written. -/
def excess : Field → Int
  | .sbx => 131071
  | _ => 0

def Fits (x : Field) (v : Int) : Prop := 0 ≤ v + x.excess ∧ v + x.excess < 2 ^ x.width

/-- No bit belongs to both fields. -/
def Apart (x y : Field) : Prop :=
  x.position.toNat + x.width ≤ y.position.toNat ∨ y.position.toNat + y.width ≤ x.position.toNat

def get (i : Instruction) : Field → Int
  | .a => i.a
  | .b => i.b
  | .c => i.c
  | .bx => i.bx
  | .sbx => i.sbx

def set (i : Instruction) (v : Int) : Field → Instruction
  | .a => i.setA v.toNat
  | .b => i.setB v.toNat
  | .c => i.setC v.toNat
  | .bx => i.setBx v.toNat
  | .sbx => i.setSbx v

end Field

section Making

variable {op : Opcode} {i : Instruction}

theorem eq_of_toNat {i j : Instruction} (same : i.word.toNat = j.word.toNat) : i = j :=
  congrArg Instruction.mk (UInt32.toNat_inj.1 same)

theorem sbx_asbx (op : Opcode) (a : Nat) {sbx : Int} (low : -131071 ≤ sbx) (high : sbx ≤ 131072) :
    (asbx op a sbx).sbx = sbx := by
  rw [Instruction.sbx, asbx, bx_abx]
  simp only [signedExcess]
  omega

theorem asbx_sbx (op : Opcode) (a : Nat) (i : Instruction) : asbx op a i.sbx = abx op a i.bx := by
  have bounds := i.sbx_bounds
  rw [Instruction.sbx] at bounds
  rw [asbx, Instruction.sbx]
  simp only [signedExcess] at bounds ⊢
  congr 1
  omega

theorem word_read (decoded : i.opcode? = some op) (layout : Opcode.Layout) :
    (Operands.read i layout).word op = i := by
  rw [opcode?_eq_some_iff] at decoded
  have wide := i.word.toNat_lt
  apply eq_of_toNat
  cases layout with
  | abc =>
      rw [Operands.read, Operands.word, toNat_abc, a_eq, b_eq, c_eq]
      omega
  | abx =>
      rw [Operands.read, Operands.word, toNat_abx, a_eq, bx_eq]
      omega
  | asbx =>
      rw [Operands.read, Operands.word, asbx_sbx, toNat_abx, a_eq, bx_eq]
      omega
  | ax =>
      rw [Operands.read, Operands.word, toNat_ofAx, ax_eq]
      omega

theorem opcode?_word (op : Opcode) (o : Operands) : (o.word op).opcode? = some op := by
  cases o with
  | abc a b c => exact opcode?_abc op a b c
  | abx a bx => exact opcode?_abx op a bx
  | asbx a sbx => exact opcode?_abx op a _
  | ax n => exact opcode?_ofAx op n

theorem read_word (op : Opcode) {o : Operands} (inside : o.InRange) :
    Operands.read (o.word op) o.layout = o.reduced := by
  cases o with
  | abc a b c =>
      simp only [Operands.layout, Operands.word, Operands.read, a_abc, b_abc, c_abc]
      rfl
  | abx a bx =>
      simp only [Operands.layout, Operands.word, Operands.read, a_abx, bx_abx]
      rfl
  | asbx a sbx =>
      simp only [Operands.layout, Operands.word, Operands.read, sbx_asbx op a inside.1 inside.2]
      rw [asbx, a_abx]
      rfl
  | ax n =>
      simp only [Operands.layout, Operands.word, Operands.read, ax_ofAx]
      rfl

end Making

namespace Field

variable (i : Instruction) {x : Field} {v : Int}

def mask : Field → UInt32
  | .a => 0x3fc0
  | .b => 0xff800000
  | .c => 0x7fc000
  | .bx | .sbx => 0xffffc000

theorem covers (x : Field) : Covers x.mask x.position x.width := by
  cases x with
  | a => exact covers_a
  | b => exact covers_b
  | c => exact covers_c
  | bx => exact covers_bx
  | sbx => exact covers_bx

theorem get_eq (x : Field) :
    x.get i = (i.word.toNat / 2 ^ x.position.toNat % 2 ^ x.width : Nat) - x.excess := by
  have wide := i.word.toNat_lt
  cases x with
  | a =>
      show (i.a : Int) = (i.word.toNat / 2 ^ 6 % 2 ^ 8 : Nat) - 0
      rw [a_eq]
      omega
  | b =>
      show (i.b : Int) = (i.word.toNat / 2 ^ 23 % 2 ^ 9 : Nat) - 0
      rw [b_eq]
      omega
  | c =>
      show (i.c : Int) = (i.word.toNat / 2 ^ 14 % 2 ^ 9 : Nat) - 0
      rw [c_eq]
      omega
  | bx =>
      show (i.bx : Int) = (i.word.toNat / 2 ^ 14 % 2 ^ 18 : Nat) - 0
      rw [bx_eq]
      omega
  | sbx =>
      show i.bx - signedExcess = (i.word.toNat / 2 ^ 14 % 2 ^ 18 : Nat) - signedExcess
      rw [bx_eq]
      omega

theorem set_eq (fits : x.Fits v) :
    x.set i v = i.replace x.mask x.position (v + x.excess).toNat := by
  cases x with
  | sbx =>
      obtain ⟨low, high⟩ := fits
      simp only [excess, width] at low high
      have kept : (v + signedExcess) % 262144 = v + 131071 := by
        simp only [signedExcess]
        omega
      simp only [set, setSbx, kept]
      rfl
  | _ => simp only [excess, Int.add_zero]; rfl

theorem get_set (fits : x.Fits v) : x.get (x.set i v) = v := by
  have own := replace_own i x.covers (v + x.excess).toNat
  have room : (v + x.excess).toNat < 2 ^ x.width := by
    rw [Int.toNat_lt fits.1]
    exact_mod_cast fits.2
  rw [get_eq, set_eq i fits, own, Nat.mod_eq_of_lt room, Int.toNat_of_nonneg fits.1]
  omega

theorem get_set_apart {y : Field} (fits : x.Fits v) (apart : x.Apart y) :
    y.get (x.set i v) = y.get i := by
  rw [get_eq, get_eq, set_eq i fits, replace_apart i x.covers _ apart.symm]

theorem opcode?_set (fits : x.Fits v) : (x.set i v).opcode? = i.opcode? := by
  have below : 0 + 6 ≤ x.position.toNat := by cases x <;> decide
  have low := replace_apart i x.covers (v + x.excess).toNat (.inl below)
  rw [Nat.pow_zero, Nat.div_one, Nat.div_one] at low
  rw [opcode?_eq, opcode?_eq, set_eq i fits]
  exact congrArg Opcode.ofNumber? low

end Field

/-- Words and operands are the same thing in two forms. A word that has an operation is made again of
the operands read from it, and what a word is made of is read from it again, numbers as far as there
is room for them and signed ones in their range. To replace a field is to change what this field is
read as, and neither the operation nor what a field without a bit in common is read as. -/
theorem words_carry_operands :
    (∀ (i : Instruction) (op : Opcode), (i.opcode? = some op ↔ i.word.toNat % 2 ^ 6 = op.number) ∧
      (i.opcode? = some op → (Operands.read i op.layout).word op = i)) ∧
    (∀ (op : Opcode) (o : Operands), o.InRange →
      (o.word op).opcode? = some op ∧ Operands.read (o.word op) o.layout = o.reduced) ∧
    ∀ (i : Instruction) (x : Field) (v : Int), x.Fits v →
      x.get (x.set i v) = v ∧ (x.set i v).opcode? = i.opcode? ∧
      ∀ y : Field, x.Apart y → y.get (x.set i v) = y.get i := by
  refine ⟨fun i op => ⟨opcode?_eq_some_iff, fun decoded => ?_⟩, fun op o inside => ?_,
    fun i x v fits => ?_⟩
  · exact word_read decoded op.layout
  · exact ⟨opcode?_word op o, read_word op inside⟩
  · exact ⟨Field.get_set i fits, Field.opcode?_set i fits,
      fun y apart => Field.get_set_apart i fits apart⟩

/-- The longest jump forward, and what is left of the largest word when its C is cleared. -/
theorem words_carry_operands_extremes :
    Operands.read (asbx .forPrep 300 131072) .asbx = .asbx 44 131072 ∧
    (Operands.read (asbx .forPrep 300 131072) .asbx).word .forPrep = asbx .forPrep 300 131072 ∧
    Field.b.get (Field.c.set ⟨0xffffffff⟩ 0) = 511 := by
  obtain ⟨made, read, replaced⟩ := words_carry_operands
  obtain ⟨opcode, operands⟩ := read .forPrep (.asbx 300 131072) ⟨by decide, by decide⟩
  refine ⟨operands, (made _ .forPrep).2 opcode, ?_⟩
  rw [(replaced ⟨0xffffffff⟩ .c 0 ⟨by decide, by decide⟩).2.2 .b (.inl (by decide))]
  rfl

end Instruction

end RegisterVm
