import Mathlib.Data.Nat.Bitwise
import RegisterVm.Instruction.Word

/-!
Instruction words as numbers. A field is read as the digits that it takes in base two, a word that is
made of operands is the sum of its fields, and replacing a field changes its bits and no others.
-/

namespace RegisterVm

namespace Opcode

theorem number_all : ∀ k : Fin all.size, all[k].number = k := by
  decide

theorem ofNumber?_eq_some_iff {n : Nat} {op : Opcode} : ofNumber? n = some op ↔ n = op.number := by
  constructor
  · intro found
    obtain ⟨inside, there⟩ := Array.getElem?_eq_some_iff.1 found
    rw [← there]
    exact (number_all ⟨n, inside⟩).symm
  · rintro rfl
    exact ofNumber?_number op

end Opcode

namespace Instruction

section Reading

variable (i : Instruction)

theorem opcode?_eq : i.opcode? = Opcode.ofNumber? (i.word.toNat % 64) := by
  have mask : 63 = 2 ^ 6 - 1 := rfl
  simp only [opcode?, UInt32.toNat_and, UInt32.reduceToNat]
  rw [mask, Nat.and_two_pow_sub_one_eq_mod]

theorem a_eq : i.a = i.word.toNat / 64 % 256 := by
  have mask : 255 = 2 ^ 8 - 1 := rfl
  simp only [a, UInt32.toNat_and, UInt32.toNat_shiftRight, UInt32.reduceToNat,
    Nat.shiftRight_eq_div_pow, Nat.reduceMod, Nat.reducePow]
  rw [mask, Nat.and_two_pow_sub_one_eq_mod]

theorem b_eq : i.b = i.word.toNat / 8388608 := by
  simp only [b, UInt32.toNat_shiftRight, UInt32.reduceToNat, Nat.shiftRight_eq_div_pow,
    Nat.reduceMod, Nat.reducePow]

theorem c_eq : i.c = i.word.toNat / 16384 % 512 := by
  have mask : 511 = 2 ^ 9 - 1 := rfl
  simp only [c, UInt32.toNat_and, UInt32.toNat_shiftRight, UInt32.reduceToNat,
    Nat.shiftRight_eq_div_pow, Nat.reduceMod, Nat.reducePow]
  rw [mask, Nat.and_two_pow_sub_one_eq_mod]

theorem bx_eq : i.bx = i.word.toNat / 16384 := by
  simp only [bx, UInt32.toNat_shiftRight, UInt32.reduceToNat, Nat.shiftRight_eq_div_pow,
    Nat.reduceMod, Nat.reducePow]

theorem ax_eq : i.ax = i.word.toNat / 64 := by
  simp only [ax, UInt32.toNat_shiftRight, UInt32.reduceToNat, Nat.shiftRight_eq_div_pow,
    Nat.reduceMod, Nat.reducePow]

theorem opcode?_eq_some_iff {i : Instruction} {op : Opcode} :
    i.opcode? = some op ↔ i.word.toNat % 64 = op.number := by
  rw [opcode?_eq, Opcode.ofNumber?_eq_some_iff]

theorem a_le : i.a ≤ 255 := by
  rw [a_eq]
  omega

theorem b_lt : i.b < 512 := by
  have wide := i.word.toNat_lt
  rw [b_eq]
  omega

theorem c_le : i.c ≤ 511 := by
  rw [c_eq]
  omega

theorem sbx_bounds : -131071 ≤ i.sbx ∧ i.sbx ≤ 131072 := by
  have wide := i.word.toNat_lt
  rw [sbx, bx_eq]
  simp only [signedExcess]
  omega

end Reading

section Making

theorem number_lt (op : Opcode) : op.number < 64 := by
  cases op <;> decide

theorem toNat_abc (op : Opcode) (a b c : Nat) : (abc op a b c).word.toNat =
    op.number + a % 256 * 64 + c % 512 * 16384 + b % 512 * 8388608 := by
  have small := number_lt op
  simp only [abc, UInt32.toNat_ofNat', Nat.toUInt32]
  omega

theorem toNat_abx (op : Opcode) (a bx : Nat) :
    (abx op a bx).word.toNat = op.number + a % 256 * 64 + bx % 262144 * 16384 := by
  have small := number_lt op
  simp only [abx, UInt32.toNat_ofNat', Nat.toUInt32]
  omega

theorem toNat_ofAx (op : Opcode) (ax : Nat) :
    (ofAx op ax).word.toNat = op.number + ax % 67108864 * 64 := by
  have small := number_lt op
  simp only [ofAx, UInt32.toNat_ofNat', Nat.toUInt32]
  omega

theorem opcode?_abc (op : Opcode) (a b c : Nat) : (abc op a b c).opcode? = some op := by
  have small := number_lt op
  rw [opcode?_eq_some_iff, toNat_abc]
  omega

theorem opcode?_abx (op : Opcode) (a bx : Nat) : (abx op a bx).opcode? = some op := by
  have small := number_lt op
  rw [opcode?_eq_some_iff, toNat_abx]
  omega

theorem opcode?_ofAx (op : Opcode) (ax : Nat) : (ofAx op ax).opcode? = some op := by
  have small := number_lt op
  rw [opcode?_eq_some_iff, toNat_ofAx]
  omega

theorem a_abc (op : Opcode) (a b c : Nat) : (abc op a b c).a = a % 256 := by
  have small := number_lt op
  rw [a_eq, toNat_abc]
  omega

theorem b_abc (op : Opcode) (a b c : Nat) : (abc op a b c).b = b % 512 := by
  have small := number_lt op
  rw [b_eq, toNat_abc]
  omega

theorem c_abc (op : Opcode) (a b c : Nat) : (abc op a b c).c = c % 512 := by
  have small := number_lt op
  rw [c_eq, toNat_abc]
  omega

theorem a_abx (op : Opcode) (a bx : Nat) : (abx op a bx).a = a % 256 := by
  have small := number_lt op
  rw [a_eq, toNat_abx]
  omega

theorem bx_abx (op : Opcode) (a bx : Nat) : (abx op a bx).bx = bx % 262144 := by
  have small := number_lt op
  rw [bx_eq, toNat_abx]
  omega

theorem ax_ofAx (op : Opcode) (ax : Nat) : (ofAx op ax).ax = ax % 67108864 := by
  have small := number_lt op
  rw [ax_eq, toNat_ofAx]
  omega

end Making

section Replacing

structure Covers (mask position : UInt32) (width : Nat) : Prop where
  bits : mask.toNat = (2 ^ width - 1) <<< position.toNat
  present : 0 < width
  inside : position.toNat + width ≤ 32

variable (i : Instruction) {mask position : UInt32} {width : Nat}

theorem testBit_replace (covers : Covers mask position width) (value k : Nat) :
    (i.replace mask position value).word.toNat.testBit k =
      if position.toNat ≤ k ∧ k < position.toNat + width then value.testBit (k - position.toNat)
      else i.word.toNat.testBit k := by
  obtain ⟨bits, present, inside⟩ := covers
  have covered : mask.toBitVec.getLsbD k =
      decide (position.toNat ≤ k ∧ k < position.toNat + width) := by
    rw [← BitVec.testBit_toNat, UInt32.toNat_toBitVec, bits, Nat.testBit_shiftLeft,
      Nat.testBit_two_pow_sub_one, ← Bool.decide_and]
    exact decide_eq_decide.2 (by omega)
  have distance : (position.toBitVec % 32).toNat = position.toNat := by
    rw [BitVec.toNat_umod, UInt32.toNat_toBitVec]
    exact Nat.mod_eq_of_lt (show position.toNat < 32 by omega)
  have shifted : (value.toUInt32 <<< position).toBitVec.getLsbD k =
      (decide (k < 32) && !decide (k < position.toNat) && value.testBit (k - position.toNat)) := by
    rw [UInt32.toBitVec_shiftLeft, BitVec.shiftLeft_eq', BitVec.getLsbD_shiftLeft, distance,
      Nat.toUInt32_eq, UInt32.toBitVec_ofNat', BitVec.getLsbD_ofNat]
    by_cases short : k < 32
    · simp [short, show k - position.toNat < 32 by omega]
    · simp [short]
  rw [← UInt32.toNat_toBitVec, ← UInt32.toNat_toBitVec (x := i.word), BitVec.testBit_toNat,
    BitVec.testBit_toNat, replace, UInt32.toBitVec_or, BitVec.getLsbD_or, UInt32.toBitVec_and,
    UInt32.toBitVec_and, BitVec.getLsbD_and, BitVec.getLsbD_and, UInt32.toBitVec_not,
    BitVec.getLsbD_not, covered, shifted]
  by_cases within : position.toNat ≤ k ∧ k < position.toNat + width
  · have short : k < 32 := by omega
    simp [within, short]
  · rw [if_neg within, decide_eq_false within]
    by_cases short : k < 32
    · simp [short]
    · simp [short, BitVec.getLsbD_of_ge i.word.toBitVec k (Nat.le_of_not_lt short)]

theorem replace_own (covers : Covers mask position width) (value : Nat) :
    (i.replace mask position value).word.toNat / 2 ^ position.toNat % 2 ^ width =
      value % 2 ^ width := by
  apply Nat.eq_of_testBit_eq
  intro k
  rw [Nat.testBit_mod_two_pow, Nat.testBit_div_two_pow, testBit_replace i covers,
    Nat.testBit_mod_two_pow]
  by_cases inside : k < width
  · rw [if_pos (by omega), Nat.add_sub_cancel]
  · simp [inside]

theorem replace_apart (covers : Covers mask position width) (value : Nat) {first wide : Nat}
    (apart : first + wide ≤ position.toNat ∨ position.toNat + width ≤ first) :
    (i.replace mask position value).word.toNat / 2 ^ first % 2 ^ wide =
      i.word.toNat / 2 ^ first % 2 ^ wide := by
  apply Nat.eq_of_testBit_eq
  intro k
  rw [Nat.testBit_mod_two_pow, Nat.testBit_div_two_pow, testBit_replace i covers,
    Nat.testBit_mod_two_pow, Nat.testBit_div_two_pow]
  by_cases inside : k < wide
  · rw [if_neg (by omega)]
  · simp [inside]

theorem covers_a : Covers 0x3fc0 6 8 := ⟨by decide, by decide, by decide⟩

theorem covers_b : Covers 0xff800000 23 9 := ⟨by decide, by decide, by decide⟩

theorem covers_c : Covers 0x7fc000 14 9 := ⟨by decide, by decide, by decide⟩

theorem covers_bx : Covers 0xffffc000 14 18 := ⟨by decide, by decide, by decide⟩

theorem toNat_setBx (value : Nat) :
    (i.setBx value).word.toNat = i.word.toNat % 16384 + value % 262144 * 16384 := by
  have own := replace_own i covers_bx value
  have below : 0 + 14 ≤ (14 : UInt32).toNat := by decide
  have low := replace_apart i covers_bx value (.inl below)
  have wide := (i.setBx value).word.toNat_lt
  rw [setBx] at wide ⊢
  simp only [UInt32.reduceToNat, Nat.reducePow, Nat.div_one] at own low wide
  omega

theorem opcode?_setBx (value : Nat) : (i.setBx value).opcode? = i.opcode? := by
  rw [opcode?_eq, opcode?_eq, toNat_setBx]
  congr 1
  omega

theorem a_setBx (value : Nat) : (i.setBx value).a = i.a := by
  rw [a_eq, a_eq, toNat_setBx]
  omega

theorem bx_setBx (value : Nat) : (i.setBx value).bx = value % 262144 := by
  rw [bx_eq, toNat_setBx]
  omega

theorem sbx_setSbx (offset : Int) :
    (i.setSbx offset).sbx = (offset + 131071) % 262144 - 131071 := by
  rw [sbx, setSbx, bx_setBx]
  simp only [signedExcess]
  omega

end Replacing

end Instruction

end RegisterVm
