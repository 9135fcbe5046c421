import RegisterVm.Machine.Operators
import RegisterVm.Proofs.Number.Carrying

/-!
Bit operations on two's-complement words of 64 bits, and what is left of their results in doubles. A
result is read back as it was if 53 digits are enough for it. Otherwise it has been rounded, and the
largest results have been rounded to 2^63, which is no integer of 64 bits with a sign any more.
-/

namespace RegisterVm

namespace Number

def shifted (word : BitVec 64) (distance : Int) : BitVec 64 :=
  if 0 ≤ distance then word <<< distance.toNat else word >>> (-distance).toNat

theorem toBitVec_wordOf (i : Int) : (wordOf i).toBitVec = BitVec.ofInt 64 i := by
  apply BitVec.eq_of_toNat_eq
  rw [UInt64.toNat_toBitVec, wordOf, BitVec.toNat_ofInt, UInt64.ofInt, UInt64.toNat_ofNat']
  omega

theorem signedOf_eq (w : UInt64) : signedOf w = w.toBitVec.toInt := by
  have bound := w.toNat_lt
  rw [signedOf, BitVec.toInt_eq_toNat_cond, UInt64.toNat_toBitVec]
  simp only [UInt64.lt_iff_toNat_lt, UInt64.reduceToNat]
  split <;> split <;> omega

theorem toBitVec_shift (w : UInt64) (distance : Int) :
    (shift w distance).toBitVec = shifted w.toBitVec distance := by
  rw [shift, shifted]
  split
  · rename_i far
    simp only [Bool.or_eq_true, decide_eq_true_eq] at far
    split
    · exact (BitVec.shiftLeft_eq_zero (by omega)).symm
    · exact (BitVec.ushiftRight_eq_zero (by omega)).symm
  · rename_i near
    simp only [Bool.or_eq_true, decide_eq_true_eq, not_or] at near
    split
    · apply BitVec.eq_of_toNat_eq
      simp [Nat.toUInt64, Nat.mod_eq_of_lt (by omega : distance.toNat < 64)]
    · apply BitVec.eq_of_toNat_eq
      simp [Nat.toUInt64, Nat.mod_eq_of_lt (by omega : (-distance).toNat < 64)]

/-- The result of a bit operation in 64 bits. The word of an integer is the one that it is in two's
complement, and so is the integer of a word. -/
def bitResult (op : Opcode) (x y : Int) : Int :=
  BitVec.toInt (match op with
    | .bitAnd => BitVec.ofInt 64 x &&& BitVec.ofInt 64 y
    | .bitOr => BitVec.ofInt 64 x ||| BitVec.ofInt 64 y
    | .bitXor => BitVec.ofInt 64 x ^^^ BitVec.ofInt 64 y
    | .shiftLeft => shifted (BitVec.ofInt 64 x) y
    | .shiftRight => shifted (BitVec.ofInt 64 x) (-y)
    | .bitNot => ~~~BitVec.ofInt 64 x
    | _ => 0)

theorem bitResult_bounds (op : Opcode) (x y : Int) :
    -2 ^ 63 ≤ bitResult op x y ∧ bitResult op x y < 2 ^ 63 :=
  ⟨BitVec.le_toInt _, BitVec.toInt_lt⟩

theorem bitwise?_eq {op : Opcode} (bits : isBitwise op = true) (x y : Int) :
    (bitwise? op x y).map wordNumber = some (.integer (bitResult op x y)) := by
  cases op <;> simp only [isBitwise, Bool.false_eq_true] at bits <;>
    simp [bitwise?, wordNumber, signedOf_eq, bitResult, toBitVec_wordOf, toBitVec_shift]

/-- A multiple of 53 digits, which doubles hold as it is. -/
def Exact (i : Int) : Prop := ∃ (q : Int) (e : Nat), q.natAbs ≤ 2 ^ 53 ∧ i = q * 2 ^ e

theorem nearestMultiple_close (places n : Nat) :
    2 * ((nearestMultiple places n * 2 ^ places : Nat) - n : Int).natAbs ≤ 2 ^ places := by
  have split := Nat.div_add_mod n (2 ^ places)
  have below := Nat.mod_lt n (Nat.two_pow_pos places)
  rw [nearestMultiple]
  generalize 2 ^ places = unit at *
  rw [Nat.mul_comm] at split
  split
  · omega
  · rw [Nat.add_mul, Nat.one_mul]
    omega

theorem nearest_close {i : Int} (bound : i.natAbs < 2 ^ 63) : (nearest i - i).natAbs ≤ 512 := by
  have close := nearestMultiple_close (i.natAbs.log2 - 52) i.natAbs
  have unit : 2 ^ (i.natAbs.log2 - 52) ≤ 2 ^ 10 := by
    refine Nat.pow_le_pow_right (by decide) ?_
    rcases Nat.eq_zero_or_pos i.natAbs with zero | positive
    · rw [zero]
      decide
    · have := (Nat.log2_lt positive.ne').2 bound
      omega
  rw [nearest]
  rcases Int.lt_trichotomy i 0 with negative | rfl | positive
  · rw [Int.sign_eq_neg_one_of_neg negative]
    omega
  · decide
  · rw [Int.sign_eq_one_of_pos positive]
    omega

theorem nearest_natCast_lt {n : Nat} (bound : n < 2 ^ 63) :
    nearest n ≤ 2 ^ 63 ∧ (nearest n < 2 ^ 63 ↔ (n : Int) < 2 ^ 63 - 512) := by
  by_cases small : n < 2 ^ 62
  · have close := nearest_close (i := (n : Int)) (by simpa using bound)
    omega
  · have digits : n.log2 = 62 := (Nat.log2_eq_iff (by omega)).2 ⟨by omega, bound⟩
    rw [nearest_natCast, digits, nearestMultiple]
    split <;> omega

theorem nearest_bounds {i : Int} (low : -2 ^ 63 ≤ i) (high : i < 2 ^ 63) :
    -2 ^ 63 ≤ nearest i ∧ (nearest i < 2 ^ 63 ↔ i < 2 ^ 63 - 512) := by
  rcases lt_or_ge i 0 with negative | positive
  · obtain ⟨n, rfl⟩ : ∃ n : Nat, i = -(n : Int) := ⟨i.natAbs, by omega⟩
    rw [nearest_neg]
    by_cases bottom : n = 2 ^ 63
    · subst bottom
      rw [nearest_eq_self_iff_exists.2 ⟨1, 63, by decide, by decide⟩]
      omega
    · have close := nearest_close (i := (n : Int)) (by omega)
      have := (nearest_natCast_lt (n := n) (by omega)).1
      omega
  · obtain ⟨n, rfl⟩ : ∃ n : Nat, i = n := ⟨i.natAbs, by omega⟩
    have close := nearest_close (i := (n : Int)) (by omega)
    have := (nearest_natCast_lt (n := n) (by omega)).2
    omega

/-- How the double of a 64-bit integer is read: as an integer that is at most 512 away, unless it has
been rounded to 2^63. -/
theorem toInteger_rounded {i : Int} (low : -2 ^ 63 ≤ i) (high : i < 2 ^ 63) :
    (toInteger? (ofInteger i) = if i < 2 ^ 63 - 512 then some (nearest i) else none) ∧
      (nearest i - i).natAbs ≤ 512 := by
  have carries := carries_ofInteger (i := i) (by omega)
  constructor
  · rw [carries.toInteger]
    simp only [nearest_bounds low high, true_and]
  · by_cases bottom : i = -2 ^ 63
    · rw [nearest_eq_self_iff_exists.2 ⟨-1, 63, by decide, by rw [bottom]; rfl⟩]
      omega
    · exact nearest_close (by omega)

theorem toInteger_eq_self_iff {i : Int} (low : -2 ^ 63 ≤ i) (high : i < 2 ^ 63) :
    toInteger? (ofInteger i) = some i ↔ Exact i := by
  have fits := (nearest_bounds low high).2
  rw [(toInteger_rounded low high).1, Exact, ← nearest_eq_self_iff_exists]
  constructor
  · intro read
    split at read
    · exact Option.some.inj read
    · contradiction
  · intro same
    rw [same] at fits
    rw [if_pos (fits.1 high), same]

end Number

end RegisterVm
