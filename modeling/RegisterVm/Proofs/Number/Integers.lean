import RegisterVm.Proofs.Number.Carrying

/-!
Integers held in doubles, on the way back. An integer of magnitude up to 2^53 is read from the
double that holds it, and a finite double with a fraction is read as no integer.
-/

namespace RegisterVm.Number

open Float.Model Float.Model.UnpackedFloat

/-- The number is finite and has a fraction: its mantissa is no multiple of the power of two that
it is divided by. -/
def Fractional (f : Float) : Prop :=
  ∃ sign mantissa exponent positive,
    f.toModel.unpack = .finite sign mantissa exponent positive ∧
      exponent < 0 ∧ ¬2 ^ (-exponent).toNat ∣ mantissa

theorem unpack_resigned {f : Float} {sign : Sign} {mantissa : Nat} {exponent : Int}
    {positive : 0 < mantissa} (finite : f.toModel.unpack = .finite sign mantissa exponent positive)
    (other : Sign) : (Float.Model.pack (.finite other mantissa exponent positive)).unpack =
      .finite other mantissa exponent positive := by
  obtain ⟨exponentBits, exponentEq⟩ : ∃ bits, bits =
    @unpackExponent Format.binary64 f.toModel.toBits.toBitVec := ⟨_, rfl⟩
  obtain ⟨mantissaBits, mantissaEq⟩ : ∃ bits, bits =
    @unpackMantissa Format.binary64 f.toModel.toBits.toBitVec := ⟨_, rfl⟩
  have resigned : UnpackedFloat.unpack Format.binary64
      (packComponents Format.binary64 other exponentBits mantissaBits) =
        .finite other mantissa exponent positive ∧ exponentBits ≠ -1#_ := by
    rw [Float.Model.unpack, UnpackedFloat.unpack] at finite
    simp only [← exponentEq, ← mantissaEq] at finite
    rw [UnpackedFloat.unpack]
    simp only [unpackExponent_packComponents, unpackMantissa_packComponents,
      unpackSign_packComponents, Sign.ofBitVec_toBitVec]
    split at finite
    · split at finite <;> contradiction
    · rename_i notTop
      refine ⟨?_, notTop⟩
      rw [if_neg notTop]
      split at finite
      · rename_i bottom
        rw [if_pos bottom]
        split at finite
        · contradiction
        · rename_i nonzero
          rw [dif_neg nonzero]
          obtain ⟨-, rfl, rfl⟩ := UnpackedFloat.finite.inj finite
          rfl
      · rename_i notBottom
        rw [if_neg notBottom]
        obtain ⟨-, rfl, rfl⟩ := UnpackedFloat.finite.inj finite
        rfl
  have real : ¬isNaNBits (packComponents Format.binary64 other exponentBits mantissaBits) = true := by
    rw [isNaNBits, decide_eq_true_iff, unpackExponent_packComponents]
    exact fun top => resigned.2 top.1
  have packed := pack_unpack (packComponents Format.binary64 other exponentBits mantissaBits)
  rw [resigned.1, if_neg real] at packed
  rw [Float.Model.unpack, Float.Model.pack]
  simp only [packed, resigned.1]

theorem unpack_abs {f : Float} {sign : Sign} {mantissa : Nat} {exponent : Int}
    {positive : 0 < mantissa} (finite : f.toModel.unpack = .finite sign mantissa exponent positive) :
    f.abs.toModel.unpack = .finite .positive mantissa exponent positive := by
  have opened : f.abs.toModel.unpack = (Float.Model.pack f.toModel.unpack.abs).unpack := rfl
  rw [opened, finite]
  exact unpack_resigned finite .positive

theorem fractional_finite {f : Float} (fractional : Fractional f) :
    f.isNaN = false ∧ f.isInf = false := by
  obtain ⟨sign, mantissa, exponent, positive, finite, -⟩ := fractional
  have nan : f.isNaN = f.toModel.unpack.isNaN := rfl
  have infinite : f.isInf = f.toModel.unpack.isInf := rfl
  rw [nan, infinite, finite]
  exact ⟨rfl, rfl⟩

theorem Fractional.not_carries {f : Float} (fractional : Fractional f) (i : Int) :
    ¬Carries f.abs.toModel.unpack i := by
  obtain ⟨sign, mantissa, exponent, positive, finite, below, odd⟩ := fractional
  rw [unpack_abs finite]
  intro carries
  cases carries with
  | finite lower upper small large value =>
      simp only [Sign.apply] at value
      refine odd ⟨i.toNat, ?_⟩
      have power : 2 ^ 52 = 2 ^ (-exponent).toNat * 2 ^ (exponent + 52).toNat := by
        rw [← Nat.pow_add]
        congr 1
        omega
      have scaled : mantissa * 2 ^ (exponent + 52).toNat = i.toNat * 2 ^ 52 := by omega
      rw [power, ← Nat.mul_assoc, Nat.mul_comm i.toNat] at scaled
      exact Nat.eq_of_mul_eq_mul_right (Nat.two_pow_pos _) scaled

theorem toInteger_fractional {f : Float} (fractional : Fractional f) : toInteger? f = none := by
  have different (word : UInt64) : (word.toFloat == f.abs) = false := by
    rw [Bool.eq_false_iff]
    exact fun equal => fractional.not_carries _ ((carries_toFloat word).of_beq equal)
  simp [toInteger?, different]

theorem toInteger_ofInteger {i : Int} (bound : i.natAbs ≤ 2 ^ 53) :
    toInteger? (ofInteger i) = some i := by
  have carries := carries_ofInteger (i := i) (by omega)
  rw [nearest_of_small bound] at carries
  rw [carries.toInteger, if_pos (by omega)]

end RegisterVm.Number
