import Mathlib

/-!
How numbers are rounded to doubles. The mantissa of a double has 53 digits. A number that so many
are enough for is kept, however it is written, and a wider one becomes the nearest multiple of the
power of two that leaves 53 digits, the even one of two.
-/

namespace RegisterVm.Number

open Float.Model Float.Model.UnpackedFloat

theorem unpack_pack_normal (sign : Sign) {mantissa : Nat} {exponent : Int} (positive : 0 < mantissa)
    (lower : 2 ^ 52 ≤ mantissa) (upper : mantissa < 2 ^ 53)
    (small : -52 ≤ exponent) (large : exponent ≤ 13) :
    (Float.Model.pack (.finite sign mantissa exponent positive)).unpack =
      .finite sign mantissa exponent positive := by
  have digits : mantissa.log2 = 52 := (Nat.log2_eq_iff positive.ne').2 ⟨lower, upper⟩
  obtain ⟨biased, biasedEq⟩ : ∃ biased : Nat, exponent = (biased : Int) - 1075 :=
    ⟨(exponent + 1075).toNat, by omega⟩
  have packed : UnpackedFloat.pack Format.binary64 (.finite sign mantissa exponent positive) =
      packComponents Format.binary64 sign (BitVec.ofNat 11 biased)
        (BitVec.ofNat 52 mantissa) := by
    have bias : (exponent + Format.binary64.exponentBias +
        Format.binary64.mantissaBitsWithoutImplicit).toNat = biased := by
      simp only [Format.exponentBias]
      omega
    rw [UnpackedFloat.pack]
    simp only [digits, bias]
    rw [if_neg (by omega), if_pos (by simp [Format.mantissaBits])]
  have notTop : BitVec.ofNat 11 biased ≠ -1#11 := by
    intro equal
    have := congrArg BitVec.toNat equal
    simp at this
    omega
  have notBottom : BitVec.ofNat 11 biased ≠ 0#11 := by
    intro equal
    have := congrArg BitVec.toNat equal
    simp at this
    omega
  have mantissaEq : (1#1 ++ BitVec.ofNat 52 mantissa).toNat = mantissa := by
    rw [BitVec.toNat_append, ← Nat.shiftLeft_add_eq_or_of_lt (BitVec.isLt _)]
    simp [Nat.shiftLeft_eq]
    omega
  rw [Float.Model.unpack, Float.Model.pack]
  simp only [packed]
  rw [UnpackedFloat.unpack]
  simp only [unpackExponent_packComponents, unpackMantissa_packComponents,
    unpackSign_packComponents]
  rw [if_neg notTop, if_neg notBottom]
  congr 1
  · rw [Sign.ofBitVec_toBitVec]
  · have : biased % 2048 = biased := Nat.mod_eq_of_lt (by omega)
    simp [Format.exponentBias, this]
    omega

/-- What is left of `n` without its last binary places; the two bits tell which part of a unit is
gone. -/
structure Cut (n places : Nat) (extended : ExtendedMantissa) : Prop where
  mantissa : extended.mantissa = n / 2 ^ places
  gone : match extended.roundBit, extended.stickyBit with
    | false, false => n % 2 ^ places = 0
    | false, true => 0 < n % 2 ^ places ∧ 2 * (n % 2 ^ places) < 2 ^ places
    | true, false => 2 * (n % 2 ^ places) = 2 ^ places
    | true, true => 2 ^ places < 2 * (n % 2 ^ places)

theorem Cut.shiftRightOne {n places : Nat} {extended : ExtendedMantissa}
    (cut : Cut n places extended) : Cut n (places + 1) extended.shiftRightOne := by
  obtain ⟨mantissa, round, sticky⟩ := extended
  obtain ⟨whole, gone⟩ := cut
  simp only at whole gone
  have rest := Nat.mod_pow_succ (x := n) (b := 2) (k := places)
  have unit := Nat.two_pow_pos places
  have below := Nat.mod_lt n unit
  have power : 2 ^ (places + 1) = 2 * 2 ^ places := by rw [Nat.pow_succ, Nat.mul_comm]
  refine ⟨?_, ?_⟩
  · simp only [ExtendedMantissa.shiftRightOne, whole]
    rw [Nat.div_div_eq_div_mul, ← Nat.pow_succ]
  · simp only [ExtendedMantissa.shiftRightOne, whole]
    rw [rest, power]
    rcases Nat.mod_two_eq_zero_or_one (n / 2 ^ places) with even | odd
    · rw [even]
      cases round <;> cases sticky <;> simp only [] at gone ⊢ <;> simp <;> omega
    · rw [odd]
      cases round <;> cases sticky <;> simp only [] at gone ⊢ <;> simp <;> omega

theorem cut_shiftRight (n places : Nat) :
    Cut n places ((⟨n, false, false⟩ : ExtendedMantissa) >>> places) := by
  show Cut n places (Nat.repeat ExtendedMantissa.shiftRightOne places ⟨n, false, false⟩)
  induction places with
  | zero => exact ⟨by simp [Nat.repeat], by simp [Nat.repeat, Nat.mod_one]⟩
  | succ places ih => exact ih.shiftRightOne

/-- The multiples of `2 ^ places` counted up to the one nearest to `n`, the even one of two. -/
def nearestMultiple (places n : Nat) : Nat :=
  if 2 * (n % 2 ^ places) < 2 ^ places ∨
      2 * (n % 2 ^ places) = 2 ^ places ∧ n / 2 ^ places % 2 = 0 then n / 2 ^ places
  else n / 2 ^ places + 1

theorem Cut.rounded {n places : Nat} {extended : ExtendedMantissa} (cut : Cut n places extended) :
    extended.roundedMantissa = nearestMultiple places n := by
  obtain ⟨mantissa, round, sticky⟩ := extended
  obtain ⟨whole, gone⟩ := cut
  simp only at whole gone
  subst whole
  have unit := Nat.two_pow_pos places
  rw [nearestMultiple]
  cases round <;> cases sticky <;> simp only [ExtendedMantissa.roundedMantissa,
    ExtendedMantissa.accuracy, Accuracy.roundToNearestEven] at gone ⊢
  · rw [if_pos (by omega)]
  · rw [if_pos (by omega)]
  · split <;> omega
  · rw [if_neg (by omega)]

def surplus (mantissa : Nat) (exponent : Int) : Nat :=
  (max ((mantissa.log2 : Int) - 52 + exponent) (-1074) - exponent).toNat

theorem shiftToTargetExponent_exact (mantissa : Nat) (exponent : Int) :
    shiftToTargetExponent Format.binary64 mantissa exponent .exact =
      ((⟨mantissa, false, false⟩ : ExtendedMantissa) >>> surplus mantissa exponent,
        exponent + surplus mantissa exponent) := by
  have target : Format.binary64.targetExponent (totalExponent mantissa exponent) =
      max ((mantissa.log2 : Int) - 52 + exponent) (-1074) := by
    simp only [Format.targetExponent, totalExponent, Format.mantissaBits, Format.minExponent]
    omega
  simp only [shiftToTargetExponent, target, shiftToExponent,
    ExtendedMantissa.ofMantissaAndAccuracy, surplus]

theorem roundWithAccuracy_canonical (sign : Sign) {mantissa : Nat} {exponent : Int}
    (positive : 0 < mantissa) (digits : mantissa.log2 = 52) (small : -1074 ≤ exponent) :
    roundWithAccuracy Format.binary64 sign mantissa exponent .exact =
      .finite sign mantissa exponent positive := by
  have stays : surplus mantissa exponent = 0 := by
    simp only [surplus]
    omega
  have kept : ((⟨mantissa, false, false⟩ : ExtendedMantissa) >>> 0) =
    ⟨mantissa, false, false⟩ := rfl
  have rounded : (⟨mantissa, false, false⟩ : ExtendedMantissa).roundedMantissa = mantissa := rfl
  simp [roundWithAccuracy, shiftToTargetExponent_exact, stays, kept, rounded, positive.ne']

theorem target_eq (mantissa : Nat) (exponent : Int) (small : -1074 ≤ (mantissa.log2 : Int) - 52 + exponent) :
    Format.binary64.targetExponent (totalExponent mantissa exponent) =
      (mantissa.log2 : Int) - 52 + exponent := by
  simp only [Format.targetExponent, totalExponent, Format.mantissaBits, Format.minExponent]
  omega

theorem log2_mul (n : Nat) (positive : 0 < n) (places : Nat) :
    (n * 2 ^ places).log2 = n.log2 + places := by
  have product : n * 2 ^ places ≠ 0 := (Nat.mul_pos positive (Nat.two_pow_pos _)).ne'
  rw [Nat.log2_eq_iff product, Nat.pow_add, Nat.add_right_comm, Nat.pow_add]
  exact ⟨Nat.mul_le_mul_right _ (Nat.log2_self_le positive.ne'),
    Nat.mul_lt_mul_of_pos_right Nat.lt_log2_self (Nat.two_pow_pos _)⟩

theorem roundWithAccuracy_zeros (sign : Sign) {mantissa : Nat} {exponent : Int}
    (positive : 0 < mantissa) (digits : mantissa.log2 = 52) (places : Nat)
    (small : -1074 ≤ exponent + places) :
    roundWithAccuracy Format.binary64 sign (mantissa * 2 ^ places) exponent .exact =
      .finite sign mantissa (exponent + places) positive := by
  have first : surplus (mantissa * 2 ^ places) exponent = places := by
    simp only [surplus, log2_mul mantissa positive places]
    omega
  have cut := cut_shiftRight (mantissa * 2 ^ places) places
  have rounded : ((⟨mantissa * 2 ^ places, false, false⟩ : ExtendedMantissa) >>>
      places).roundedMantissa = mantissa := by
    rw [cut.rounded, nearestMultiple, Nat.mul_mod_left, if_pos (.inl (Nat.two_pow_pos _)),
      Nat.mul_div_cancel _ (Nat.two_pow_pos _)]
  have second : surplus mantissa (exponent + places) = 0 := by
    simp only [surplus]
    omega
  have kept : ((⟨mantissa, false, false⟩ : ExtendedMantissa) >>> 0).mantissa = mantissa := rfl
  simp [roundWithAccuracy, shiftToTargetExponent_exact, first, rounded, second, kept, positive.ne']

/-- A number that 53 digits are enough for is not changed by rounding, however it is written. -/
theorem round_exact (sign : Sign) {m M : Nat} {e E : Int} (lower : 2 ^ 52 ≤ m) (upper : m < 2 ^ 53)
    (small : -52 ≤ e) (small' : -52 ≤ E)
    (same : M * 2 ^ (E + 52).toNat = m * 2 ^ (e + 52).toNat) :
    UnpackedFloat.round Format.binary64 sign M E =
      .finite sign m e (Nat.lt_of_lt_of_le (Nat.two_pow_pos 52) lower) := by
  have positive : 0 < m := Nat.lt_of_lt_of_le (Nat.two_pow_pos 52) lower
  have digits : m.log2 = 52 := (Nat.log2_eq_iff positive.ne').2 ⟨lower, upper⟩
  rcases Int.le_total e E with shorter | longer
  · obtain ⟨places, rfl⟩ : ∃ places : Nat, E = e + places := ⟨(E - e).toNat, by omega⟩
    have filled : M * 2 ^ places = m := by
      rw [show (e + places + 52).toNat = places + (e + 52).toNat by omega, Nat.pow_add,
        ← Nat.mul_assoc] at same
      exact Nat.eq_of_mul_eq_mul_right (Nat.two_pow_pos _) same
    have nonzero : 0 < M := Nat.pos_of_ne_zero fun zero => by simp [zero] at filled; omega
    have total : 52 = M.log2 + places := by
      have := log2_mul M nonzero places
      rw [← digits, ← filled, this]
    have target := target_eq M (e + places) (by omega)
    rw [UnpackedFloat.round, target]
    simp only [decreaseExponent, show (e + places - ((M.log2 : Int) - 52 + (e + places))).toNat =
      places by omega, Nat.shiftLeft_eq, filled, Int.add_sub_cancel]
    exact roundWithAccuracy_canonical sign positive digits (by omega)
  · obtain ⟨places, rfl⟩ : ∃ places : Nat, e = E + places := ⟨(e - E).toNat, by omega⟩
    have split : M = m * 2 ^ places := by
      rw [show (E + places + 52).toNat = places + (E + 52).toNat by omega, Nat.pow_add,
        ← Nat.mul_assoc] at same
      exact Nat.eq_of_mul_eq_mul_right (Nat.two_pow_pos _) same
    have long := log2_mul m positive places
    rw [← split, digits] at long
    have target := target_eq M E (by omega)
    rw [UnpackedFloat.round, target]
    simp only [decreaseExponent, show (E - ((M.log2 : Int) - 52 + E)).toNat = 0 by omega,
      Nat.shiftLeft_zero, Int.natCast_zero, Int.sub_zero]
    rw [split]
    exact roundWithAccuracy_zeros sign positive digits places (by omega)

/-- A number of more than 53 digits is rounded to the nearest one with zeros behind them. -/
theorem round_nearest {n excess : Nat} (digits : n.log2 = excess + 52) :
    ∃ m e positive, UnpackedFloat.round Format.binary64 .positive n 0 = .finite .positive m e positive ∧
      2 ^ 52 ≤ m ∧ m < 2 ^ 53 ∧ (excess : Int) ≤ e ∧ e ≤ excess + 1 ∧
      m * 2 ^ (e + 52).toNat = nearestMultiple excess n * 2 ^ excess * 2 ^ 52 := by
  have nonzero : n ≠ 0 := by
    rintro rfl
    simp at digits
  have low : 2 ^ 52 ≤ n / 2 ^ excess := by
    rw [Nat.le_div_iff_mul_le (Nat.two_pow_pos _), ← Nat.pow_add, Nat.add_comm, ← digits]
    exact Nat.log2_self_le nonzero
  have high : n / 2 ^ excess < 2 ^ 53 := by
    rw [Nat.div_lt_iff_lt_mul (Nat.two_pow_pos _), ← Nat.pow_add,
      show 53 + excess = n.log2 + 1 by omega]
    exact Nat.lt_log2_self
  have bounds : n / 2 ^ excess ≤ nearestMultiple excess n ∧
      nearestMultiple excess n ≤ n / 2 ^ excess + 1 := by
    rw [nearestMultiple]
    split <;> omega
  obtain ⟨rounded, equal⟩ : ∃ rounded, nearestMultiple excess n = rounded := ⟨_, rfl⟩
  have nearest := (cut_shiftRight n excess).rounded.trans equal
  rw [equal] at bounds ⊢
  have first : surplus n 0 = excess := by
    simp only [surplus]
    omega
  have target := target_eq n 0 (by omega)
  rw [UnpackedFloat.round, target]
  simp only [decreaseExponent, show (0 - ((n.log2 : Int) - 52 + 0)).toNat = 0 by omega,
    Nat.shiftLeft_zero, Int.natCast_zero, Int.sub_zero, roundWithAccuracy,
    shiftToTargetExponent_exact, first, nearest, Int.zero_add]
  -- Rounding up may fill the mantissa, which then has one digit too many, a zero.
  by_cases full : rounded = 2 ^ 53
  · subst full
    have second : surplus (2 ^ 53) excess = 1 := by
      simp only [surplus, Nat.log2_two_pow]
      omega
    have halved : ((⟨2 ^ 53, false, false⟩ : ExtendedMantissa) >>> 1).mantissa = 2 ^ 52 := rfl
    refine ⟨2 ^ 52, excess + 1, by decide, ?_, by decide, by decide, by omega, by omega, ?_⟩
    · simp only [second, halved]
      rfl
    · rw [show ((excess : Int) + 1 + 52).toNat = 1 + excess + 52 by omega, Nat.pow_add 2 (1 + excess),
        Nat.pow_add 2 1, ← Nat.mul_assoc, ← Nat.mul_assoc]
      rfl
  · have positive : 0 < rounded := by omega
    have second : surplus rounded excess = 0 := by
      have : rounded.log2 = 52 := (Nat.log2_eq_iff positive.ne').2 ⟨by omega, by omega⟩
      simp only [surplus]
      omega
    have kept : ((⟨rounded, false, false⟩ : ExtendedMantissa) >>> 0).mantissa = rounded := rfl
    refine ⟨rounded, excess, positive, ?_, by omega, by omega, by omega, by omega, ?_⟩
    · simp [second, kept, positive.ne']
    · rw [show ((excess : Int) + 52).toNat = excess + 52 by omega, Nat.pow_add, ← Nat.mul_assoc]

theorem ofNat_eq_round {n : Nat} (positive : 0 < n) : UnpackedFloat.ofNat Format.binary64 n =
    UnpackedFloat.round Format.binary64 .positive n 0 := by
  have greater : compare (n : Int) 0 = .gt := by
    rw [Int.compare_eq_gt]
    omega
  rw [UnpackedFloat.ofNat, UnpackedFloat.ofInt, UnpackedFloat.normalize]
  simp only [greater, Int.toNat_natCast]

end RegisterVm.Number
