import RegisterVm.Number.Numeral
import RegisterVm.Proofs.Number.Sums

/-!
Products of integers in doubles, and the doubles that the digits of a whole number make. Nothing is
rounded while the result is an integer that a double carries.
-/

namespace RegisterVm.Number

open Float.Model Float.Model.UnpackedFloat

variable {u v : UnpackedFloat} {f g : Float} {i j : Int}

theorem roundWithAccuracy_carries (sign : Sign) {M n : Nat} {E : Int} (small : -104 ≤ E)
    (long : 2 ^ 52 ≤ M) (carried : nearest n = n) (positive : 0 < n) (bound : n < 2 ^ 64)
    (units : M * 2 ^ (E + 104).toNat = n * 2 ^ 104) :
    Carries (roundWithAccuracy Format.binary64 sign M E .exact) (sign.apply n) := by
  have carries := carries_ofNat bound
  rw [carried] at carries
  generalize UnpackedFloat.ofNat Format.binary64 n = w at carries
  generalize whole : (n : Int) = k at carries
  cases carries with
  | zero => omega
  | @finite sign' m e _ mPositive lower upper small' large value =>
      subst whole
      have alike : m * 2 ^ (e + 52).toNat = n * 2 ^ 52 := by
        cases sign' <;> simp only [Sign.apply] at value <;> omega
      have same : M * 2 ^ (E + 104).toNat = m * 2 ^ (e + 104).toNat := by
        rw [units, show (e + 104).toNat = (e + 52).toNat + 52 by omega, Nat.pow_add,
          ← Nat.mul_assoc, alike, Nat.mul_assoc, ← Nat.pow_add]
      have wider : E ≤ e := by
        by_contra more
        have power : 2 * 2 ^ (e + 104).toNat ≤ 2 ^ (E + 104).toNat := by
          rw [← Nat.pow_succ']
          exact Nat.pow_le_pow_right (by decide) (by omega)
        have product := Nat.mul_le_mul long power
        have unit := Nat.mul_lt_mul_of_pos_right upper (Nat.two_pow_pos (e + 104).toNat)
        omega
      obtain ⟨places, rfl⟩ : ∃ places : Nat, e = E + places := ⟨(e - E).toNat, by omega⟩
      have split : M = m * 2 ^ places := by
        rw [show (E + places + 104).toNat = places + (E + 104).toNat by omega, Nat.pow_add,
          ← Nat.mul_assoc] at same
        exact Nat.eq_of_mul_eq_mul_right (Nat.two_pow_pos _) same
      have digits : m.log2 = 52 := (Nat.log2_eq_iff mPositive.ne').2 ⟨lower, upper⟩
      rw [split, roundWithAccuracy_zeros sign mPositive digits places (by omega)]
      refine .finite lower upper small' large ?_
      rw [alike, apply_mul]
      rfl

theorem apply_product (sign sign' : Sign) (a b : Int) :
    (sign * sign').apply (a * b) = sign.apply a * sign'.apply b := by
  cases sign with
  | negative =>
      cases sign' with
      | negative => exact (Int.neg_mul_neg a b).symm
      | positive => exact (Int.neg_mul a b).symm
  | positive =>
      cases sign' with
      | negative => exact (Int.mul_neg a b).symm
      | positive => rfl

/-- Two doubles are multiplied with all the digits of their mantissas. -/
theorem Carries.mul (first : Carries u i) (second : Carries v j) (bound : (i * j).natAbs ≤ 2 ^ 53) :
    Carries (UnpackedFloat.mul Format.binary64 u v) (i * j) := by
  cases first with
  | zero sign =>
      rw [Int.zero_mul]
      cases second <;> exact .zero _
  | @finite sign m e _ positive lower upper small large value =>
      cases second with
      | zero sign' =>
          rw [Int.mul_zero]
          exact .zero _
      | @finite sign' m' e' _ positive' lower' upper' small' large' value' =>
          have units : m * 2 ^ (e + 52).toNat = i.natAbs * 2 ^ 52 := by
            cases sign <;> simp only [Sign.apply] at value <;> omega
          have units' : m' * 2 ^ (e' + 52).toNat = j.natAbs * 2 ^ 52 := by
            cases sign' <;> simp only [Sign.apply] at value' <;> omega
          have product : m * m' * 2 ^ (e + e' + 104).toNat = (i * j).natAbs * 2 ^ 104 := by
            rw [show (e + e' + 104).toNat = (e + 52).toNat + (e' + 52).toNat by omega, Nat.pow_add,
              Int.natAbs_mul]
            calc m * m' * (2 ^ (e + 52).toNat * 2 ^ (e' + 52).toNat)
                = m * 2 ^ (e + 52).toNat * (m' * 2 ^ (e' + 52).toNat) := by ring
              _ = i.natAbs * j.natAbs * 2 ^ 104 := by rw [units, units']; ring
          have wide : 2 ^ 52 ≤ m * m' := Nat.le_trans lower (Nat.le_mul_of_pos_right m positive')
          have nonzero : 0 < (i * j).natAbs := by
            have some := Nat.mul_pos (Nat.mul_pos positive positive')
              (Nat.two_pow_pos (e + e' + 104).toNat)
            omega
          have whole : (sign * sign').apply (i * j).natAbs = i * j := by
            rw [Int.natAbs_mul, Int.natCast_mul, apply_product]
            congr 1
            · cases sign <;> simp only [Sign.apply] at value ⊢ <;> omega
            · cases sign' <;> simp only [Sign.apply] at value' ⊢ <;> omega
          have carries := roundWithAccuracy_carries (sign * sign') (by omega) wide
            (nearest_of_small (by rwa [Int.natAbs_natCast])) nonzero (by omega) product
          rwa [whole] at carries

theorem Carries.mul_float (first : Carries f.toModel.unpack i) (second : Carries g.toModel.unpack j)
    (bound : (i * j).natAbs ≤ 2 ^ 53) : Carries (f * g).toModel.unpack (i * j) := by
  have opened : (f * g).toModel.unpack = (Float.Model.pack (UnpackedFloat.mul Format.binary64
    f.toModel.unpack g.toModel.unpack)).unpack := rfl
  have carries := first.mul second bound
  rw [opened, carries.unpack_pack]
  exact carries

theorem carries_one : Carries (1.0 : Float).toModel.unpack 1 := by
  have opened : (1.0 : Float).toModel.unpack = .finite .positive (2 ^ 52) (-52) (by decide) := rfl
  rw [opened]
  exact .finite (Nat.le_refl _) (by decide) (by decide) (by decide) (by decide)

theorem carries_sixteen : Carries (16.0 : Float).toModel.unpack 16 := by
  have opened : (16.0 : Float).toModel.unpack = .finite .positive (2 ^ 52) (-48) (by decide) := rfl
  rw [opened]
  exact .finite (Nat.le_refl _) (by decide) (by decide) (by decide) (by decide)

theorem carries_ofScientific {n : Nat} (bound : n < 2 ^ 64) (carried : nearest n = n) :
    Carries (Float.ofScientific n false 0).toModel.unpack n := by
  rw [Float.ofScientific]
  split
  · rename_i narrow
    have carries := carries_toFloat n.toUInt64
    rw [Nat.toUInt64_eq, UInt64.toNat_ofNat', Nat.mod_eq_of_lt bound, carried] at carries
    have product := carries.mul_float carries_one (by omega)
    rw [Int.mul_one] at product
    exact product
  · rename_i wide
    have large : 2 ^ 53 ≤ n := by omega
    have opened : (⟨Float.Model.ofScientific n (Int.ofNat 0)⟩ : Float).toModel.unpack =
        (Float.Model.pack (UnpackedFloat.ofScientific Format.binary64 n 0)).unpack := rfl
    have digits : UnpackedFloat.ofScientific Format.binary64 n 0 =
        roundWithAccuracy Format.binary64 .positive (n <<< 53 * 1) (-53) .exact := by
      have range : ¬(0 : Int) < -(2 ^ Format.binary64.exponentBits + n.log2) := by
        show ¬(0 : Int) < -(2 ^ 11 + n.log2)
        omega
      rw [UnpackedFloat.ofScientific, dif_neg (by omega), if_neg (by decide), if_neg range,
        if_pos (Int.le_refl 0)]
      rfl
    have carries := roundWithAccuracy_carries .positive (M := n <<< 53 * 1) (E := -53)
      (by decide) ?_ carried (by omega) bound ?_
    · show Carries (⟨Float.Model.ofScientific n (Int.ofNat 0)⟩ : Float).toModel.unpack n
      rw [opened, digits, carries.unpack_pack]
      exact carries
    · rw [Nat.shiftLeft_eq]
      omega
    · rw [Nat.shiftLeft_eq, Nat.mul_one, Nat.mul_assoc, ← Nat.pow_add]
      rfl

theorem carries_scaleDecimal {n : Nat} (bound : n < 2 ^ 64) (carried : nearest n = n) :
    Carries (scaleDecimal n 0).toModel.unpack n := by
  rw [scaleDecimal]
  split
  · rename_i zero
    rw [eq_of_beq zero]
    exact carries_origin
  · have few : (Nat.toDigits 10 n).length ≤ 20 :=
      (Nat.length_toDigits_le_iff (by decide) (by decide)).2 (by omega)
    have size : ((Nat.toDigits 10 n).length : Int) ≤ 20 := by omega
    simp only [if_neg (show ¬400 < ((Nat.toDigits 10 n).length : Int) + 0 by omega),
      if_neg (show ¬((Nat.toDigits 10 n).length : Int) + 0 < -400 by omega), Int.le_refl, if_true]
    exact carries_ofScientific bound carried

end RegisterVm.Number
