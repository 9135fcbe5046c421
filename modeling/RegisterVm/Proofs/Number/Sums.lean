import RegisterVm.Proofs.Number.Carrying

/-!
Sums and differences of integers in doubles. Nothing is rounded while the result stays within 2^53,
and where two numbers cancel the result is the zero without a sign.
-/

namespace RegisterVm.Number

open Float.Model Float.Model.UnpackedFloat

variable {u v : UnpackedFloat} {f g : Float} {i j : Int}

theorem apply_mul (sign : Sign) (a b : Nat) :
    sign.apply (a * b : Nat) = sign.apply (a : Nat) * (b : Nat) := by
  cases sign <;> simp [Sign.apply]

theorem round_carries (sign : Sign) {K n : Nat} {E : Int} (small : -52 ≤ E) (positive : 0 < n)
    (bound : n ≤ 2 ^ 53) (units : K * 2 ^ (E + 52).toNat = n * 2 ^ 52) :
    Carries (UnpackedFloat.round Format.binary64 sign K E) (sign.apply n) := by
  have carries := carries_ofNat (n := n) (by omega)
  rw [nearest_of_small (by simpa using bound)] at carries
  generalize UnpackedFloat.ofNat Format.binary64 n = w at carries
  generalize whole : (n : Int) = k at carries
  cases carries with
  | zero => omega
  | @finite sign' m e _ mPositive lower upper small' large value =>
      subst whole
      have alike : m * 2 ^ (e + 52).toNat = n * 2 ^ 52 := by
        cases sign' <;> simp only [Sign.apply] at value <;> omega
      rw [round_exact sign lower upper small' small (units.trans alike.symm)]
      refine .finite lower upper small' large ?_
      rw [alike, apply_mul]
      rfl

theorem normalize_carries {M E n : Int} (small : -52 ≤ E) (bound : n.natAbs ≤ 2 ^ 53)
    (units : M * 2 ^ (E + 52).toNat = n * 2 ^ 52) :
    Carries (UnpackedFloat.normalize Format.binary64 M E .positive) n := by
  have unit : (0 : Int) < 2 ^ (E + 52).toNat := Int.pow_pos (by decide)
  have magnitude : M.natAbs * 2 ^ (E + 52).toNat = n.natAbs * 2 ^ 52 := by
    simpa [Int.natAbs_mul, Int.natAbs_pow] using congrArg Int.natAbs units
  rw [UnpackedFloat.normalize]
  rcases Int.lt_trichotomy M 0 with below | rfl | above
  · have negative : n < 0 := by
      have := Int.mul_neg_of_neg_of_pos below unit
      omega
    have carries := round_carries .negative small (by omega) bound magnitude
    rw [Sign.apply, show -(n.natAbs : Int) = n by omega] at carries
    rw [Int.compare_eq_lt.2 below]
    show Carries (UnpackedFloat.round _ _ (-M).toNat E) n
    rwa [show (-M).toNat = M.natAbs by omega]
  · obtain rfl : n = 0 := by omega
    exact .zero _
  · have positive : 0 < n := by
      have := Int.mul_pos above unit
      omega
    have carries := round_carries .positive small (by omega) bound magnitude
    rw [Sign.apply, show (n.natAbs : Int) = n by omega] at carries
    rw [Int.compare_eq_gt.2 above]
    show Carries (UnpackedFloat.round _ _ M.toNat E) n
    rwa [show M.toNat = M.natAbs by omega]

namespace Carries

theorem add (first : Carries u i) (second : Carries v j) (bound : (i + j).natAbs ≤ 2 ^ 53) :
    Carries (UnpackedFloat.add Format.binary64 u v) (i + j) := by
  have shifted (sign : Sign) (m : Nat) {e E : Int} (small : -52 ≤ E) (above : E ≤ e) :
      sign.apply (m <<< (e - E).toNat : Nat) * 2 ^ (E + 52).toNat =
        sign.apply (m * 2 ^ (e + 52).toNat : Nat) := by
    have power : (2 : Int) ^ (E + 52).toNat = (2 ^ (E + 52).toNat : Nat) := by push_cast; rfl
    rw [power, ← apply_mul, Nat.shiftLeft_eq, Nat.mul_assoc, ← Nat.pow_add,
      show (e - E).toNat + (E + 52).toNat = (e + 52).toNat by omega]
  cases first with
  | zero sign =>
      cases second with
      | zero sign' =>
          simp only [UnpackedFloat.add]
          split <;> exact .zero _
      | finite lower' upper' small' large' value' =>
          rw [Int.zero_add]
          exact .finite lower' upper' small' large' value'
  | @finite sign m e _ positive lower upper small large value =>
      cases second with
      | zero sign' =>
          rw [Int.add_zero]
          exact .finite lower upper small large value
      | @finite sign' m' e' _ positive' lower' upper' small' large' value' =>
          have smaller : -52 ≤ min e e' := Int.le_min.2 ⟨small, small'⟩
          refine normalize_carries smaller bound ?_
          rw [Int.add_mul, shifted sign m smaller (Int.min_le_left _ _),
            shifted sign' m' smaller (Int.min_le_right _ _), value, value', Int.add_mul]

theorem add_cancel (first : Carries u i) (second : Carries v (-i)) (nonzero : i ≠ 0) :
    UnpackedFloat.add Format.binary64 u v = .zero .positive := by
  obtain rfl := first.neg.unique second (by omega)
  cases first with
  | zero => exact absurd rfl nonzero
  | @finite sign m e _ positive lower upper small large value =>
      simp only [UnpackedFloat.neg, UnpackedFloat.add, apply_neg, Int.add_right_neg]
      rfl

end Carries

theorem sub_eq_add_neg (u v : UnpackedFloat) :
    UnpackedFloat.sub Format.binary64 u v = UnpackedFloat.add Format.binary64 u v.neg := by
  have twice (sign : Sign) : - -sign = sign := by cases sign <;> rfl
  cases u <;> cases v <;>
    grind [UnpackedFloat.sub, UnpackedFloat.add, UnpackedFloat.neg, apply_neg]

section Floats

variable (first : Carries f.toModel.unpack i) (second : Carries g.toModel.unpack j)

include first second

theorem Carries.add_float (bound : (i + j).natAbs ≤ 2 ^ 53) :
    Carries (f + g).toModel.unpack (i + j) := by
  have opened : (f + g).toModel.unpack = (Float.Model.pack (UnpackedFloat.add Format.binary64
    f.toModel.unpack g.toModel.unpack)).unpack := rfl
  have carries := first.add second bound
  rw [opened, carries.unpack_pack]
  exact carries

theorem Carries.sub_float (bound : (i - j).natAbs ≤ 2 ^ 53) :
    Carries (f - g).toModel.unpack (i - j) := by
  have opened : (f - g).toModel.unpack = (Float.Model.pack (UnpackedFloat.sub Format.binary64
    f.toModel.unpack g.toModel.unpack)).unpack := rfl
  have carries := first.add second.neg bound
  rw [opened, sub_eq_add_neg, carries.unpack_pack]
  exact carries

theorem add_eq_ofInteger (bound : (i + j).natAbs ≤ 2 ^ 53) (nonzero : j ≠ 0) :
    f + g = ofInteger (i + j) := by
  by_cases cancels : i + j = 0
  · obtain rfl : j = -i := by omega
    have opened : (f + g).toModel.unpack = (Float.Model.pack (UnpackedFloat.add Format.binary64
      f.toModel.unpack g.toModel.unpack)).unpack := rfl
    rw [first.add_cancel second (by omega)] at opened
    rw [cancels]
    exact eq_of_unpack opened
  · exact (first.add_float second bound).eq_ofInteger (by omega) cancels

end Floats

end RegisterVm.Number
