import RegisterVm.Number.Integer
import RegisterVm.Proofs.Number.Rounding

/-!
The integers that doubles carry. The double made of an integer carries the integer itself up to 2^53
and otherwise the nearest one that 53 digits and zeros behind them are enough for. A double is read as
the integer that it carries, if that fits 64 bits, and doubles compare as the integers do that they
carry.
-/

namespace RegisterVm.Number

open Float.Model Float.Model.UnpackedFloat

theorem eq_of_unpack {f g : Float} (equal : f.toModel.unpack = g.toModel.unpack) : f = g := by
  have bits := (unpack_inj_of_valid f.toModel.valid g.toModel.valid).1 equal
  obtain ⟨⟨⟨left⟩, leftValid⟩⟩ := f
  obtain ⟨⟨⟨right⟩, rightValid⟩⟩ := g
  simp only at bits
  subst bits
  rfl

theorem le_iff_unpack (a b : Float) : a ≤ b ↔ a.toModel.unpack.le b.toModel.unpack = true :=
  decide_eq_true_iff (p := a.toModel ≤ b.toModel)

theorem lt_iff_unpack (a b : Float) : a < b ↔ a.toModel.unpack.lt b.toModel.unpack = true :=
  decide_eq_true_iff (p := a.toModel < b.toModel)

/-- The integer that the double nearest to `i` carries. -/
def nearest (i : Int) : Int :=
  i.sign * (nearestMultiple (i.natAbs.log2 - 52) i.natAbs * 2 ^ (i.natAbs.log2 - 52) : Nat)

/-- The double is the integer `i`, with 53 digits in its mantissa unless it is zero. Both sides are
counted in the last digits of the doubles next to one. -/
inductive Carries : UnpackedFloat → Int → Prop where
  | zero (sign : Sign) : Carries (.zero sign) 0
  | finite {sign : Sign} {mantissa : Nat} {exponent i : Int} {positive : 0 < mantissa}
      (lower : 2 ^ 52 ≤ mantissa) (upper : mantissa < 2 ^ 53) (small : -52 ≤ exponent)
      (large : exponent ≤ 12)
      (value : sign.apply (mantissa * 2 ^ (exponent + 52).toNat : Nat) = i * 2 ^ 52) :
      Carries (.finite sign mantissa exponent positive) i

theorem apply_neg (sign : Sign) (n : Int) : (-sign).apply n = -sign.apply n := by
  cases sign with
  | negative => exact (Int.neg_neg n).symm
  | positive => rfl

namespace Carries

variable {u v : UnpackedFloat} {f g : Float} {i j : Int}

theorem neg (carries : Carries u i) : Carries u.neg (-i) := by
  cases carries with
  | zero sign => exact .zero _
  | @finite sign m e _ positive lower upper small large value =>
      refine .finite lower upper small large ?_
      rw [apply_neg, value, Int.neg_mul]

theorem abs (carries : Carries u i) : Carries u.abs i.natAbs := by
  cases carries with
  | zero sign => exact .zero _
  | @finite sign m e _ positive lower upper small large value =>
      refine .finite lower upper small large ?_
      cases sign <;> simp only [Sign.apply] at value ⊢ <;> omega

theorem unpack_pack (carries : Carries u i) : (Float.Model.pack u).unpack = u := by
  cases carries with
  | zero sign => cases sign <;> rfl
  | finite lower upper small large => exact unpack_pack_normal _ _ lower upper small (by omega)

theorem neg_float (carries : Carries f.toModel.unpack i) : Carries (-f).toModel.unpack (-i) := by
  have opened : (-f).toModel.unpack = (Float.Model.pack f.toModel.unpack.neg).unpack := rfl
  rw [opened, carries.neg.unpack_pack]
  exact carries.neg

theorem abs_float (carries : Carries f.toModel.unpack i) :
    Carries f.abs.toModel.unpack i.natAbs := by
  have opened : f.abs.toModel.unpack = (Float.Model.pack f.toModel.unpack.abs).unpack := rfl
  rw [opened, carries.abs.unpack_pack]
  exact carries.abs

theorem unique (first : Carries u i) (second : Carries v i) (nonzero : i ≠ 0) : u = v := by
  cases first with
  | zero => exact absurd rfl nonzero
  | @finite sign m e _ positive lower upper small large value =>
      cases second with
      | zero => exact absurd rfl nonzero
      | @finite sign' m' e' _ positive' lower' upper' small' large' value' =>
          have units : 0 < m * 2 ^ (e + 52).toNat := Nat.mul_pos positive (Nat.two_pow_pos _)
          have units' : 0 < m' * 2 ^ (e' + 52).toNat := Nat.mul_pos positive' (Nat.two_pow_pos _)
          have signs : sign = sign' := by
            cases sign <;> cases sign' <;> simp only [Sign.apply] at value value' ⊢ <;> omega
          subst signs
          have same : m * 2 ^ (e + 52).toNat = m' * 2 ^ (e' + 52).toNat := by
            cases sign <;> simp only [Sign.apply] at value value' <;> omega
          have exact := round_exact sign lower upper small small rfl
          rw [round_exact sign lower' upper' small' small same] at exact
          exact exact.symm

theorem compare_alike {x y : Nat} {i j : Int} (less : x < y ↔ i < j) (greater : y < x ↔ j < i) :
    Ord.compare x y = Ord.compare i j := by
  rcases Int.lt_trichotomy i j with order | rfl | order
  · rw [Int.compare_eq_lt.2 order, Nat.compare_eq_lt.2 (less.2 order)]
  · rw [Int.compare_eq_eq.2 rfl, Nat.compare_eq_eq.2 (by omega)]
  · rw [Int.compare_eq_gt.2 order, Nat.compare_eq_gt.2 (greater.2 order)]

theorem compare_units {m m' : Nat} {e e' : Int} (lower : 2 ^ 52 ≤ m) (upper : m < 2 ^ 53)
    (small : -52 ≤ e) (lower' : 2 ^ 52 ≤ m') (upper' : m' < 2 ^ 53) (small' : -52 ≤ e') :
    (Ord.compare e e').then (Ord.compare m m') =
      Ord.compare (m * 2 ^ (e + 52).toNat) (m' * 2 ^ (e' + 52).toNat) := by
  have larger {m m' : Nat} {e e' : Int} (lower : 2 ^ 52 ≤ m') (upper : m < 2 ^ 53)
      (small : -52 ≤ e) (less : e < e') :
      m * 2 ^ (e + 52).toNat < m' * 2 ^ (e' + 52).toNat := by
    have power : 2 * 2 ^ (e + 52).toNat ≤ 2 ^ (e' + 52).toNat := by
      rw [← Nat.pow_succ']
      exact Nat.pow_le_pow_right (by decide) (by omega)
    calc m * 2 ^ (e + 52).toNat < 2 ^ 53 * 2 ^ (e + 52).toNat :=
          Nat.mul_lt_mul_of_pos_right upper (Nat.two_pow_pos _)
      _ = 2 ^ 52 * (2 * 2 ^ (e + 52).toNat) := by rw [← Nat.mul_assoc, ← Nat.pow_succ]
      _ ≤ m' * 2 ^ (e' + 52).toNat := Nat.mul_le_mul lower power
  rcases Int.lt_trichotomy e e' with less | rfl | greater
  · rw [Int.compare_eq_lt.2 less, Nat.compare_eq_lt.2 (larger lower' upper small less)]
    rfl
  · have unit : 0 < 2 ^ (e + 52).toNat := Nat.two_pow_pos _
    rw [Int.compare_eq_eq.2 rfl]
    show Ord.compare m m' = _
    rw [compare_alike (i := m) (j := m') (by omega) (by omega)]
    exact (compare_alike (by rw [Nat.mul_lt_mul_right unit]; omega)
      (by rw [Nat.mul_lt_mul_right unit]; omega)).symm
  · rw [Int.compare_eq_gt.2 greater, Nat.compare_eq_gt.2 (larger lower upper' small' greater)]
    rfl

theorem compare_eq (first : Carries u i) (second : Carries v j) :
    u.compare v = some (Ord.compare i j) := by
  cases first with
  | zero sign =>
      cases second with
      | zero sign' => rfl
      | @finite sign' m' e' _ positive' lower' upper' small' large' value' =>
          have units' : 0 < m' * 2 ^ (e' + 52).toNat := Nat.mul_pos positive' (Nat.two_pow_pos _)
          cases sign' <;> simp only [Sign.apply] at value' <;>
            simp only [UnpackedFloat.compare, Option.some.injEq]
          · exact (Int.compare_eq_gt.2 (by omega)).symm
          · exact (Int.compare_eq_lt.2 (by omega)).symm
  | @finite sign m e _ positive lower upper small large value =>
      have units : 0 < m * 2 ^ (e + 52).toNat := Nat.mul_pos positive (Nat.two_pow_pos _)
      cases second with
      | zero sign' =>
          cases sign <;> simp only [Sign.apply] at value <;>
            simp only [UnpackedFloat.compare, Option.some.injEq]
          · exact (Int.compare_eq_lt.2 (by omega)).symm
          · exact (Int.compare_eq_gt.2 (by omega)).symm
      | @finite sign' m' e' _ positive' lower' upper' small' large' value' =>
          have units' : 0 < m' * 2 ^ (e' + 52).toNat := Nat.mul_pos positive' (Nat.two_pow_pos _)
          have order := compare_units lower upper small lower' upper' small'
          generalize m * 2 ^ (e + 52).toNat = x at *
          generalize m' * 2 ^ (e' + 52).toNat = y at *
          cases sign <;> cases sign' <;> simp only [Sign.apply] at value value' <;>
            simp only [UnpackedFloat.compare, Option.some.injEq, order]
          · rw [Nat.compare_swap]
            exact compare_alike (by omega) (by omega)
          · exact (Int.compare_eq_lt.2 (by omega)).symm
          · exact (Int.compare_eq_gt.2 (by omega)).symm
          · exact compare_alike (by omega) (by omega)

theorem le_iff (first : Carries f.toModel.unpack i) (second : Carries g.toModel.unpack j) :
    f ≤ g ↔ i ≤ j := by
  rw [le_iff_unpack, UnpackedFloat.le, first.compare_eq second, Option.any_some, Int.isLE_compare]

theorem lt_iff (first : Carries f.toModel.unpack i) (second : Carries g.toModel.unpack j) :
    f < g ↔ i < j := by
  rw [lt_iff_unpack, UnpackedFloat.lt, first.compare_eq second, beq_iff_eq, Option.some.injEq,
    Int.compare_eq_lt]

theorem beq_iff (first : Carries f.toModel.unpack i) (second : Carries g.toModel.unpack j) :
    (f == g) = true ↔ i = j := by
  have opened : (f == g) = f.toModel.unpack.beq g.toModel.unpack := rfl
  rw [opened, UnpackedFloat.beq, first.compare_eq second, beq_iff_eq, Option.some.injEq,
    Int.compare_eq_eq]

theorem ne_nan (carries : Carries f.toModel.unpack i) : f ≠ Float.nan := by
  rintro rfl
  have nan : Float.nan.toModel.unpack = .notANumber := rfl
  rw [nan] at carries
  cases carries

theorem of_beq (carries : Carries f.toModel.unpack i) (equal : (f == g) = true) :
    Carries g.toModel.unpack i := by
  have unpacked : f.toModel.unpack.beq g.toModel.unpack = true := equal
  rw [beq_iff_ne_notANumber_and_eq] at unpacked
  rcases unpacked.2.2 with same | ⟨zero, other⟩ | ⟨zero, other⟩
  · rwa [← same]
  all_goals
    rw [zero] at carries
    cases carries
    rw [other]
    exact .zero _

end Carries

section Nearest

theorem nearest_natCast (n : Nat) :
    nearest n = (nearestMultiple (n.log2 - 52) n * 2 ^ (n.log2 - 52) : Nat) := by
  rcases Nat.eq_zero_or_pos n with rfl | positive
  · rfl
  · rw [nearest, Int.sign_eq_one_of_pos (by omega), Int.natAbs_natCast, Int.one_mul]

theorem nearest_neg (i : Int) : nearest (-i) = -nearest i := by
  rw [nearest, nearest, Int.sign_neg, Int.natAbs_neg, Int.neg_mul]

theorem two_pow_log2_le_nearest {n : Nat} (positive : 0 < n) : (2 ^ n.log2 : Nat) ≤ nearest n := by
  have shorter : n.log2 - 52 ≤ n.log2 := Nat.sub_le _ _
  have kept : 2 ^ (n.log2 - (n.log2 - 52)) ≤ n / 2 ^ (n.log2 - 52) := by
    rw [Nat.le_div_iff_mul_le (Nat.two_pow_pos _), ← Nat.pow_add, Nat.sub_add_cancel shorter]
    exact Nat.log2_self_le positive.ne'
  have rounded : n / 2 ^ (n.log2 - 52) ≤ nearestMultiple (n.log2 - 52) n := by
    rw [nearestMultiple]
    split <;> omega
  rw [nearest_natCast]
  refine Int.ofNat_le.2 (Nat.le_trans ?_ (Nat.mul_le_mul_right _ (Nat.le_trans kept rounded)))
  rw [← Nat.pow_add, Nat.sub_add_cancel shorter]

theorem nearest_eq_self_iff {i : Int} :
    nearest i = i ↔ 2 ^ (i.natAbs.log2 - 52) ∣ i.natAbs := by
  have unit := Nat.two_pow_pos (i.natAbs.log2 - 52)
  have sign := Int.sign_mul_natAbs i
  constructor
  · intro same
    rw [nearest] at same
    have magnitude := congrArg Int.natAbs same
    rw [Int.natAbs_mul, Int.natAbs_natCast] at magnitude
    rcases Int.lt_trichotomy i 0 with negative | rfl | positive
    · rw [Int.sign_eq_neg_one_of_neg negative] at magnitude
      exact ⟨nearestMultiple (i.natAbs.log2 - 52) i.natAbs, by
        rw [Nat.mul_comm]; simpa using magnitude.symm⟩
    · exact Nat.dvd_zero _
    · rw [Int.sign_eq_one_of_pos positive] at magnitude
      exact ⟨nearestMultiple (i.natAbs.log2 - 52) i.natAbs, by
        rw [Nat.mul_comm]; simpa using magnitude.symm⟩
  · intro divides
    rw [nearest, nearestMultiple, Nat.mod_eq_zero_of_dvd divides, if_pos (.inl unit),
      Nat.div_mul_cancel divides, sign]

/-- The integers that doubles carry are those of 53 digits with zeros behind them. -/
theorem nearest_eq_self_iff_exists {i : Int} :
    nearest i = i ↔ ∃ (q : Int) (e : Nat), q.natAbs ≤ 2 ^ 53 ∧ i = q * 2 ^ e := by
  rw [nearest_eq_self_iff]
  constructor
  · rintro ⟨q, split⟩
    by_cases zero : i = 0
    · exact ⟨0, 0, by decide, by simp [zero]⟩
    refine ⟨i.sign * q, i.natAbs.log2 - 52, ?_, ?_⟩
    · rw [Int.natAbs_mul, Int.natAbs_sign_of_ne_zero zero, Nat.one_mul, Int.natAbs_natCast]
      have digits := Nat.lt_log2_self (n := i.natAbs)
      by_contra more
      have power : 2 ^ (i.natAbs.log2 + 1) ≤ 2 ^ (i.natAbs.log2 - 52) * 2 ^ 53 := by
        rw [← Nat.pow_add]
        exact Nat.pow_le_pow_right (by decide) (by omega)
      have large := Nat.mul_le_mul_left (2 ^ (i.natAbs.log2 - 52)) (Nat.le_of_not_le more)
      omega
    · conv_lhs => rw [← Int.sign_mul_natAbs i, split]
      push_cast
      ring
  · rintro ⟨q, e, bound, rfl⟩
    by_cases zero : q = 0
    · simp [zero]
    have positive : 0 < q.natAbs := by omega
    rw [Int.natAbs_mul, Int.natAbs_pow, show Int.natAbs 2 = 2 from rfl, log2_mul _ positive]
    rcases Nat.lt_or_eq_of_le bound with narrow | full
    · have digits : q.natAbs.log2 < 53 := (Nat.log2_lt positive.ne').2 narrow
      exact Nat.dvd_trans (Nat.pow_dvd_pow 2 (by omega)) (Nat.dvd_mul_left _ _)
    · rw [full, Nat.log2_two_pow, ← Nat.pow_add]
      exact Nat.pow_dvd_pow 2 (by omega)

theorem nearest_of_small {i : Int} (bound : i.natAbs ≤ 2 ^ 53) : nearest i = i :=
  nearest_eq_self_iff_exists.2 ⟨i, 0, bound, by simp⟩

theorem Carries.nearest_eq {u : UnpackedFloat} {i : Int} (carries : Carries u i) :
    nearest i = i := by
  cases carries with
  | zero => rfl
  | @finite sign m e _ positive lower upper small large value =>
      rw [nearest_eq_self_iff_exists]
      by_cases whole : 0 ≤ e
      · refine ⟨sign.apply m, e.toNat, by cases sign <;> simp only [Sign.apply] <;> omega, ?_⟩
        rw [show (e + 52).toNat = e.toNat + 52 by omega, Nat.pow_add, ← Nat.mul_assoc] at value
        cases sign <;> simp only [Sign.apply, Int.neg_mul] at value ⊢ <;> push_cast at value ⊢ <;>
          omega
      · refine ⟨i, 0, ?_, by simp⟩
        have fewer : 2 ^ (e + 52).toNat ≤ 2 ^ 52 := Nat.pow_le_pow_right (by decide) (by omega)
        have product := Nat.mul_le_mul (Nat.le_of_lt upper) fewer
        cases sign <;> simp only [Sign.apply] at value <;> omega

end Nearest

section Words

theorem carries_ofNat {n : Nat} (bound : n < 2 ^ 64) :
    Carries (UnpackedFloat.ofNat Format.binary64 n) (nearest n) := by
  rcases Nat.eq_zero_or_pos n with rfl | positive
  · exact .zero _
  rw [ofNat_eq_round positive, nearest_natCast]
  have digits : n.log2 < 64 := (Nat.log2_lt positive.ne').2 bound
  by_cases narrow : n.log2 ≤ 52
  · have product : 0 < n * 2 ^ (52 - n.log2) := Nat.mul_pos positive (Nat.two_pow_pos _)
    obtain ⟨lower, upper⟩ := (Nat.log2_eq_iff product.ne').1
      (show (n * 2 ^ (52 - n.log2)).log2 = 52 by rw [log2_mul n positive]; omega)
    have units : n * 2 ^ (52 - n.log2) * 2 ^ ((n.log2 : Int) - 52 + 52).toNat = n * 2 ^ 52 := by
      rw [Nat.mul_assoc, ← Nat.pow_add]
      congr 2
      omega
    rw [round_exact .positive lower upper (by omega) (by decide) (E := 0)
      (e := (n.log2 : Int) - 52) units.symm]
    refine .finite lower upper (by omega) (by omega) ?_
    rw [show n.log2 - 52 = 0 by omega]
    simp only [Sign.apply, units, nearestMultiple, Nat.pow_zero, Nat.mod_one, Nat.mul_zero,
      Nat.lt_one_iff, true_or, if_true, Nat.div_one, Nat.mul_one]
    push_cast
    rfl
  · have digits : n.log2 = n.log2 - 52 + 52 := by omega
    obtain ⟨m, e, mPositive, equal, lower, upper, small, large, units⟩ := round_nearest digits
    rw [equal]
    refine .finite lower upper (by omega) (by omega) ?_
    rw [Sign.apply, units]
    push_cast
    rfl

theorem carries_toFloat (word : UInt64) :
    Carries word.toFloat.toModel.unpack (nearest word.toNat) := by
  have opened : word.toFloat.toModel.unpack =
      (Float.Model.pack (UnpackedFloat.ofNat Format.binary64 word.toNat)).unpack := rfl
  have carries := carries_ofNat word.toNat_lt
  rw [opened, carries.unpack_pack]
  exact carries

/-- The double of an integer carries the nearest integer that a double carries. -/
theorem carries_ofInteger {i : Int} (bound : i.natAbs < 2 ^ 64) :
    Carries (ofInteger i).toModel.unpack (nearest i) := by
  have magnitude := carries_toFloat i.natAbs.toUInt64
  rw [Nat.toUInt64_eq, UInt64.toNat_ofNat', Nat.mod_eq_of_lt bound, ← Nat.toUInt64_eq] at magnitude
  rw [ofInteger]
  split
  · rename_i negative
    have carries := magnitude.neg_float
    rwa [← nearest_neg, show -(i.natAbs : Int) = i by omega] at carries
  · rwa [show (i.natAbs : Int) = i by omega] at magnitude

theorem Carries.eq_ofInteger {f : Float} {i : Int} (carries : Carries f.toModel.unpack i)
    (bound : i.natAbs < 2 ^ 64) (nonzero : i ≠ 0) : f = ofInteger i := by
  have held := carries_ofInteger bound
  rw [carries.nearest_eq] at held
  exact eq_of_unpack (carries.unique held nonzero)

theorem Carries.toUInt64 {f : Float} {n : Nat} (carries : Carries f.toModel.unpack n)
    (bound : n < 2 ^ 64) : f.toUInt64.toNat = n := by
  have opened : f.toUInt64 = f.toModel.unpack.toUInt64 := rfl
  rw [opened]
  generalize f.toModel.unpack = u at carries
  generalize value : (n : Int) = i at carries
  cases carries with
  | zero =>
      obtain rfl : n = 0 := by omega
      rfl
  | @finite sign m e _ positive lower upper small large units =>
      have sign : sign = .positive := by
        cases sign with
        | positive => rfl
        | negative =>
            have := Nat.mul_pos positive (Nat.two_pow_pos (e + 52).toNat)
            simp only [Sign.apply] at units
            omega
      subst sign value
      have whole : roundToInt .positive m e = n := by
        have scaled : m * 2 ^ (e + 52).toNat = n * 2 ^ 52 := by
          simp only [Sign.apply] at units
          omega
        simp only [roundToInt, decreaseExponent, Int.sub_zero, Nat.shiftLeft_eq, shiftToExponent,
          ExtendedMantissa.ofMantissaAndAccuracy, Sign.apply, (cut_shiftRight _ _).mantissa]
        by_cases left : 0 ≤ e
        · rw [show (0 - (e - (e.toNat : Int))).toNat = 0 by omega, Nat.pow_zero, Nat.div_one]
          rw [show (e + 52).toNat = e.toNat + 52 by omega, Nat.pow_add, ← Nat.mul_assoc] at scaled
          rw [Nat.eq_of_mul_eq_mul_right (Nat.two_pow_pos 52) scaled]
        · obtain ⟨places, rfl⟩ : ∃ places : Nat, e = -(places : Int) := ⟨(-e).toNat, by omega⟩
          rw [show (-(places : Int)).toNat = 0 by omega, Nat.pow_zero, Nat.mul_one,
            show (0 - (-(places : Int) - ((0 : Nat) : Int))).toNat = places by omega]
          have split : m = n * 2 ^ places := by
            have power : 2 ^ 52 = 2 ^ places * 2 ^ (-(places : Int) + 52).toNat := by
              rw [← Nat.pow_add]
              congr 1
              omega
            rw [power, ← Nat.mul_assoc] at scaled
            exact Nat.eq_of_mul_eq_mul_right (Nat.two_pow_pos _) scaled
          rw [split, Nat.mul_div_cancel _ (Nat.two_pow_pos _)]
      rw [UnpackedFloat.toUInt64, UnpackedFloat.toInt, whole, Int.toNat_natCast, UInt64.ofNatClamp,
        dif_pos (show n < UInt64.size from bound), UInt64.toNat_ofNatLT]

theorem carries_bottom : Carries (-9223372036854775808.0 : Float).toModel.unpack (-2 ^ 63) :=
  @Carries.finite .negative (2 ^ 52) 11 (-2 ^ 63) (by decide) (Nat.le_refl _) (by decide)
    (by decide) (by decide) rfl

theorem carries_top : Carries (9223372036854775808.0 : Float).toModel.unpack (2 ^ 63) :=
  @Carries.finite .positive (2 ^ 52) 11 (2 ^ 63) (by decide) (Nat.le_refl _) (by decide)
    (by decide) (by decide) rfl

theorem carries_origin : Carries (0.0 : Float).toModel.unpack 0 := .zero .positive

theorem Carries.toInteger {f : Float} {i : Int} (carries : Carries f.toModel.unpack i) :
    toInteger? f = if -2 ^ 63 ≤ i ∧ i < 2 ^ 63 then some i else none := by
  rw [toInteger?]
  simp only [Bool.and_eq_true, decide_eq_true_eq, carries_bottom.le_iff carries,
    carries.lt_iff carries_top, carries.lt_iff carries_origin]
  split
  · rename_i inside
    have word := carries.abs_float.toUInt64 (by omega)
    have back := carries_toFloat f.abs.toUInt64
    rw [word, carries.abs.nearest_eq] at back
    rw [if_pos ((back.beq_iff carries.abs_float).2 rfl), word]
    congr 1
    split <;> omega
  · rfl

end Words

end RegisterVm.Number
