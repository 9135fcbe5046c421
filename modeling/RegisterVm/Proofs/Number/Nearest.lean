import RegisterVm.Proofs.Number.Carrying

/-!
Doubles as rational numbers. The double made of an integer is the nearest one: no finite double is
closer to the integer, and where another one is as close the mantissa of this one is even.
-/

namespace RegisterVm.Number

open Float.Model Float.Model.UnpackedFloat

def rational? (f : Float) : Option ℚ :=
  match f.toModel.unpack with
  | .finite sign mantissa exponent _ => some (sign.apply mantissa * 2 ^ exponent)
  | .zero _ => some 0
  | .infinity _ | .notANumber => none

def EvenMantissa (f : Float) : Prop :=
  match f.toModel.unpack with
  | .finite _ mantissa _ _ => 2 ∣ mantissa
  | _ => True

/-- No finite double is closer to the integer, and another one that is as close leaves the even
mantissa to this one. -/
def IsNearest (f : Float) (i : Int) : Prop :=
  ∃ x, rational? f = some x ∧ ∀ g y, rational? g = some y →
    |x - i| ≤ |y - i| ∧ (|y - i| = |x - i| → y = x ∨ EvenMantissa f)

section Values

variable {f : Float} {i : Int}

theorem mantissa_lt {sign : Sign} {mantissa : Nat} {exponent : Int} {positive : 0 < mantissa}
    (finite : f.toModel.unpack = .finite sign mantissa exponent positive) : mantissa < 2 ^ 53 := by
  rw [Float.Model.unpack, UnpackedFloat.unpack] at finite
  split at finite
  · split at finite <;> contradiction
  · split at finite
    · split at finite
      · contradiction
      · obtain ⟨-, rfl, -⟩ := UnpackedFloat.finite.inj finite
        exact Nat.lt_trans (BitVec.isLt _) (by decide)
    · obtain ⟨-, rfl, -⟩ := UnpackedFloat.finite.inj finite
      exact BitVec.isLt _

theorem exists_magnitude {y : ℚ} (finite : rational? f = some y) :
    ∃ (m : Nat) (e : Int), m < 2 ^ 53 ∧ |y| = m * 2 ^ e := by
  rw [rational?] at finite
  split at finite
  · rename_i sign m e positive unpacked
    refine ⟨m, e, mantissa_lt unpacked, ?_⟩
    rw [← Option.some.inj finite, abs_mul, abs_of_pos (by positivity : (0 : ℚ) < 2 ^ e)]
    cases sign <;> simp [Sign.apply]
  · exact ⟨0, 0, by decide, by simp [← Option.some.inj finite]⟩
  all_goals contradiction

theorem Carries.rational (carries : Carries f.toModel.unpack i) : rational? f = some (i : ℚ) := by
  rw [rational?]
  generalize f.toModel.unpack = u at carries
  cases carries with
  | zero => simp
  | @finite sign m e _ positive lower upper small large value =>
      have power : (2 : ℚ) ^ e * 2 ^ 52 = 2 ^ (e + 52).toNat := by
        rw [← zpow_natCast, ← zpow_natCast, ← zpow_add₀ (by decide)]
        congr 1
        omega
      have applied : sign.apply (m * 2 ^ (e + 52).toNat : Nat) =
          sign.apply m * 2 ^ (e + 52).toNat := by
        cases sign <;> simp [Sign.apply]
      rw [applied] at value
      have units : (sign.apply m : ℚ) * 2 ^ (e + 52).toNat = i * 2 ^ 52 := by exact_mod_cast value
      rw [← power, ← mul_assoc] at units
      exact congrArg some (mul_right_cancel₀ (by positivity) units)

end Values

section Grid

theorem multiple_cases (unit a b : Int) (positive : 0 < unit) :
    b * unit + unit ≤ a * unit ∨ b = a ∨ (b = a + 1 ∧ b * unit = a * unit + unit) ∨
      a * unit + 2 * unit ≤ b * unit := by
  rcases Int.lt_trichotomy b a with less | rfl | greater
  · have := Int.mul_le_mul_of_nonneg_right (Int.add_one_le_of_lt less) (Int.le_of_lt positive)
    rw [Int.add_mul, Int.one_mul] at this
    exact .inl this
  · exact .inr (.inl rfl)
  · by_cases next : b = a + 1
    · exact .inr (.inr (.inl ⟨next, by rw [next, Int.add_mul, Int.one_mul]⟩))
    · have further : a + 2 ≤ b := by omega
      have := Int.mul_le_mul_of_nonneg_right further (Int.le_of_lt positive)
      rw [Int.add_mul] at this
      exact .inr (.inr (.inr this))

theorem nearestMultiple_least (places n : Nat) (b : Int) :
    |(nearestMultiple places n : Int) * 2 ^ places - n| ≤ |b * 2 ^ places - n| ∧
    (|b * 2 ^ places - n| = |(nearestMultiple places n : Int) * 2 ^ places - n| →
      b = nearestMultiple places n ∨ 2 ∣ nearestMultiple places n) := by
  have split : (n / 2 ^ places : Nat) * (2 ^ places : Int) + (n % 2 ^ places : Nat) = n := by
    exact_mod_cast Nat.div_add_mod' n (2 ^ places)
  have below : (n % 2 ^ places : Nat) < (2 ^ places : Int) := by
    exact_mod_cast Nat.mod_lt n (Nat.two_pow_pos places)
  have multiple := multiple_cases (2 ^ places) (n / 2 ^ places : Nat) b (by positivity)
  have power : ((2 ^ places : Nat) : Int) = 2 ^ places := by push_cast; rfl
  simp only [← Int.natCast_natAbs]
  rw [nearestMultiple]
  generalize n / 2 ^ places = a at *
  generalize n % 2 ^ places = r at *
  generalize (2 : Int) ^ places = unit at *
  generalize 2 ^ places = unit' at *
  have next : ((a + 1 : Nat) : Int) * unit = a * unit + unit := by
    push_cast
    ring
  split
  · rcases multiple with less | rfl | ⟨above, product⟩ | more <;> omega
  · rw [next]
    rcases multiple with less | rfl | ⟨above, product⟩ | more <;> omega

variable {n m : Nat} {e : Int} {y : ℚ}

theorem multiple_or_small (narrow : m < 2 ^ 53) (magnitude : |y| = m * 2 ^ e) (places : Nat) :
    (∃ b : Int, y = b * 2 ^ places) ∨ |y| < 2 ^ (places + 52) := by
  rw [magnitude]
  rcases lt_or_ge e places with lower | higher
  · refine .inr ?_
    have unit : (2 : ℚ) ^ e ≤ 2 ^ ((places : Int) - 1) := zpow_le_zpow_right₀ (by decide) (by omega)
    calc (m : ℚ) * 2 ^ e < 2 ^ 53 * 2 ^ e := by
          refine mul_lt_mul_of_pos_right ?_ (by positivity)
          exact_mod_cast narrow
      _ ≤ 2 ^ 53 * 2 ^ ((places : Int) - 1) := mul_le_mul_of_nonneg_left unit (by positivity)
      _ = 2 ^ (places + 52) := by
          rw [← zpow_natCast, ← zpow_natCast, ← zpow_add₀ (by decide)]
          congr 1
          push_cast
          ring
  · obtain ⟨more, rfl⟩ : ∃ more : Nat, e = places + more := ⟨(e - places).toNat, by omega⟩
    have split : (m : ℚ) * 2 ^ (places + more : Int) = m * 2 ^ more * 2 ^ places := by
      rw [zpow_add₀ (by decide), zpow_natCast, zpow_natCast]
      ring
    rw [split] at magnitude
    refine .inl ?_
    rcases abs_choice y with same | opposite
    · exact ⟨m * 2 ^ more, by rw [← same, magnitude]; push_cast; rfl⟩
    · refine ⟨-(m * 2 ^ more), ?_⟩
      rw [opposite] at magnitude
      push_cast
      linarith

/-- No number of 53 digits is closer to `n` than the one that it is rounded to. -/
theorem nearest_least (narrow : m < 2 ^ 53) (magnitude : |y| = m * 2 ^ e) :
    |(nearest n : ℚ) - n| ≤ |y - n| ∧ (|y - n| = |(nearest n : ℚ) - n| →
      y = nearest n ∨ 2 ∣ nearestMultiple (n.log2 - 52) n) := by
  have rounded : nearest n = nearestMultiple (n.log2 - 52) n * 2 ^ (n.log2 - 52) := by
    rw [nearest_natCast]
    push_cast
    rfl
  have least := nearestMultiple_least (n.log2 - 52) n
  rw [← rounded] at least
  have far (b : Int) : |(nearest n : ℚ) - n| ≤ |(b : ℚ) * 2 ^ (n.log2 - 52) - n| := by
    exact_mod_cast (least b).1
  rcases multiple_or_small narrow magnitude (n.log2 - 52) with ⟨b, rfl⟩ | small
  · refine ⟨far b, fun close => ?_⟩
    rcases (least b).2 (by exact_mod_cast close) with rfl | even
    · exact .inl (by rw [rounded]; push_cast; rfl)
    · exact .inr even
  · by_cases short : n.log2 ≤ 52
    · have exact : nearest n = n := by
        simp [rounded, Nat.sub_eq_zero_of_le short, nearestMultiple, Nat.mod_one]
      rw [exact, Int.cast_natCast, sub_self, abs_zero]
      exact ⟨abs_nonneg _, fun same => .inl (sub_eq_zero.1 (abs_eq_zero.1 same))⟩
    · have low : (2 : ℚ) ^ (n.log2 - 52 + 52) ≤ n := by
        rw [Nat.sub_add_cancel (by omega)]
        exact_mod_cast Nat.log2_self_le (n := n) (by rintro rfl; simp at short)
      have edge := far (2 ^ 52)
      rw [Int.cast_pow, Int.cast_ofNat, ← pow_add, Nat.add_comm,
        abs_of_nonpos (sub_nonpos.2 low)] at edge
      have below := lt_of_abs_lt small
      have closer : |(nearest n : ℚ) - n| < |y - n| := by
        rw [abs_of_neg (by linarith : y - n < 0)]
        linarith
      exact ⟨le_of_lt closer, fun close => absurd close (ne_of_gt closer)⟩

theorem nearest_least_signed (narrow : m < 2 ^ 53) (magnitude : |y| = m * 2 ^ e) (i : Int) :
    |(nearest i : ℚ) - i| ≤ |y - i| ∧ (|y - i| = |(nearest i : ℚ) - i| →
      y = nearest i ∨ 2 ∣ nearestMultiple (i.natAbs.log2 - 52) i.natAbs) := by
  obtain ⟨n, rfl | rfl⟩ := Int.eq_nat_or_neg i
  · exact nearest_least narrow magnitude
  · have turned : |-y| = m * 2 ^ e := by rw [abs_neg, magnitude]
    have least := nearest_least (n := n) narrow turned
    have flip (z : ℚ) : |z - ((-n : Int) : ℚ)| = |-z - n| := by
      rw [← abs_neg]
      push_cast
      ring_nf
    rw [Int.natAbs_neg, Int.natAbs_natCast, nearest_neg, flip, flip, Int.cast_neg, neg_neg]
    exact ⟨least.1, fun close => (least.2 close).imp_left neg_eq_iff_eq_neg.1⟩

end Grid

section Mantissas

theorem nearestMultiple_le (n : Nat) : nearestMultiple (n.log2 - 52) n ≤ 2 ^ 53 := by
  have whole : n / 2 ^ (n.log2 - 52) < 2 ^ 53 := by
    rw [Nat.div_lt_iff_lt_mul (Nat.two_pow_pos _), ← Nat.pow_add]
    exact Nat.lt_of_lt_of_le Nat.lt_log2_self (Nat.pow_le_pow_right (by decide) (by omega))
  rw [nearestMultiple]
  split <;> omega

theorem even_of_units {m q x y : Nat} (lower : 2 ^ 52 ≤ m) (wide : q ≤ 2 ^ 53) (even : 2 ∣ q)
    (units : m * 2 ^ x = q * 2 ^ y) : 2 ∣ m := by
  rcases Nat.lt_or_ge y x with shorter | longer
  · obtain ⟨more, rfl⟩ : ∃ more, x = more + 1 + y := ⟨x - (y + 1), by omega⟩
    rw [Nat.pow_add, ← Nat.mul_assoc] at units
    have filled := Nat.eq_of_mul_eq_mul_right (Nat.two_pow_pos _) units
    have least : m * 2 ≤ m * 2 ^ (more + 1) :=
      Nat.mul_le_mul_left m (Nat.pow_le_pow_right (by decide : 0 < 2) (Nat.le_add_left 1 more))
    omega
  · obtain ⟨more, rfl⟩ : ∃ more, y = more + x := ⟨y - x, by omega⟩
    rw [Nat.pow_add, ← Nat.mul_assoc] at units
    rw [Nat.eq_of_mul_eq_mul_right (Nat.two_pow_pos _) units]
    exact Nat.dvd_trans even (Nat.dvd_mul_right _ _)

theorem natAbs_nearest (i : Int) : (nearest i).natAbs =
    nearestMultiple (i.natAbs.log2 - 52) i.natAbs * 2 ^ (i.natAbs.log2 - 52) := by
  obtain ⟨n, rfl | rfl⟩ := Int.eq_nat_or_neg i
  · rw [nearest_natCast, Int.natAbs_natCast, Int.natAbs_natCast]
  · rw [nearest_neg, nearest_natCast, Int.natAbs_neg, Int.natAbs_neg, Int.natAbs_natCast,
      Int.natAbs_natCast]

theorem Carries.even {f : Float} {i : Int} (carries : Carries f.toModel.unpack (nearest i))
    (even : 2 ∣ nearestMultiple (i.natAbs.log2 - 52) i.natAbs) : EvenMantissa f := by
  have magnitude := natAbs_nearest i
  have wide := nearestMultiple_le i.natAbs
  rw [EvenMantissa]
  generalize nearest i = j at *
  generalize f.toModel.unpack = u at *
  cases carries with
  | zero => trivial
  | @finite sign m e _ positive lower upper small large value =>
      have units : m * 2 ^ (e + 52).toNat = j.natAbs * 2 ^ 52 := by
        cases sign <;> simp only [Sign.apply] at value <;> omega
      rw [magnitude, Nat.mul_assoc, ← Nat.pow_add] at units
      exact even_of_units lower wide even units

end Mantissas

/-- The double of an integer is the nearest one. -/
theorem isNearest_ofInteger {i : Int} (bound : i.natAbs < 2 ^ 64) : IsNearest (ofInteger i) i := by
  have carries := carries_ofInteger bound
  refine ⟨nearest i, carries.rational, fun g y finite => ?_⟩
  obtain ⟨m, e, narrow, magnitude⟩ := exists_magnitude finite
  obtain ⟨least, tie⟩ := nearest_least_signed narrow magnitude i
  exact ⟨least, fun close => (tie close).imp_right carries.even⟩

end RegisterVm.Number
