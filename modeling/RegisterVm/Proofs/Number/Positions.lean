import RegisterVm.Proofs.Number.Carrying

/-!
Array positions. Integers from one to 2^53 name themselves, larger ones never name a position that
small, and equal doubles name the same position.
-/

namespace RegisterVm.Number

theorem Carries.position {f : Float} {i : Int} (carries : Carries f.toModel.unpack i) :
    position? f = if 1 ≤ i ∧ i < 2 ^ 64 then some i.toNat else none := by
  have one : Carries (1.0 : Float).toModel.unpack 1 := by
    have opened : (1.0 : Float).toModel.unpack = .finite .positive (2 ^ 52) (-52) (by decide) := rfl
    rw [opened]
    exact .finite (Nat.le_refl _) (by decide) (by decide) (by decide) (by decide)
  have top : Carries (18446744073709551616.0 : Float).toModel.unpack (2 ^ 64) :=
    @Carries.finite .positive (2 ^ 52) 12 (2 ^ 64) (by decide) (Nat.le_refl _) (by decide)
      (by decide) (by decide) rfl
  rw [position?]
  simp only [Bool.and_eq_true, decide_eq_true_eq, one.le_iff carries, carries.lt_iff top]
  split
  · rename_i inside
    obtain ⟨n, rfl⟩ : ∃ n : Nat, i = n := ⟨i.toNat, by omega⟩
    have word := carries.toUInt64 (by omega)
    have back := carries_toFloat f.toUInt64
    rw [word, carries.nearest_eq] at back
    rw [if_pos ((back.beq_iff carries).2 rfl), word, Int.toNat_natCast]
  · rfl

theorem ofInteger_natCast (n : Nat) : ofInteger n = n.toUInt64.toFloat := by
  rw [ofInteger, if_neg (by omega), Int.natAbs_natCast]

theorem position_ofInteger {n : Nat} (positive : 0 < n) (bound : n ≤ 2 ^ 53) :
    position? (ofInteger n) = some n := by
  have carries := carries_ofInteger (i := (n : Int)) (by omega)
  rw [nearest_of_small (by omega)] at carries
  rw [carries.position, if_pos (by omega), Int.toNat_natCast]

theorem position_zero : position? 0 = none := rfl

theorem position_negZero : position? (-0) = none := rfl

theorem position_congr {f g : Float} (equal : (f == g) = true) : position? f = position? g := by
  rcases (Float.beq_iff_ne_nan_and_eq.1 equal).2.2 with rfl | ⟨rfl, rfl⟩ | ⟨rfl, rfl⟩
  · rfl
  · rw [position_zero, position_negZero]
  · rw [position_zero, position_negZero]

theorem position_sound {f : Float} {n : Nat} (found : position? f = some n) :
    1 ≤ n ∧ n < 2 ^ 64 ∧ (f == ofInteger n) = true := by
  have named := found
  simp only [position?] at named
  split at named
  · split at named
    · rename_i equal
      simp only [Option.some.injEq] at named
      subst named
      have restored : f.toUInt64.toNat.toUInt64 = f.toUInt64 := by simp
      rw [ofInteger_natCast, restored]
      refine ⟨?_, UInt64.toNat_lt _, PartialEquivBEq.symm equal⟩
      by_contra zero
      have word : f.toUInt64 = 0 := UInt64.toNat_inj.1 (by rw [UInt64.toNat_zero]; omega)
      rw [word] at equal
      have absent : position? f = none := (position_congr equal).symm.trans position_zero
      simp [absent] at found
    · simp at named
  · simp at named

theorem position_ofInteger_large {n m : Nat} (lower : 2 ^ 53 ≤ n) (upper : n < 2 ^ 64)
    (found : position? (ofInteger n) = some m) : 2 ^ 53 ≤ m := by
  have carries := carries_ofInteger (i := (n : Int)) (by omega)
  have digits : 53 ≤ n.log2 := (Nat.le_log2 (by omega)).2 lower
  have least := two_pow_log2_le_nearest (n := n) (by omega)
  have large : 2 ^ 53 ≤ 2 ^ n.log2 := Nat.pow_le_pow_right (by decide) digits
  rw [carries.position] at found
  split at found
  · obtain rfl := Option.some.inj found
    omega
  · contradiction

theorem ofInteger_ne_nan (i : Int) : ofInteger i ≠ Float.nan := by
  rw [ofInteger]
  split
  · exact (carries_toFloat _).neg_float.ne_nan
  · exact (carries_toFloat _).ne_nan

theorem position_ofInteger_nonpositive {i : Int} (nonpositive : i ≤ 0) :
    position? (ofInteger i) = none := by
  rcases Int.lt_or_eq_of_le nonpositive with negative | rfl
  · have carries := (carries_toFloat i.natAbs.toUInt64).neg_float
    have least : 0 ≤ nearest i.natAbs.toUInt64.toNat := by
      rw [nearest_natCast]
      exact Int.natCast_nonneg _
    rw [ofInteger, if_pos negative, carries.position, if_neg (by omega)]
  · rfl

end RegisterVm.Number
