import RegisterVm.Number.Text
import RegisterVm.Proofs.Number.Integers

/-!
Doubles that are read as integers. Such a double carries the integer, so that it is the one that holds
the integer up to the sign of zero, and different integers are read from different doubles.
-/

namespace RegisterVm.Number

open Float.Model Float.Model.UnpackedFloat

variable {f : Float} {i : Int}

theorem carries_of_abs {n : Nat} (magnitude : Carries f.abs.toModel.unpack n) :
    ∃ sign : Sign, Carries f.toModel.unpack (sign.apply n) := by
  have opened : f.abs.toModel.unpack = (Float.Model.pack f.toModel.unpack.abs).unpack := rfl
  cases whole : f.toModel.unpack with
  | infinity sign =>
      have infinite : (Float.Model.pack (.infinity .positive)).unpack = .infinity .positive := rfl
      rw [opened, whole, UnpackedFloat.abs, infinite] at magnitude
      cases magnitude
  | notANumber =>
      have nan : (Float.Model.pack .notANumber).unpack = .notANumber := rfl
      rw [opened, whole, UnpackedFloat.abs, nan] at magnitude
      cases magnitude
  | zero sign =>
      have zero : (Float.Model.pack (.zero .positive)).unpack = .zero .positive := rfl
      rw [opened, whole, UnpackedFloat.abs, zero] at magnitude
      generalize value : (n : Int) = i at magnitude
      cases magnitude
      exact ⟨.positive, .zero sign⟩
  | finite sign m e positive =>
      rw [unpack_abs whole] at magnitude
      cases magnitude with
      | finite lower upper small large value =>
          refine ⟨sign, .finite lower upper small large ?_⟩
          cases sign <;> simp only [Sign.apply] at value ⊢ <;> omega

theorem toInteger_word (read : toInteger? f = some i) :
    (-9223372036854775808.0 ≤ f ∧ f < 9223372036854775808.0) ∧
      (f.abs.toUInt64.toFloat == f.abs) = true ∧
      i = if f < 0.0 then -(f.abs.toUInt64.toNat : Int) else f.abs.toUInt64.toNat := by
  simp only [toInteger?] at read
  split at read
  · rename_i inside
    split at read
    · rename_i equal
      exact ⟨by simpa using inside, equal, (Option.some.inj read).symm⟩
    · contradiction
  · contradiction

theorem carries_of_toInteger (read : toInteger? f = some i) : Carries f.toModel.unpack i := by
  obtain ⟨⟨above, below⟩, equal, value⟩ := toInteger_word read
  have magnitude := (carries_toFloat _).of_beq equal
  rw [nearest_natCast] at magnitude
  generalize nearestMultiple _ _ * _ = n at magnitude
  obtain ⟨sign, carries⟩ := carries_of_abs magnitude
  rw [carries_bottom.le_iff carries] at above
  rw [carries.lt_iff carries_top] at below
  have bound : n < 2 ^ 64 := by
    cases sign <;> simp only [Sign.apply] at above below <;> omega
  have same : i = sign.apply n := by
    have negative := carries.lt_iff carries_origin
    rw [magnitude.toUInt64 bound] at value
    split at value
    · rename_i less
      rw [negative] at less
      cases sign <;> simp only [Sign.apply] at less ⊢ <;> omega
    · rename_i more
      rw [negative] at more
      cases sign <;> simp only [Sign.apply] at more ⊢ <;> omega
  rw [same]
  exact carries

theorem eq_ofInteger (read : toInteger? f = some i) (nonzero : i ≠ 0) : f = ofInteger i := by
  have carries := carries_of_toInteger read
  have bound : i.natAbs < 2 ^ 64 := by
    have whole := carries.toInteger.symm.trans read
    split at whole
    · omega
    · contradiction
  exact carries.eq_ofInteger bound nonzero

theorem eq_zero (read : toInteger? f = some 0) : f = 0.0 ∨ f = -0.0 := by
  have carries := carries_of_toInteger read
  generalize whole : f.toModel.unpack = u at carries
  generalize value : (0 : Int) = i at carries
  cases carries with
  | zero sign =>
      cases sign with
      | positive => exact .inl (eq_of_unpack whole)
      | negative => exact .inr (eq_of_unpack whole)
  | @finite sign m e _ positive lower upper small large units =>
      have units' := Nat.mul_pos positive (Nat.two_pow_pos (e + 52).toNat)
      cases sign <;> simp only [Sign.apply] at units <;> omega

theorem toInteger_finite (read : toInteger? f = some i) : f.isNaN = false ∧ f.isInf = false := by
  have nan : f.isNaN = f.toModel.unpack.isNaN := rfl
  have infinite : f.isInf = f.toModel.unpack.isInf := rfl
  have carries := carries_of_toInteger read
  rw [nan, infinite]
  generalize f.toModel.unpack = u at carries
  cases carries with
  | zero => exact ⟨rfl, rfl⟩
  | finite => exact ⟨rfl, rfl⟩

/-- Integers are written out, and negative zero is told apart. -/
theorem text_integer (read : toInteger? f = some i) :
    text f = toString i ∨ i = 0 ∧ text f = "-0" := by
  simp only [text, read]
  split
  · rename_i negative
    simp only [Bool.and_eq_true, beq_iff_eq] at negative
    exact .inr ⟨negative.1, rfl⟩
  · exact .inl rfl

end RegisterVm.Number
