import RegisterVm.Proofs.Number.Grammar
import RegisterVm.Proofs.Number.Products
import RegisterVm.Proofs.Number.Whole

/-!
What numerals are read as. A numeral without a point and an exponent is read as the integer that it
denotes, up to 2^53 at least, and the text of an integer is read as the double that it was made of.
-/

namespace RegisterVm.Number

open Float.Model Float.Model.UnpackedFloat

section Hexadecimal

theorem digitValue?_lt {base : Nat} (positive : 0 < base) (c : Char) :
    (digitValue? base c).getD 0 < base := by
  rw [digitValue?_eq]
  split_ifs <;> simpa

theorem hexMantissa_append (digits : List Char) (c : Char) : hexMantissa (digits ++ [c]) =
    hexMantissa digits * 16.0 + ((digitValue? 16 c).getD 0).toUInt64.toFloat := by
  simp only [hexMantissa, List.foldl_append, List.foldl_cons, List.foldl_nil]

theorem carries_hexMantissa {digits : List Char} (bound : natural 16 digits ≤ 2 ^ 53) :
    Carries (hexMantissa digits).toModel.unpack (natural 16 digits) := by
  induction digits using List.reverseRecOn with
  | nil => exact carries_origin
  | append_singleton digits c ih =>
      have value := natural_append 16 digits c
      have small : (digitValue? 16 c).getD 0 < 16 := digitValue?_lt (by decide) c
      have digit := carries_toFloat ((digitValue? 16 c).getD 0).toUInt64
      rw [Nat.toUInt64_eq, UInt64.toNat_ofNat', Nat.mod_eq_of_lt (by omega),
        nearest_of_small (by omega)] at digit
      have shifted := (ih (by omega)).mul_float carries_sixteen (by omega)
      have sum := shifted.add_float digit (by omega)
      rw [hexMantissa_append, value]
      exact_mod_cast sum

theorem carries_powerOfTwo : Carries (powerOfTwo 0).toModel.unpack 1 := by
  have opened : (powerOfTwo 0).toModel.unpack = .finite .positive (2 ^ 52) (-52) (by decide) := rfl
  rw [opened]
  exact .finite (Nat.le_refl _) (by decide) (by decide) (by decide) (by decide)

end Hexadecimal

namespace Numeral

variable {n : Numeral} {s : String}

theorem read_integer (integer : n.IsInteger) : n.unsigned.read =
    match n.radix with
    | .decimal => scaleDecimal n.magnitude 0
    | .hexadecimal => hexMantissa n.unsigned.whole * powerOfTwo 0 := by
  obtain ⟨sign, radix, lead, whole, fraction, power, led, present, valid, scaled⟩ := n
  obtain ⟨rfl, rfl⟩ : fraction = none ∧ power = none := integer
  cases radix with
  | decimal =>
      simp only [Unsigned.read, Unsigned.digits, Option.getD_none, List.append_nil]
      rfl
  | hexadecimal =>
      simp only [Unsigned.read, Unsigned.digits, Option.getD_none, List.append_nil]
      rfl

theorem carries_read (integer : n.IsInteger) (small : n.magnitude ≤ 2 ^ 53) :
    Carries n.unsigned.read.toModel.unpack n.magnitude := by
  have read := read_integer integer
  obtain ⟨sign, radix, u⟩ := n
  rw [read]
  cases radix with
  | decimal => exact carries_scaleDecimal (by omega) (nearest_of_small (by omega))
  | hexadecimal =>
      have product := (carries_hexMantissa small).mul_float carries_powerOfTwo
        (by rw [Int.mul_one]; exact small)
      rw [Int.mul_one] at product
      exact product

theorem carries_applyFloat {f : Float} {i : Int} (sign : SignMark)
    (carries : Carries f.toModel.unpack i) :
    Carries (sign.applyFloat f).toModel.unpack (sign.apply i) := by
  rw [SignMark.applyFloat, SignMark.apply]
  split
  · exact carries.neg_float
  · exact carries

end Numeral

section Integers

theorem mem_decimal_digits {n : Nat} {c : Char} (member : c ∈ Nat.toDigits 10 n) :
    c ∈ Radix.decimal.digits := by
  have digit := Nat.isDigit_of_mem_toDigits (by decide) (by decide) member
  rw [mem_digits_iff, isSome_digitValue?, Radix.base]
  simp only [Char.isDigit, Bool.and_eq_true, decide_eq_true_eq, UInt32.le_iff_toNat_le] at digit
  exact .inl ⟨digit.1, digit.2, by have := digit.2; simp at this; omega⟩

def written (i : Int) : Numeral where
  sign := if i < 0 then .minus else .absent
  radix := .decimal
  unsigned := ⟨[], Nat.toDigits 10 i.natAbs, none, none, by decide, by simp,
    fun c member => mem_decimal_digits (by simpa using member), nofun⟩

theorem natural_toDigits (n : Nat) : natural 10 (Nat.toDigits 10 n) = n := by
  have folded : naturalOf (Nat.toDigits 10 n) = Nat.ofDigitChars 10 (Nat.toDigits 10 n) 0 := by
    simp only [naturalOf, Nat.ofDigitChars_eq_foldl, Nat.mul_comm 10]
    rfl
  rw [← naturalOf_eq fun c => mem_decimal_digits, folded, Nat.ofDigitChars_ten_toDigits]

theorem written_standsIn (i : Int) : (written i).StandsIn (toString i) := by
  refine ⟨[], [], ?_, nofun, nofun⟩
  rw [List.nil_append, List.append_nil, Int.toString_eq_repr, Int.repr_eq_if]
  rcases Int.lt_or_le i 0 with negative | natural
  · rw [if_neg (by omega), String.toList_append, Nat.toList_repr,
      show (-i).toNat = i.natAbs by omega, written, if_pos negative]
    simp [Numeral.chars, SignMark.chars, Unsigned.chars, Unsigned.body, Unsigned.point,
      Unsigned.powerChars]
  · rw [if_pos natural, Nat.toList_repr, show i.toNat = i.natAbs by omega, written,
      if_neg (by omega)]
    simp [Numeral.chars, SignMark.chars, Unsigned.chars, Unsigned.body, Unsigned.point,
      Unsigned.powerChars]

theorem magnitude_written (i : Int) : (written i).magnitude = i.natAbs :=
  natural_toDigits i.natAbs

theorem value_written (i : Int) : (written i).value = i := by
  rw [Numeral.value, magnitude_written, written, SignMark.apply]
  simp only
  split_ifs <;> first | omega | contradiction

theorem ofText?_toString {f : Float} {i : Int} (carries : Carries f.toModel.unpack i)
    (bound : i.natAbs < 2 ^ 64) (nonzero : i ≠ 0) : ofText? (toString i) = some f := by
  have read : (written i).unsigned.read = scaleDecimal i.natAbs 0 := by
    rw [Numeral.read_integer ⟨rfl, rfl⟩, magnitude_written]
    rfl
  have magnitude := carries_scaleDecimal bound carries.abs.nearest_eq
  have held := Numeral.carries_applyFloat (written i).sign magnitude
  have value := value_written i
  rw [Numeral.value, magnitude_written] at value
  rw [value] at held
  rw [Numeral.ofText?_eq (written_standsIn i), read]
  exact congrArg some (eq_of_unpack (held.unique carries nonzero))

/-- The text of an integer is read as the very double that it was made of. -/
theorem ofText?_text {f : Float} {i : Int} (whole : toInteger? f = some i) :
    ofText? (text f) = some f := by
  have carries := carries_of_toInteger whole
  by_cases zero : i = 0
  · subst zero
    rcases eq_zero whole with rfl | rfl
    · rfl
    · rfl
  · have range : -2 ^ 63 ≤ i ∧ i < 2 ^ 63 := by
      by_contra outside
      rw [carries.toInteger, if_neg outside] at whole
      contradiction
    rcases text_integer whole with digits | ⟨origin, -⟩
    · rw [digits]
      exact ofText?_toString carries (by omega) zero
    · contradiction

end Integers

/-- A text is read as a number just if it is a numeral between blanks, and as the integer that this
denotes, if it has neither a point nor an exponent and denotes at most 2^53. -/
theorem reads_numerals (s : String) :
    ((ofText? s).isSome = true ↔ ∃ n : Numeral, n.StandsIn s) ∧
    ∀ n : Numeral, n.StandsIn s → n.IsInteger → n.magnitude ≤ 2 ^ 53 →
      ∃ f, ofText? s = some f ∧ Carries f.toModel.unpack n.value := by
  refine ⟨⟨fun accepted => ?_, ?_⟩, fun n stands integer small => ?_⟩
  · obtain ⟨f, read⟩ := Option.isSome_iff_exists.1 accepted
    exact Numeral.exists_of_ofText? read
  · rintro ⟨n, stands⟩
    rw [Numeral.ofText?_eq stands, Option.isSome_some]
  · exact ⟨_, Numeral.ofText?_eq stands,
      Numeral.carries_applyFloat n.sign (Numeral.carries_read integer small)⟩

def minusThirtyOne : Numeral where
  sign := .minus
  radix := .hexadecimal
  unsigned := ⟨['0', 'X'], ['1', 'f'], none, none, by decide, by decide, by simp [Radix.digits],
    nofun⟩

theorem reads_numerals_hexadecimal : minusThirtyOne.value = -31 ∧
    ∃ f, ofText? "\t-0X1f " = some f ∧ Carries f.toModel.unpack (-31) := by
  have stands : minusThirtyOne.StandsIn "\t-0X1f " :=
    ⟨['\t'], [' '], by decide, by simp [Text.isBlank], by simp [Text.isBlank]⟩
  exact ⟨by decide, (reads_numerals _).2 _ stands ⟨rfl, rfl⟩ (by decide)⟩

end RegisterVm.Number
