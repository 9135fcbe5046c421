import Mathlib.Data.Int.ModEq
import RegisterVm.Proofs.Bitwise.Words
import RegisterVm.Proofs.Number.Grammar
import RegisterVm.Proofs.Number.Nearest

/-!
Whole numerals in a base. A text is read in a base just if it is such a numeral between blanks, however
long it is. What the numeral denotes is taken modulo 2^64, and the number is the double nearest to the
integer of 64 bits with a sign that is left.
-/

namespace RegisterVm.Number

def digitOrder : List Char :=
  ['0', '1', '2', '3', '4', '5', '6', '7', '8', '9', 'a', 'b', 'c', 'd', 'e', 'f', 'g', 'h', 'i', 'j',
    'k', 'l', 'm', 'n', 'o', 'p', 'q', 'r', 's', 't', 'u', 'v', 'w', 'x', 'y', 'z']

def rank (c : Char) : Nat := digitOrder.idxOf c.toLower

/-- A whole numeral in a base. There is no plus sign. -/
structure WholeNumeral (base : Nat) where
  sign : SignMark
  digits : List Char
  plain : sign ≠ .plus
  present : digits ≠ []
  valid : ∀ c ∈ digits, rank c < base

namespace WholeNumeral

variable {base : Nat}

def chars (n : WholeNumeral base) : List Char := n.sign.chars ++ n.digits

def StandsIn (n : WholeNumeral base) (s : String) : Prop :=
  ∃ before after, s.toList = before ++ n.chars ++ after ∧
    (∀ c ∈ before, Text.isBlank c = true) ∧ ∀ c ∈ after, Text.isBlank c = true

def magnitude (n : WholeNumeral base) : Nat := Nat.ofDigits base (n.digits.reverse.map rank)

def value (n : WholeNumeral base) : Int := n.sign.apply n.magnitude

end WholeNumeral

section Ranks

variable {base : Nat} {c : Char}

theorem toNat_toLower (c : Char) :
    c.toLower.toNat = if 65 ≤ c.toNat ∧ c.toNat ≤ 90 then c.toNat + 32 else c.toNat := by
  have codes : c.val ≥ 'A'.val ∧ c.val ≤ 'Z'.val ↔ 65 ≤ c.toNat ∧ c.toNat ≤ 90 := Iff.rfl
  rw [Char.toLower]
  by_cases upper : 65 ≤ c.toNat ∧ c.toNat ≤ 90
  · rw [dif_pos (codes.2 upper), if_pos upper]
    have bound : c.val.toNat ≤ 90 := upper.2
    show (c.val + 32).toNat = c.val.toNat + 32
    simp only [UInt32.toNat_add, UInt32.reduceToNat]
    omega
  · rw [dif_neg (codes.not.2 upper), if_neg upper]

theorem toNat_digitOrder : ∀ k : Fin digitOrder.length,
    digitOrder[k].toNat = if k.val < 10 then k.val + 48 else k.val + 87 := by
  decide

theorem rank_eq {k : Nat} (inside : k < digitOrder.length)
    (code : c.toLower.toNat = if k < 10 then k + 48 else k + 87) : rank c = k := by
  have distinct : digitOrder.Nodup := by decide
  have same : c.toLower = digitOrder[k] :=
    Char.toNat_inj.1 (code.trans (toNat_digitOrder ⟨k, inside⟩).symm)
  rw [rank, same, distinct.idxOf_getElem]

theorem rank_code (c : Char) : rank c =
    if 48 ≤ c.toNat ∧ c.toNat ≤ 57 then c.toNat - 48
    else if 97 ≤ c.toNat ∧ c.toNat ≤ 122 then c.toNat - 87
    else if 65 ≤ c.toNat ∧ c.toNat ≤ 90 then c.toNat - 55
    else 36 := by
  have length : digitOrder.length = 36 := rfl
  split_ifs with decimal small large
  · exact rank_eq (by omega) (by rw [toNat_toLower, if_neg (by omega), if_pos (by omega)]; omega)
  · exact rank_eq (by omega) (by rw [toNat_toLower, if_neg (by omega), if_neg (by omega)]; omega)
  · exact rank_eq (by omega) (by rw [toNat_toLower, if_pos (by omega), if_neg (by omega)]; omega)
  · have listed : digitOrder.map Char.toNat = List.range' 48 10 ++ List.range' 97 26 := by decide
    rw [rank, List.idxOf_eq_length, length]
    rw [toNat_mem_iff, listed, List.mem_append, List.mem_range'_1, List.mem_range'_1,
      toNat_toLower, if_neg large]
    omega

theorem digitValue?_eq_rank (small : base ≤ 36) (c : Char) :
    digitValue? base c = if rank c < base then some (rank c) else none := by
  rw [digitValue?_eq, rank_code]
  split_ifs <;> first | rfl | omega

theorem rank_other {c : Char} (other : Text.isBlank c = true ∨ c = '-' ∨ c = '+') : rank c = 36 := by
  rw [rank_code]
  rcases other with blank | rfl | rfl
  · simp only [Text.isBlank, Bool.or_eq_true, Bool.and_eq_true, decide_eq_true_eq, beq_iff_eq] at blank
    rw [if_neg (by omega), if_neg (by omega), if_neg (by omega)]
  · rfl
  · rfl

end Ranks

section Folding

variable {base : Nat} {digits : List Char}

theorem ofDigits_cons (base : Nat) (c : Char) (digits : List Char) :
    Nat.ofDigits base ((c :: digits).reverse.map rank) =
      rank c * base ^ digits.length + Nat.ofDigits base (digits.reverse.map rank) := by
  rw [List.reverse_cons, List.map_append, Nat.ofDigits_append, List.length_map, List.length_reverse,
    List.map_singleton, Nat.ofDigits_singleton]
  ring

theorem radixWord?_step (small : base ≤ 36) (total : UInt64) {d : Nat} (below : d < base) :
    (total * base.toUInt64 + d.toUInt64).toNat ≡ total.toNat * base + d [MOD 2 ^ 64] := by
  rw [UInt64.toNat_add, UInt64.toNat_mul, Nat.toUInt64_eq, Nat.toUInt64_eq, UInt64.toNat_ofNat',
    UInt64.toNat_ofNat', Nat.mod_eq_of_lt (by omega : base < 2 ^ 64),
    Nat.mod_eq_of_lt (by omega : d < 2 ^ 64)]
  exact (Nat.mod_modEq _ _).trans ((Nat.mod_modEq _ _).add_right d)

theorem radixWord?_digits (small : base ≤ 36) (valid : ∀ c ∈ digits, rank c < base)
    (total : UInt64) : ∃ w, radixWord? base total digits = some w ∧
      w.toNat ≡ total.toNat * base ^ digits.length +
        Nat.ofDigits base (digits.reverse.map rank) [MOD 2 ^ 64] := by
  induction digits generalizing total with
  | nil => exact ⟨total, rfl, by simp [Nat.ModEq]⟩
  | cons c digits ih =>
      have below := valid c (by simp)
      obtain ⟨w, read, denotes⟩ := ih (fun d member => valid d (by simp [member]))
        (total * base.toUInt64 + (rank c).toUInt64)
      refine ⟨w, ?_, denotes.trans ?_⟩
      · rw [radixWord?, digitValue?_eq_rank small, if_pos below]
        exact read
      · have step := (radixWord?_step small total below).mul_right (base ^ digits.length)
        have split : total.toNat * base ^ (digits.length + 1) + (rank c * base ^ digits.length +
            Nat.ofDigits base (digits.reverse.map rank)) =
          (total.toNat * base + rank c) * base ^ digits.length +
            Nat.ofDigits base (digits.reverse.map rank) := by ring
        rw [ofDigits_cons, List.length_cons, split]
        exact step.add_right _

theorem radixWord?_valid (small : base ≤ 36) {total w : UInt64}
    (read : radixWord? base total digits = some w) : ∀ c ∈ digits, rank c < base := by
  induction digits generalizing total with
  | nil => nofun
  | cons c digits ih =>
      rw [radixWord?, digitValue?_eq_rank small] at read
      split at read
      · rename_i d found
        split at found
        · rename_i below
          exact List.forall_mem_cons.2 ⟨below, ih read⟩
        · contradiction
      · contradiction

theorem ofDigits?_some (present : digits ≠ []) :
    ofDigits? base digits = radixWord? base 0 digits := by
  rw [ofDigits?, if_neg (by simpa using present)]

theorem ofDigits?_accepts (small : base ≤ 36) {w : UInt64} (read : ofDigits? base digits = some w) :
    digits ≠ [] ∧ ∀ c ∈ digits, rank c < base := by
  rw [ofDigits?] at read
  split at read
  · contradiction
  · rename_i present
    exact ⟨by simpa using present, radixWord?_valid small read⟩

end Folding

section Signs

theorem signedOf_bounds (w : UInt64) : -2 ^ 63 ≤ signedOf w ∧ signedOf w < 2 ^ 63 := by
  rw [signedOf_eq]
  exact ⟨BitVec.le_toInt _, BitVec.toInt_lt⟩

theorem signedOf_modEq (w : UInt64) : signedOf w ≡ w.toNat [ZMOD 2 ^ 64] := by
  rw [signedOf, Int.ModEq]
  split <;> omega

def signedWord (sign : SignMark) (w : UInt64) : UInt64 := if sign = .minus then 0 - w else w

theorem signedWord_modEq (sign : SignMark) {w : UInt64} {n : Nat}
    (denotes : w.toNat ≡ n [MOD 2 ^ 64]) :
    signedOf (signedWord sign w) ≡ sign.apply n [ZMOD 2 ^ 64] := by
  have bound := w.toNat_lt
  refine (signedOf_modEq _).trans ?_
  rw [Nat.ModEq] at denotes
  rw [signedWord, SignMark.apply, Int.ModEq]
  split
  · rw [UInt64.toNat_sub, UInt64.toNat_zero]
    omega
  · omega

variable {base : Nat} {s : String} {rest : List Char}

theorem ofTextInBase?_sign (small : base ≤ 36) (sign : SignMark)
    (trimmed : Text.trimBlanks s.toList = sign.chars ++ rest)
    (apart : sign = .absent → ∀ c ∈ rest.head?, c ≠ '-' ∧ c ≠ '+') :
    ofTextInBase? base s = if sign = .plus then none
      else (ofDigits? base rest).map fun w => ofInteger (signedOf (signedWord sign w)) := by
  rw [ofTextInBase?, trimmed]
  cases sign with
  | minus =>
      rw [if_neg (by decide)]
      exact Option.map_map _ _ _
  | plus =>
      have refused : ofDigits? base ('+' :: rest) = none := by
        by_contra accepted
        obtain ⟨w, read⟩ := Option.ne_none_iff_exists'.1 accepted
        have digit := (ofDigits?_accepts small read).2 '+' (by simp)
        rw [rank_other (.inr (.inr rfl))] at digit
        omega
      rw [if_pos rfl]
      exact congrArg (Option.map _) refused
  | absent =>
      rw [if_neg (by decide), SignMark.chars, List.nil_append]
      split
      · exact absurd rfl (apart rfl '-' rfl).1
      · rfl

end Signs

namespace WholeNumeral

variable {base : Nat} {n : WholeNumeral base} {s : String}

theorem head_apart (small : base ≤ 36) (n : WholeNumeral base) :
    ∀ c ∈ n.digits.head?, c ≠ '-' ∧ c ≠ '+' := by
  intro c first
  have digit := n.valid c (List.mem_of_mem_head? first)
  refine ⟨?_, ?_⟩
  · rintro rfl
    rw [rank_other (.inr (.inl rfl))] at digit
    omega
  · rintro rfl
    rw [rank_other (.inr (.inr rfl))] at digit
    omega

theorem trimBlanks_standsIn (small : base ≤ 36) (stands : n.StandsIn s) :
    Text.trimBlanks s.toList = n.sign.chars ++ n.digits := by
  obtain ⟨before, after, text, front, back⟩ := stands
  rw [text]
  refine trimBlanks_between ?_ front back fun c member => ?_
  · simpa [chars] using fun _ => n.present
  · rcases List.mem_append.1 member with sign | digit
    · cases written : n.sign <;> simp [written, SignMark.chars] at sign <;> subst sign <;> decide
    · by_contra blank
      have below := n.valid c digit
      rw [rank_other (.inl (by simpa using blank))] at below
      omega

theorem ofTextInBase?_eq (small : base ≤ 36) (stands : n.StandsIn s) :
    ∃ w, ofTextInBase? base s = some (ofInteger w) ∧ -2 ^ 63 ≤ w ∧ w < 2 ^ 63 ∧
      w ≡ n.value [ZMOD 2 ^ 64] := by
  obtain ⟨word, read, denotes⟩ := radixWord?_digits small n.valid 0
  rw [UInt64.toNat_zero, Nat.zero_mul, Nat.zero_add] at denotes
  refine ⟨signedOf (signedWord n.sign word), ?_, (signedOf_bounds _).1, (signedOf_bounds _).2,
    signedWord_modEq n.sign denotes⟩
  rw [ofTextInBase?_sign small n.sign (trimBlanks_standsIn small stands) fun _ => head_apart small n,
    if_neg n.plain, ofDigits?_some n.present, read]
  rfl

theorem exists_of_ofTextInBase? (small : base ≤ 36) {f : Float}
    (read : ofTextInBase? base s = some f) : ∃ n : WholeNumeral base, n.StandsIn s := by
  obtain ⟨before, after, text, front, back⟩ := exists_blanks s.toList
  obtain ⟨sign, rest, trimmed, apart⟩ := exists_sign (Text.trimBlanks s.toList)
  rw [ofTextInBase?_sign small sign trimmed apart] at read
  split at read
  · contradiction
  · rename_i plain
    obtain ⟨w, found, -⟩ := Option.map_eq_some_iff.1 read
    obtain ⟨present, valid⟩ := ofDigits?_accepts small found
    exact ⟨⟨sign, rest, plain, present, valid⟩, before, after, by rw [text, trimmed]; rfl, front, back⟩

end WholeNumeral

/-- A text is read in a base just if it is a whole numeral between blanks. What is read is the double
nearest to the integer of 64 bits that is left of what the numeral denotes, and so what it denotes, if
that is 2^53 at most. -/
theorem reads_in_base {base : Nat} (small : base ≤ 36) (s : String) :
    ((ofTextInBase? base s).isSome = true ↔ ∃ n : WholeNumeral base, n.StandsIn s) ∧
    ∀ n : WholeNumeral base, n.StandsIn s → ∃ w : Int, ofTextInBase? base s = some (ofInteger w) ∧
      (-2 ^ 63 ≤ w ∧ w < 2 ^ 63 ∧ w ≡ n.value [ZMOD 2 ^ 64]) ∧ IsNearest (ofInteger w) w ∧
      (n.value.natAbs ≤ 2 ^ 53 → rational? (ofInteger w) = some (n.value : ℚ)) := by
  refine ⟨⟨fun accepted => ?_, ?_⟩, fun n stands => ?_⟩
  · obtain ⟨f, read⟩ := Option.isSome_iff_exists.1 accepted
    exact WholeNumeral.exists_of_ofTextInBase? small read
  · rintro ⟨n, stands⟩
    obtain ⟨w, read, -⟩ := WholeNumeral.ofTextInBase?_eq small stands
    rw [read, Option.isSome_some]
  · obtain ⟨w, read, low, high, denotes⟩ := WholeNumeral.ofTextInBase?_eq small stands
    refine ⟨w, read, ⟨low, high, denotes⟩, isNearest_ofInteger (by omega), fun few => ?_⟩
    have same : w = n.value := by
      rw [Int.ModEq] at denotes
      omega
    have carries := carries_ofInteger (i := n.value) (by omega)
    rw [nearest_of_small few] at carries
    rw [same, carries.rational]

def lastDigits : WholeNumeral 36 where
  sign := .minus
  digits := (List.replicate 16 ['z', 'Z']).flatten
  plain := by decide
  present := by decide
  valid := by
    intro c member
    obtain ⟨pair, repeated, inside⟩ := List.mem_flatten.1 member
    rw [List.eq_of_mem_replicate repeated] at inside
    obtain rfl | rfl : c = 'z' ∨ c = 'Z' := by simpa using inside
    · decide
    · decide

/-- These digits denote 36^32 - 1, and 2^64 divides 36^32. They are read as minus one, which the sign
turns around. -/
theorem reads_in_base_wrapping : lastDigits.value = -(36 ^ 32 - 1) ∧
    ofTextInBase? 36 "\t-zZzZzZzZzZzZzZzZzZzZzZzZzZzZzZzZ " = some (ofInteger 1) := by
  have stands : lastDigits.StandsIn "\t-zZzZzZzZzZzZzZzZzZzZzZzZzZzZzZzZ " :=
    ⟨['\t'], [' '], by decide, by simp [Text.isBlank], by simp [Text.isBlank]⟩
  have value : lastDigits.value = -(36 ^ 32 - 1) := by decide
  obtain ⟨w, read, ⟨low, high, denotes⟩, -⟩ := (reads_in_base (Nat.le_refl 36) _).2 _ stands
  rw [value, Int.ModEq] at denotes
  obtain rfl : w = 1 := by omega
  exact ⟨value, read⟩

end RegisterVm.Number
