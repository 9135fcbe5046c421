import Mathlib.Data.List.Basic
import Mathlib.Data.List.Induction
import Mathlib.Data.List.TakeWhile
import Mathlib.Data.Nat.Digits.Defs
import Mathlib.Tactic.Ring
import RegisterVm.Number.Numeral

/-!
The grammar of numerals. A numeral has an optional sign, digits with at most one point among them,
and an optional exponent; the hexadecimal ones begin with a mark of their own. A text is read as a
number just if it is a numeral between blanks.
-/

namespace RegisterVm.Number

inductive Radix where
  | decimal
  | hexadecimal
  deriving DecidableEq, Repr

namespace Radix

def base : Radix → Nat
  | .decimal => 10
  | .hexadecimal => 16

def digits : Radix → List Char
  | .decimal => ['0', '1', '2', '3', '4', '5', '6', '7', '8', '9']
  | .hexadecimal => ['0', '1', '2', '3', '4', '5', '6', '7', '8', '9', 'a', 'b', 'c', 'd', 'e', 'f',
      'A', 'B', 'C', 'D', 'E', 'F']

def leads : Radix → List (List Char)
  | .decimal => [[]]
  | .hexadecimal => [['0', 'x'], ['0', 'X']]

def marks : Radix → List Char
  | .decimal => ['e', 'E']
  | .hexadecimal => ['p', 'P']

/-- An exponent of a power of two has to fit 32 bits, also after four has been taken off for each
digit behind the point. -/
def Admits (exponent : Int) (places : Nat) : Radix → Prop
  | .decimal => True
  | .hexadecimal => -2 ^ 31 ≤ exponent ∧ exponent < 2 ^ 31 ∧
      -2 ^ 31 ≤ exponent - 4 * places ∧ exponent - 4 * places < 2 ^ 31

def alphabet (radix : Radix) : List Char :=
  radix.leads.flatten ++ radix.digits ++ radix.marks ++ ['.', '+', '-'] ++ Radix.decimal.digits

end Radix

def natural (base : Nat) (digits : List Char) : Nat :=
  Nat.ofDigits base (digits.reverse.map fun c => (digitValue? base c).getD 0)

inductive SignMark where
  | absent
  | plus
  | minus
  deriving DecidableEq, Repr

namespace SignMark

def chars : SignMark → List Char
  | .absent => []
  | .plus => ['+']
  | .minus => ['-']

def apply (sign : SignMark) (n : Int) : Int := if sign = .minus then -n else n

end SignMark

structure Power where
  mark : Char
  sign : SignMark
  digits : List Char
  present : digits ≠ []
  valid : ∀ c ∈ digits, c ∈ Radix.decimal.digits

namespace Power

def exponent (p : Power) : Int := p.sign.apply (natural 10 p.digits)

def chars (p : Power) : List Char := p.mark :: (p.sign.chars ++ p.digits)

end Power

structure Unsigned (radix : Radix) where
  lead : List Char
  whole : List Char
  fraction : Option (List Char)
  power : Option Power
  led : lead ∈ radix.leads
  present : whole ++ fraction.getD [] ≠ []
  valid : ∀ c ∈ whole ++ fraction.getD [], c ∈ radix.digits
  scaled : ∀ p ∈ power, p.mark ∈ radix.marks ∧ radix.Admits p.exponent (fraction.getD []).length

namespace Unsigned

variable {radix : Radix}

def digits (u : Unsigned radix) : List Char := u.whole ++ u.fraction.getD []

def point : Option (List Char) → List Char
  | none => []
  | some fraction => '.' :: fraction

def powerChars : Option Power → List Char
  | none => []
  | some p => p.chars

def body (u : Unsigned radix) : List Char := u.whole ++ point u.fraction ++ powerChars u.power

def chars (u : Unsigned radix) : List Char := u.lead ++ u.body

def exponent (u : Unsigned radix) : Int := (u.power.map Power.exponent).getD 0

def places (u : Unsigned radix) : Nat := (u.fraction.getD []).length

end Unsigned

structure Numeral where
  sign : SignMark
  radix : Radix
  unsigned : Unsigned radix

namespace Numeral

def chars (n : Numeral) : List Char := n.sign.chars ++ n.unsigned.chars

def StandsIn (n : Numeral) (s : String) : Prop :=
  ∃ before after, s.toList = before ++ n.chars ++ after ∧
    (∀ c ∈ before, Text.isBlank c = true) ∧ ∀ c ∈ after, Text.isBlank c = true

/-- There is neither a point nor an exponent. -/
def IsInteger (n : Numeral) : Prop := n.unsigned.fraction = none ∧ n.unsigned.power = none

def magnitude (n : Numeral) : Nat := natural n.radix.base n.unsigned.whole

def value (n : Numeral) : Int := n.sign.apply n.magnitude

end Numeral

section Digits

variable {radix : Radix} {cs : List Char}

theorem digitValue?_eq (base : Nat) (c : Char) : digitValue? base c =
    if 48 ≤ c.toNat ∧ c.toNat ≤ 57 then if c.toNat - 48 < base then some (c.toNat - 48) else none
    else if 97 ≤ c.toNat ∧ c.toNat ≤ 122 then
      if c.toNat - 87 < base then some (c.toNat - 87) else none
    else if 65 ≤ c.toNat ∧ c.toNat ≤ 90 then
      if c.toNat - 55 < base then some (c.toNat - 55) else none
    else none := by
  simp only [digitValue?, Bool.and_eq_true, decide_eq_true_eq]
  split_ifs <;> simp [*]

theorem isSome_digitValue? (base : Nat) (c : Char) : (digitValue? base c).isSome = true ↔
    48 ≤ c.toNat ∧ c.toNat ≤ 57 ∧ c.toNat - 48 < base ∨
    97 ≤ c.toNat ∧ c.toNat ≤ 122 ∧ c.toNat - 87 < base ∨
    65 ≤ c.toNat ∧ c.toNat ≤ 90 ∧ c.toNat - 55 < base := by
  rw [digitValue?_eq]
  generalize c.toNat = n
  split_ifs <;> simp only [Option.isSome_some, Option.isSome_none, true_iff, Bool.false_eq_true,
    false_iff] <;> omega

theorem toNat_mem_iff {c : Char} {chars : List Char} :
    c ∈ chars ↔ c.toNat ∈ chars.map Char.toNat := by
  rw [List.mem_map]
  constructor
  · exact fun member => ⟨c, member, rfl⟩
  · rintro ⟨d, member, same⟩
    rwa [← Char.toNat_inj.1 same]

theorem mem_digits_iff (radix : Radix) (c : Char) :
    c ∈ radix.digits ↔ (digitValue? radix.base c).isSome = true := by
  have codes : c ∈ radix.digits ↔ c.toNat ∈ radix.digits.map Char.toNat := toNat_mem_iff
  rw [codes, isSome_digitValue?]
  cases radix with
  | decimal =>
      have listed : Radix.decimal.digits.map Char.toNat = List.range' 48 10 := by decide
      rw [listed, List.mem_range'_1]
      simp only [Radix.base]
      omega
  | hexadecimal =>
      have listed : Radix.hexadecimal.digits.map Char.toNat =
        List.range' 48 10 ++ List.range' 97 6 ++ List.range' 65 6 := by decide
      rw [listed, List.mem_append, List.mem_append, List.mem_range'_1, List.mem_range'_1,
        List.mem_range'_1]
      simp only [Radix.base]
      omega

theorem natural_append (base : Nat) (digits : List Char) (c : Char) :
    natural base (digits ++ [c]) = natural base digits * base + (digitValue? base c).getD 0 := by
  simp only [natural, List.reverse_append, List.reverse_cons, List.reverse_nil, List.nil_append,
    List.singleton_append, List.map_cons, Nat.ofDigits_cons]
  ring

theorem naturalOf_append (digits : List Char) (c : Char) :
    naturalOf (digits ++ [c]) = naturalOf digits * 10 + (c.toNat - 48) := by
  simp [naturalOf]

theorem digitValue?_decimal {c : Char} (valid : c ∈ Radix.decimal.digits) :
    digitValue? 10 c = some (c.toNat - 48) := by
  have codes : c.toNat ∈ Radix.decimal.digits.map Char.toNat := toNat_mem_iff.1 valid
  have listed : Radix.decimal.digits.map Char.toNat = List.range' 48 10 := by decide
  rw [listed, List.mem_range'_1] at codes
  rw [digitValue?_eq, if_pos (by omega), if_pos (by omega)]

theorem naturalOf_eq (valid : ∀ c ∈ cs, c ∈ Radix.decimal.digits) :
    naturalOf cs = natural 10 cs := by
  induction cs using List.reverseRecOn with
  | nil => rfl
  | append_singleton cs c ih =>
      rw [naturalOf_append, natural_append, ih fun d member => valid d (by simp [member]),
        digitValue?_decimal (valid c (by simp)), Option.getD_some]

theorem isDigit_iff {c : Char} : isDigit c = true ↔ c ∈ Radix.decimal.digits :=
  (mem_digits_iff .decimal c).symm

theorem isHexDigit_iff {c : Char} : isHexDigit c = true ↔ c ∈ Radix.hexadecimal.digits :=
  (mem_digits_iff .hexadecimal c).symm

theorem natural?_eq_some_iff {n : Nat} : natural? cs = some n ↔
    cs ≠ [] ∧ (∀ c ∈ cs, c ∈ Radix.decimal.digits) ∧ n = natural 10 cs := by
  have valid : cs.all isDigit = true ↔ ∀ c ∈ cs, c ∈ Radix.decimal.digits := by
    simp only [List.all_eq_true, isDigit_iff]
  rw [natural?]
  split
  · rename_i refused
    simp only [Bool.or_eq_true, List.isEmpty_iff, Bool.not_eq_true', ← Bool.not_eq_true] at refused
    rw [valid] at refused
    constructor
    · exact nofun
    · rintro ⟨present, digits, -⟩
      exact absurd digits (refused.resolve_left present)
  · rename_i accepted
    simp only [Bool.or_eq_true, List.isEmpty_iff, Bool.not_eq_true', not_or,
      Bool.not_eq_false] at accepted
    rw [valid] at accepted
    rw [Option.some.injEq, naturalOf_eq accepted.2]
    exact ⟨fun same => ⟨accepted.1, accepted.2, same.symm⟩, fun ⟨_, _, same⟩ => same.symm⟩

end Digits

section Exponents

variable {cs : List Char}

theorem exponent?_sign (sign : SignMark)
    (apart : sign = .absent → ∀ c ∈ cs.head?, c ≠ '-' ∧ c ≠ '+') :
    exponent? (sign.chars ++ cs) = (natural? cs).map fun (n : Nat) => sign.apply n := by
  cases sign with
  | plus | minus =>
      simp only [SignMark.chars, List.singleton_append, exponent?]
      cases natural? cs <;> rfl
  | absent =>
      rw [SignMark.chars, List.nil_append, exponent?.eq_def]
      split
      · exact absurd rfl (apart rfl '-' rfl).1
      · exact absurd rfl (apart rfl '+' rfl).2
      · cases natural? cs <;> rfl

theorem exists_sign (cs : List Char) : ∃ (sign : SignMark) (rest : List Char),
    cs = sign.chars ++ rest ∧ (sign = .absent → ∀ c ∈ rest.head?, c ≠ '-' ∧ c ≠ '+') := by
  by_cases minus : cs.head? = some '-'
  · obtain ⟨rest, rfl⟩ := List.head?_eq_some_iff.1 minus
    exact ⟨.minus, rest, rfl, nofun⟩
  by_cases plus : cs.head? = some '+'
  · obtain ⟨rest, rfl⟩ := List.head?_eq_some_iff.1 plus
    exact ⟨.plus, rest, rfl, nofun⟩
  refine ⟨.absent, cs, rfl, fun _ c first => ?_⟩
  rw [Option.mem_def] at first
  rw [first, Option.some.injEq] at minus plus
  exact ⟨minus, plus⟩

theorem head_apart {radix : Radix} (valid : ∀ c ∈ cs, c ∈ radix.digits) :
    ∀ c ∈ cs.head?, c ≠ '-' ∧ c ≠ '+' := by
  intro c first
  have digit := valid c (List.mem_of_mem_head? first)
  constructor
  · rintro rfl
    cases radix <;> exact absurd digit (by decide)
  · rintro rfl
    cases radix <;> exact absurd digit (by decide)

theorem exponent?_of_power (p : Power) :
    exponent? (p.sign.chars ++ p.digits) = some p.exponent := by
  rw [exponent?_sign p.sign fun _ => head_apart p.valid,
    natural?_eq_some_iff.2 ⟨p.present, p.valid, rfl⟩]
  rfl

theorem exists_power (mark : Char) {e : Int} (read : exponent? cs = some e) :
    ∃ p : Power, p.mark = mark ∧ p.exponent = e ∧ p.chars = mark :: cs := by
  obtain ⟨sign, digits, rfl, apart⟩ := exists_sign cs
  rw [exponent?_sign sign apart] at read
  obtain ⟨n, named, rfl⟩ := Option.map_eq_some_iff.1 read
  obtain ⟨present, valid, rfl⟩ := natural?_eq_some_iff.1 named
  exact ⟨⟨mark, sign, digits, present, valid⟩, rfl, rfl, rfl⟩

end Exponents

section Points

variable {radix : Radix} {isDigit : Char → Bool} {cs : List Char}

theorem takeWhile_append_stop {p : Char → Bool} {front rest : List Char}
    (all : ∀ c ∈ front, p c = true) (stop : ∀ c ∈ rest.head?, p c = false) : (front ++ rest).takeWhile p = front := by
  rw [List.takeWhile_append_of_pos all]
  cases rest with
  | nil => simp
  | cons c rest => simp [stop c rfl]

theorem dropWhile_append_stop {p : Char → Bool} {front rest : List Char}
    (all : ∀ c ∈ front, p c = true) (stop : ∀ c ∈ rest.head?, p c = false) : (front ++ rest).dropWhile p = rest := by
  rw [List.dropWhile_append_of_pos all]
  cases rest with
  | nil => rfl
  | cons c rest => simp [stop c rfl]

theorem splitPoint_point {whole rest : List Char} {fraction : Option (List Char)}
    (valid : ∀ c ∈ whole ++ fraction.getD [], isDigit c = true) (dot : isDigit '.' = false)
    (stop : ∀ c ∈ rest.head?, isDigit c = false ∧ c ≠ '.') :
    splitPoint isDigit (whole ++ Unsigned.point fraction ++ rest) =
      (whole, fraction.getD [], rest) := by
  have front : ∀ c ∈ whole, isDigit c = true := fun c member => valid c (by simp [member])
  have beyond : ∀ c ∈ rest.head?, isDigit c = false := fun c first => (stop c first).1
  cases fraction with
  | none =>
      simp only [splitPoint, Unsigned.point, List.append_nil, takeWhile_append_stop front beyond,
        dropWhile_append_stop front beyond, Option.getD_none]
      split
      · exact absurd rfl (stop '.' rfl).2
      · rfl
  | some fraction =>
      have back : ∀ c ∈ fraction, isDigit c = true := fun c member => valid c (by simp [member])
      have point : ∀ c ∈ ('.' :: (fraction ++ rest)).head?, isDigit c = false := by
        rintro c ⟨⟩
        exact dot
      simp only [splitPoint, Unsigned.point, List.append_assoc, List.cons_append,
        takeWhile_append_stop front point, dropWhile_append_stop front point,
        takeWhile_append_stop back beyond, dropWhile_append_stop back beyond, Option.getD_some]

theorem splitPoint_sound {whole digits rest : List Char}
    (split : splitPoint isDigit cs = (whole, digits, rest)) : ∃ fraction : Option (List Char),
      fraction.getD [] = digits ∧ cs = whole ++ Unsigned.point fraction ++ rest ∧
      ∀ c ∈ whole ++ digits, isDigit c = true := by
  have front : ∀ c ∈ cs.takeWhile isDigit, isDigit c = true := fun c => List.mem_takeWhile_imp
  have joined := List.takeWhile_append_dropWhile (p := isDigit) (l := cs)
  simp only [splitPoint] at split
  split at split
  · rename_i behind follows
    obtain ⟨rfl, rfl, rfl⟩ := split
    refine ⟨some (behind.takeWhile isDigit), rfl, ?_, fun c member => ?_⟩
    · rw [Unsigned.point, List.append_assoc, List.cons_append, List.takeWhile_append_dropWhile,
        ← follows, joined]
    · rcases List.mem_append.1 member with first | second
      · exact front c first
      · exact List.mem_takeWhile_imp second
  · obtain ⟨rfl, rfl, rfl⟩ := split
    refine ⟨none, rfl, ?_, fun c member => ?_⟩
    · rw [Unsigned.point, List.append_nil, joined]
    · exact front c (by simpa using member)

end Points

section Reading

variable {radix : Radix} {cs : List Char}

namespace Radix

def isDigit : Radix → Char → Bool
  | .decimal => Number.isDigit
  | .hexadecimal => isHexDigit

theorem isDigit_iff {c : Char} : radix.isDigit c = true ↔ c ∈ radix.digits := by
  cases radix with
  | decimal => exact Number.isDigit_iff
  | hexadecimal => exact isHexDigit_iff

theorem mark_apart {c : Char} (mark : c ∈ radix.marks) : radix.isDigit c = false ∧ c ≠ '.' := by
  cases radix with
  | decimal =>
      obtain rfl | rfl : c = 'e' ∨ c = 'E' := by simpa [marks] using mark
      all_goals exact ⟨by decide, by decide⟩
  | hexadecimal =>
      obtain rfl | rfl : c = 'p' ∨ c = 'P' := by simpa [marks] using mark
      all_goals exact ⟨by decide, by decide⟩

def read? : Radix → List Char → Option Float
  | .decimal => decimal?
  | .hexadecimal => hexadecimal?

end Radix

namespace Unsigned

def read {radix : Radix} (u : Unsigned radix) : Float :=
  match radix with
  | .decimal => scaleDecimal (natural 10 u.digits) (u.exponent - u.places)
  | .hexadecimal => hexMantissa u.digits * powerOfTwo (u.exponent - 4 * u.places)

theorem mark_of_head (u : Unsigned radix) {c : Char} (first : c ∈ (powerChars u.power).head?) :
    c ∈ radix.marks := by
  obtain ⟨lead, whole, fraction, power, led, present, valid, scaled⟩ := u
  cases power with
  | none => contradiction
  | some p =>
      obtain rfl : p.mark = c := Option.some.inj first
      exact (scaled p rfl).1

theorem splitPoint_body (u : Unsigned radix) :
    splitPoint radix.isDigit u.body = (u.whole, u.fraction.getD [], powerChars u.power) := by
  refine splitPoint_point (fun c member => Radix.isDigit_iff.2 (u.valid c member)) ?_ fun c first =>
    Radix.mark_apart (u.mark_of_head first)
  cases radix <;> decide

theorem nonempty_digits (u : Unsigned radix) :
    (u.whole.isEmpty && (u.fraction.getD []).isEmpty) = false := by
  have present := u.present
  rw [ne_eq, List.append_eq_nil_iff] at present
  simpa [List.isEmpty_iff] using present

theorem fits_iff {e : Int} : fitsThirtyTwoBits e = true ↔ -2 ^ 31 ≤ e ∧ e < 2 ^ 31 := by
  simp only [fitsThirtyTwoBits, Bool.and_eq_true, decide_eq_true_eq]
  omega

theorem decimal?_body (u : Unsigned .decimal) : decimal? u.body = some u.read := by
  have digits := naturalOf_eq u.valid
  simp only [decimal?, show splitPoint Number.isDigit u.body = _ from u.splitPoint_body,
    u.nonempty_digits, Bool.false_eq_true, if_false, digits]
  obtain ⟨lead, whole, fraction, power, led, present, valid, scaled⟩ := u
  cases power with
  | none =>
      simp only [powerChars, read, exponent, places, Unsigned.digits, Option.map_none,
        Option.getD_none, Int.zero_sub]
  | some p =>
      have mark : (p.mark == 'e' || p.mark == 'E') = true := by
        simpa [Radix.marks] using (scaled p rfl).1
      simp only [powerChars, Power.chars, mark, if_true, exponent?_of_power, Option.map_some]
      rfl

theorem hexadecimal?_body (u : Unsigned .hexadecimal) : hexadecimal? u.body = some u.read := by
  simp only [hexadecimal?, show splitPoint isHexDigit u.body = _ from u.splitPoint_body,
    u.nonempty_digits, Bool.false_eq_true, if_false]
  obtain ⟨lead, whole, fraction, power, led, present, valid, scaled⟩ := u
  cases power with
  | none =>
      simp only [powerChars, read, exponent, places, Unsigned.digits, Option.map_none,
        Option.getD_none, Int.zero_sub]
  | some p =>
      obtain ⟨marked, lower, upper, lower', upper'⟩ := scaled p rfl
      have mark : (p.mark == 'p' || p.mark == 'P') = true := by simpa [Radix.marks] using marked
      have fits : (fitsThirtyTwoBits p.exponent &&
          fitsThirtyTwoBits (p.exponent - 4 * (fraction.getD []).length)) = true := by
        rw [Bool.and_eq_true, fits_iff, fits_iff]
        exact ⟨⟨lower, upper⟩, lower', upper'⟩
      simp only [powerChars, Power.chars, mark, if_true, exponent?_of_power, fits]
      rfl

theorem read?_body (u : Unsigned radix) : radix.read? u.body = some u.read := by
  cases radix with
  | decimal => exact u.decimal?_body
  | hexadecimal => exact u.hexadecimal?_body

theorem exists_of_split {lead whole fraction rest : List Char} (power : Option Power)
    (led : lead ∈ radix.leads) (split : splitPoint radix.isDigit cs = (whole, fraction, rest))
    (present : (whole.isEmpty && fraction.isEmpty) = false) (written : powerChars power = rest)
    (scaled : ∀ p ∈ power, p.mark ∈ radix.marks ∧ radix.Admits p.exponent fraction.length) :
    ∃ u : Unsigned radix, u.lead = lead ∧ u.body = cs := by
  obtain ⟨behind, rfl, rfl, valid⟩ := splitPoint_sound split
  have present : whole ++ behind.getD [] ≠ [] := by
    rintro empty
    obtain ⟨first, second⟩ := List.append_eq_nil_iff.1 empty
    simp [first, second] at present
  exact ⟨⟨lead, whole, behind, power, led, present,
    fun c member => Radix.isDigit_iff.1 (valid c member), scaled⟩, rfl, by rw [body, written]⟩

theorem exists_of_decimal? {lead : List Char} {f : Float} (led : lead ∈ Radix.leads .decimal)
    (read : decimal? cs = some f) : ∃ u : Unsigned .decimal, u.lead = lead ∧ u.body = cs := by
  rw [decimal?] at read
  obtain ⟨⟨whole, fraction, rest⟩, split⟩ : ∃ parts, splitPoint Number.isDigit cs = parts :=
    ⟨_, rfl⟩
  simp only [split] at read
  split at read
  · contradiction
  rename_i present
  rw [Bool.not_eq_true] at present
  split at read
  · exact exists_of_split none led split present rfl nofun
  · rename_i mark rest
    split at read
    · rename_i marked
      obtain ⟨e, found, -⟩ := Option.map_eq_some_iff.1 read
      obtain ⟨p, rfl, -, written⟩ := exists_power mark found
      refine exists_of_split (some p) led split present written ?_
      rintro _ ⟨⟩
      exact ⟨by simpa [Radix.marks] using marked, trivial⟩
    · contradiction

theorem exists_of_hexadecimal? {lead : List Char} {f : Float}
    (led : lead ∈ Radix.leads .hexadecimal) (read : hexadecimal? cs = some f) :
    ∃ u : Unsigned .hexadecimal, u.lead = lead ∧ u.body = cs := by
  rw [hexadecimal?] at read
  obtain ⟨⟨whole, fraction, rest⟩, split⟩ : ∃ parts, splitPoint isHexDigit cs = parts := ⟨_, rfl⟩
  simp only [split] at read
  split at read
  · contradiction
  rename_i present
  rw [Bool.not_eq_true] at present
  split at read
  · exact exists_of_split none led split present rfl nofun
  · rename_i mark rest
    split at read
    · rename_i marked
      split at read
      · rename_i e found
        split at read
        · rename_i fits
          obtain ⟨p, rfl, rfl, written⟩ := exists_power mark found
          rw [Bool.and_eq_true, fits_iff, fits_iff] at fits
          refine exists_of_split (some p) led split present written ?_
          rintro _ ⟨⟩
          exact ⟨by simpa [Radix.marks] using marked, fits.1.1, fits.1.2, fits.2.1, fits.2.2⟩
        · contradiction
      · contradiction
    · contradiction

theorem exists_of_read? (radix : Radix) {lead : List Char} {f : Float} (led : lead ∈ radix.leads)
    (read : radix.read? cs = some f) : ∃ u : Unsigned radix, u.lead = lead ∧ u.body = cs := by
  cases radix with
  | decimal => exact exists_of_decimal? led read
  | hexadecimal => exact exists_of_hexadecimal? led read

theorem mem_alphabet (u : Unsigned radix) {c : Char} (member : c ∈ u.chars) :
    c ∈ radix.alphabet := by
  simp only [chars, body, List.mem_append] at member
  simp only [Radix.alphabet, List.mem_append, List.mem_flatten]
  rcases member with lead | (whole | dot) | power
  · exact .inl (.inl (.inl (.inl ⟨_, u.led, lead⟩)))
  · exact .inl (.inl (.inl (.inr (u.valid c (by simp [whole])))))
  · cases written : u.fraction with
    | none => simp [written, point] at dot
    | some fraction =>
        rw [written, point, List.mem_cons] at dot
        rcases dot with rfl | digit
        · exact .inl (.inr (by decide))
        · exact .inl (.inl (.inl (.inr (u.valid c (by simp [written, digit])))))
  · cases written : u.power with
    | none => simp [written, powerChars] at power
    | some p =>
        rw [written, powerChars, Power.chars, List.mem_cons, List.mem_append] at power
        rcases power with rfl | sign | digit
        · exact .inl (.inl (.inr (u.scaled p written).1))
        · refine .inl (.inr ?_)
          cases sign' : p.sign <;> simp [sign', SignMark.chars] at sign <;> simp [sign]
        · exact .inr (p.valid c digit)

theorem front_ne_nil (u : Unsigned radix) : u.whole ++ point u.fraction ≠ [] := by
  have present := u.present
  cases written : u.fraction with
  | none => simpa [written, point] using present
  | some fraction => simp [point]

theorem head_apart (u : Unsigned radix) : ∀ c ∈ u.chars.head?, c ≠ '-' ∧ c ≠ '+' := by
  have front : (radix.leads.flatten ++ radix.digits ++ ['.']).all
      (fun c => c ≠ '-' ∧ c ≠ '+') = true := by
    cases radix <;> decide
  intro c first
  refine of_decide_eq_true (List.all_eq_true.1 front c ?_)
  have present : u.lead ++ (u.whole ++ point u.fraction) ≠ [] := by
    simpa using fun _ => u.front_ne_nil
  rw [chars, body, ← List.append_assoc, List.head?_append_of_ne_nil _ present] at first
  simp only [List.mem_append, List.mem_flatten]
  rcases List.mem_append.1 (List.mem_of_mem_head? first) with lead | digits
  · exact .inl (.inl ⟨_, u.led, lead⟩)
  · rcases List.mem_append.1 digits with whole | dot
    · exact .inl (.inr (u.valid c (by simp [whole])))
    · cases written : u.fraction with
      | none => simp [written, point] at dot
      | some fraction =>
          rw [written, point, List.mem_cons] at dot
          rcases dot with rfl | digit
          · exact .inr (by simp)
          · exact .inl (.inr (u.valid c (by simp [written, digit])))

theorem unsigned?_chars (u : Unsigned radix) : unsigned? u.chars = some u.read := by
  have foreign : radix = .decimal → ∀ c ∈ u.chars, c ≠ 'x' ∧ c ≠ 'X' := by
    rintro rfl c member
    have known := u.mem_alphabet member
    constructor <;> rintro rfl <;> exact absurd known (by decide)
  rw [← u.read?_body]
  have led := u.led
  cases radix with
  | decimal =>
      have bare : u.lead = [] := by simpa [Radix.leads] using led
      rw [chars, bare, List.nil_append] at foreign ⊢
      rw [unsigned?.eq_def]
      split
      · rename_i follows
        exact absurd rfl (foreign rfl 'x' (by simp [follows])).1
      · rename_i follows
        exact absurd rfl (foreign rfl 'X' (by simp [follows])).2
      · rfl
  | hexadecimal =>
      obtain lead | lead : u.lead = ['0', 'x'] ∨ u.lead = ['0', 'X'] := by
        simpa [Radix.leads] using led
      all_goals rw [chars, lead]; rfl

theorem exists_of_unsigned? {f : Float} (read : unsigned? cs = some f) :
    ∃ (radix : Radix) (u : Unsigned radix), u.chars = cs := by
  rw [unsigned?.eq_def] at read
  split at read
  · obtain ⟨u, lead, written⟩ := exists_of_read? .hexadecimal
      (by decide : ['0', 'x'] ∈ _) read
    exact ⟨_, u, by rw [chars, lead, written]; rfl⟩
  · obtain ⟨u, lead, written⟩ := exists_of_read? .hexadecimal
      (by decide : ['0', 'X'] ∈ _) read
    exact ⟨_, u, by rw [chars, lead, written]; rfl⟩
  · obtain ⟨u, lead, written⟩ := exists_of_read? .decimal (by decide : [] ∈ _) read
    exact ⟨_, u, by rw [chars, lead, written]; rfl⟩

end Unsigned

def SignMark.applyFloat (sign : SignMark) (f : Float) : Float := if sign = .minus then -f else f

theorem ofChars?_sign {rest : List Char} (sign : SignMark)
    (trimmed : Text.trimBlanks cs = sign.chars ++ rest)
    (apart : sign = .absent → ∀ c ∈ rest.head?, c ≠ '-' ∧ c ≠ '+') :
    ofChars? cs = (unsigned? rest).map sign.applyFloat := by
  rw [ofChars?.eq_def, trimmed]
  cases sign with
  | minus => rfl
  | plus =>
      show unsigned? rest = _
      cases unsigned? rest <;> rfl
  | absent =>
      rw [SignMark.chars, List.nil_append]
      split
      · exact absurd rfl (apart rfl '-' rfl).1
      · exact absurd rfl (apart rfl '+' rfl).2
      · cases unsigned? rest <;> rfl

end Reading

section Blanks

open Text

variable {cs : List Char}

theorem dropWhile_split (p : Char → Bool) (cs : List Char) :
    ∃ front, cs = front ++ cs.dropWhile p ∧ ∀ c ∈ front, p c = true :=
  ⟨cs.takeWhile p, List.takeWhile_append_dropWhile.symm, fun _ => List.mem_takeWhile_imp⟩

theorem exists_blanks (cs : List Char) : ∃ before after, cs = before ++ trimBlanks cs ++ after ∧
    (∀ c ∈ before, isBlank c = true) ∧ ∀ c ∈ after, isBlank c = true := by
  obtain ⟨before, first, blanks⟩ := dropWhile_split isBlank cs
  obtain ⟨after, second, blanks'⟩ := dropWhile_split isBlank (cs.dropWhile isBlank).reverse
  refine ⟨before, after.reverse, ?_, blanks, fun c member => blanks' c (by simpa using member)⟩
  have turned := congrArg List.reverse second
  rw [List.reverse_reverse, List.reverse_append] at turned
  rw [trimBlanks, List.append_assoc, ← turned, ← first]

theorem trimBlanks_between {before middle after : List Char} (present : middle ≠ [])
    (front : ∀ c ∈ before, isBlank c = true) (back : ∀ c ∈ after, isBlank c = true)
    (inner : ∀ c ∈ middle, isBlank c = false) :
    trimBlanks (before ++ middle ++ after) = middle := by
  have first : ∀ c ∈ (middle ++ after).head?, isBlank c = false := by
    intro c head
    rw [List.head?_append_of_ne_nil _ present] at head
    exact inner c (List.mem_of_mem_head? head)
  have last : ∀ c ∈ middle.reverse.head?, isBlank c = false := by
    intro c head
    exact inner c (List.mem_reverse.1 (List.mem_of_mem_head? head))
  have back' : ∀ c ∈ after.reverse, isBlank c = true := fun c member =>
    back c (List.mem_reverse.1 member)
  rw [trimBlanks, List.append_assoc, dropWhile_append_stop front first, List.reverse_append,
    dropWhile_append_stop back' last, List.reverse_reverse]

end Blanks

namespace Numeral

open Text

variable {n : Numeral} {s : String}

theorem not_blank (n : Numeral) {c : Char} (member : c ∈ n.chars) : isBlank c = false := by
  rw [chars, List.mem_append] at member
  rcases member with sign | rest
  · cases written : n.sign <;> simp [written, SignMark.chars] at sign <;> subst sign <;> decide
  · have known := n.unsigned.mem_alphabet rest
    have plain : n.radix.alphabet.all (fun c => !isBlank c) = true := by
      cases n.radix <;> decide
    simpa using List.all_eq_true.1 plain c known

theorem chars_ne_nil (n : Numeral) : n.chars ≠ [] := by
  have present := n.unsigned.front_ne_nil
  simp only [chars, Unsigned.chars, Unsigned.body, ne_eq, List.append_eq_nil_iff] at present ⊢
  exact fun empty => present empty.2.2.1

theorem ofText?_eq (stands : n.StandsIn s) :
    ofText? s = some (n.sign.applyFloat n.unsigned.read) := by
  obtain ⟨before, after, text, front, back⟩ := stands
  have trimmed := trimBlanks_between n.chars_ne_nil front back fun c => n.not_blank
  rw [← text, chars] at trimmed
  rw [ofText?, ofChars?_sign n.sign trimmed fun _ => n.unsigned.head_apart,
    Unsigned.unsigned?_chars]
  rfl

theorem exists_of_ofText? {f : Float} (read : ofText? s = some f) :
    ∃ n : Numeral, n.StandsIn s := by
  obtain ⟨before, after, text, front, back⟩ := exists_blanks s.toList
  obtain ⟨sign, rest, trimmed, apart⟩ := exists_sign (trimBlanks s.toList)
  rw [ofText?, ofChars?_sign sign trimmed apart] at read
  obtain ⟨f, found, -⟩ := Option.map_eq_some_iff.1 read
  obtain ⟨radix, u, rfl⟩ := Unsigned.exists_of_unsigned? found
  exact ⟨⟨sign, radix, u⟩, before, after, by rw [text, trimmed]; rfl, front, back⟩

end Numeral

end RegisterVm.Number
