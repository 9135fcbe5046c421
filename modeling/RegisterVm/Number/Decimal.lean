import RegisterVm.Number.Exact

/-!
Decimal digits of a double, computed exactly: a fixed number of significant digits with ties to
even, and the fewest digits that still read back as the same double.
-/

namespace RegisterVm.Number

/-- `digits * 10 ^ (exponent + 1 - count)`, with `count` digits and the first one nonzero. -/
structure Decimal where
  digits : Nat
  count : Nat
  exponent : Int
  deriving DecidableEq, Repr

def roundDivide (numerator denominator : Nat) : Nat :=
  let quotient := numerator / denominator
  let rest := numerator % denominator
  if 2 * rest > denominator || (2 * rest == denominator && quotient % 2 == 1) then quotient + 1
  else quotient

def reachesPower (numerator denominator : Nat) (e : Int) : Bool :=
  if 0 ≤ e then denominator * Nat.pow 10 e.toNat ≤ numerator
  else denominator ≤ numerator * Nat.pow 10 (-e).toNat

def leadingExponent (numerator denominator : Nat) (scale : Int) : Int :=
  let guess := Int.fdiv (scale * 30103) 100000
  if !reachesPower numerator denominator guess then guess - 1
  else if reachesPower numerator denominator (guess + 1) then guess + 1
  else guess

def Dyadic.numerator (d : Dyadic) : Nat := d.mantissa * Nat.pow 2 d.exponent.toNat

def Dyadic.denominator (d : Dyadic) : Nat := Nat.pow 2 (-d.exponent).toNat

def shiftDecimal (numerator denominator : Nat) (shift : Int) : Nat × Nat :=
  (numerator * Nat.pow 10 (-shift).toNat, denominator * Nat.pow 10 shift.toNat)

def Dyadic.rounded (d : Dyadic) (count : Nat) : Decimal :=
  let exponent := leadingExponent d.numerator d.denominator (d.exponent + d.mantissa.log2)
  let (top, bottom) := shiftDecimal d.numerator d.denominator (exponent + 1 - count)
  let digits := roundDivide top bottom
  if digits == Nat.pow 10 count then ⟨Nat.pow 10 (count - 1), count, exponent + 1⟩
  else ⟨digits, count, exponent⟩

def gridHit (low value high bottom : Nat) (closed : Bool) : Option Nat :=
  let inside (digit : Nat) : Bool :=
    let point := digit * bottom
    if closed then low ≤ point && point ≤ high else low < point && point < high
  let below := value / bottom
  let rest := value % bottom
  let nearerBelow := 2 * rest < bottom || (2 * rest == bottom && below % 2 == 0)
  if inside below && inside (below + 1) then some (if nearerBelow then below else below + 1)
  else if inside below then some below
  else if inside (below + 1) then some (below + 1)
  else none

def Dyadic.shortestFrom (d : Dyadic) (exponent : Int) (low value high denominator : Nat) :
    Nat → Nat → Decimal
  | 0, count => d.rounded count
  | fuel + 1, count =>
    let shift := exponent + 1 - count
    let up := Nat.pow 10 (-shift).toNat
    let bottom := denominator * Nat.pow 10 shift.toNat
    match gridHit (low * up) (value * up) (high * up) bottom (d.mantissa % 2 == 0) with
    | some digits =>
      if digits == Nat.pow 10 count then ⟨Nat.pow 10 (count - 1), count, exponent + 1⟩
      else if digits == 0 then d.shortestFrom exponent low value high denominator fuel (count + 1)
      else ⟨digits, count, exponent⟩
    | none => d.shortestFrom exponent low value high denominator fuel (count + 1)

def Dyadic.shortest (d : Dyadic) : Decimal :=
  let exponent := leadingExponent d.numerator d.denominator (d.exponent + d.mantissa.log2)
  let narrow := d.mantissa == 4503599627370496 && d.exponent > -1074
  let value := 4 * d.numerator
  let half := 2 * Nat.pow 2 d.exponent.toNat
  let low := value - (if narrow then half / 2 else half)
  d.shortestFrom exponent low value (value + half) (4 * d.denominator) 17 1

def Decimal.characters (d : Decimal) : List Char :=
  let shown := (Nat.toDigits 10 d.digits)
  List.replicate (d.count - shown.length) '0' ++ shown

end RegisterVm.Number
