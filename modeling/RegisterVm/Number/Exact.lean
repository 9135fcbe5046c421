/-!
Doubles as exact dyadic numbers, and the remainder that needs them: the remainder of two doubles
is itself a double, so it is computed on mantissas and never rounded.
-/

namespace RegisterVm.Number

/-- A finite double is `mantissa * 2 ^ exponent`, negated when `negative`. -/
structure Dyadic where
  negative : Bool
  mantissa : Nat
  exponent : Int
  deriving DecidableEq, Repr

def Dyadic.ofFloat (n : Float) : Dyadic :=
  let bits := n.toBits
  let biased := ((bits >>> 52) &&& 0x7ff).toNat
  let fraction := (bits &&& 0xfffffffffffff).toNat
  let negative := bits >>> 63 == 1
  if biased == 0 then ⟨negative, fraction, -1074⟩
  else ⟨negative, fraction + 4503599627370496, (biased : Int) - 1075⟩

def Dyadic.toFloat (d : Dyadic) : Float :=
  let sign : Nat := if d.negative then 9223372036854775808 else 0
  if d.mantissa == 0 then Float.ofBits sign.toUInt64
  else
    let high := d.mantissa.log2
    let scale := d.exponent + high
    let body :=
      if -1022 ≤ scale then
        (scale + 1023).toNat * 4503599627370496
          + (d.mantissa * Nat.pow 2 (52 - high) - 4503599627370496)
      else d.mantissa * Nat.pow 2 (d.exponent + 1074).toNat
    Float.ofBits (sign + body).toUInt64

def remainder (a b : Float) : Float :=
  if a.isNaN || b.isNaN || a.isInf || b == 0.0 then 0.0 / 0.0
  else if b.isInf || a == 0.0 then a
  else
    let x := Dyadic.ofFloat a
    let y := Dyadic.ofFloat b
    let exponent := min x.exponent y.exponent
    let left := x.mantissa * Nat.pow 2 (x.exponent - exponent).toNat
    let right := y.mantissa * Nat.pow 2 (y.exponent - exponent).toNat
    Dyadic.toFloat ⟨x.negative, left % right, exponent⟩

/-- Floored modulo: the result takes the sign of the divisor. -/
def modulo (a b : Float) : Float :=
  let r := remainder a b
  if (r > 0.0 && b < 0.0) || (r < 0.0 && b > 0.0) then r + b else r

def truncate (n : Float) : Float := if n < 0.0 then n.ceil else n.floor

def powerOfTwo (e : Int) : Float :=
  if 1024 ≤ e then 1.0 / 0.0
  else if e < -1023 then 0.0
  else Dyadic.toFloat ⟨false, 1, e⟩

end RegisterVm.Number
