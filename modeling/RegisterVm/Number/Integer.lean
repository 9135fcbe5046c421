/-!
Integers held in doubles. There is one number kind; an integer is a double without a fraction
inside the signed 64-bit range, and bit operations act on its two's-complement word.
-/

namespace RegisterVm.Number

/-- The integer a double stands for: no fraction, and at least -2^63 and below 2^63. -/
def toInteger? (n : Float) : Option Int :=
  if -9223372036854775808.0 ≤ n && n < 9223372036854775808.0 then
    let magnitude := n.abs.toUInt64
    if magnitude.toFloat == n.abs then
      some (if n < 0.0 then -(magnitude.toNat : Int) else magnitude.toNat)
    else none
  else none

def ofInteger (i : Int) : Float :=
  let magnitude := i.natAbs.toUInt64.toFloat
  if i < 0 then -magnitude else magnitude

def position? (n : Float) : Option Nat :=
  if 1.0 ≤ n && n < 18446744073709551616.0 then
    let word := n.toUInt64
    if word.toFloat == n then some word.toNat else none
  else none

def wordOf (i : Int) : UInt64 := UInt64.ofInt i

def signedOf (w : UInt64) : Int :=
  if w < 9223372036854775808 then w.toNat else (w.toNat : Int) - 18446744073709551616

def shift (w : UInt64) (distance : Int) : UInt64 :=
  if distance ≤ -64 || 64 ≤ distance then 0
  else if 0 ≤ distance then w <<< distance.toNat.toUInt64
  else w >>> (-distance).toNat.toUInt64

end RegisterVm.Number
