import RegisterVm.Number.Integer
import RegisterVm.Number.Decimal

/-!
The written form of a number. Integers in the signed 64-bit range are written out; other numbers
get fourteen significant digits, positional while the leading digit stands between 10^-4 and
10^13, and trailing zeros are dropped. There is one NaN among these doubles, so that a sign that it
may have in memory is never shown.
-/

namespace RegisterVm.Number

def integerText (i : Int) : String := toString i

def dropTrailingZeros (digits : List Char) : List Char :=
  (digits.reverse.dropWhile (· == '0')).reverse

def pointed (digits : List Char) (whole : Nat) : List Char :=
  let fraction := dropTrailingZeros (digits.drop whole)
  digits.take whole ++ (if fraction.isEmpty then [] else '.' :: fraction)

def padTwo (n : Nat) : List Char :=
  let shown := Nat.toDigits 10 n
  if shown.length < 2 then '0' :: shown else shown

def significantDigits : Nat := 14

def generalText (d : Dyadic) : String :=
  let rounded := d.rounded significantDigits
  let digits := rounded.characters
  if rounded.exponent < -4 || (significantDigits : Int) ≤ rounded.exponent then
    let sign := if rounded.exponent < 0 then '-' else '+'
    String.ofList (pointed digits 1 ++ ['e', sign] ++ padTwo rounded.exponent.natAbs)
  else if rounded.exponent < 0 then
    String.ofList ('0' :: '.' :: List.replicate (rounded.exponent.natAbs - 1) '0'
      ++ dropTrailingZeros digits)
  else String.ofList (pointed digits (rounded.exponent.toNat + 1))

def text (n : Float) : String :=
  match toInteger? n with
  | some i => if i == 0 && n.toBits != 0 then "-0" else integerText i
  | none =>
    if n.isNaN then "nan"
    else if n.isInf then (if n > 0.0 then "inf" else "-inf")
    else
      let d := Dyadic.ofFloat n
      if d.negative then "-" ++ generalText d else generalText d

def shortestText (n : Float) : String :=
  let d := Dyadic.ofFloat n
  let sign := if d.negative then "-" else ""
  if d.mantissa == 0 then sign ++ "0.0"
  else
    let short := d.shortest
    let digits := dropTrailingZeros short.characters
    let body :=
      if short.exponent < -5 || 16 ≤ short.exponent then
        pointed digits 1 ++ ['e', if short.exponent < 0 then '-' else '+']
          ++ Nat.toDigits 10 short.exponent.natAbs
      else if short.exponent < 0 then
        '0' :: '.' :: List.replicate (short.exponent.natAbs - 1) '0' ++ digits
      else
        let whole := short.exponent.toNat + 1
        if digits.length ≤ whole then
          digits ++ List.replicate (whole - digits.length) '0' ++ ['.', '0']
        else digits.take whole ++ '.' :: digits.drop whole
    sign ++ String.ofList body

end RegisterVm.Number
