import RegisterVm.Number.Exact
import RegisterVm.Number.Integer
import RegisterVm.Text.Characters

/-!
Reading numerals. A numeral may stand between blanks and may carry one sign; after it comes a
decimal numeral, or `0x` and a hexadecimal one with an optional binary exponent. A whole numeral in
a base from 2 to 36 wraps around at 64 bits.
-/

namespace RegisterVm.Number

def digitValue? (base : Nat) (c : Char) : Option Nat :=
  let n := c.toNat
  let value? :=
    if 48 ≤ n && n ≤ 57 then some (n - 48)
    else if 97 ≤ n && n ≤ 122 then some (n - 87)
    else if 65 ≤ n && n ≤ 90 then some (n - 55)
    else none
  match value? with
  | some value => if value < base then some value else none
  | none => none

def isDigit (c : Char) : Bool := (digitValue? 10 c).isSome

def naturalOf (digits : List Char) : Nat :=
  digits.foldl (fun total c => total * 10 + (c.toNat - 48)) 0

def natural? (cs : List Char) : Option Nat :=
  if cs.isEmpty || !cs.all isDigit then none else some (naturalOf cs)

def exponent? : List Char → Option Int
  | '-' :: digits => (natural? digits).map fun n => -(n : Int)
  | '+' :: digits => (natural? digits).map Int.ofNat
  | digits => (natural? digits).map Int.ofNat

/-- The double nearest to `digits * 10 ^ exponent`. Exponents that leave the range of doubles are
settled before any power is formed. -/
def scaleDecimal (digits : Nat) (exponent : Int) : Float :=
  if digits == 0 then 0.0
  else
    let size : Int := (Nat.toDigits 10 digits).length
    if 400 < size + exponent then 1.0 / 0.0
    else if size + exponent < -400 then 0.0
    else if 0 ≤ exponent then Float.ofScientific digits false exponent.toNat
    else Float.ofScientific digits true (-exponent).toNat

def splitPoint (isDigit : Char → Bool) (cs : List Char) : List Char × List Char × List Char :=
  let whole := cs.takeWhile isDigit
  match cs.dropWhile isDigit with
  | '.' :: rest => (whole, rest.takeWhile isDigit, rest.dropWhile isDigit)
  | rest => (whole, [], rest)

def decimal? (cs : List Char) : Option Float :=
  let (whole, fraction, rest) := splitPoint isDigit cs
  if whole.isEmpty && fraction.isEmpty then none
  else
    let digits := naturalOf (whole ++ fraction)
    let places : Int := fraction.length
    match rest with
    | [] => some (scaleDecimal digits (-places))
    | mark :: rest =>
      if mark == 'e' || mark == 'E' then
        (exponent? rest).map fun e => scaleDecimal digits (e - places)
      else none

def fitsThirtyTwoBits (e : Int) : Bool := -2147483648 ≤ e && e ≤ 2147483647

def hexMantissa (digits : List Char) : Float :=
  digits.foldl
    (fun total c => total * 16.0 + ((digitValue? 16 c).getD 0).toUInt64.toFloat) 0.0

def isHexDigit (c : Char) : Bool := (digitValue? 16 c).isSome

def hexadecimal? (cs : List Char) : Option Float :=
  let (whole, fraction, rest) := splitPoint isHexDigit cs
  if whole.isEmpty && fraction.isEmpty then none
  else
    let mantissa := hexMantissa (whole ++ fraction)
    let places : Int := 4 * fraction.length
    match rest with
    | [] => some (mantissa * powerOfTwo (-places))
    | mark :: rest =>
      if mark == 'p' || mark == 'P' then
        match exponent? rest with
        | some e =>
          if fitsThirtyTwoBits e && fitsThirtyTwoBits (e - places) then
            some (mantissa * powerOfTwo (e - places))
          else none
        | none => none
      else none

def unsigned? : List Char → Option Float
  | '0' :: 'x' :: digits => hexadecimal? digits
  | '0' :: 'X' :: digits => hexadecimal? digits
  | cs => decimal? cs

def ofChars? (cs : List Char) : Option Float :=
  match Text.trimBlanks cs with
  | '-' :: rest => (unsigned? rest).map Float.neg
  | '+' :: rest => unsigned? rest
  | rest => unsigned? rest

def ofText? (s : String) : Option Float := ofChars? s.toList

def radixWord? (base : Nat) : UInt64 → List Char → Option UInt64
  | total, [] => some total
  | total, c :: rest =>
    match digitValue? base c with
    | some digit => radixWord? base (total * base.toUInt64 + digit.toUInt64) rest
    | none => none

def ofDigits? (base : Nat) (digits : List Char) : Option UInt64 :=
  if digits.isEmpty then none else radixWord? base 0 digits

/-- A numeral in `base`, with an optional minus sign, read as a signed 64-bit integer. -/
def ofTextInBase? (base : Nat) (s : String) : Option Float :=
  let word? :=
    match Text.trimBlanks s.toList with
    | '-' :: digits => (ofDigits? base digits).map fun w => 0 - w
    | digits => ofDigits? base digits
  word?.map fun w => ofInteger (signedOf w)

end RegisterVm.Number
