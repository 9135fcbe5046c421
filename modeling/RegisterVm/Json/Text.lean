import RegisterVm.Json.Value
import RegisterVm.Number.Numeral
import RegisterVm.Number.Text

/-!
A format for JSON texts: a text holds one value between blanks, containers nest at most 127 deep,
and a text is written on one line or with a line for each item, indented by two spaces a level.

The digits of a number are gathered into a 64-bit significand, digits that no longer fit being
dropped, and the significand is scaled by one power of ten at a time. The result of a long numeral
may therefore be a neighbour of the nearest double.
-/

namespace RegisterVm.Json

section Numerals

def significandBound : Nat := 18446744073709551616

def tenTo (n : Nat) : Float := Float.ofScientific 1 false n

def scaleByTen : Nat → Float → Int → Option Float
  | 0, _, _ => none
  | fuel + 1, n, exponent =>
    if exponent.natAbs ≤ 308 then
      if 0 ≤ exponent then
        let scaled := n * tenTo exponent.natAbs
        if scaled.isInf then none else some scaled
      else some (n / tenTo exponent.natAbs)
    else if n == 0.0 then some n
    else if 0 ≤ exponent then none
    else scaleByTen fuel (n / tenTo 308) (exponent + 308)

def clampExponent (e : Int) : Int := max (-2147483648) (min 2147483647 e)

def floatOf (negative : Bool) (significand : Nat) (exponent : Int) : Option Float :=
  (scaleByTen 8 significand.toUInt64.toFloat exponent).map fun n => if negative then -n else n

def gather : Nat → Nat → List Char → Nat × Nat × List Char
  | significand, count, [] => (significand, count, [])
  | significand, count, c :: rest =>
    if c.isDigit then
      let next := significand * 10 + (c.toNat - 48)
      if next < significandBound then gather next (count + 1) rest else (significand, count, c :: rest)
    else (significand, count, c :: rest)

def dropDigits (cs : List Char) : List Char := cs.dropWhile Char.isDigit

def digitCount (cs : List Char) : Nat := (cs.takeWhile Char.isDigit).length

def smallExponent? (digits : List Char) : Option Nat :=
  let value := Number.naturalOf digits
  if value ≤ 2147483647 then some value else none

def readExponent (negative : Bool) (significand : Nat) (start : Int) (cs : List Char) :
    Option (Float × List Char) :=
  let (down, cs) := match cs with
    | '-' :: rest => (true, rest)
    | '+' :: rest => (false, rest)
    | cs => (false, cs)
  let digits := cs.takeWhile Char.isDigit
  let rest := dropDigits cs
  if digits.isEmpty then none
  else
    match smallExponent? digits with
    | some e =>
      let exponent := clampExponent (if down then start - e else start + e)
      (floatOf negative significand exponent).map fun n => (n, rest)
    | none =>
      if significand != 0 && !down then none
      else some (if negative then -0.0 else 0.0, rest)

def readTail (negative : Bool) (significand : Nat) (exponent : Int) (cs : List Char) :
    Option (Float × List Char) :=
  match cs with
  | 'e' :: rest | 'E' :: rest => readExponent negative significand exponent rest
  | cs => (floatOf negative significand exponent).map fun n => (n, cs)

def readFraction (negative : Bool) (significand : Nat) (exponent : Int) (cs : List Char) :
    Option (Float × List Char) :=
  if digitCount cs == 0 then none
  else
    let (significand, count, rest) := gather significand 0 cs
    readTail negative significand (exponent - count) (dropDigits rest)

def readRest (negative : Bool) (significand dropped : Nat) (cs : List Char) :
    Option (JsonNumber × List Char) :=
  match cs with
  | '.' :: rest =>
    (readFraction negative significand dropped rest).map fun (n, rest) => (.float n, rest)
  | 'e' :: _ | 'E' :: _ =>
    (readTail negative significand dropped cs).map fun (n, rest) => (.float n, rest)
  | cs =>
    if dropped != 0 then
      (floatOf negative significand dropped).map fun n => (.float n, cs)
    else if !negative then some (.integer significand, cs)
    else if significand == 0 || 9223372036854775808 < significand then
      some (.float (-significand.toUInt64.toFloat), cs)
    else some (.integer (-significand), cs)

def readUnsigned (negative : Bool) (cs : List Char) : Option (JsonNumber × List Char) :=
  match cs with
  | '0' :: rest => if digitCount rest == 0 then readRest negative 0 0 rest else none
  | cs =>
    if digitCount cs == 0 then none
    else
      let (significand, _, rest) := gather 0 0 cs
      readRest negative significand (digitCount rest) (dropDigits rest)

def readNumber (cs : List Char) : Option (JsonNumber × List Char) :=
  match cs with
  | '-' :: rest => readUnsigned true rest
  | cs => readUnsigned false cs

end Numerals

section Reading

def isSpace (c : Char) : Bool := c == ' ' || c == '\n' || c == '\t' || c == '\r'

def skipSpace (cs : List Char) : List Char := cs.dropWhile isSpace

def readHex4 : List Char → Option (Nat × List Char)
  | a :: b :: c :: d :: rest =>
    match Number.digitValue? 16 a, Number.digitValue? 16 b, Number.digitValue? 16 c,
      Number.digitValue? 16 d with
    | some a, some b, some c, some d => some (a * 4096 + b * 256 + c * 16 + d, rest)
    | _, _, _, _ => none
  | _ => none

def readUnit (cs : List Char) : Option (Char × List Char) :=
  match readHex4 cs with
  | none => none
  | some (unit, rest) =>
    if 0xdc00 ≤ unit && unit ≤ 0xdfff then none
    else if 0xd800 ≤ unit && unit ≤ 0xdbff then
      match rest with
      | '\\' :: 'u' :: rest =>
        match readHex4 rest with
        | some (low, rest) =>
          if 0xdc00 ≤ low && low ≤ 0xdfff then
            some (Char.ofNat (0x10000 + (unit - 0xd800) * 1024 + (low - 0xdc00)), rest)
          else none
        | none => none
      | _ => none
    else some (Char.ofNat unit, rest)

def escape? : Char → Option Char
  | '"' => some '"'
  | '\\' => some '\\'
  | '/' => some '/'
  | 'b' => some '\x08'
  | 'f' => some '\x0c'
  | 'n' => some '\n'
  | 'r' => some '\r'
  | 't' => some '\t'
  | _ => none

def readString : Nat → List Char → List Char → Option (String × List Char)
  | 0, _, _ => none
  | _ + 1, _, [] => none
  | _ + 1, read, '"' :: rest => some (String.ofList read.reverse, rest)
  | fuel + 1, read, '\\' :: 'u' :: rest =>
    match readUnit rest with
    | some (c, rest) => readString fuel (c :: read) rest
    | none => none
  | fuel + 1, read, '\\' :: c :: rest =>
    match escape? c with
    | some c => readString fuel (c :: read) rest
    | none => none
  | fuel + 1, read, c :: rest =>
    if c.toNat < 0x20 || c == '\\' then none else readString fuel (c :: read) rest

def readLiteral (literal cs : List Char) : Option (List Char) :=
  if literal.isPrefixOf cs then some (cs.drop literal.length) else none

mutual

def readValue : Nat → Nat → List Char → Option (Json × List Char)
  | 0, _, _ => none
  | fuel + 1, levels, cs =>
    match skipSpace cs with
    | [] => none
    | 'n' :: rest => (readLiteral ['u', 'l', 'l'] rest).map fun rest => (.null, rest)
    | 't' :: rest => (readLiteral ['r', 'u', 'e'] rest).map fun rest => (.boolean true, rest)
    | 'f' :: rest => (readLiteral ['a', 'l', 's', 'e'] rest).map fun rest => (.boolean false, rest)
    | '"' :: rest => (readString (fuel + 1) [] rest).map fun (s, rest) => (.string s, rest)
    | '[' :: rest =>
      if levels == 0 then none
      else
        match skipSpace rest with
        | ']' :: rest => some (.array [], rest)
        | rest => (readItems fuel (levels - 1) rest).map fun (items, rest) => (.array items, rest)
    | '\x7b' :: rest =>
      if levels == 0 then none
      else
        match skipSpace rest with
        | '\x7d' :: rest => some (.object [], rest)
        | rest => (readMembers fuel (levels - 1) [] rest).map fun (ms, rest) => (.object ms, rest)
    | cs => (readNumber cs).map fun (n, rest) => (.number n, rest)

def readItems : Nat → Nat → List Char → Option (List Json × List Char)
  | 0, _, _ => none
  | fuel + 1, levels, cs =>
    match readValue fuel levels cs with
    | none => none
    | some (item, rest) =>
      match skipSpace rest with
      | ']' :: rest => some ([item], rest)
      | ',' :: rest => (readItems fuel levels rest).map fun (items, rest) => (item :: items, rest)
      | _ => none

def readMembers : Nat → Nat → List (String × Json) → List Char →
    Option (List (String × Json) × List Char)
  | 0, _, _, _ => none
  | fuel + 1, levels, members, cs =>
    match skipSpace cs with
    | '"' :: rest =>
      match readString (fuel + 1) [] rest with
      | none => none
      | some (name, rest) =>
        match skipSpace rest with
        | ':' :: rest =>
          match readValue fuel levels rest with
          | none => none
          | some (value, rest) =>
            let members := insertMember name value members
            match skipSpace rest with
            | '\x7d' :: rest => some (members, rest)
            | ',' :: rest => readMembers fuel levels members rest
            | _ => none
        | _ => none
    | _ => none

end

def maxNesting : Nat := 127

def read? (levels : Nat) (s : String) : Option Json :=
  let cs := s.toList
  match readValue (2 * cs.length + 2) levels cs with
  | some (value, rest) => if (skipSpace rest).isEmpty then some value else none
  | none => none

def ofText? (s : String) : Option Json := read? maxNesting s

end Reading

section Writing

def hexDigit (n : Nat) : Char := (Nat.toDigits 16 n).headD '0'

def escapeChar (c : Char) : List Char :=
  if c == '"' then ['\\', '"']
  else if c == '\\' then ['\\', '\\']
  else if c == '\x08' then ['\\', 'b']
  else if c == '\x0c' then ['\\', 'f']
  else if c == '\n' then ['\\', 'n']
  else if c == '\r' then ['\\', 'r']
  else if c == '\t' then ['\\', 't']
  else if c.toNat < 0x20 then
    ['\\', 'u', '0', '0', hexDigit (c.toNat / 16), hexDigit (c.toNat % 16)]
  else [c]

def quoted (s : String) : String := String.ofList ('"' :: s.toList.flatMap escapeChar ++ ['"'])

def numberText : JsonNumber → String
  | .integer i => toString i
  | .float n => if n.isNaN || n.isInf then "null" else Number.shortestText n

structure Style where
  line : Nat → String
  colon : String

def Style.plain : Style := ⟨fun _ => "", ":"⟩

def Style.pretty : Style := ⟨fun level => "\n" ++ String.ofList (List.replicate (2 * level) ' '), ": "⟩

mutual

def textAt (style : Style) (level : Nat) : Json → String
  | .null => "null"
  | .boolean b => if b then "true" else "false"
  | .number n => numberText n
  | .string s => quoted s
  | .array [] => "[]"
  | .array (item :: items) =>
    "[" ++ style.line (level + 1) ++ textAt style (level + 1) item
      ++ itemTexts style (level + 1) items ++ style.line level ++ "]"
  | .object [] => "\x7b\x7d"
  | .object ((name, value) :: members) =>
    "\x7b" ++ style.line (level + 1) ++ quoted name ++ style.colon ++ textAt style (level + 1) value
      ++ memberTexts style (level + 1) members ++ style.line level ++ "\x7d"

def itemTexts (style : Style) (level : Nat) : List Json → String
  | [] => ""
  | item :: items =>
    "," ++ style.line level ++ textAt style level item ++ itemTexts style level items

def memberTexts (style : Style) (level : Nat) : List (String × Json) → String
  | [] => ""
  | (name, value) :: members =>
    "," ++ style.line level ++ quoted name ++ style.colon ++ textAt style level value
      ++ memberTexts style level members

end

def plain (j : Json) : String := textAt .plain 0 j

def pretty (j : Json) : String := textAt .pretty 0 j

end Writing

def Format.standard : Format where
  read text := (ofText? text).elim (.error "no JSON text") .ok
  write indented j := .ok (if indented then j.pretty else j.plain)

end RegisterVm.Json
