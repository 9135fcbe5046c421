/-!
Decoding UTF-8, with the place and the length of the first fault. The fault is the longest start
of a well-formed sequence that the bytes fail to continue; it has no length when the bytes end
within it.
-/

namespace RegisterVm.Text

structure Utf8Fault where
  offset : Nat
  length : Option Nat
  deriving DecidableEq, Repr

def Utf8Fault.message (fault : Utf8Fault) : String :=
  match fault.length with
  | some length => "invalid utf-8 sequence of " ++ toString length ++ " bytes from index "
      ++ toString fault.offset
  | none => "incomplete utf-8 byte sequence from index " ++ toString fault.offset

def trailing? (b : UInt8) : Option (Nat × UInt8 × UInt8) :=
  if b < 0x80 then some (0, 0, 0)
  else if 0xc2 ≤ b && b ≤ 0xdf then some (1, 0x80, 0xbf)
  else if b == 0xe0 then some (2, 0xa0, 0xbf)
  else if b == 0xed then some (2, 0x80, 0x9f)
  else if 0xe1 ≤ b && b ≤ 0xef then some (2, 0x80, 0xbf)
  else if b == 0xf0 then some (3, 0x90, 0xbf)
  else if 0xf1 ≤ b && b ≤ 0xf3 then some (3, 0x80, 0xbf)
  else if b == 0xf4 then some (3, 0x80, 0x8f)
  else none

/-- Checks the bytes after a leading one: `seen` bytes of the sequence are well formed so far,
`left` are still to come, and the next one has to lie between `low` and `high`. -/
def faultWithin : List UInt8 → Nat → Nat → UInt8 → UInt8 → Option (Option Nat) × List UInt8
  | rest, _, 0, _, _ => (none, rest)
  | [], _, _ + 1, _, _ => (some none, [])
  | b :: rest, seen, left + 1, low, high =>
    if low ≤ b && b ≤ high then faultWithin rest (seen + 1) left 0x80 0xbf
    else (some (some seen), b :: rest)

def faultFrom : Nat → Nat → List UInt8 → Option Utf8Fault
  | 0, _, _ => none
  | _ + 1, _, [] => none
  | fuel + 1, offset, b :: rest =>
    match trailing? b with
    | none => some ⟨offset, some 1⟩
    | some (left, low, high) =>
      match faultWithin rest 1 left low high with
      | (some length, _) => some ⟨offset, length⟩
      | (none, rest) => faultFrom fuel (offset + left + 1) rest

def decodeUtf8 (bytes : List UInt8) : Except Utf8Fault String :=
  match String.fromUTF8? ⟨bytes.toArray⟩ with
  | some s => .ok s
  | none => .error ((faultFrom bytes.length 0 bytes).getD ⟨0, some 1⟩)

def encodeUtf8 (s : String) : List UInt8 := s.toUTF8.toList

end RegisterVm.Text
