import RegisterVm.Prototype.Builder
import RegisterVm.Instruction.Text
import RegisterVm.Text.Utf8

/-!
The binary form of a prototype. After a six-byte signature, a version and a flag that says whether
debug records were left out, a prototype is written as its code, constants, sizes, captures,
nested prototypes and debug records. Counts and words have 32 bits, least significant byte first.
Reading bounds every count by the bytes that are left, and leaves nothing unread.
-/

namespace RegisterVm

namespace Binary

def word (w : UInt32) : List UInt8 :=
  [w.toUInt8, (w >>> 8).toUInt8, (w >>> 16).toUInt8, (w >>> 24).toUInt8]

def count (n : Nat) : List UInt8 := word n.toUInt32

def doubleWord (w : UInt64) : List UInt8 :=
  [w.toUInt8, (w >>> 8).toUInt8, (w >>> 16).toUInt8, (w >>> 24).toUInt8,
    (w >>> 32).toUInt8, (w >>> 40).toUInt8, (w >>> 48).toUInt8, (w >>> 56).toUInt8]

def flag (b : Bool) : List UInt8 := [if b then 1 else 0]

def string (s : String) : List UInt8 := count s.utf8ByteSize ++ Text.encodeUtf8 s

def signature : List UInt8 := [0x1b, 0x4c, 0x75, 0x61, 0x56, 0x4d]

def version : UInt8 := 1

def maxNesting : Nat := 200

def maxWindow : Nat := 256

end Binary

structure EncodeError where
  typeName : String
  deriving DecidableEq, Repr

def EncodeError.message (e : EncodeError) : String :=
  "cannot serialize constant of type " ++ e.typeName

def Constant.encode : Constant → Except EncodeError (List UInt8)
  | .nil => .ok [0]
  | .boolean false => .ok [1]
  | .boolean true => .ok [2]
  | .number bits => .ok (3 :: Binary.doubleWord bits)
  | .string s => .ok (4 :: Binary.string s)
  | k => .error ⟨k.value.typeName⟩

def LocalRange.encode (l : LocalRange) : List UInt8 :=
  Binary.string l.name ++ Binary.word l.startPc ++ Binary.word l.endPc

def encodeAll {α : Type} (encode : α → Except EncodeError (List UInt8)) :
    List α → Except EncodeError (List UInt8)
  | [] => .ok []
  | x :: rest => do
    let first ← encode x
    let others ← encodeAll encode rest
    return first ++ others

namespace Prototype

def encodeSizes (p : Prototype) : List UInt8 :=
  Binary.count p.parameters ++ Binary.flag p.isVararg ++ Binary.count p.window
    ++ Binary.word p.firstLine ++ Binary.word p.lastLine
    ++ Binary.count p.captures.size
    ++ p.captures.toList.flatMap fun c => Binary.flag c.fromRegister ++ Binary.word c.index

def encodeDebug (p : Prototype) (strip : Bool) : List UInt8 :=
  if strip then Binary.count 0 ++ Binary.count 0 ++ Binary.count 0 ++ Binary.count 0
  else
    Binary.string (p.source.getD "")
      ++ Binary.count p.lines.size ++ p.lines.toList.flatMap Binary.word
      ++ Binary.count p.locals.size ++ p.locals.toList.flatMap LocalRange.encode
      ++ Binary.count p.captures.size
      ++ p.captures.toList.flatMap fun c => Binary.string c.name

def encodeCode (p : Prototype) : List UInt8 :=
  Binary.count p.code.size ++ p.code.toList.flatMap fun i => Binary.word i.word

mutual

def encodeBody (strip : Bool) : Prototype → Except EncodeError (List UInt8)
  | ⟨code, constants, ⟨children⟩, captures, parameters, isVararg, window, source, lines, locals,
      firstLine, lastLine⟩ => do
    let p : Prototype := ⟨code, constants, ⟨children⟩, captures, parameters, isVararg, window,
      source, lines, locals, firstLine, lastLine⟩
    let pool ← encodeAll Constant.encode constants.toList
    let nested ← encodeChildren strip children
    return p.encodeCode ++ Binary.count constants.size ++ pool ++ p.encodeSizes
      ++ Binary.count children.length ++ nested ++ p.encodeDebug strip

def encodeChildren (strip : Bool) : List Prototype → Except EncodeError (List UInt8)
  | [] => .ok []
  | p :: rest => do
    let first ← encodeBody strip p
    let others ← encodeChildren strip rest
    return first ++ others

end

def encode (p : Prototype) (strip : Bool) : Except EncodeError (List UInt8) := do
  let body ← encodeBody strip p
  return Binary.signature ++ [Binary.version, if strip then 1 else 0] ++ body

end Prototype

inductive DecodeError where
  | shortSignature
  | wrongSignature
  | wrongVersion (version : UInt8)
  | shortByte
  | shortWord
  | shortNumber
  | shortString
  | lengthTooLarge (length : Nat)
  | invalidText (fault : Text.Utf8Fault)
  | invalidOpcode (word : UInt32)
  | invalidTag (tag : UInt8)
  | invalidWindow (window : Nat)
  | nestedTooDeep
  | noFinalReturn
  | trailingBytes
  deriving DecidableEq, Repr

def DecodeError.message : DecodeError → String
  | shortSignature => "failed to read magic: failed to fill whole buffer"
  | wrongSignature => "not a luavm bytecode file"
  | wrongVersion version => "unsupported bytecode version: " ++ toString version.toNat
  | shortByte => "failed to read byte: failed to fill whole buffer"
  | shortWord => "failed to read u32: failed to fill whole buffer"
  | shortNumber => "failed to read number: failed to fill whole buffer"
  | shortString => "failed to read string: failed to fill whole buffer"
  | lengthTooLarge length => "length " ++ toString length ++ " exceeds remaining input"
  | invalidText fault => "invalid utf-8 in string: " ++ fault.message
  | invalidOpcode word => "invalid opcode in instruction " ++ wordText word.toNat
  | invalidTag tag => "invalid constant tag " ++ toString tag.toNat
  | invalidWindow window => "invalid max stack size " ++ toString window
  | nestedTooDeep => "prototype nesting too deep"
  | noFinalReturn => "function code does not end in RETURN"
  | trailingBytes => "trailing bytes after chunk"

abbrev Reader := StateT (List UInt8) (Except DecodeError)

namespace Reader

def byte : Reader UInt8 := fun bytes =>
  match bytes with
  | b :: rest => .ok (b, rest)
  | [] => .error .shortByte

def flag : Reader Bool := do return (← byte) != 0

def joinWord (b0 b1 b2 b3 : UInt8) : UInt32 :=
  b0.toUInt32 ||| (b1.toUInt32 <<< 8) ||| (b2.toUInt32 <<< 16) ||| (b3.toUInt32 <<< 24)

def word : Reader UInt32 := fun bytes =>
  match bytes with
  | b0 :: b1 :: b2 :: b3 :: rest => .ok (joinWord b0 b1 b2 b3, rest)
  | _ => .error .shortWord

def number : Reader UInt64 := fun bytes =>
  match bytes with
  | b0 :: b1 :: b2 :: b3 :: b4 :: b5 :: b6 :: b7 :: rest =>
    .ok ((joinWord b0 b1 b2 b3).toUInt64 ||| ((joinWord b4 b5 b6 b7).toUInt64 <<< 32), rest)
  | _ => .error .shortNumber

/-- A count, which no valid form lets exceed the bytes after it. -/
def length : Reader Nat := do
  let n := (← word).toNat
  let rest ← get
  if rest.length < n then throw (.lengthTooLarge n) else return n

def string : Reader String := do
  let n ← length
  let bytes ← get
  set (bytes.drop n)
  match Text.decodeUtf8 (bytes.take n) with
  | .ok s => return s
  | .error fault => throw (.invalidText fault)

def times {α : Type} (item : Reader α) : Nat → Array α → Reader (Array α)
  | 0, done => return done
  | n + 1, done => do
    let x ← item
    times item n (done.push x)

def many {α : Type} (item : Reader α) : Reader (Array α) := do
  let n ← length
  times item n #[]

def instruction : Reader Instruction := do
  let i : Instruction := ⟨← word⟩
  if i.opcode?.isNone then throw (.invalidOpcode i.word) else return i

def constant : Reader Constant := do
  let tag ← byte
  if tag == 0 then return .nil
  else if tag == 1 then return .boolean false
  else if tag == 2 then return .boolean true
  else if tag == 3 then return .number (← number)
  else if tag == 4 then return .string (← string)
  else throw (.invalidTag tag)

def capture : Reader Capture := do
  let fromRegister ← flag
  let index ← word
  return ⟨"", fromRegister, index⟩

def localRange : Reader LocalRange := do
  let name ← string
  let startPc ← word
  let endPc ← word
  return ⟨name, startPc, endPc⟩

def nameCaptures (captures : Array Capture) (names : Array String) : Array Capture :=
  captures.mapIdx fun i c =>
    match names[i]? with
    | some name => { c with name }
    | none => c

def prototype : Nat → Reader Prototype
  | 0 => throw .nestedTooDeep
  | levels + 1 => do
    let code ← many instruction
    let constants ← many constant
    let parameters := (← word).toNat
    let isVararg ← flag
    let window := (← word).toNat
    let firstLine ← word
    let lastLine ← word
    if Binary.maxWindow < window then throw (.invalidWindow window)
    let captures ← many capture
    let children ← many (prototype levels)
    let source ← string
    let lines ← many word
    let locals ← many localRange
    let names ← many string
    let p : Prototype :=
      { code, constants, children, captures := nameCaptures captures names, parameters, isVararg,
        window, source := if source.isEmpty then none else some source, lines, locals, firstLine,
        lastLine }
    if p.endsInReturn then return p else throw .noFinalReturn

def file : Reader Prototype := do
  let bytes ← get
  if bytes.length < Binary.signature.length then throw .shortSignature
  if bytes.take 6 != Binary.signature then throw .wrongSignature
  set (bytes.drop 6)
  let version ← byte
  if version != Binary.version then throw (.wrongVersion version)
  let _ ← byte
  let p ← prototype (Binary.maxNesting + 1)
  if (← get).isEmpty then return p else throw .trailingBytes

end Reader

namespace Prototype

def decode (bytes : List UInt8) : Except DecodeError Prototype :=
  (Reader.file bytes).map Prod.fst

def hasSignature (bytes : List UInt8) : Bool := Binary.signature.isPrefixOf bytes

end Prototype

end RegisterVm
