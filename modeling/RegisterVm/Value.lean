import RegisterVm.Number.Text
import RegisterVm.Number.Numeral
import RegisterVm.Text.Characters

/-!
The eight kinds of values. Tables, closures, native functions and threads live in a store and are
held by reference; two references are equal when they name the same object.
-/

namespace RegisterVm

abbrev TableRef := Nat
abbrev ClosureRef := Nat
abbrev NativeRef := Nat
abbrev ThreadRef := Nat
abbrev CellRef := Nat

inductive Value where
  | nil
  | boolean (b : Bool)
  | number (n : Float)
  | string (s : String)
  | table (ref : TableRef)
  | closure (ref : ClosureRef)
  | native (ref : NativeRef)
  | thread (ref : ThreadRef)
  deriving Inhabited

namespace Value

def integer (i : Int) : Value := .number (Number.ofInteger i)

def isNil : Value → Bool
  | .nil => true
  | _ => false

def isNumber : Value → Bool
  | .number _ => true
  | _ => false

def isString : Value → Bool
  | .string _ => true
  | _ => false

def isTable : Value → Bool
  | .table _ => true
  | _ => false

def isThread : Value → Bool
  | .thread _ => true
  | _ => false

def isFunction : Value → Bool
  | .closure _ | .native _ => true
  | _ => false

def isTruthy : Value → Bool
  | .nil | .boolean false => false
  | _ => true

/-- Raw equality. Values of different kinds differ, and so does NaN from itself. -/
def same : Value → Value → Bool
  | .nil, .nil => true
  | .boolean a, .boolean b => a == b
  | .number a, .number b => a == b
  | .string a, .string b => a == b
  | .table a, .table b => a == b
  | .closure a, .closure b => a == b
  | .native a, .native b => a == b
  | .thread a, .thread b => a == b
  | _, _ => false

def typeName : Value → String
  | .nil => "nil"
  | .boolean _ => "boolean"
  | .number _ => "number"
  | .string _ => "string"
  | .table _ => "table"
  | .closure _ | .native _ => "function"
  | .thread _ => "thread"

def asBoolean? : Value → Option Bool
  | .boolean b => some b
  | _ => none

def asNumber? : Value → Option Float
  | .number n => some n
  | _ => none

def asString? : Value → Option String
  | .string s => some s
  | _ => none

def asTable? : Value → Option TableRef
  | .table ref => some ref
  | _ => none

def asInteger? (v : Value) : Option Int := v.asNumber?.bind Number.toInteger?

def toNumber? : Value → Option Float
  | .number n => some n
  | .string s => Number.ofText? s
  | _ => none

def toInteger? (v : Value) : Option Int := v.toNumber?.bind Number.toInteger?

def position? : Value → Option Nat
  | .number n => Number.position? n
  | _ => none

def object? : Value → Option (Nat × Nat)
  | .table ref => some (0, ref)
  | .closure ref => some (1, ref)
  | .native ref => some (2, ref)
  | .thread ref => some (3, ref)
  | _ => none

/-- Addresses that keep objects apart: those of one kind are 64 bytes from each other. -/
def sideBySide (v : Value) : UInt64 :=
  match v.object? with
  | some (kind, ref) => (94008000000000 + ref * 64 + kind * 16).toUInt64
  | none => 0

def address? (v : Value) (place : Value → UInt64 := sideBySide) : Option UInt64 :=
  v.object?.map fun _ => place v

def addressText (address : UInt64) : String :=
  "0x" ++ String.ofList (Text.hexDigits address.toNat)

def textAt (address : String) : Value → String
  | .nil => "nil"
  | .boolean b => if b then "true" else "false"
  | .number n => Number.text n
  | .string s => s
  | .table _ => "table: " ++ address
  | .closure _ => "function: " ++ address
  | .native _ => "function: builtin: " ++ address
  | .thread _ => "thread: " ++ address

def text (v : Value) (place : Value → UInt64 := sideBySide) : String :=
  v.textAt (addressText (place v))

def quotedText (v : Value) (place : Value → UInt64 := sideBySide) : String :=
  match v with
  | .string s => Text.quote s
  | v => v.text place

def concatText? : Value → Option String
  | .string s => some s
  | .number n => some (Number.text n)
  | _ => none

end Value

end RegisterVm
