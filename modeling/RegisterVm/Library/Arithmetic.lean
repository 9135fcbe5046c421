import RegisterVm.Machine.Native

/-!
Mathematical functions on numbers, and random numbers, which the surroundings draw.
-/

namespace RegisterVm.Arithmetic

def pi : Float := 3.141592653589793

def infinity : Float := 1.0 / 0.0

def ofFunction (f : Float → Float) (t : ThreadRef) : Action NativeOutcome := do
  returnOne t (.number (f (← checkNumber t 1)))

def degrees (x : Float) : Float := x * (180.0 / pi)

def radians (x : Float) : Float := x * (pi / 180.0)

def atan (t : ThreadRef) : Action NativeOutcome := do
  let y ← checkNumber t 1
  let x ← match ← optional? t 2 with
    | none => pure 1.0
    | some _ => checkNumber t 2
  returnOne t (.number (y.atan2 x))

def fmod (t : ThreadRef) : Action NativeOutcome := do
  let a ← checkNumber t 1
  let b ← checkNumber t 2
  if b == 0.0 && (Number.toInteger? a).isSome then badArgument t 2 "zero"
  else returnOne t (.number (Number.remainder a b))

def logarithm (x base : Float) : Float :=
  if base == 2.0 then x.log2 else if base == 10.0 then x.log10 else x.log / base.log

def log (t : ThreadRef) : Action NativeOutcome := do
  let x ← checkNumber t 1
  match ← optional? t 2 with
  | none => returnOne t (.number x.log)
  | some _ => returnOne t (.number (logarithm x (← checkNumber t 2)))

def foldFrom (t : ThreadRef) (prefers : Float → Float → Bool) : Nat → Nat → Float → Action Float
  | 0, _, best => return best
  | count + 1, index, best => do
    let x ← checkNumber t index
    foldFrom t prefers count (index + 1) (if prefers x best then x else best)

def extreme (prefers : Float → Float → Bool) (t : ThreadRef) : Action NativeOutcome := do
  let first ← checkNumber t 1
  let count ← argumentCount t
  returnOne t (.number (← foldFrom t prefers (count - 1) 2 first))

def modf (t : ThreadRef) : Action NativeOutcome := do
  let x ← checkNumber t 1
  let whole := Number.truncate x
  push t (.number whole)
  push t (.number (if x.isInf then 0.0 else x - whole))
  return .returns 2

def tointeger (t : ThreadRef) : Action NativeOutcome := do
  match (← checkAny t 1).asInteger? with
  | some i => returnOne t (.integer i)
  | none => returnOne t .nil

def type (t : ThreadRef) : Action NativeOutcome := do
  match ← checkAny t 1 with
  | .number n =>
    returnOne t (.string (if (Number.toInteger? n).isSome then "integer" else "float"))
  | _ => returnOne t .nil

def ult (t : ThreadRef) : Action NativeOutcome := do
  let m ← checkInteger t 1
  let n ← checkInteger t 2
  returnOne t (.boolean (Number.wordOf m < Number.wordOf n))

def draw {α : Type} (f : Surroundings → Generator → α × Generator) : Action α :=
  modifyGet fun s =>
    let (x, generator) := f s.surroundings s.generator
    (x, { s with generator })

def checkInterval (t : ThreadRef) (count : Nat) : Action (Int × Int) := do
  match count with
  | 1 => return (1, ← checkInteger t 1)
  | 2 =>
    let low ← checkInteger t 1
    let high ← checkInteger t 2
    return (low, high)
  | _ => argumentError t "wrong number of arguments"

def random (t : ThreadRef) : Action NativeOutcome := do
  let count ← argumentCount t
  if count == 0 then returnOne t (.number (← draw Surroundings.fraction))
  else
    let (low, high) ← checkInterval t count
    if high < low then badArgument t count "interval is empty"
    else returnOne t (.integer (← draw fun around => around.integer low high))

def seedWord (n : Float) : UInt64 :=
  match Number.toInteger? n with
  | some i => Number.wordOf i
  | none => n.toBits

def reseed : Action Unit :=
  modify fun s =>
    { s with generator := s.surroundings.entropy s.reseeded, reseeded := s.reseeded + 1 }

def randomseed (t : ThreadRef) : Action NativeOutcome := do
  match ← optional? t 1 with
  | none => reseed
  | some _ =>
    let n ← checkNumber t 1
    modify fun s => { s with generator := s.surroundings.seeded (seedWord n) }
  return .returns 0

end RegisterVm.Arithmetic
