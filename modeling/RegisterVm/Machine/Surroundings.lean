import RegisterVm.Value

/-!
What a machine takes from outside: random numbers, the system's entropy, and the places of objects
in memory. A machine runs in surroundings of any kind. The standard ones stand in for them where a
program has to be run.
-/

namespace RegisterVm

/-- The state of a generator of random numbers, coded as a number. -/
abbrev Generator := Nat

/-- An object that a text has shown at its address, there being `made` objects of its kind. -/
structure Sighting where
  object : Value
  address : UInt64
  made : Nat
  deriving Inhabited

structure Surroundings where
  seeded : UInt64 → Generator
  /-- The generator seeded with what the system gives when it is asked for the n-th time. -/
  entropy : Nat → Generator
  fraction : Generator → Float × Generator
  integer : Int → Int → Generator → Int × Generator
  /-- The address of an object that no text has shown yet. It may depend on what was shown, the
  latest first, and on what something still refers to. -/
  address : List Sighting → (Value → Bool) → Value → UInt64
  deriving Inhabited

namespace Surroundings

def step (g : Generator) : UInt64 := g.toUInt64 * 6364136223846793005 + 1442695040888963407

/-- Objects of one kind lie side by side, but one that was made after the object shown last, of the
same kind, had been shown takes its place if that one is gone. -/
def placed (shown : List Sighting) (alive : Value → Bool) (v : Value) : UInt64 :=
  match shown, v.object? with
  | last :: _, some (kind, ref) =>
    if last.object.object?.map Prod.fst == some kind && last.made ≤ ref && !alive last.object then
      last.address
    else v.sideBySide
  | _, _ => v.sideBySide

def standard : Surroundings where
  seeded w := w.toNat
  entropy n := n
  fraction g := ((step g >>> 11).toFloat / 9007199254740992.0, (step g).toNat)
  integer low high g :=
    (low + (step g).toNat * (high - low + 1) / 18446744073709551616, (step g).toNat)
  address := placed

end Surroundings

end RegisterVm
