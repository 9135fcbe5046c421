import RegisterVm.Prototype.Encoding
import RegisterVm.Prototype.Listing

/-!
What a command leaves behind, and the command that lists a binary prototype. Commands are functions
of their arguments and of the files they can read, so nothing in them touches the world.
-/

namespace RegisterVm.Command

structure Result where
  exitCode : UInt8
  output : String
  errors : String
  deriving DecidableEq, Repr

abbrev ReadFile := String → Except String (List UInt8)

def success (output : String) : Result := ⟨0, output, ""⟩

def failure (output errors : String) : Result := ⟨1, output, errors⟩

def list (readFile : ReadFile) (arguments : List String) : Result :=
  match arguments with
  | [] => success "Usage: bytecode_dump <chunk.luac>\n"
  | path :: _ =>
    match readFile path with
    | .error why => failure "" ("Error reading file '" ++ path ++ "': " ++ why ++ "\n")
    | .ok bytes =>
      match Prototype.decode bytes with
      | .ok p => success ("=== File: " ++ path ++ " ===\n\n" ++ p.listing)
      | .error e => failure "" ("bytecode_dump: malformed binary chunk: " ++ e.message ++ "\n")

end RegisterVm.Command
