import RegisterVm.Command.Listing
import RegisterVm.Library.Registry

/-!
The command that runs a binary prototype: options, the file, and arguments for the script. Its
results are written on one line, set apart by tabs.
-/

namespace RegisterVm.Command

structure Options where
  file : Option String
  scriptArguments : List String
  maxStack : Option Nat
  maxDepth : Option Nat
  showVersion : Bool

def versionLine : String := "luavm 0.1 (Lua 5.3 bytecode)\n"

def usage : String :=
  "usage: luavm [options] chunk.luac [args]\n"
    ++ "Available options are:\n"
    ++ "  --max-stack N   value-stack slots per thread\n"
    ++ "  --max-depth N   call frames per thread\n"
    ++ "  -v              show version information\n"
    ++ "  --              stop handling options\n"

def count? (s : String) : Option Nat :=
  let digits := match s.toList with
    | '+' :: rest => rest
    | cs => cs
  match Number.natural? digits with
  | some n => if 0 < n && n < 18446744073709551616 then some n else none
  | none => none

def requireCount (option : String) : Option String → Except String Nat
  | none => .error ("'" ++ option ++ "' needs argument")
  | some value =>
    match count? value with
    | some n => .ok n
    | none => .error ("'" ++ option ++ "' expects a positive integer, got '" ++ value ++ "'")

def readOptions (options : Options) (stopped : Bool) : List String → Except String Options
  | [] => .ok options
  | argument :: rest =>
    if !stopped && argument.startsWith "-" then
      if argument == "--max-stack" then
        match rest with
        | [] => do
          let _ ← requireCount argument none
          .ok options
        | value :: rest => do
          let n ← requireCount argument (some value)
          readOptions { options with maxStack := some n } stopped rest
      else if argument == "--max-depth" then
        match rest with
        | [] => do
          let _ ← requireCount argument none
          .ok options
        | value :: rest => do
          let n ← requireCount argument (some value)
          readOptions { options with maxDepth := some n } stopped rest
      else if argument == "-v" then readOptions { options with showVersion := true } stopped rest
      else if argument == "--" then readOptions options true rest
      else .error ("unrecognized option '" ++ argument ++ "'")
    else .ok { options with file := some argument, scriptArguments := rest }

def Options.limits (o : Options) : Limits :=
  ⟨o.maxStack.getD Limits.standard.maxStack, o.maxDepth.getD Limits.standard.maxDepth⟩

def runBytes (engine : Engine) (o : Options) (bytes : List UInt8) :
    String × Except String (List String) :=
  let vm := (Vm.new o.limits).openLibrary .all
  match vm.loadBinary bytes with
  | .error e => ("", .error e.text)
  | .ok (callee, vm) =>
    let values := (o.scriptArguments.map Value.string).toArray
    match vm.call engine callee values with
    | (.returned values, vm) => (vm.store.output, .ok (vm.store.texts values.toList))
    | (.failed e, vm) => (vm.store.output, .error (e.text vm.store.address))
    | (.unfinished, vm) => (vm.store.output, .error "out of steps")

def resultLine (results : List String) : String :=
  if results.isEmpty then "" else "\t".intercalate results ++ "\n"

def runFile (engine : Engine) (readFile : ReadFile) (o : Options) (path : String) : Result :=
  let heading := if o.showVersion then versionLine else ""
  match readFile path with
  | .error why =>
    failure heading ("luavm: cannot open " ++ path ++ ": " ++ why ++ "\n")
  | .ok bytes =>
    match runBytes engine o bytes with
    | (written, .ok results) => success (heading ++ written ++ resultLine results)
    | (written, .error message) =>
      failure (heading ++ written) ("luavm: " ++ message ++ "\n")

def execute (engine : Engine) (readFile : ReadFile) (arguments : List String) : Result :=
  match readOptions ⟨none, [], none, none, false⟩ false arguments with
  | .error message => failure "" ("luavm: " ++ message ++ "\n" ++ usage)
  | .ok o =>
    match o.file with
    | some path => runFile engine readFile o path
    | none => if o.showVersion then success versionLine else ⟨0, "", usage⟩

end RegisterVm.Command
