import RegisterVm.Command.Execute
import RegisterVm.Command.Listing

/-!
The program. After `--list` it lists a binary prototype; any other arguments run one.
-/

namespace RegisterVm

def systemText : IO.Error → String
  | .noFileOrDirectory .. => "No such file or directory (os error 2)"
  | e => toString e

def readNamed (path : String) : IO (Except String (List UInt8)) := do
  try
    let bytes ← IO.FS.readBinFile path
    return .ok bytes.toList
  catch e => return .error (systemText e)

def runCommand (arguments : List String) : IO Command.Result := do
  match arguments with
  | "--list" :: rest =>
    let content ← readNamed (rest.headD "")
    return Command.list (fun _ => content) rest
  | _ =>
    let path := match Command.readOptions ⟨none, [], none, none, false⟩ false arguments with
      | .ok options => options.file.getD ""
      | .error _ => ""
    let content ← readNamed path
    return Command.execute .standard (fun _ => content) arguments

end RegisterVm

def main (arguments : List String) : IO UInt32 := do
  let result ← RegisterVm.runCommand arguments
  IO.print result.output
  IO.eprint result.errors
  return result.exitCode.toUInt32
