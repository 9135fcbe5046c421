import RegisterVm.Machine.Vm

/-!
Registering libraries. A module is a list of functions and values; the entries of the module `_G`
become globals, those of any other module fields of a global table of its name.
-/

namespace RegisterVm

inductive LibraryEntry where
  | function (body : NativeBody)
  | value (make : Vm → Value × Vm)

structure LibraryModule where
  name : String
  entries : List (String × LibraryEntry)

inductive Library where
  | basic
  | coroutine
  | table
  | math
  | all
  deriving DecidableEq, Repr

namespace LibraryModule

def builtins (functions : List (String × Builtin)) : List (String × LibraryEntry) :=
  functions.map fun (name, function) => (name, .function (.builtin function))

def constant (value : Value) : LibraryEntry := .value fun vm => (value, vm)

def basic : LibraryModule where
  name := "_G"
  entries := builtins [
    ("assert", .assert), ("error", .error), ("getmetatable", .getmetatable), ("ipairs", .ipairs),
    ("next", .next), ("pairs", .pairs), ("pcall", .pcall), ("print", .print),
    ("rawequal", .rawequal), ("rawget", .rawget), ("rawlen", .rawlen), ("rawset", .rawset),
    ("select", .select), ("setmetatable", .setmetatable), ("tonumber", .tonumber),
    ("tostring", .tostring), ("type", .type)] ++ [
    ("_G", .value fun vm => (.table vm.globals, vm)),
    ("_VERSION", constant (.string "Lua 5.3"))]

def coroutine : LibraryModule where
  name := "coroutine"
  entries := builtins [
    ("create", .create), ("resume", .resume), ("yield", .yield), ("status", .status),
    ("running", .running), ("wrap", .wrap), ("isyieldable", .isyieldable)]

def table : LibraryModule where
  name := "table"
  entries := builtins [
    ("insert", .insert), ("remove", .remove), ("concat", .tableConcat), ("unpack", .unpack),
    ("pack", .pack)]

def math : LibraryModule where
  name := "math"
  entries := builtins [
    ("abs", .abs), ("acos", .acos), ("asin", .asin), ("atan", .atan), ("ceil", .ceil),
    ("cos", .cos), ("deg", .deg), ("exp", .exp), ("floor", .floor), ("fmod", .fmod),
    ("log", .log), ("max", .max), ("min", .min), ("modf", .modf), ("rad", .rad),
    ("random", .random), ("randomseed", .randomseed), ("sin", .sin), ("sqrt", .sqrt),
    ("tan", .tan), ("tointeger", .tointeger), ("type", .mathType), ("ult", .ult)] ++ [
    ("pi", constant (.number Arithmetic.pi)),
    ("huge", constant (.number Arithmetic.infinity)),
    ("maxinteger", constant (.integer 9223372036854775807)),
    ("mininteger", constant (.integer (-9223372036854775808)))]

end LibraryModule

namespace Library

def modules : Library → List LibraryModule
  | basic => [.basic]
  | coroutine => [.coroutine]
  | table => [.table]
  | math => [.math]
  | all => [.basic, .coroutine, .table, .math]

def find? (modules : List LibraryModule) (name : String) : Option LibraryModule :=
  modules.find? fun m => m.name == name

end Library

namespace Vm

def makeEntry (vm : Vm) (name : String) : LibraryEntry → Value × Vm
  | .function body => vm.newNative ⟨name, body, #[]⟩
  | .value make => make vm

def loadGlobals (vm : Vm) : List (String × LibraryEntry) → Vm
  | [] => vm
  | (name, entry) :: rest =>
    let (value, vm) := vm.makeEntry name entry
    (vm.setGlobal name value).loadGlobals rest

def loadFields (vm : Vm) (t : Table) : List (String × LibraryEntry) → Table × Vm
  | [] => (t, vm)
  | (name, entry) :: rest =>
    let (value, vm) := vm.makeEntry name entry
    vm.loadFields (t.setString name value) rest

def loadModule (vm : Vm) (m : LibraryModule) : Vm :=
  if m.name == "_G" then vm.loadGlobals m.entries
  else
    let (t, vm) := vm.loadFields .empty m.entries
    let (value, vm) := vm.newTable t
    vm.setGlobal m.name value

def openLibrary (vm : Vm) (library : Library) : Vm := library.modules.foldl loadModule vm

end Vm

end RegisterVm
