import RegisterVm.Library.Arithmetic
import RegisterVm.Library.Coroutine
import RegisterVm.Library.Sequence

/-!
Running a native function: from its entry, and from where it goes on after a call that it asked
for.
-/

namespace RegisterVm

def Builtin.enter (function : Builtin) (t : ThreadRef) : Action NativeOutcome :=
  match function with
  | .assert => Basic.assert t
  | .error => Basic.error t
  | .getmetatable => Basic.getmetatable t
  | .ipairs => Basic.ipairs t
  | .next => Basic.next t
  | .pairs => Basic.pairs t
  | .pcall => Basic.pcall t
  | .print => Basic.print t
  | .rawequal => Basic.rawequal t
  | .rawget => Basic.rawget t
  | .rawlen => Basic.rawlen t
  | .rawset => Basic.rawset t
  | .select => Basic.select t
  | .setmetatable => Basic.setmetatable t
  | .tonumber => Basic.tonumber t
  | .tostring => Basic.tostring t
  | .type => Basic.type t
  | .ipairsStep => Basic.ipairsStep t
  | .create => Coroutine.create t
  | .resume => Coroutine.resume t
  | .yield => yieldArguments t
  | .status => Coroutine.status t
  | .running => Coroutine.running t
  | .wrap => Coroutine.wrap t
  | .isyieldable => Coroutine.isyieldable t
  | .wrapped => Coroutine.wrapped t
  | .insert => Sequence.insert t
  | .remove => Sequence.remove t
  | .tableConcat => Sequence.concat t
  | .unpack => Sequence.unpack t
  | .pack => Sequence.pack t
  | .abs => Arithmetic.ofFunction Float.abs t
  | .acos => Arithmetic.ofFunction Float.acos t
  | .asin => Arithmetic.ofFunction Float.asin t
  | .atan => Arithmetic.atan t
  | .ceil => Arithmetic.ofFunction Float.ceil t
  | .cos => Arithmetic.ofFunction Float.cos t
  | .deg => Arithmetic.ofFunction Arithmetic.degrees t
  | .exp => Arithmetic.ofFunction Float.exp t
  | .floor => Arithmetic.ofFunction Float.floor t
  | .fmod => Arithmetic.fmod t
  | .log => Arithmetic.log t
  | .max => Arithmetic.extreme (fun x best => best < x) t
  | .min => Arithmetic.extreme (fun x best => x < best) t
  | .modf => Arithmetic.modf t
  | .rad => Arithmetic.ofFunction Arithmetic.radians t
  | .random => Arithmetic.random t
  | .randomseed => Arithmetic.randomseed t
  | .sin => Arithmetic.ofFunction Float.sin t
  | .sqrt => Arithmetic.ofFunction Float.sqrt t
  | .tan => Arithmetic.ofFunction Float.tan t
  | .tointeger => Arithmetic.tointeger t
  | .mathType => Arithmetic.type t
  | .ult => Arithmetic.ult t

def NativeBody.enter (host : Host) (body : NativeBody) (t : ThreadRef) : Action NativeOutcome :=
  match body with
  | .builtin function => function.enter t
  | .host name => host.enter name t

def Pending.succeed (host : Host) (next : Pending) (t : ThreadRef) (values : Array Value) :
    Action NativeOutcome := do
  match next with
  | .pairs => Basic.pairsResults t values
  | .tostring => returnOne t (.string (← Basic.renderedText t values))
  | .print line rest => Basic.printFrom (line ++ (← Basic.renderedText t values)) false rest
  | .protectedCall => Basic.pcallResults t (values.getD 0 .nil).isTruthy
  | .resumed => Coroutine.resumeResults t (.ok values)
  | .wrapped => Coroutine.wrappedResults t (.ok values)
  | .host name => host.resume name t (.ok values)

def Pending.fail (host : Host) (next : Pending) (t : ThreadRef) (e : Error) :
    Action NativeOutcome :=
  match next with
  | .resumed => Coroutine.resumeResults t (.error e)
  | .wrapped => Coroutine.wrappedResults t (.error e)
  | .host name => host.resume name t (.error e)
  | _ => throw e

end RegisterVm
