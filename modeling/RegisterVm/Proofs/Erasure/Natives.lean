import RegisterVm.Library.Dispatch
import RegisterVm.Proofs.Erasure.Stores

/-!
The native functions are blind: they look at values, tables, threads and their own bindings, and at
debug records only to say where they have failed.
-/

namespace RegisterVm

variable {t : ThreadRef}

theorem blind_push (value : Value) : Blind (push t value) :=
  Blind.lookThread.bind fun _ => Blind.reserve.bind fun _ => .modifyThread

theorem blind_pushAll (values : List Value) : Blind (pushAll t values) := by
  induction values with
  | nil => exact .pure
  | cons value rest ih => exact (blind_push value).bind fun _ => ih

theorem blind_returnOne (value : Value) : Blind (returnOne t value) :=
  (blind_push value).bind fun _ => .pure

theorem blind_argument (index : Nat) : Blind (argument? t index) := .lookThread

theorem blind_argumentCount : Blind (argumentCount t) := .lookThread

theorem blind_arguments : Blind (arguments t) := .lookThread

theorem blind_currentNative : Blind (currentNative? t) := .look fun _ => rfl

theorem blind_boundValue (index : Nat) : Blind (boundValue t index) := by
  refine blind_currentNative.bind fun native => ?_
  split <;> exact .pure

theorem blind_badArgument {α : Type} (index : Nat) (why : String) :
    Blind (badArgument t index why : Action α) :=
  blind_currentNative.bind fun _ => .argumentError

theorem blind_expected {α : Type} (index : Nat) (what : String) :
    Blind (expected t index what : Action α) :=
  (blind_argument index).bind fun _ => blind_badArgument _ _

theorem blind_checkAny (index : Nat) : Blind (checkAny t index) := by
  refine (blind_argument index).bind fun argument => ?_
  split
  · exact .pure
  · exact blind_badArgument _ _

theorem blind_checkTable (index : Nat) : Blind (checkTable t index) := by
  refine (blind_argument index).bind fun argument => ?_
  split
  · exact .pure
  · exact blind_expected _ _

theorem blind_checkNumber (index : Nat) : Blind (checkNumber t index) := by
  refine (blind_argument index).bind fun argument => ?_
  split
  · exact .pure
  · exact blind_expected _ _

theorem blind_checkInteger (index : Nat) : Blind (checkInteger t index) := by
  refine (blind_checkNumber index).bind fun n => ?_
  split
  · exact .pure
  · exact blind_badArgument _ _

theorem blind_checkString (index : Nat) : Blind (checkString t index) := by
  refine (blind_argument index).bind fun argument => ?_
  split
  · exact .pure
  · exact blind_expected _ _

theorem blind_optional (index : Nat) : Blind (optional? t index) := by
  refine (blind_argument index).bind fun argument => ?_
  split <;> exact .pure

theorem blind_checkOptionalInteger (index : Nat) (fallback : Int) :
    Blind (checkOptionalInteger t index fallback) := by
  refine (blind_optional index).bind fun argument => ?_
  split
  · exact .pure
  · exact blind_checkInteger index

theorem blind_yieldArguments : Blind (yieldArguments t) :=
  Blind.lookThread.bind fun _ => Blind.raiseText.ite (Blind.lookThread.bind fun _ =>
    Blind.raiseText.ite (Blind.modifyThread.bind fun _ => .pure))

namespace Basic

theorem blind_newNative (name : String) (function : Builtin) (bound : Array Value) :
    Blind (newNative name function bound) := .modifyGet fun _ => rfl

theorem blind_rendering (v : Value) : Blind (rendering v) := by
  refine (Blind.look fun _ => rfl).bind fun handler => ?_
  split
  · exact .pure
  · refine (Blind.modifyGet fun s => s.showAddress_erase v).bind fun address => ?_
    refine (Blind.look fun _ => rfl).bind fun name => ?_
    split <;> exact .pure

theorem blind_renderedText (results : Array Value) : Blind (renderedText t results) := by
  simp only [renderedText]
  split
  · exact .pure
  · exact .raiseText

theorem blind_tostring : Blind (tostring t) := by
  refine (blind_checkAny 1).bind fun v => (blind_rendering v).bind fun rendering => ?_
  split
  · exact blind_returnOne _
  · exact .pure

theorem blind_printFrom (line : String) (isFirst : Bool) (values : List Value) :
    Blind (printFrom line isFirst values) := by
  induction values generalizing line isFirst with
  | nil => exact .modify_bind .pure fun _ => rfl
  | cons v rest ih =>
      refine (blind_rendering v).bind fun rendering => ?_
      split
      · exact ih _ _
      · exact .pure

theorem blind_print : Blind (print t) := blind_arguments.bind fun _ => blind_printFrom _ _ _

theorem blind_type : Blind (type t) := (blind_checkAny 1).bind fun _ => blind_returnOne _

theorem blind_assert : Blind (assert t) := by
  refine (blind_checkAny 1).bind fun v => ?_
  split
  · exact blind_argumentCount.bind fun _ => .pure
  · refine (blind_argument 2).bind fun message => ?_
    split
    · exact .throw
    · exact .raiseText

theorem blind_error : Blind (error t) := by
  refine (blind_argument 1).bind fun v => (blind_checkOptionalInteger 2 1).bind fun level => ?_
  split
  · split
    · exact .look_throw
    · exact .throw
  · exact .throw

theorem blind_tonumber : Blind (tonumber t) := by
  refine (blind_optional 2).bind fun base => ?_
  split
  · exact (blind_checkAny 1).bind fun _ => blind_returnOne _
  · refine (blind_checkInteger 2).bind fun base => (blind_badArgument _ _).ite ?_
    refine (blind_argument 1).bind fun text => ?_
    split
    · exact blind_returnOne _
    · exact blind_badArgument _ _

theorem blind_select : Blind (select t) := by
  refine (blind_checkAny 1).bind fun selector => blind_argumentCount.bind fun count => ?_
  refine (blind_returnOne _).ite ((blind_checkInteger 1).bind fun index => ?_)
  split
  · exact .pure
  · exact blind_badArgument _ _

theorem blind_ipairs : Blind (ipairs t) :=
  (blind_checkAny 1).bind fun _ => (blind_newNative _ _ _).bind fun _ =>
    (blind_push _).bind fun _ => (blind_push _).bind fun _ => (blind_push _).bind fun _ => .pure

theorem blind_ipairsStep : Blind (ipairsStep t) := by
  refine (blind_checkTable 1).bind fun ref => (blind_checkInteger 2).bind fun i => ?_
  refine (Blind.look fun _ => rfl).bind fun value => (blind_returnOne _).ite ?_
  exact (blind_push _).bind fun _ => (blind_push _).bind fun _ => .pure

theorem blind_pairs : Blind (pairs t) := by
  refine (blind_checkAny 1).bind fun target => (Blind.look fun _ => rfl).bind fun handler => ?_
  split
  · exact .pure
  · refine (blind_badArgument _ _).ite ((blind_newNative _ _ _).bind fun next => ?_)
    exact (blind_push _).bind fun _ => (blind_push _).bind fun _ => (blind_push _).bind fun _ =>
      .pure

theorem blind_pairsResults (results : Array Value) : Blind (pairsResults t results) :=
  (blind_pushAll _).bind fun _ => .pure

theorem blind_next : Blind (next t) := by
  refine (blind_checkTable 1).bind fun ref => (blind_argument 2).bind fun key => ?_
  refine (Blind.look fun _ => rfl).bind fun result => ?_
  split
  · exact (blind_push _).bind fun _ => (blind_push _).bind fun _ => .pure
  · exact blind_returnOne _
  · exact .raiseText

theorem blind_pcall : Blind (pcall t) :=
  (blind_checkAny 1).bind fun _ => Blind.lookThread.bind fun _ =>
    blind_argumentCount.bind fun _ => .pure

theorem blind_pcallResults (success : Bool) : Blind (pcallResults t success) :=
  Blind.lookThread.bind fun _ => Blind.lookThread.bind fun _ =>
    Blind.modifyThread.bind fun _ => .pure

theorem blind_getmetatable : Blind (getmetatable t) :=
  (blind_checkAny 1).bind fun _ => (Blind.look fun _ => rfl).bind fun _ => blind_returnOne _

theorem blind_setmetatable : Blind (setmetatable t) := by
  refine (blind_checkTable 1).bind fun ref => (blind_argument 2).bind fun metatable => ?_
  extract_lets assign
  have assigned : ∀ metatable, Blind (assign metatable) := by
    refine fun metatable => (Blind.look fun _ => rfl).bind fun sealed => Blind.raiseText.ite ?_
    exact .modify_bind (blind_returnOne _) fun _ => rfl
  split
  · exact assigned _
  · exact assigned _
  · exact (blind_badArgument 2 _).bind assigned

theorem blind_rawequal : Blind (rawequal t) :=
  (blind_checkAny 1).bind fun _ => (blind_checkAny 2).bind fun _ => blind_returnOne _

theorem blind_rawget : Blind (rawget t) :=
  (blind_checkTable 1).bind fun _ => (blind_checkAny 2).bind fun _ =>
    (Blind.look fun _ => rfl).bind fun _ => blind_returnOne _

theorem blind_rawset : Blind (rawset t) := by
  refine (blind_checkTable 1).bind fun ref => (blind_checkAny 2).bind fun key => ?_
  refine (blind_checkAny 3).bind fun value => ?_
  split
  · exact .raiseText
  · exact .modify_bind (blind_returnOne _) fun _ => rfl

theorem blind_rawlen : Blind (rawlen t) := by
  refine (blind_argument 1).bind fun v => ?_
  split
  · exact (Blind.look fun _ => rfl).bind fun _ => blind_returnOne _
  · exact blind_returnOne _
  · exact blind_badArgument _ _

end Basic

namespace Coroutine

theorem blind_checkFunction (index : Nat) : Blind (checkFunction t index) := by
  refine (blind_argument index).bind fun v => ?_
  split
  · exact Blind.pure.ite (blind_expected _ _)
  · exact blind_expected _ _

theorem blind_checkThread (index : Nat) : Blind (checkThread t index) := by
  refine (blind_argument index).bind fun v => ?_
  split
  · exact .pure
  · exact blind_expected _ _

theorem blind_newCoroutine (entry : Value) : Blind (newCoroutine t entry) :=
  .modifyGet fun _ => rfl

theorem blind_create : Blind (create t) :=
  (blind_checkFunction 1).bind fun _ => (blind_newCoroutine _).bind fun _ => blind_returnOne _

theorem blind_failed (value : Value) : Blind (failed t value) :=
  (blind_push _).bind fun _ => (blind_push _).bind fun _ => .pure

theorem blind_resume : Blind (resume t) := by
  refine (blind_checkThread 1).bind fun co => (Blind.look fun _ => rfl).bind fun refusal => ?_
  split
  · exact blind_failed _
  · exact blind_arguments.bind fun _ => .pure

theorem blind_resumeResults (result : CallResult) : Blind (resumeResults t result) := by
  cases result with
  | ok values => exact (blind_push _).bind fun _ => (blind_pushAll _).bind fun _ => .pure
  | error e => exact (blind_failed _).ite .throw

theorem blind_status : Blind (status t) :=
  (blind_checkThread 1).bind fun _ => (Blind.look fun _ => rfl).bind fun _ => blind_returnOne _

theorem blind_running : Blind (running t) :=
  (blind_push _).bind fun _ => Blind.lookThread.bind fun _ => (blind_push _).bind fun _ => .pure

theorem blind_wrap : Blind (wrap t) :=
  (blind_checkFunction 1).bind fun _ => (blind_newCoroutine _).bind fun _ =>
    (Basic.blind_newNative _ _ _).bind fun _ => blind_returnOne _

theorem blind_wrapped : Blind (wrapped t) := by
  refine (blind_boundValue 0).bind fun v => ?_
  split
  · refine (Blind.look fun _ => rfl).bind fun refusal => ?_
    split
    · exact .raiseText
    · exact blind_arguments.bind fun _ => .pure
  · exact .invalid

theorem blind_wrappedResults (result : CallResult) : Blind (wrappedResults t result) := by
  cases result with
  | ok values => exact (blind_pushAll _).bind fun _ => .pure
  | error e => exact Blind.throw.ite .throw

theorem blind_isyieldable : Blind (isyieldable t) :=
  Blind.lookThread.bind fun _ => blind_returnOne _

end Coroutine

namespace Sequence

theorem blind_checkLast (ref : TableRef) (index : Nat) : Blind (checkLast t ref index) := by
  refine (blind_optional index).bind fun last => ?_
  split
  · exact .look fun _ => rfl
  · exact blind_checkInteger index

theorem blind_insert : Blind (insert t) := by
  refine (blind_checkTable 1).bind fun ref => (Blind.look fun _ => rfl).bind fun size => ?_
  refine blind_argumentCount.bind fun count => ?_
  split
  · exact (blind_checkAny 2).bind fun _ => .modify_bind .pure fun _ => rfl
  · refine (blind_checkInteger 2).bind fun position => (blind_badArgument _ _).ite ?_
    refine (blind_checkAny 3).bind fun value => (Blind.look fun _ => rfl).bind fun result => ?_
    split
    · exact .modify_bind .pure fun _ => rfl
    · exact blind_badArgument _ _
  · exact .argumentError

theorem blind_remove : Blind (remove t) := by
  refine (blind_checkTable 1).bind fun ref => (Blind.look fun _ => rfl).bind fun size => ?_
  refine (blind_checkOptionalInteger 2 _).bind fun position => (blind_badArgument _ _).ite ?_
  refine Blind.ite ((Blind.look fun _ => rfl).bind fun value => ?_) ?_
  · exact .modify_bind (blind_returnOne _) fun _ => rfl
  refine (Blind.look fun _ => rfl).bind fun result => ?_
  split
  · exact .modify_bind (blind_returnOne _) fun _ => rfl
  · exact blind_badArgument _ _

theorem blind_concat : Blind (concat t) := by
  refine (blind_checkTable 1).bind fun ref => (blind_optional 2).bind fun separator => ?_
  extract_lets join
  have joined : ∀ separator, Blind (join separator) := by
    refine fun separator => (blind_checkOptionalInteger 3 1).bind fun first => ?_
    refine (blind_checkLast ref 4).bind fun last => (Blind.look fun _ => rfl).bind fun result => ?_
    split
    · exact blind_returnOne _
    · exact .raiseText
  split
  · exact joined _
  · exact (blind_checkString 2).bind joined

theorem blind_unpack : Blind (unpack t) := by
  refine (blind_checkTable 1).bind fun ref => (blind_checkOptionalInteger 2 1).bind fun first => ?_
  refine (blind_checkLast ref 3).bind fun last => Blind.pure.ite (Blind.raiseText.ite ?_)
  exact (Blind.look fun _ => rfl).bind fun values => (blind_pushAll values).bind fun _ => .pure

theorem blind_pack : Blind (pack t) :=
  blind_arguments.bind fun _ => (Blind.modifyGet fun _ => rfl).bind fun _ => blind_returnOne _

end Sequence

namespace Arithmetic

theorem blind_ofFunction (f : Float → Float) : Blind (ofFunction f t) :=
  (blind_checkNumber 1).bind fun _ => blind_returnOne _

theorem blind_atan : Blind (atan t) := by
  refine (blind_checkNumber 1).bind fun y => (blind_optional 2).bind fun given => ?_
  split
  · exact blind_returnOne _
  · exact (blind_checkNumber 2).bind fun x => blind_returnOne _

theorem blind_fmod : Blind (fmod t) :=
  (blind_checkNumber 1).bind fun _ => (blind_checkNumber 2).bind fun _ =>
    (blind_badArgument _ _).ite (blind_returnOne _)

theorem blind_log : Blind (log t) := by
  refine (blind_checkNumber 1).bind fun x => (blind_optional 2).bind fun base => ?_
  split
  · exact blind_returnOne _
  · exact (blind_checkNumber 2).bind fun base => blind_returnOne _

theorem blind_foldFrom (prefers : Float → Float → Bool) (count index : Nat) (best : Float) :
    Blind (foldFrom t prefers count index best) := by
  induction count generalizing index best with
  | zero => exact .pure
  | succ count ih => exact (blind_checkNumber index).bind fun x => ih _ _

theorem blind_extreme (prefers : Float → Float → Bool) : Blind (extreme prefers t) :=
  (blind_checkNumber 1).bind fun _ => blind_argumentCount.bind fun _ =>
    (blind_foldFrom _ _ _ _).bind fun _ => blind_returnOne _

theorem blind_modf : Blind (modf t) :=
  (blind_checkNumber 1).bind fun _ => (blind_push _).bind fun _ =>
    (blind_push _).bind fun _ => .pure

theorem blind_tointeger : Blind (tointeger t) := by
  refine (blind_checkAny 1).bind fun v => ?_
  split <;> exact blind_returnOne _

theorem blind_type : Blind (type t) := by
  refine (blind_checkAny 1).bind fun v => ?_
  split <;> exact blind_returnOne _

theorem blind_ult : Blind (ult t) :=
  (blind_checkInteger 1).bind fun _ => (blind_checkInteger 2).bind fun _ => blind_returnOne _

theorem blind_draw {α : Type} (f : Surroundings → Generator → α × Generator) : Blind (draw f) :=
  Blind.modifyGet fun _ => rfl

theorem blind_checkInterval (count : Nat) : Blind (checkInterval t count) := by
  simp only [checkInterval]
  split
  · exact (blind_checkInteger 1).bind fun _ => .pure
  · exact (blind_checkInteger 1).bind fun _ => (blind_checkInteger 2).bind fun _ => .pure
  · exact .argumentError

theorem blind_random : Blind (random t) := by
  refine blind_argumentCount.bind fun count => Blind.ite ?_ ?_
  · exact (blind_draw _).bind fun x => blind_returnOne _
  · refine (blind_checkInterval count).bind fun ends => ?_
    exact (blind_badArgument _ _).ite ((blind_draw _).bind fun i => blind_returnOne _)

theorem blind_randomseed : Blind (randomseed t) := by
  refine (blind_optional 1).bind fun given => ?_
  split
  · exact .modify_bind .pure fun _ => rfl
  · exact (blind_checkNumber 1).bind fun n => .modify_bind .pure fun _ => rfl

end Arithmetic

theorem blind_builtin (function : Builtin) : Blind (function.enter t) := by
  cases function with
  | assert => exact Basic.blind_assert
  | error => exact Basic.blind_error
  | getmetatable => exact Basic.blind_getmetatable
  | ipairs => exact Basic.blind_ipairs
  | next => exact Basic.blind_next
  | pairs => exact Basic.blind_pairs
  | pcall => exact Basic.blind_pcall
  | print => exact Basic.blind_print
  | rawequal => exact Basic.blind_rawequal
  | rawget => exact Basic.blind_rawget
  | rawlen => exact Basic.blind_rawlen
  | rawset => exact Basic.blind_rawset
  | select => exact Basic.blind_select
  | setmetatable => exact Basic.blind_setmetatable
  | tonumber => exact Basic.blind_tonumber
  | tostring => exact Basic.blind_tostring
  | type => exact Basic.blind_type
  | ipairsStep => exact Basic.blind_ipairsStep
  | create => exact Coroutine.blind_create
  | resume => exact Coroutine.blind_resume
  | yield => exact blind_yieldArguments
  | status => exact Coroutine.blind_status
  | running => exact Coroutine.blind_running
  | wrap => exact Coroutine.blind_wrap
  | isyieldable => exact Coroutine.blind_isyieldable
  | wrapped => exact Coroutine.blind_wrapped
  | insert => exact Sequence.blind_insert
  | remove => exact Sequence.blind_remove
  | tableConcat => exact Sequence.blind_concat
  | unpack => exact Sequence.blind_unpack
  | pack => exact Sequence.blind_pack
  | atan => exact Arithmetic.blind_atan
  | fmod => exact Arithmetic.blind_fmod
  | log => exact Arithmetic.blind_log
  | max | min => exact Arithmetic.blind_extreme _
  | modf => exact Arithmetic.blind_modf
  | random => exact Arithmetic.blind_random
  | randomseed => exact Arithmetic.blind_randomseed
  | tointeger => exact Arithmetic.blind_tointeger
  | mathType => exact Arithmetic.blind_type
  | ult => exact Arithmetic.blind_ult
  | _ => exact Arithmetic.blind_ofFunction _

structure Host.Blind (host : Host) : Prop where
  enter : ∀ name t, RegisterVm.Blind (host.enter name t)
  resume : ∀ name t result, RegisterVm.Blind (host.resume name t result)

theorem Host.bare_blind : Host.bare.Blind := ⟨fun _ _ => .invalid, fun _ _ _ => .invalid⟩

variable {host : Host}

theorem blind_enter (hosts : host.Blind) (body : NativeBody) : Blind (body.enter host t) := by
  cases body with
  | builtin function => exact blind_builtin function
  | host name => exact hosts.enter name t

theorem blind_succeed (hosts : host.Blind) (next : Pending) (values : Array Value) :
    Blind (next.succeed host t values) := by
  cases next with
  | pairs => exact Basic.blind_pairsResults values
  | tostring => exact (Basic.blind_renderedText values).bind fun _ => blind_returnOne _
  | print line rest =>
      exact (Basic.blind_renderedText values).bind fun _ => Basic.blind_printFrom _ _ _
  | protectedCall => exact Basic.blind_pcallResults _
  | resumed => exact Coroutine.blind_resumeResults (.ok values)
  | wrapped => exact Coroutine.blind_wrappedResults (.ok values)
  | host name => exact hosts.resume name t _

end RegisterVm
