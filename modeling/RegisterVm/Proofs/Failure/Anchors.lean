import RegisterVm.Machine.Step
import RegisterVm.Proofs.Store.Cells

/-!
Anchored actions. What fails in a native function or in an instruction, fails for a reason of its
own: no action says that the machine has lost the frame that it is to run, but for a tail call, and
that one only where there is no frame.
-/

namespace RegisterVm

def Error.Stranded (e : Error) : Prop :=
  e = .invalid "dispatch entered on a native frame" ∨
    e = .invalid "tail call without an active frame"

theorem Error.not_stranded {e : Error} (other : ∀ message, e ≠ .invalid message) :
    ¬e.Stranded := by
  rintro (rfl | rfl)
  · exact other _ rfl
  · exact other _ rfl

theorem Error.not_stranded_invalid {message : String}
    (other : ¬(message.toList.head? = some 'd' ∨ message.toList.head? = some 't')) :
    ¬(Error.invalid message).Stranded := by
  rintro (same | same)
  · exact other (.inl (Error.invalid.inj same ▸ by decide))
  · exact other (.inr (Error.invalid.inj same ▸ by decide))

def AnchoredAt {α : Type} (s : Store) (x : Action α) : Prop :=
  ∀ e s', x s = .error e s' → ¬e.Stranded

def Anchored {α : Type} (x : Action α) : Prop := ∀ s, AnchoredAt s x

variable {t : ThreadRef}

namespace AnchoredAt

variable {α β : Type} {s s' : Store}

theorem of_ok {x : Action α} {a : α} (ok : x s = .ok a s') : AnchoredAt s x := by
  intro e s₁ fails
  rw [ok] at fails
  contradiction

theorem ok_bind {x : Action α} {f : α → Action β} {a : α} (ok : x s = .ok a s')
    (rest : AnchoredAt s' (f a)) : AnchoredAt s (x >>= f) := by
  simp only [AnchoredAt, Bind.bind, EStateM.bind, ok]
  exact rest

theorem look_bind {f : Store → α} {k : α → Action β} (rest : AnchoredAt s (k (f s))) :
    AnchoredAt s (look f >>= k) := ok_bind rfl rest

theorem modify_bind {f : Store → Store} {k : Unit → Action β}
    (rest : AnchoredAt (f s) (k ())) : AnchoredAt s ((modify f : Action Unit) >>= k) :=
  ok_bind rfl rest

end AnchoredAt

namespace Anchored

variable {α β : Type}

theorem pure {a : α} : Anchored (Pure.pure a) :=
  fun _ => .of_ok rfl

theorem bind {x : Action α} {f : α → Action β} (first : Anchored x)
    (rest : ∀ a, Anchored (f a)) : Anchored (x >>= f) := by
  intro s e s' fails
  simp only [Bind.bind, EStateM.bind] at fails
  cases result : x s with
  | ok a s₁ =>
      rw [result] at fails
      exact rest a s₁ e s' fails
  | error e₁ s₁ =>
      rw [result] at fails
      cases fails
      exact first s e s' result

theorem ite {c : Prop} [Decidable c] {x y : Action α} (left : Anchored x) (right : Anchored y) :
    Anchored (if c then x else y) := by
  split
  · exact left
  · exact right

theorem look {f : Store → α} : Anchored (look f) :=
  fun _ => .of_ok rfl

theorem lookThread {f : Thread → α} : Anchored (lookThread t f) :=
  fun _ => .of_ok rfl

theorem getSlot {index : Nat} : Anchored (getSlot t index) :=
  fun _ => .of_ok rfl

theorem modify_bind {f : Store → Store} {k : Unit → Action β} (rest : Anchored (k ())) :
    Anchored ((modify f : Action Unit) >>= k) := fun s => rest (f s)

theorem modifyGet {f : Store → α × Store} : Anchored (modifyGet f : Action α) :=
  fun _ => .of_ok rfl

theorem modifyThread {f : Thread → Thread} : Anchored (modifyThread t f) :=
  fun _ => .of_ok rfl

theorem closeCells {level : Nat} : Anchored (closeCells t level) :=
  fun _ => .of_ok rfl

theorem throw {e : Error} (other : ¬e.Stranded) : Anchored (throw e : Action α) := by
  rintro s _ s' ⟨⟩
  exact other

theorem user {value : Value} : Anchored (MonadExcept.throw (.user value) : Action α) :=
  throw (Error.not_stranded nofun)

theorem raiseText {message : String} : Anchored (raiseText t message : Action α) :=
  look.bind fun _ => user

theorem argumentError {message : String} : Anchored (argumentError t message : Action α) :=
  look.bind fun _ => throw (Error.not_stranded nofun)

theorem typeError {message : String} : Anchored (typeError t message : Action α) :=
  look.bind fun _ => throw (Error.not_stranded nofun)

theorem overflowError : Anchored (overflowError t : Action α) :=
  look.bind fun _ => throw (Error.not_stranded nofun)

theorem invalid {message : String}
    (other : ¬(message.toList.head? = some 'd' ∨ message.toList.head? = some 't')) :
    Anchored (invalid message : Action α) :=
  throw (Error.not_stranded_invalid other)

theorem reserve {needed : Nat} : Anchored (reserve t needed) :=
  lookThread.bind fun _ => modifyThread.ite overflowError

theorem enterCall {slot arguments target : Nat} {wanted : Option Nat} :
    Anchored (enterCall t slot arguments target wanted) := by
  refine lookThread.bind fun deep => overflowError.ite (getSlot.bind fun callee => ?_)
  cases callee with
  | closure ref | native ref =>
      exact look.bind fun _ => reserve.bind fun _ => modifyThread.bind fun _ => pure
  | _ => exact typeError

end Anchored

theorem anchored_push (value : Value) : Anchored (push t value) :=
  Anchored.lookThread.bind fun _ => Anchored.reserve.bind fun _ => .modifyThread

theorem anchored_pushAll (values : List Value) : Anchored (pushAll t values) := by
  induction values with
  | nil => exact .pure
  | cons value rest ih => exact (anchored_push value).bind fun _ => ih

theorem anchored_returnOne (value : Value) : Anchored (returnOne t value) :=
  (anchored_push value).bind fun _ => .pure

theorem anchored_argument (index : Nat) : Anchored (argument? t index) := .lookThread

theorem anchored_argumentCount : Anchored (argumentCount t) := .lookThread

theorem anchored_arguments : Anchored (arguments t) := .lookThread

theorem anchored_currentNative : Anchored (currentNative? t) := .look

theorem anchored_boundValue (index : Nat) : Anchored (boundValue t index) := by
  refine anchored_currentNative.bind fun native => ?_
  split <;> exact .pure

theorem anchored_badArgument {α : Type} (index : Nat) (why : String) :
    Anchored (badArgument t index why : Action α) :=
  anchored_currentNative.bind fun _ => .argumentError

theorem anchored_expected {α : Type} (index : Nat) (what : String) :
    Anchored (expected t index what : Action α) :=
  (anchored_argument index).bind fun _ => anchored_badArgument _ _

theorem anchored_checkAny (index : Nat) : Anchored (checkAny t index) := by
  refine (anchored_argument index).bind fun argument => ?_
  split
  · exact .pure
  · exact anchored_badArgument _ _

theorem anchored_checkTable (index : Nat) : Anchored (checkTable t index) := by
  refine (anchored_argument index).bind fun argument => ?_
  split
  · exact .pure
  · exact anchored_expected _ _

theorem anchored_checkNumber (index : Nat) : Anchored (checkNumber t index) := by
  refine (anchored_argument index).bind fun argument => ?_
  split
  · exact .pure
  · exact anchored_expected _ _

theorem anchored_checkInteger (index : Nat) : Anchored (checkInteger t index) := by
  refine (anchored_checkNumber index).bind fun n => ?_
  split
  · exact .pure
  · exact anchored_badArgument _ _

theorem anchored_checkString (index : Nat) : Anchored (checkString t index) := by
  refine (anchored_argument index).bind fun argument => ?_
  split
  · exact .pure
  · exact anchored_expected _ _

theorem anchored_optional (index : Nat) : Anchored (optional? t index) := by
  refine (anchored_argument index).bind fun argument => ?_
  split <;> exact .pure

theorem anchored_checkOptionalInteger (index : Nat) (fallback : Int) :
    Anchored (checkOptionalInteger t index fallback) := by
  refine (anchored_optional index).bind fun argument => ?_
  split
  · exact .pure
  · exact anchored_checkInteger index

theorem anchored_yieldArguments : Anchored (yieldArguments t) :=
  Anchored.lookThread.bind fun _ => Anchored.raiseText.ite (Anchored.lookThread.bind fun _ =>
    Anchored.raiseText.ite (Anchored.modifyThread.bind fun _ => .pure))

namespace Basic

theorem anchored_newNative (name : String) (function : Builtin) (bound : Array Value) :
    Anchored (newNative name function bound) := .modifyGet

theorem anchored_rendering (v : Value) : Anchored (rendering v) := by
  refine (Anchored.look).bind fun handler => ?_
  split
  · exact .pure
  · refine (Anchored.modifyGet).bind fun address => ?_
    refine (Anchored.look).bind fun name => ?_
    split <;> exact .pure

theorem anchored_renderedText (results : Array Value) : Anchored (renderedText t results) := by
  simp only [renderedText]
  split
  · exact .pure
  · exact .raiseText

theorem anchored_tostring : Anchored (tostring t) := by
  refine (anchored_checkAny 1).bind fun v => (anchored_rendering v).bind fun rendering => ?_
  split
  · exact anchored_returnOne _
  · exact .pure

theorem anchored_printFrom (line : String) (isFirst : Bool) (values : List Value) :
    Anchored (printFrom line isFirst values) := by
  induction values generalizing line isFirst with
  | nil => exact .modify_bind .pure
  | cons v rest ih =>
      refine (anchored_rendering v).bind fun rendering => ?_
      split
      · exact ih _ _
      · exact .pure

theorem anchored_print : Anchored (print t) :=
  anchored_arguments.bind fun _ => anchored_printFrom _ _ _

theorem anchored_type : Anchored (type t) :=
  (anchored_checkAny 1).bind fun _ => anchored_returnOne _

theorem anchored_assert : Anchored (assert t) := by
  refine (anchored_checkAny 1).bind fun v => ?_
  split
  · exact anchored_argumentCount.bind fun _ => .pure
  · refine (anchored_argument 2).bind fun message => ?_
    split
    · exact .user
    · exact .raiseText

theorem anchored_error : Anchored (error t) := by
  refine (anchored_argument 1).bind fun v => ?_
  refine (anchored_checkOptionalInteger 2 1).bind fun level => ?_
  split
  · split
    · exact Anchored.look.bind fun _ => .user
    · exact .user
  · exact .user

theorem anchored_tonumber : Anchored (tonumber t) := by
  refine (anchored_optional 2).bind fun base => ?_
  split
  · exact (anchored_checkAny 1).bind fun _ => anchored_returnOne _
  · refine (anchored_checkInteger 2).bind fun base => (anchored_badArgument _ _).ite ?_
    refine (anchored_argument 1).bind fun text => ?_
    split
    · exact anchored_returnOne _
    · exact anchored_badArgument _ _

theorem anchored_select : Anchored (select t) := by
  refine (anchored_checkAny 1).bind fun selector => anchored_argumentCount.bind fun count => ?_
  refine (anchored_returnOne _).ite ((anchored_checkInteger 1).bind fun index => ?_)
  split
  · exact .pure
  · exact anchored_badArgument _ _

theorem anchored_ipairs : Anchored (ipairs t) :=
  (anchored_checkAny 1).bind fun _ => (anchored_newNative _ _ _).bind fun _ =>
    (anchored_push _).bind fun _ => (anchored_push _).bind fun _ =>
      (anchored_push _).bind fun _ => .pure

theorem anchored_ipairsStep : Anchored (ipairsStep t) := by
  refine (anchored_checkTable 1).bind fun ref => (anchored_checkInteger 2).bind fun i => ?_
  refine (Anchored.look).bind fun value => (anchored_returnOne _).ite ?_
  exact (anchored_push _).bind fun _ => (anchored_push _).bind fun _ => .pure

theorem anchored_pairs : Anchored (pairs t) := by
  refine (anchored_checkAny 1).bind fun target => (Anchored.look).bind fun handler => ?_
  split
  · exact .pure
  · refine (anchored_badArgument _ _).ite ((anchored_newNative _ _ _).bind fun next => ?_)
    exact (anchored_push _).bind fun _ => (anchored_push _).bind fun _ =>
      (anchored_push _).bind fun _ => .pure

theorem anchored_pairsResults (results : Array Value) : Anchored (pairsResults t results) :=
  (anchored_pushAll _).bind fun _ => .pure

theorem anchored_next : Anchored (next t) := by
  refine (anchored_checkTable 1).bind fun ref => (anchored_argument 2).bind fun key => ?_
  refine (Anchored.look).bind fun result => ?_
  split
  · exact (anchored_push _).bind fun _ => (anchored_push _).bind fun _ => .pure
  · exact anchored_returnOne _
  · exact .raiseText

theorem anchored_pcall : Anchored (pcall t) :=
  (anchored_checkAny 1).bind fun _ => Anchored.lookThread.bind fun _ =>
    anchored_argumentCount.bind fun _ => .pure

theorem anchored_pcallResults (success : Bool) : Anchored (pcallResults t success) :=
  Anchored.lookThread.bind fun _ => Anchored.lookThread.bind fun _ =>
    Anchored.modifyThread.bind fun _ => .pure

theorem anchored_getmetatable : Anchored (getmetatable t) :=
  (anchored_checkAny 1).bind fun _ => (Anchored.look).bind fun _ => anchored_returnOne _

theorem anchored_setmetatable : Anchored (setmetatable t) := by
  refine (anchored_checkTable 1).bind fun ref => (anchored_argument 2).bind fun metatable => ?_
  extract_lets assign
  have assigned : ∀ metatable, Anchored (assign metatable) := by
    refine fun metatable => (Anchored.look).bind fun sealed => Anchored.raiseText.ite ?_
    exact .modify_bind (anchored_returnOne _)
  split
  · exact assigned _
  · exact assigned _
  · exact (anchored_badArgument 2 _).bind assigned

theorem anchored_rawequal : Anchored (rawequal t) :=
  (anchored_checkAny 1).bind fun _ => (anchored_checkAny 2).bind fun _ => anchored_returnOne _

theorem anchored_rawget : Anchored (rawget t) :=
  (anchored_checkTable 1).bind fun _ => (anchored_checkAny 2).bind fun _ =>
    (Anchored.look).bind fun _ => anchored_returnOne _

theorem anchored_rawset : Anchored (rawset t) := by
  refine (anchored_checkTable 1).bind fun ref => (anchored_checkAny 2).bind fun key => ?_
  refine (anchored_checkAny 3).bind fun value => ?_
  split
  · exact .raiseText
  · exact .modify_bind (anchored_returnOne _)

theorem anchored_rawlen : Anchored (rawlen t) := by
  refine (anchored_argument 1).bind fun v => ?_
  split
  · exact (Anchored.look).bind fun _ => anchored_returnOne _
  · exact anchored_returnOne _
  · exact anchored_badArgument _ _

end Basic

namespace Coroutine

theorem anchored_checkFunction (index : Nat) : Anchored (checkFunction t index) := by
  refine (anchored_argument index).bind fun v => ?_
  split
  · exact Anchored.pure.ite (anchored_expected _ _)
  · exact anchored_expected _ _

theorem anchored_checkThread (index : Nat) : Anchored (checkThread t index) := by
  refine (anchored_argument index).bind fun v => ?_
  split
  · exact .pure
  · exact anchored_expected _ _

theorem anchored_newCoroutine (entry : Value) : Anchored (newCoroutine t entry) :=
  .modifyGet

theorem anchored_create : Anchored (create t) :=
  (anchored_checkFunction 1).bind fun _ => (anchored_newCoroutine _).bind fun _ =>
    anchored_returnOne _

theorem anchored_failed (value : Value) : Anchored (failed t value) :=
  (anchored_push _).bind fun _ => (anchored_push _).bind fun _ => .pure

theorem anchored_resume : Anchored (resume t) := by
  refine (anchored_checkThread 1).bind fun co => (Anchored.look).bind fun refusal => ?_
  split
  · exact anchored_failed _
  · exact anchored_arguments.bind fun _ => .pure

theorem anchored_resumeResults (result : CallResult)
    (other : ∀ e, result = .error e → ¬e.Stranded) : Anchored (resumeResults t result) := by
  cases result with
  | ok values => exact (anchored_push _).bind fun _ => (anchored_pushAll _).bind fun _ => .pure
  | error e => exact (anchored_failed _).ite (.throw (other e rfl))

theorem anchored_status : Anchored (status t) :=
  (anchored_checkThread 1).bind fun _ => (Anchored.look).bind fun _ => anchored_returnOne _

theorem anchored_running : Anchored (running t) :=
  (anchored_push _).bind fun _ => Anchored.lookThread.bind fun _ =>
    (anchored_push _).bind fun _ => .pure

theorem anchored_wrap : Anchored (wrap t) :=
  (anchored_checkFunction 1).bind fun _ => (anchored_newCoroutine _).bind fun _ =>
    (Basic.anchored_newNative _ _ _).bind fun _ => anchored_returnOne _

theorem anchored_wrapped : Anchored (wrapped t) := by
  refine (anchored_boundValue 0).bind fun v => ?_
  split
  · refine (Anchored.look).bind fun refusal => ?_
    split
    · exact .raiseText
    · exact anchored_arguments.bind fun _ => .pure
  · exact .invalid (by decide)

theorem anchored_wrappedResults (result : CallResult)
    (other : ∀ e, result = .error e → ¬e.Stranded) : Anchored (wrappedResults t result) := by
  cases result with
  | ok values => exact (anchored_pushAll _).bind fun _ => .pure
  | error e => exact Anchored.user.ite (.throw (other e rfl))

theorem anchored_isyieldable : Anchored (isyieldable t) :=
  Anchored.lookThread.bind fun _ => anchored_returnOne _

end Coroutine

namespace Sequence

theorem anchored_checkLast (ref : TableRef) (index : Nat) : Anchored (checkLast t ref index) := by
  refine (anchored_optional index).bind fun last => ?_
  split
  · exact .look
  · exact anchored_checkInteger index

theorem anchored_insert : Anchored (insert t) := by
  refine (anchored_checkTable 1).bind fun ref => (Anchored.look).bind fun size => ?_
  refine anchored_argumentCount.bind fun count => ?_
  split
  · exact (anchored_checkAny 2).bind fun _ => .modify_bind .pure
  · refine (anchored_checkInteger 2).bind fun position => (anchored_badArgument _ _).ite ?_
    refine (anchored_checkAny 3).bind fun value => (Anchored.look).bind fun result => ?_
    split
    · exact .modify_bind .pure
    · exact anchored_badArgument _ _
  · exact .argumentError

theorem anchored_remove : Anchored (remove t) := by
  refine (anchored_checkTable 1).bind fun ref => (Anchored.look).bind fun size => ?_
  refine (anchored_checkOptionalInteger 2 _).bind fun position => (anchored_badArgument _ _).ite ?_
  refine Anchored.ite ((Anchored.look).bind fun value => ?_) ?_
  · exact .modify_bind (anchored_returnOne _)
  refine (Anchored.look).bind fun result => ?_
  split
  · exact .modify_bind (anchored_returnOne _)
  · exact anchored_badArgument _ _

theorem anchored_concat : Anchored (concat t) := by
  refine (anchored_checkTable 1).bind fun ref => (anchored_optional 2).bind fun separator => ?_
  extract_lets join
  have joined : ∀ separator, Anchored (join separator) := by
    refine fun separator => (anchored_checkOptionalInteger 3 1).bind fun first => ?_
    refine (anchored_checkLast ref 4).bind fun last => (Anchored.look).bind fun result => ?_
    split
    · exact anchored_returnOne _
    · exact .raiseText
  split
  · exact joined _
  · exact (anchored_checkString 2).bind joined

theorem anchored_unpack : Anchored (unpack t) := by
  refine (anchored_checkTable 1).bind fun ref => ?_
  refine (anchored_checkOptionalInteger 2 1).bind fun first => ?_
  refine (anchored_checkLast ref 3).bind fun last => Anchored.pure.ite (Anchored.raiseText.ite ?_)
  exact (Anchored.look).bind fun values => (anchored_pushAll values).bind fun _ => .pure

theorem anchored_pack : Anchored (pack t) :=
  anchored_arguments.bind fun _ => (Anchored.modifyGet).bind fun _ => anchored_returnOne _

end Sequence

namespace Arithmetic

theorem anchored_ofFunction (f : Float → Float) : Anchored (ofFunction f t) :=
  (anchored_checkNumber 1).bind fun _ => anchored_returnOne _

theorem anchored_atan : Anchored (atan t) := by
  refine (anchored_checkNumber 1).bind fun y => (anchored_optional 2).bind fun given => ?_
  split
  · exact anchored_returnOne _
  · exact (anchored_checkNumber 2).bind fun x => anchored_returnOne _

theorem anchored_fmod : Anchored (fmod t) :=
  (anchored_checkNumber 1).bind fun _ => (anchored_checkNumber 2).bind fun _ =>
    (anchored_badArgument _ _).ite (anchored_returnOne _)

theorem anchored_log : Anchored (log t) := by
  refine (anchored_checkNumber 1).bind fun x => (anchored_optional 2).bind fun base => ?_
  split
  · exact anchored_returnOne _
  · exact (anchored_checkNumber 2).bind fun base => anchored_returnOne _

theorem anchored_foldFrom (prefers : Float → Float → Bool) (count index : Nat) (best : Float) :
    Anchored (foldFrom t prefers count index best) := by
  induction count generalizing index best with
  | zero => exact .pure
  | succ count ih => exact (anchored_checkNumber index).bind fun x => ih _ _

theorem anchored_extreme (prefers : Float → Float → Bool) : Anchored (extreme prefers t) :=
  (anchored_checkNumber 1).bind fun _ => anchored_argumentCount.bind fun _ =>
    (anchored_foldFrom _ _ _ _).bind fun _ => anchored_returnOne _

theorem anchored_modf : Anchored (modf t) :=
  (anchored_checkNumber 1).bind fun _ => (anchored_push _).bind fun _ =>
    (anchored_push _).bind fun _ => .pure

theorem anchored_tointeger : Anchored (tointeger t) := by
  refine (anchored_checkAny 1).bind fun v => ?_
  split <;> exact anchored_returnOne _

theorem anchored_type : Anchored (type t) := by
  refine (anchored_checkAny 1).bind fun v => ?_
  split <;> exact anchored_returnOne _

theorem anchored_ult : Anchored (ult t) :=
  (anchored_checkInteger 1).bind fun _ => (anchored_checkInteger 2).bind fun _ =>
    anchored_returnOne _

theorem anchored_draw {α : Type} (f : Surroundings → Generator → α × Generator) :
    Anchored (draw f) := .modifyGet

theorem anchored_checkInterval (count : Nat) : Anchored (checkInterval t count) := by
  simp only [checkInterval]
  split
  · exact (anchored_checkInteger 1).bind fun _ => .pure
  · exact (anchored_checkInteger 1).bind fun _ => (anchored_checkInteger 2).bind fun _ => .pure
  · exact .argumentError

theorem anchored_random : Anchored (random t) := by
  refine anchored_argumentCount.bind fun count => Anchored.ite ?_ ?_
  · exact (anchored_draw _).bind fun x => anchored_returnOne _
  · refine (anchored_checkInterval count).bind fun ends => ?_
    exact (anchored_badArgument _ _).ite ((anchored_draw _).bind fun i => anchored_returnOne _)

theorem anchored_randomseed : Anchored (randomseed t) := by
  refine (anchored_optional 1).bind fun given => ?_
  split
  · exact .modify_bind .pure
  · exact (anchored_checkNumber 1).bind fun n => .modify_bind .pure

end Arithmetic

theorem Builtin.anchored_enter (function : Builtin) : Anchored (function.enter t) := by
  cases function with
  | assert => exact Basic.anchored_assert
  | error => exact Basic.anchored_error
  | getmetatable => exact Basic.anchored_getmetatable
  | ipairs => exact Basic.anchored_ipairs
  | next => exact Basic.anchored_next
  | pairs => exact Basic.anchored_pairs
  | pcall => exact Basic.anchored_pcall
  | print => exact Basic.anchored_print
  | rawequal => exact Basic.anchored_rawequal
  | rawget => exact Basic.anchored_rawget
  | rawlen => exact Basic.anchored_rawlen
  | rawset => exact Basic.anchored_rawset
  | select => exact Basic.anchored_select
  | setmetatable => exact Basic.anchored_setmetatable
  | tonumber => exact Basic.anchored_tonumber
  | tostring => exact Basic.anchored_tostring
  | type => exact Basic.anchored_type
  | ipairsStep => exact Basic.anchored_ipairsStep
  | create => exact Coroutine.anchored_create
  | resume => exact Coroutine.anchored_resume
  | yield => exact anchored_yieldArguments
  | status => exact Coroutine.anchored_status
  | running => exact Coroutine.anchored_running
  | wrap => exact Coroutine.anchored_wrap
  | isyieldable => exact Coroutine.anchored_isyieldable
  | wrapped => exact Coroutine.anchored_wrapped
  | insert => exact Sequence.anchored_insert
  | remove => exact Sequence.anchored_remove
  | tableConcat => exact Sequence.anchored_concat
  | unpack => exact Sequence.anchored_unpack
  | pack => exact Sequence.anchored_pack
  | atan => exact Arithmetic.anchored_atan
  | fmod => exact Arithmetic.anchored_fmod
  | log => exact Arithmetic.anchored_log
  | max | min => exact Arithmetic.anchored_extreme _
  | modf => exact Arithmetic.anchored_modf
  | random => exact Arithmetic.anchored_random
  | randomseed => exact Arithmetic.anchored_randomseed
  | tointeger => exact Arithmetic.anchored_tointeger
  | mathType => exact Arithmetic.anchored_type
  | ult => exact Arithmetic.anchored_ult
  | _ => exact Arithmetic.anchored_ofFunction _

theorem NativeBody.anchored_enter (body : NativeBody) : Anchored (body.enter .bare t) := by
  cases body with
  | builtin function => exact function.anchored_enter
  | host name => exact .invalid (by decide)

namespace Pending

variable (next : Pending)

theorem anchored_succeed (values : Array Value) : Anchored (next.succeed .bare t values) := by
  cases next with
  | pairs => exact Basic.anchored_pairsResults values
  | tostring => exact (Basic.anchored_renderedText values).bind fun _ => anchored_returnOne _
  | print line rest =>
      exact (Basic.anchored_renderedText values).bind fun _ => Basic.anchored_printFrom _ _ _
  | protectedCall => exact Basic.anchored_pcallResults _
  | resumed => exact Coroutine.anchored_resumeResults (.ok values) nofun
  | wrapped => exact Coroutine.anchored_wrappedResults (.ok values) nofun
  | host name => exact .invalid (by decide)

theorem anchored_fail {e : Error} (other : ¬e.Stranded) : Anchored (next.fail .bare t e) := by
  have failed : ∀ e', (Except.error e : CallResult) = .error e' → ¬e'.Stranded := by
    rintro _ ⟨⟩
    exact other
  cases next with
  | resumed =>
      simp only [fail]
      exact Coroutine.anchored_resumeResults (.error e) failed
  | wrapped =>
      simp only [fail]
      exact Coroutine.anchored_wrappedResults (.error e) failed
  | host name => exact .invalid (by decide)
  | _ => exact .throw other

end Pending

namespace Context

variable {x : Context}

section Operands

theorem anchored_register (i : Nat) : Anchored (x.register i) := .getSlot

theorem anchored_setRegister (i : Nat) (value : Value) : Anchored (x.setRegister i value) :=
  Anchored.modifyThread.bind fun _ => .pure

theorem anchored_operand (operand : Nat) : Anchored (x.operand operand) :=
  Anchored.pure.ite (anchored_register _)

theorem anchored_cell (index : Nat) : Anchored (x.cell index) := by
  simp only [cell]
  split
  · exact .pure
  · exact .invalid (by simp)

theorem anchored_readCell (index : Nat) : Anchored (x.readCell index) :=
  (anchored_cell index).bind fun _ => .look

theorem anchored_extraWord {user : String}
    (named : user.toList.head? = some 'L' ∨ user.toList.head? = some 'S') :
    Anchored (x.extraWord user) := by
  simp only [extraWord]
  split
  · exact .pure
  · refine .invalid ?_
    rw [String.toList_append, List.head?_append]
    rcases named with named | named <;> simp [named]

theorem anchored_countAbove (operand first : Nat) : Anchored (x.countAbove operand first) :=
  Anchored.pure.ite .lookThread

theorem anchored_loopNumber (register : Nat) (what : String) :
    Anchored (x.loopNumber register what) := by
  refine (anchored_register register).bind fun value => ?_
  split
  · exact .pure
  · exact .typeError

end Operands

theorem anchored_enter (slot arguments target : Nat) (wanted : Option Nat) :
    Anchored (do return Flow.entered (← enterCall x.thread slot arguments target wanted)) :=
  Anchored.enterCall.bind fun _ => .pure

theorem anchored_enterHandler (handler : Value) (values : List Value) (target : Option Nat) :
    Anchored (x.enterHandler handler values target) := by
  refine Anchored.lookThread.bind fun slot => Anchored.reserve.bind fun _ => ?_
  refine Anchored.modifyThread.bind fun _ => ?_
  split
  · exact anchored_enter _ _ _ _
  · exact anchored_enter _ _ _ _

theorem anchored_getField (object key : Value) (register : Nat) :
    Anchored (x.getField object key register) := by
  refine (Anchored.look).bind fun lookup => ?_
  split
  · exact anchored_setRegister _ _
  · exact anchored_enterHandler _ _ _
  · exact .typeError

theorem anchored_setField (object key value : Value) : Anchored (x.setField object key value) := by
  refine (Anchored.look).bind fun lookup => ?_
  split
  · split
    · exact .typeError
    · exact .modify_bind .pure
  · exact anchored_enterHandler _ _ _
  · exact .typeError

theorem anchored_operatorHandler (op : Opcode) (left right : Value) (register : Nat) :
    Anchored (x.operatorHandler op left right register) := by
  refine (Anchored.look).bind fun handler => ?_
  split
  · exact anchored_enterHandler _ _ _
  · exact .typeError

theorem anchored_binary (op : Opcode) (i : Instruction) : Anchored (x.binary op i) := by
  refine (anchored_operand i.b).bind fun left => (anchored_operand i.c).bind fun right => ?_
  split
  · exact anchored_setRegister _ _
  · exact anchored_operatorHandler _ _ _ _

theorem anchored_unary (op : Opcode) (i : Instruction) : Anchored (x.unary op i) := by
  refine (anchored_register i.b).bind fun operand => ?_
  split
  · exact anchored_setRegister _ _
  · exact anchored_operatorHandler _ _ _ _

theorem anchored_length (i : Instruction) : Anchored (x.length i) := by
  refine (anchored_register i.b).bind fun operand => ?_
  split
  · exact anchored_setRegister _ _
  · exact (Anchored.look).bind fun _ => anchored_setRegister _ _
  · exact .typeError

theorem anchored_concatFrom (count first : Nat) (line : String) :
    Anchored (x.concatFrom count first line) := by
  induction count generalizing first line with
  | zero => exact .pure
  | succ count ih =>
      refine (anchored_register first).bind fun value => ?_
      split
      · exact ih _ _
      · exact .typeError

theorem anchored_compare (i : Instruction) (relation : Value → Value → Option Bool) :
    Anchored (x.compare i relation) := by
  refine (anchored_operand i.b).bind fun left => (anchored_operand i.c).bind fun right => ?_
  split
  · exact .pure
  · exact .typeError

theorem anchored_call (a b : Nat) (wanted : Option Nat) : Anchored (x.call a b wanted) :=
  (anchored_countAbove _ _).bind fun _ => Anchored.modifyThread.bind fun _ => anchored_enter _ _ _ _

theorem anchored_ret (a b : Nat) : Anchored (x.ret a b) :=
  (anchored_countAbove _ _).bind fun _ => Anchored.closeCells.bind fun _ =>
    Anchored.modifyThread.bind fun _ => .pure

theorem anchored_forLoop (i : Instruction) : Anchored (x.forLoop i) := by
  refine (anchored_register i.a).bind fun index => ?_
  refine (anchored_register (i.a + 1)).bind fun limit => ?_
  refine (anchored_register (i.a + 2)).bind fun step => ?_
  split
  · refine Anchored.ite ?_ .pure
    exact (anchored_setRegister _ _).bind fun _ => (anchored_setRegister _ _).bind fun _ => .pure
  · exact .typeError

theorem anchored_forPrep (i : Instruction) : Anchored (x.forPrep i) := by
  refine (anchored_loopNumber _ _).bind fun start => (anchored_loopNumber _ _).bind fun limit => ?_
  refine (anchored_loopNumber _ _).bind fun step => (anchored_setRegister _ _).bind fun _ => ?_
  exact (anchored_setRegister _ _).bind fun _ => (anchored_setRegister _ _).bind fun _ => .pure

theorem anchored_iterCall (i : Instruction) : Anchored (x.iterCall i) :=
  Anchored.reserve.bind fun _ => Anchored.modifyThread.bind fun _ => anchored_enter _ _ _ _

theorem anchored_setList (i : Instruction) : Anchored (x.setList i) := by
  unfold setList
  extract_lets source store
  have stored : ∀ count, Anchored (store count) := by
    intro count
    simp -zeta only [store]
    extract_lets flush
    have flushed : ∀ block, Anchored (flush block) := by
      refine fun block => Anchored.getSlot.bind fun target => ?_
      split
      · refine Anchored.lookThread.bind fun th => .modify_bind ?_
        exact Anchored.modifyThread.bind fun _ => .pure
      · exact .typeError
    have word : Anchored (x.extraWord "SETLIST") := anchored_extraWord (.inr (by decide))
    exact Anchored.ite (Anchored.pure.bind flushed) (word.bind flushed)
  exact Anchored.ite (Anchored.pure.bind stored) (Anchored.lookThread.bind stored)

theorem anchored_vararg (i : Instruction) : Anchored (x.vararg i) := by
  unfold vararg
  extract_lets target extras copy
  have copied : ∀ count, Anchored (copy count) := fun _ => Anchored.modifyThread.bind fun _ => .pure
  refine Anchored.ite (Anchored.pure.bind copied) (Anchored.reserve.bind fun _ => ?_)
  exact Anchored.modifyThread.bind fun _ => Anchored.pure.bind copied

theorem anchored_captureCells (captures : List Capture) (cells : Array CellRef) :
    Anchored (x.captureCells captures cells) := by
  induction captures generalizing cells with
  | nil => exact .pure
  | cons c rest ih =>
      simp only [captureCells]
      split
      · exact (Anchored.modifyGet).bind fun _ => ih _
      · split
        · exact Anchored.pure.bind fun _ => ih _
        · exact (Anchored.invalid (by simp)).bind fun _ => ih _

theorem anchored_makeClosure (i : Instruction) : Anchored (x.makeClosure i) := by
  simp only [makeClosure]
  split
  · exact .invalid (by simp)
  · exact (anchored_captureCells _ _).bind fun cells => Anchored.modifyGet.bind fun ref =>
      anchored_setRegister _ _

theorem anchored_execute {op : Opcode} (other : op ≠ .tailCall) (i : Instruction) :
    Anchored (x.execute op i) := by
  cases op with
  | move => exact (anchored_register _).bind fun _ => anchored_setRegister _ _
  | loadK => exact anchored_setRegister _ _
  | loadKX =>
      have word : Anchored (x.extraWord "LOADKX") := anchored_extraWord (.inl (by decide))
      exact word.bind fun _ => (anchored_setRegister _ _).bind fun _ => .pure
  | loadBool => exact (anchored_setRegister _ _).bind fun _ => .pure
  | loadNil => exact Anchored.modifyThread.bind fun _ => .pure
  | getCell => exact (anchored_readCell _).bind fun _ => anchored_setRegister _ _
  | getTabCell =>
      exact (anchored_readCell _).bind fun _ => (anchored_operand _).bind fun _ =>
        anchored_getField _ _ _
  | getTable =>
      exact (anchored_register _).bind fun _ => (anchored_operand _).bind fun _ =>
        anchored_getField _ _ _
  | setTabCell =>
      exact (anchored_readCell _).bind fun _ => (anchored_operand _).bind fun _ =>
        (anchored_operand _).bind fun _ => anchored_setField _ _ _
  | setCell =>
      refine (anchored_register _).bind fun value => (anchored_cell _).bind fun ref => ?_
      exact .modify_bind .pure
  | setTable =>
      exact (anchored_register _).bind fun _ => (anchored_operand _).bind fun _ =>
        (anchored_operand _).bind fun _ => anchored_setField _ _ _
  | newTable => exact (Anchored.modifyGet).bind fun _ => anchored_setRegister _ _
  | selfCall =>
      exact (anchored_register _).bind fun _ => (anchored_operand _).bind fun _ =>
        (anchored_setRegister _ _).bind fun _ => anchored_getField _ _ _
  | add | sub | mul | mod | pow | div | intDiv | bitAnd | bitOr | bitXor | shiftLeft | shiftRight =>
      exact anchored_binary _ i
  | neg | bitNot => exact anchored_unary _ i
  | logicalNot => exact (anchored_register _).bind fun _ => anchored_setRegister _ _
  | length => exact anchored_length i
  | concat => exact (anchored_concatFrom _ _ _).bind fun _ => anchored_setRegister _ _
  | jump =>
      simp only [execute]
      split
      · exact Anchored.closeCells.bind fun _ => .pure
      · exact .pure
  | eq => exact anchored_compare i fun left right => some (left.same right)
  | lt => exact anchored_compare i lessThan?
  | le => exact anchored_compare i lessEqual?
  | test => exact (anchored_register _).bind fun _ => .pure
  | testSet =>
      exact (anchored_register _).bind fun _ => Anchored.pure.ite (anchored_setRegister _ _)
  | call => exact anchored_call _ _ _
  | tailCall => exact absurd rfl other
  | ret => exact anchored_ret _ _
  | forLoop => exact anchored_forLoop i
  | forPrep => exact anchored_forPrep i
  | iterCall => exact anchored_iterCall i
  | iterLoop =>
      refine (anchored_register _).bind fun control => Anchored.pure.ite ?_
      exact (anchored_setRegister _ _).bind fun _ => .pure
  | setList => exact anchored_setList i
  | closure => exact anchored_makeClosure i
  | vararg => exact anchored_vararg i
  | extraArg => exact .invalid (by decide)

theorem anchored_tailCall {s : Store} (a b : Nat) (framed : (s.thread x.thread).frames ≠ []) :
    AnchoredAt s (x.tailCall a b) := by
  have closed : ((s.closeCells x.thread x.frame.base).thread x.thread).frames.isEmpty = false := by
    rw [Store.frames_closeCells, List.isEmpty_eq_false_iff]
    exact framed
  refine AnchoredAt.look_bind ?_
  split
  · have counted : ∃ n, x.countAbove b (x.slot a + 1) s = .ok n s := by
      unfold countAbove
      split <;> exact ⟨_, rfl⟩
    obtain ⟨arguments, counted⟩ := counted
    refine AnchoredAt.ok_bind counted (.modify_bind (.look_bind ?_))
    simp only [closed, Bool.false_eq_true, if_false]
    have rest : Anchored (do
        modifyThread x.thread fun th => vacate th (x.slot a) arguments
        let entered ← enterCall x.thread x.frame.slot arguments x.frame.target x.frame.wanted
        modifyThread x.thread Thread.markTail
        return Flow.entered entered) :=
      Anchored.modifyThread.bind fun _ => Anchored.enterCall.bind fun _ =>
        Anchored.modifyThread.bind fun _ => .pure
    exact rest _
  · exact anchored_call _ _ _ s

end Context

end RegisterVm
