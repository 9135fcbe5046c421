import RegisterVm.Proofs.Library.Natives

/-!
How many results a native function returns. It has pushed them all, or they are arguments of its
own: none of them lies below its frame.
-/

namespace RegisterVm

variable {t : ThreadRef} {low pushed : Nat}

structure Filled (t : ThreadRef) (level : Nat) (s : Store) : Prop where
  valid : t < s.threads.size
  top : level ≤ (s.thread t).top

theorem Filled.heap {level : Nat} {s s' : Store} (filled : Filled t level s)
    (threads : s'.threads = s.threads) : Filled t level s' := by
  obtain ⟨valid, top⟩ := filled
  refine ⟨by rwa [threads], ?_⟩
  rwa [Store.thread, threads, ← Store.thread]

def Covered (t : ThreadRef) (low : Nat) (outcome : NativeOutcome) (s : Store) : Prop :=
  ∀ count, outcome = .returns count → low + count ≤ (s.thread t).top

/-- With `pushed` values from slot `low` up, the function covers what it returns. -/
def Supplies (t : ThreadRef) (low pushed : Nat) (x : Action NativeOutcome) : Prop :=
  ∀ s, Filled t (low + pushed) s → Leads x s (Covered t low) fun _ => True

theorem Keeps.filled {α : Type} {x : Action α} {level : Nat}
    (keeps : ∀ start : Store,
      Permits t (start.thread t).top start (Calm t (start.thread t).top start) →
        Keeps (Calm t (start.thread t).top start) x Any) : Keeps (Filled t level) x Any := by
  intro s filled
  have after := keeps s (Calm.permits filled.valid (Nat.le_refl _)) s (.refl t _ s)
  have still : ∀ s', Calm t (s.thread t).top s s' → Filled t level s' := fun s' calm =>
    ⟨Nat.lt_of_lt_of_le filled.valid calm.confined.grown,
      Nat.le_trans filled.top (calm.low_le_top (Nat.le_refl _))⟩
  cases result : x s with
  | ok a s' =>
      rw [result] at after
      exact ⟨still s' after.1, trivial⟩
  | error e s' =>
      rw [result] at after
      exact still s' after

theorem Keeps.supplies {α : Type} {x : Action α} {f : α → Action NativeOutcome}
    (keeps : Keeps (Filled t (low + pushed)) x Any) (rest : ∀ a, Supplies t low pushed (f a)) :
    Supplies t low pushed (x >>= f) :=
  fun _ filled => keeps.leads_bind filled (fun _ _ => trivial) fun a s filled _ => rest a s filled

namespace Supplies

theorem ite {c : Prop} [Decidable c] {x y : Action NativeOutcome} (left : Supplies t low pushed x)
    (right : Supplies t low pushed y) : Supplies t low pushed (if c then x else y) := by
  split
  · exact left
  · exact right

theorem returns {count : Nat} (bound : count ≤ pushed) :
    Supplies t low pushed (pure (.returns count)) := by
  refine fun s filled => .pure ?_
  rintro _ ⟨⟩
  have := filled.top
  omega

theorem asks {outcome : NativeOutcome} (other : ∀ count, outcome ≠ .returns count) :
    Supplies t low pushed (pure outcome) :=
  fun _ _ => .pure fun count same => absurd same (other count)

theorem refuses {x : Action NativeOutcome} (keeps : Keeps (fun _ => True) x fun _ => False) :
    Supplies t low pushed x :=
  fun _ _ => (keeps.leads trivial).mono (fun _ _ impossible => impossible.2.elim) fun _ _ => trivial

end Supplies

theorem leads_push {s : Store} {level : Nat} (filled : Filled t level s) (value : Value) :
    Leads (push t value) s (fun _ s' => Filled t (level + 1) s') fun _ => True := by
  refine .lookThread_bind (.reserve_bind (.modifyThread ?_) trivial)
  have valid : t < (s.modifyThread t fun th => th.reserve ((s.thread t).top + 1)).threads.size := by
    simpa using filled.valid
  refine ⟨by simpa using filled.valid, ?_⟩
  rw [Store.thread_modifyThread_self _ _ valid, Thread.top_withTop]
  exact Nat.succ_le_succ filled.top

theorem Supplies.push {f : Unit → Action NativeOutcome} (value : Value)
    (rest : Supplies t low (pushed + 1) (f ())) :
    Supplies t low pushed (RegisterVm.push t value >>= f) :=
  fun _ filled => (leads_push filled value).bind fun _ s filled => rest s filled

theorem Supplies.pushAll {f : Unit → Action NativeOutcome} (values : List Value)
    (rest : Supplies t low (pushed + values.length) (f ())) :
    Supplies t low pushed (RegisterVm.pushAll t values >>= f) := by
  induction values generalizing pushed with
  | nil => exact rest
  | cons value values ih =>
      rw [List.length_cons, Nat.add_comm values.length, ← Nat.add_assoc] at rest
      refine fun _ filled => ?_
      simp only [RegisterVm.pushAll, bind_assoc]
      exact (leads_push filled value).bind fun _ s filled => ih rest s filled

theorem supplies_returnOne (value : Value) : Supplies t low pushed (returnOne t value) :=
  .push value (.returns (Nat.succ_le_succ (Nat.zero_le _)))

namespace Basic

theorem supplies_tostring : Supplies t low 0 (tostring t) := by
  refine (keeps_checkAny 1).supplies fun v => ?_
  refine (Keeps.filled fun _ permits => keeps_rendering permits v).supplies fun rendering => ?_
  split
  · exact supplies_returnOne _
  · exact .asks nofun

theorem supplies_printFrom (line : String) (isFirst : Bool) (values : List Value) :
    Supplies t low 0 (printFrom line isFirst values) := by
  induction values generalizing line isFirst with
  | nil =>
      exact (Keeps.modify fun _ filled => filled.heap rfl).supplies fun _ =>
        .returns (Nat.le_refl 0)
  | cons v rest ih =>
      refine (Keeps.filled fun _ permits => keeps_rendering permits v).supplies fun rendering => ?_
      split
      · exact ih _ _
      · exact .asks nofun

theorem supplies_print : Supplies t low 0 (print t) :=
  keeps_arguments.supplies fun _ => supplies_printFrom _ _ _

theorem supplies_type : Supplies t low 0 (type t) :=
  (keeps_checkAny 1).supplies fun _ => supplies_returnOne _

theorem covers_assert {s : Store} (filled : low + (s.thread t).argumentCount ≤ (s.thread t).top) :
    Leads (assert t) s (Covered t low) fun _ => True := by
  have checked : Keeps (· = s) (checkAny t 1) Any := keeps_checkAny 1
  refine checked.leads_bind rfl (fun _ _ => trivial) ?_
  rintro v _ rfl -
  split
  · refine .lookThread_bind (.pure ?_)
    rintro _ ⟨⟩
    exact filled
  · refine .lookThread_bind ?_
    split
    · exact .throw trivial
    · exact .raiseText trivial

theorem supplies_error : Supplies t low 0 (error t) := by
  refine (keeps_argument 1).supplies fun v => ?_
  refine (keeps_checkOptionalInteger 2 1).supplies fun level => ?_
  split
  · split
    · exact .refuses (Keeps.look.bind fun _ _ => .throw)
    · exact .refuses .throw
  · exact .refuses .throw

theorem supplies_tonumber : Supplies t low 0 (tonumber t) := by
  refine (keeps_optional 2).supplies fun base => ?_
  split
  · exact (keeps_checkAny 1).supplies fun _ => supplies_returnOne _
  · refine (keeps_checkInteger 2).supplies fun base => ?_
    split
    · exact .refuses (keeps_badArgument _ _)
    · refine (keeps_argument 1).supplies fun text => ?_
      split
      · exact supplies_returnOne _
      · exact .refuses (keeps_badArgument _ _)

theorem selected_le {count : Nat} {index : Int} {n : Nat}
    (selected : selected? count index = some n) : n ≤ count := by
  simp only [selected?] at selected
  split at selected
  · split at selected
    · contradiction
    · obtain rfl := Option.some.inj selected
      omega
  · split at selected
    · contradiction
    · obtain rfl := Option.some.inj selected
      exact Nat.sub_le _ _

theorem covers_select {s : Store} (valid : t < s.threads.size)
    (filled : low + (s.thread t).argumentCount ≤ (s.thread t).top) :
    Leads (select t) s (Covered t low) fun _ => True := by
  have checked : Keeps (· = s) (checkAny t 1) Any := keeps_checkAny 1
  refine checked.leads_bind rfl (fun _ _ => trivial) ?_
  rintro selector _ rfl -
  refine .lookThread_bind ?_
  split
  · exact supplies_returnOne _ _ ⟨valid, by omega⟩
  · have checked : ∀ s : Store, Keeps (· = s) (checkInteger t 1) Any :=
      fun s => keeps_checkInteger 1
    refine (checked _).leads_bind rfl (fun _ _ => trivial) ?_
    rintro index _ rfl -
    split
    · rename_i n selected
      have bound := selected_le selected
      refine .pure ?_
      rintro _ ⟨⟩
      omega
    · have refused : Supplies t low 0 (badArgument t 1 "index out of range") :=
        .refuses (keeps_badArgument _ _)
      exact refused _ ⟨valid, by omega⟩

theorem supplies_ipairs : Supplies t low 0 (ipairs t) := by
  refine (keeps_checkAny 1).supplies fun target => ?_
  refine (Keeps.filled fun _ permits => keeps_newNative permits _ _ _).supplies fun step => ?_
  exact .push step (.push target (.push _ (.returns (Nat.le_refl 3))))

theorem supplies_ipairsStep : Supplies t low 0 (ipairsStep t) := by
  refine (keeps_checkTable 1).supplies fun ref => ?_
  refine (keeps_checkInteger 2).supplies fun i => ?_
  refine Keeps.look.any.supplies fun value => ?_
  split
  · exact supplies_returnOne _
  · exact .push _ (.push value (.returns (Nat.le_refl 2)))

theorem supplies_pairs : Supplies t low 0 (pairs t) := by
  refine (keeps_checkAny 1).supplies fun target => ?_
  refine Keeps.look.any.supplies fun handler => ?_
  split
  · exact .asks nofun
  · refine .ite (.refuses (keeps_badArgument _ _)) ?_
    refine (Keeps.filled fun _ permits => keeps_newNative permits _ _ _).supplies fun next => ?_
    exact .push next (.push target (.push _ (.returns (Nat.le_refl 3))))

theorem supplies_pairsResults (results : Array Value) :
    Supplies t low 0 (pairsResults t results) :=
  .pushAll _ (.returns (Nat.le_refl 3))

theorem supplies_next : Supplies t low 0 (next t) := by
  refine (keeps_checkTable 1).supplies fun ref => ?_
  refine (keeps_argument 2).supplies fun key => ?_
  refine Keeps.look.any.supplies fun result => ?_
  split
  · exact .push _ (.push _ (.returns (Nat.le_refl 2)))
  · exact supplies_returnOne _
  · exact .refuses .raiseText

theorem supplies_pcall : Supplies t low 0 (pcall t) := by
  refine (keeps_checkAny 1).supplies fun _ => ?_
  refine Keeps.lookThread.any.supplies fun base => ?_
  exact keeps_argumentCount.supplies fun count => .asks nofun

theorem covers_pcallResults {s : Store} (ready : Ready t low s) (success : Bool) :
    Leads (pcallResults t success) s (Covered t low) fun _ => True := by
  refine .lookThread_bind (.lookThread_bind (.modifyThread_bind (.pure ?_)))
  rintro _ ⟨⟩
  have base := ready.frame
  rw [Store.thread_modifyThread_self _ _ ready.valid, Thread.top_withTop]
  omega

theorem supplies_getmetatable : Supplies t low 0 (getmetatable t) := by
  refine (keeps_checkAny 1).supplies fun v => ?_
  exact Keeps.look.any.supplies fun _ => supplies_returnOne _

theorem supplies_setmetatable : Supplies t low 0 (setmetatable t) := by
  refine (keeps_checkTable 1).supplies fun ref => ?_
  refine (keeps_argument 2).supplies fun metatable => ?_
  extract_lets assign
  have assigned : ∀ metatable, Supplies t low 0 (assign metatable) := by
    intro metatable
    refine Keeps.look.any.supplies fun sealed => .ite (.refuses .raiseText) ?_
    exact (Keeps.modify fun _ filled => filled.heap rfl).supplies fun _ => supplies_returnOne _
  split
  · exact assigned _
  · exact assigned _
  · exact (keeps_badArgument 2 _).supplies assigned

theorem supplies_rawequal : Supplies t low 0 (rawequal t) := by
  refine (keeps_checkAny 1).supplies fun left => ?_
  exact (keeps_checkAny 2).supplies fun right => supplies_returnOne _

theorem supplies_rawget : Supplies t low 0 (rawget t) := by
  refine (keeps_checkTable 1).supplies fun ref => ?_
  refine (keeps_checkAny 2).supplies fun key => ?_
  exact Keeps.look.any.supplies fun _ => supplies_returnOne _

theorem supplies_rawset : Supplies t low 0 (rawset t) := by
  refine (keeps_checkTable 1).supplies fun ref => ?_
  refine (keeps_checkAny 2).supplies fun key => ?_
  refine (keeps_checkAny 3).supplies fun value => ?_
  split
  · exact .refuses .raiseText
  · exact (Keeps.modify fun _ filled => filled.heap rfl).supplies fun _ => supplies_returnOne _

theorem supplies_rawlen : Supplies t low 0 (rawlen t) := by
  refine (keeps_argument 1).supplies fun v => ?_
  split
  · exact Keeps.look.any.supplies fun _ => supplies_returnOne _
  · exact supplies_returnOne _
  · exact .refuses (keeps_badArgument _ _)

end Basic

namespace Coroutine

theorem supplies_create : Supplies t low 0 (create t) := by
  refine (Keeps.filled fun _ _ => keeps_checkFunction 1).supplies fun entry => ?_
  exact (Keeps.filled fun _ permits => permits.newCoroutine entry).supplies fun co =>
    supplies_returnOne co

theorem supplies_failed (value : Value) : Supplies t low 0 (failed t value) :=
  .push _ (.push value (.returns (Nat.le_refl 2)))

theorem supplies_resume : Supplies t low 0 (resume t) := by
  refine (Keeps.filled fun _ _ => keeps_checkThread 1).supplies fun co => ?_
  refine Keeps.look.any.supplies fun refusal => ?_
  split
  · exact supplies_failed _
  · exact keeps_arguments.supplies fun _ => .asks nofun

theorem supplies_resumeResults (result : CallResult) :
    Supplies t low 0 (resumeResults t result) := by
  cases result with
  | ok values =>
      refine .push _ (.pushAll _ (.returns ?_))
      rw [Array.length_toList]
      omega
  | error e => exact .ite (supplies_failed _) (.refuses .throw)

theorem supplies_status : Supplies t low 0 (status t) := by
  refine (Keeps.filled fun _ _ => keeps_checkThread 1).supplies fun co => ?_
  exact Keeps.look.any.supplies fun _ => supplies_returnOne _

theorem supplies_running : Supplies t low 0 (running t) := by
  refine .push _ ?_
  exact Keeps.lookThread.any.supplies fun _ => .push _ (.returns (Nat.le_refl 2))

theorem supplies_wrap : Supplies t low 0 (wrap t) := by
  refine (Keeps.filled fun _ _ => keeps_checkFunction 1).supplies fun entry => ?_
  refine (Keeps.filled fun _ permits => permits.newCoroutine entry).supplies fun co => ?_
  exact (Keeps.filled fun _ permits => keeps_newNative permits _ _ _).supplies fun native =>
    supplies_returnOne native

theorem supplies_wrapped : Supplies t low 0 (wrapped t) := by
  refine (keeps_boundValue 0).supplies fun v => ?_
  split
  · refine Keeps.look.any.supplies fun refusal => ?_
    split
    · exact .refuses .raiseText
    · exact keeps_arguments.supplies fun _ => .asks nofun
  · exact .refuses .invalid

theorem supplies_wrappedResults (result : CallResult) :
    Supplies t low 0 (wrappedResults t result) := by
  cases result with
  | ok values =>
      refine .pushAll _ (.returns ?_)
      rw [Array.length_toList]
      omega
  | error e => exact .ite (.refuses .throw) (.refuses .throw)

theorem supplies_isyieldable : Supplies t low 0 (isyieldable t) :=
  Keeps.lookThread.any.supplies fun _ => supplies_returnOne _

end Coroutine

namespace Sequence

theorem supplies_insert : Supplies t low 0 (insert t) := by
  refine (keeps_checkTable 1).supplies fun ref => ?_
  refine Keeps.look.any.supplies fun size => ?_
  refine keeps_argumentCount.supplies fun count => ?_
  split
  · refine (keeps_checkAny 2).supplies fun value => ?_
    exact (Keeps.modify fun _ filled => filled.heap rfl).supplies fun _ => .returns (Nat.le_refl 0)
  · refine (keeps_checkInteger 2).supplies fun position => ?_
    refine .ite (.refuses (keeps_badArgument _ _)) ?_
    refine (keeps_checkAny 3).supplies fun value => ?_
    refine Keeps.look.any.supplies fun result => ?_
    split
    · exact (Keeps.modify fun _ filled => filled.heap rfl).supplies fun _ =>
        .returns (Nat.le_refl 0)
    · exact .refuses (keeps_badArgument _ _)
  · exact .refuses .argumentError

theorem supplies_remove : Supplies t low 0 (remove t) := by
  refine (keeps_checkTable 1).supplies fun ref => ?_
  refine Keeps.look.any.supplies fun size => ?_
  refine (keeps_checkOptionalInteger 2 _).supplies fun position => ?_
  refine .ite (.refuses (keeps_badArgument _ _)) (.ite ?_ ?_)
  · refine Keeps.look.any.supplies fun value => ?_
    exact (Keeps.modify fun _ filled => filled.heap rfl).supplies fun _ => supplies_returnOne value
  · refine Keeps.look.any.supplies fun result => ?_
    split
    · exact (Keeps.modify fun _ filled => filled.heap rfl).supplies fun _ => supplies_returnOne _
    · exact .refuses (keeps_badArgument _ _)

theorem supplies_concat : Supplies t low 0 (concat t) := by
  refine (keeps_checkTable 1).supplies fun ref => ?_
  refine (keeps_optional 2).supplies fun separator => ?_
  extract_lets join
  have joined : ∀ separator, Supplies t low 0 (join separator) := by
    intro separator
    refine (keeps_checkOptionalInteger 3 1).supplies fun first => ?_
    refine (Keeps.filled fun _ _ => keeps_checkLast ref 4).supplies fun last => ?_
    refine Keeps.look.any.supplies fun result => ?_
    split
    · exact supplies_returnOne _
    · exact .refuses .raiseText
  split
  · exact joined _
  · exact (keeps_checkString 2).supplies joined

theorem supplies_unpack : Supplies t low 0 (unpack t) := by
  refine (keeps_checkTable 1).supplies fun ref => ?_
  refine (keeps_checkOptionalInteger 2 1).supplies fun first => ?_
  refine (Keeps.filled fun _ _ => keeps_checkLast ref 3).supplies fun last => ?_
  refine .ite (.returns (Nat.le_refl 0)) (.ite (.refuses .raiseText) ?_)
  refine fun s filled => .look_bind (Supplies.pushAll _ (.returns ?_) s filled)
  simp

theorem supplies_pack : Supplies t low 0 (pack t) := by
  refine keeps_arguments.supplies fun values => ?_
  exact (Keeps.modifyGet fun _ filled => filled.heap rfl).supplies fun ref => supplies_returnOne _

end Sequence

namespace Arithmetic

theorem supplies_randomseed : Supplies t low 0 (randomseed t) := by
  refine (keeps_optional 1).supplies fun argument => ?_
  have changed {f : Store → Store} (calm : ∀ s, (f s).threads = s.threads) :
      Supplies t low 0 (do modify f; return .returns 0) :=
    (Keeps.modify fun s filled => filled.heap (calm s)).supplies fun _ => .returns (Nat.le_refl 0)
  split
  · exact changed fun _ => rfl
  · exact (keeps_checkNumber 1).supplies fun n => changed fun _ => rfl

theorem supplies_ofFunction (f : Float → Float) : Supplies t low 0 (ofFunction f t) :=
  (keeps_checkNumber 1).supplies fun _ => supplies_returnOne _

theorem supplies_atan : Supplies t low 0 (atan t) := by
  refine (keeps_checkNumber 1).supplies fun y => ?_
  refine (keeps_optional 2).supplies fun x => ?_
  split
  · exact supplies_returnOne _
  · exact (keeps_checkNumber 2).supplies fun _ => supplies_returnOne _

theorem supplies_fmod : Supplies t low 0 (fmod t) := by
  refine (keeps_checkNumber 1).supplies fun a => ?_
  refine (keeps_checkNumber 2).supplies fun b => ?_
  exact .ite (.refuses (keeps_badArgument _ _)) (supplies_returnOne _)

theorem supplies_log : Supplies t low 0 (log t) := by
  refine (keeps_checkNumber 1).supplies fun x => ?_
  refine (keeps_optional 2).supplies fun base => ?_
  split
  · exact supplies_returnOne _
  · exact (keeps_checkNumber 2).supplies fun _ => supplies_returnOne _

theorem supplies_extreme (prefers : Float → Float → Bool) :
    Supplies t low 0 (extreme prefers t) := by
  refine (keeps_checkNumber 1).supplies fun first => ?_
  refine keeps_argumentCount.supplies fun count => ?_
  exact (Keeps.filled fun _ _ => keeps_foldFrom prefers _ _ _).supplies fun _ =>
    supplies_returnOne _

theorem supplies_modf : Supplies t low 0 (modf t) := by
  refine (keeps_checkNumber 1).supplies fun x => ?_
  exact .push _ (.push _ (.returns (Nat.le_refl 2)))

theorem supplies_tointeger : Supplies t low 0 (tointeger t) := by
  refine (keeps_checkAny 1).supplies fun v => ?_
  split <;> exact supplies_returnOne _

theorem supplies_type : Supplies t low 0 (type t) := by
  refine (keeps_checkAny 1).supplies fun v => ?_
  split <;> exact supplies_returnOne _

theorem supplies_ult : Supplies t low 0 (ult t) := by
  refine (keeps_checkInteger 1).supplies fun m => ?_
  exact (keeps_checkInteger 2).supplies fun _ => supplies_returnOne _

theorem supplies_random : Supplies t low 0 (random t) := by
  refine keeps_argumentCount.supplies fun count => ?_
  refine .ite ((Keeps.filled fun _ permits => keeps_draw permits _).supplies fun _ => supplies_returnOne _) ?_
  refine (Keeps.filled fun _ _ => keeps_checkInterval count).supplies fun bounds => ?_
  obtain ⟨first, last⟩ := bounds
  refine .ite (.refuses (keeps_badArgument _ _)) ?_
  exact (Keeps.filled fun _ permits => keeps_draw permits _).supplies fun _ => supplies_returnOne _

end Arithmetic

theorem NativeBody.covers_enter (body : NativeBody) (other : body ≠ .builtin .yield) {s : Store}
    (valid : t < s.threads.size)
    (filled : low + (s.thread t).argumentCount ≤ (s.thread t).top) :
    Leads (body.enter .bare t) s (Covered t low) fun _ => True := by
  have supplied : ∀ {x : Action NativeOutcome}, Supplies t low 0 x →
      Leads x s (Covered t low) fun _ => True :=
    fun supplies => supplies s ⟨valid, by omega⟩
  cases body with
  | host name => exact .invalid trivial
  | builtin function =>
  cases function with
  | yield => exact absurd rfl other
  | assert => exact Basic.covers_assert filled
  | select => exact Basic.covers_select valid filled
  | error => exact supplied Basic.supplies_error
  | getmetatable => exact supplied Basic.supplies_getmetatable
  | ipairs => exact supplied Basic.supplies_ipairs
  | next => exact supplied Basic.supplies_next
  | pairs => exact supplied Basic.supplies_pairs
  | pcall => exact supplied Basic.supplies_pcall
  | print => exact supplied Basic.supplies_print
  | rawequal => exact supplied Basic.supplies_rawequal
  | rawget => exact supplied Basic.supplies_rawget
  | rawlen => exact supplied Basic.supplies_rawlen
  | rawset => exact supplied Basic.supplies_rawset
  | setmetatable => exact supplied Basic.supplies_setmetatable
  | tonumber => exact supplied Basic.supplies_tonumber
  | tostring => exact supplied Basic.supplies_tostring
  | type => exact supplied Basic.supplies_type
  | ipairsStep => exact supplied Basic.supplies_ipairsStep
  | create => exact supplied Coroutine.supplies_create
  | resume => exact supplied Coroutine.supplies_resume
  | status => exact supplied Coroutine.supplies_status
  | running => exact supplied Coroutine.supplies_running
  | wrap => exact supplied Coroutine.supplies_wrap
  | isyieldable => exact supplied Coroutine.supplies_isyieldable
  | wrapped => exact supplied Coroutine.supplies_wrapped
  | insert => exact supplied Sequence.supplies_insert
  | remove => exact supplied Sequence.supplies_remove
  | tableConcat => exact supplied Sequence.supplies_concat
  | unpack => exact supplied Sequence.supplies_unpack
  | pack => exact supplied Sequence.supplies_pack
  | atan => exact supplied Arithmetic.supplies_atan
  | fmod => exact supplied Arithmetic.supplies_fmod
  | log => exact supplied Arithmetic.supplies_log
  | max => exact supplied (Arithmetic.supplies_extreme _)
  | min => exact supplied (Arithmetic.supplies_extreme _)
  | modf => exact supplied Arithmetic.supplies_modf
  | random => exact supplied Arithmetic.supplies_random
  | randomseed => exact supplied Arithmetic.supplies_randomseed
  | tointeger => exact supplied Arithmetic.supplies_tointeger
  | mathType => exact supplied Arithmetic.supplies_type
  | ult => exact supplied Arithmetic.supplies_ult
  | _ => exact supplied (Arithmetic.supplies_ofFunction _)

theorem Pending.covers_succeed (next : Pending) {s : Store} (ready : Ready t low s)
    (values : Array Value) :
    Leads (next.succeed .bare t values) s (Covered t low) fun _ => True := by
  have filled : Filled t (low + 0) s := ⟨ready.valid, ready.top⟩
  cases next with
  | pairs => exact Basic.supplies_pairsResults values s filled
  | tostring =>
      have rendered : Supplies t low 0 (Pending.succeed .bare .tostring t values) :=
        (Keeps.filled fun _ _ => Basic.keeps_renderedText values).supplies fun _ =>
          supplies_returnOne _
      exact rendered s filled
  | print line rest =>
      have printed : Supplies t low 0 (Pending.succeed .bare (.print line rest) t values) :=
        (Keeps.filled fun _ _ => Basic.keeps_renderedText values).supplies fun _ =>
          Basic.supplies_printFrom _ _ _
      exact printed s filled
  | protectedCall => exact Basic.covers_pcallResults ready _
  | resumed => exact Coroutine.supplies_resumeResults (.ok values) s filled
  | wrapped => exact Coroutine.supplies_wrappedResults (.ok values) s filled
  | host name => exact .invalid trivial

theorem Pending.covers_fail (next : Pending) {s : Store} (ready : Ready t low s) (e : Error) :
    Leads (next.fail .bare t e) s (Covered t low) fun _ => True := by
  have filled : Filled t (low + 0) s := ⟨ready.valid, ready.top⟩
  cases next with
  | resumed => exact Coroutine.supplies_resumeResults (.error e) s filled
  | wrapped => exact Coroutine.supplies_wrappedResults (.error e) s filled
  | host name => exact .invalid trivial
  | _ => exact .throw trivial

end RegisterVm
