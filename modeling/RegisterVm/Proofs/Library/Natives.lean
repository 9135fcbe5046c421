import RegisterVm.Proofs.Library.Checks

/-!
The native functions one by one. All but a yield are calm, and each leaves off in one of four ways.
-/

namespace RegisterVm

variable {t : ThreadRef} {low : Nat} {start : Store} {inv : Store → Prop} {may : Prop}

namespace Basic

theorem keeps_rendering (permits : Permits t low start inv) (v : Value) :
    Keeps inv (rendering v) Any := by
  refine Keeps.look.bind fun handler _ => ?_
  split
  · exact .pure trivial
  · refine Keeps.any_bind ?_ fun _ => ?_
    · refine Keeps.modifyGet fun s before => ?_
      simp only [Store.showAddress]
      split
      · exact before
      · exact permits.heap before rfl rfl rfl
    · refine Keeps.look.bind fun name _ => ?_
      split
      · exact .pure trivial
      · exact .pure trivial

theorem keeps_renderedText (results : Array Value) :
    Keeps inv (renderedText t results) Any := by
  simp only [renderedText]
  split
  · exact .pure trivial
  · exact .raiseText

variable (permits : Permits t low start inv)

include permits

theorem keeps_tostring : Keeps inv (tostring t) (Leaves t start may) := by
  refine (keeps_checkAny 1).bind fun v _ => ?_
  refine (keeps_rendering permits v).bind fun rendering _ => ?_
  split
  · exact keeps_returnOne permits _
  · exact .pure ⟨rfl, trivial⟩

theorem keeps_printFrom (line : String) (isFirst : Bool) (values : List Value) :
    Keeps inv (printFrom line isFirst values) (Leaves t start may) := by
  induction values generalizing line isFirst with
  | nil =>
      exact permits.modify_bind (.pure trivial) fun _ => ⟨rfl, rfl, rfl⟩
  | cons v rest ih =>
      refine (keeps_rendering permits v).bind fun rendering _ => ?_
      split
      · exact ih _ _
      · exact .pure ⟨rfl, trivial⟩

theorem keeps_print : Keeps inv (print t) (Leaves t start may) :=
  keeps_arguments.bind fun _ _ => keeps_printFrom permits _ _ _

theorem keeps_type : Keeps inv (type t) (Leaves t start may) :=
  (keeps_checkAny 1).bind fun _ _ => keeps_returnOne permits _

omit permits in
theorem keeps_assert : Keeps inv (assert t) (Leaves t start may) := by
  refine (keeps_checkAny 1).bind fun v _ => ?_
  split
  · exact keeps_argumentCount.bind fun _ _ => .pure trivial
  · refine (keeps_argument 2).bind fun message _ => ?_
    split
    · exact .throw
    · exact .raiseText

omit permits in
theorem keeps_error : Keeps inv (error t) (Leaves t start may) := by
  refine (keeps_argument 1).bind fun v _ => ?_
  refine (keeps_checkOptionalInteger 2 1).bind fun level _ => ?_
  split
  · split
    · exact Keeps.look.bind fun _ _ => .throw
    · exact .throw
  · exact .throw

theorem keeps_tonumber : Keeps inv (tonumber t) (Leaves t start may) := by
  refine (keeps_optional 2).bind fun base _ => ?_
  split
  · exact (keeps_checkAny 1).bind fun _ _ => keeps_returnOne permits _
  · refine (keeps_checkInteger 2).bind fun base _ => ?_
    split
    · exact keeps_badArgument _ _
    · refine (keeps_argument 1).bind fun text _ => ?_
      split
      · exact keeps_returnOne permits _
      · exact keeps_badArgument _ _

theorem keeps_select : Keeps inv (select t) (Leaves t start may) := by
  refine (keeps_checkAny 1).bind fun selector _ => ?_
  refine keeps_argumentCount.bind fun count _ => ?_
  split
  · exact keeps_returnOne permits _
  · refine (keeps_checkInteger 1).bind fun index _ => ?_
    split
    · exact .pure trivial
    · exact keeps_badArgument _ _

theorem keeps_ipairs : Keeps inv (ipairs t) (Leaves t start may) := by
  refine (keeps_checkAny 1).bind fun target _ => ?_
  refine (keeps_newNative permits _ _ _).bind fun step _ => ?_
  refine (permits.push step).bind fun _ _ => ?_
  refine (permits.push target).bind fun _ _ => ?_
  exact (permits.push _).bind fun _ _ => .pure trivial

theorem keeps_ipairsStep : Keeps inv (ipairsStep t) (Leaves t start may) := by
  refine (keeps_checkTable 1).bind fun ref _ => ?_
  refine (keeps_checkInteger 2).bind fun i _ => ?_
  refine Keeps.look.bind fun value _ => ?_
  split
  · exact keeps_returnOne permits _
  · refine (permits.push _).bind fun _ _ => ?_
    exact (permits.push _).bind fun _ _ => .pure trivial

theorem keeps_pairs : Keeps inv (pairs t) (Leaves t start may) := by
  refine (keeps_checkAny 1).bind fun target _ => ?_
  refine Keeps.look.bind fun handler _ => ?_
  split
  · exact .pure ⟨rfl, trivial⟩
  · split
    · exact keeps_badArgument _ _
    · refine (keeps_newNative permits _ _ _).bind fun next _ => ?_
      refine (permits.push next).bind fun _ _ => ?_
      refine (permits.push target).bind fun _ _ => ?_
      exact (permits.push _).bind fun _ _ => .pure trivial

theorem keeps_pairsResults (results : Array Value) :
    Keeps inv (pairsResults t results) (Leaves t start may) :=
  (keeps_pushAll permits _).bind fun _ _ => .pure trivial

theorem keeps_next : Keeps inv (next t) (Leaves t start may) := by
  refine (keeps_checkTable 1).bind fun ref _ => ?_
  refine (keeps_argument 2).bind fun key _ => ?_
  refine Keeps.look.bind fun result _ => ?_
  split
  · refine (permits.push _).bind fun _ _ => ?_
    exact (permits.push _).bind fun _ _ => .pure trivial
  · exact keeps_returnOne permits _
  · exact .raiseText

theorem keeps_pcall : Keeps inv (pcall t) (Leaves t start may) := by
  refine (keeps_checkAny 1).bind fun _ _ => ?_
  refine Keeps.lookThread.bind fun base read => ?_
  obtain ⟨s, before, rfl⟩ := read
  refine keeps_argumentCount.bind fun count _ => .pure ⟨rfl, ?_⟩
  rw [Thread.frame?, (permits.calm before).frames, Thread.frame?]

theorem keeps_getmetatable : Keeps inv (getmetatable t) (Leaves t start may) := by
  refine (keeps_checkAny 1).bind fun v _ => ?_
  exact Keeps.look.bind fun _ _ => keeps_returnOne permits _

theorem keeps_setmetatable : Keeps inv (setmetatable t) (Leaves t start may) := by
  refine (keeps_checkTable 1).bind fun ref _ => ?_
  refine (keeps_argument 2).bind fun metatable _ => ?_
  extract_lets assign
  have assigned : ∀ metatable,
      Keeps inv (assign metatable) (Leaves t start may) := by
    intro metatable
    refine Keeps.look.bind fun sealed _ => ?_
    split
    · exact .raiseText
    · exact permits.modify_bind (keeps_returnOne permits _) fun _ => ⟨rfl, rfl, rfl⟩
  split
  · exact assigned _
  · exact assigned _
  · exact Keeps.any_bind (keeps_badArgument 2 _) assigned

theorem keeps_rawequal : Keeps inv (rawequal t) (Leaves t start may) := by
  refine (keeps_checkAny 1).bind fun left _ => ?_
  exact (keeps_checkAny 2).bind fun right _ => keeps_returnOne permits _

theorem keeps_rawget : Keeps inv (rawget t) (Leaves t start may) := by
  refine (keeps_checkTable 1).bind fun ref _ => ?_
  refine (keeps_checkAny 2).bind fun key _ => ?_
  exact Keeps.look.bind fun _ _ => keeps_returnOne permits _

theorem keeps_rawset : Keeps inv (rawset t) (Leaves t start may) := by
  refine (keeps_checkTable 1).bind fun ref _ => ?_
  refine (keeps_checkAny 2).bind fun key _ => ?_
  refine (keeps_checkAny 3).bind fun value _ => ?_
  split
  · exact .raiseText
  · exact permits.modify_bind (keeps_returnOne permits _) fun _ => ⟨rfl, rfl, rfl⟩

theorem keeps_rawlen : Keeps inv (rawlen t) (Leaves t start may) := by
  refine (keeps_argument 1).bind fun v _ => ?_
  split
  · exact Keeps.look.bind fun _ _ => keeps_returnOne permits _
  · exact keeps_returnOne permits _
  · exact keeps_badArgument _ _

omit permits in
theorem keeps_pcallResults (above : low ≤ ((start.thread t).frame?.map Frame.base).getD 0)
    (success : Bool) :
    Keeps (Calm t low start) (pcallResults t success) (Leaves t start may) := by
  refine Keeps.lookThread.bind fun base read => ?_
  obtain ⟨s, calm, rfl⟩ := read
  rw [Thread.frame?, ← calm.frames, ← Thread.frame?] at above
  refine Keeps.lookThread.bind fun count _ => ?_
  refine Keeps.any_bind ?_ fun _ => .pure trivial
  refine Keeps.modifyThread fun s calm => calm.modifyThread ?_ ?_ (.inr ?_)
  · exact (Thread.reworked_putAll _ _ above).trans (Thread.reworked_withTop _ _ _)
  · simp
  · rw [Thread.top_withTop]
    omega

end Basic

namespace Coroutine

theorem keeps_checkFunction (index : Nat) :
    Keeps inv (checkFunction t index) Any := by
  refine (keeps_argument index).bind fun v _ => ?_
  split
  · split
    · exact .pure trivial
    · exact keeps_expected _ _
  · exact keeps_expected _ _

theorem keeps_checkThread {inv : Store → Prop} (index : Nat) :
    Keeps inv (checkThread t index) Any := by
  refine (keeps_argument index).bind fun v _ => ?_
  split
  · exact .pure trivial
  · exact keeps_expected _ _

theorem unstarted_new (globals : TableRef) (limits : Limits) (entry : Value) :
    Store.Unstarted (((Thread.new false globals limits).put 0 entry).withTop 1) :=
  ⟨rfl, rfl, rfl, rfl, rfl, rfl, rfl⟩

theorem keeps_newCoroutine (valid : t < start.threads.size) (entry : Value) :
    Keeps (Calm t low start) (newCoroutine t entry) Any := by
  refine Keeps.modifyGet fun s calm => calm.trans ?_
  have valid : t < s.threads.size := Nat.lt_of_lt_of_le valid calm.confined.grown
  have same : (s.newThread (((Thread.new false (s.thread t).globals
      (s.thread t).limits).put 0 entry).withTop 1)).2.thread t = s.thread t := by
    rw [Store.thread_newThread, if_neg (Nat.ne_of_lt valid)]
  exact ⟨Store.confined_newThread valid (unstarted_new _ _ _), congrArg Thread.frames same, rfl,
    .inl (congrArg Thread.top same)⟩

theorem refusal_calm {s : Store} (calm : Calm t low start s) {co : ThreadRef}
    (allowed : refusal? s t co = none) : refusal? start t co = none := by
  have different : co ≠ t := by
    rintro rfl
    simp [refusal?] at allowed
  by_cases known : co < start.threads.size
  · rw [refusal?, calm.confined.others co different known] at allowed
    exact allowed
  · rw [refusal?, Store.thread_invalid start (Nat.not_lt.1 known)]
    have apart : (t == co) = false := by simpa using Ne.symm different
    rw [apart]
    rfl

variable (permits : Permits t low start inv)

include permits

theorem keeps_create : Keeps inv (create t) (Leaves t start may) := by
  refine (keeps_checkFunction 1).bind fun entry _ => ?_
  exact (permits.newCoroutine entry).bind fun co _ => keeps_returnOne permits co

theorem keeps_failed (value : Value) :
    Keeps inv (failed t value) (Leaves t start may) := by
  refine (permits.push _).bind fun _ _ => ?_
  exact (permits.push _).bind fun _ _ => .pure trivial

theorem keeps_resume (resumes : may) :
    Keeps inv (resume t) (Leaves t start may) := by
  refine (keeps_checkThread 1).bind fun co _ => ?_
  refine Keeps.look.bind fun refusal read => ?_
  obtain ⟨s, before, rfl⟩ := read
  split
  · exact keeps_failed permits _
  · rename_i allowed
    have free := refusal_calm (permits.calm before) allowed
    exact keeps_arguments.bind fun _ _ => .pure ⟨.inl rfl, free, resumes⟩

theorem keeps_resumeResults (result : CallResult) :
    Keeps inv (resumeResults t result) (Leaves t start may) := by
  cases result with
  | ok values =>
      refine (permits.push _).bind fun _ _ => ?_
      exact (keeps_pushAll permits _).bind fun _ _ => .pure trivial
  | error e =>
      simp only [resumeResults]
      split
      · exact keeps_failed permits _
      · exact .throw

theorem keeps_status : Keeps inv (status t) (Leaves t start may) := by
  refine (keeps_checkThread 1).bind fun co _ => ?_
  exact Keeps.look.bind fun _ _ => keeps_returnOne permits _

theorem keeps_running : Keeps inv (running t) (Leaves t start may) := by
  refine (permits.push _).bind fun _ _ => ?_
  refine Keeps.lookThread.bind fun _ _ => ?_
  exact (permits.push _).bind fun _ _ => .pure trivial

theorem keeps_wrap : Keeps inv (wrap t) (Leaves t start may) := by
  refine (keeps_checkFunction 1).bind fun entry _ => ?_
  refine (permits.newCoroutine entry).bind fun co _ => ?_
  exact (keeps_newNative permits _ _ _).bind fun native _ => keeps_returnOne permits native

theorem keeps_wrapped (resumes : may) :
    Keeps inv (wrapped t) (Leaves t start may) := by
  refine (keeps_boundValue 0).bind fun v _ => ?_
  split
  · refine Keeps.look.bind fun refusal read => ?_
    obtain ⟨s, before, rfl⟩ := read
    split
    · exact .raiseText
    · rename_i allowed
      have free := refusal_calm (permits.calm before) allowed
      exact keeps_arguments.bind fun _ _ => .pure ⟨.inr rfl, free, resumes⟩
  · exact .invalid

theorem keeps_wrappedResults (result : CallResult) :
    Keeps inv (wrappedResults t result) (Leaves t start may) := by
  cases result with
  | ok values => exact (keeps_pushAll permits _).bind fun _ _ => .pure trivial
  | error e =>
      simp only [wrappedResults]
      split
      · exact .throw
      · exact .throw

theorem keeps_isyieldable : Keeps inv (isyieldable t) (Leaves t start may) :=
  Keeps.lookThread.bind fun _ _ => keeps_returnOne permits _

end Coroutine

namespace Sequence

theorem keeps_checkLast (ref : TableRef) (index : Nat) :
    Keeps inv (checkLast t ref index) Any := by
  refine (keeps_optional index).bind fun last _ => ?_
  split
  · exact Keeps.look.any
  · exact keeps_checkInteger index

variable (permits : Permits t low start inv)

include permits

theorem keeps_insert : Keeps inv (insert t) (Leaves t start may) := by
  refine (keeps_checkTable 1).bind fun ref _ => ?_
  refine Keeps.look.bind fun size _ => ?_
  refine keeps_argumentCount.bind fun count _ => ?_
  split
  · refine (keeps_checkAny 2).bind fun value _ => ?_
    exact permits.modify_bind (.pure trivial) fun _ => ⟨rfl, rfl, rfl⟩
  · refine (keeps_checkInteger 2).bind fun position _ => ?_
    split
    · exact keeps_badArgument _ _
    · refine (keeps_checkAny 3).bind fun value _ => ?_
      refine Keeps.look.bind fun result _ => ?_
      split
      · exact permits.modify_bind (.pure trivial) fun _ => ⟨rfl, rfl, rfl⟩
      · exact keeps_badArgument _ _
  · exact .argumentError

theorem keeps_remove : Keeps inv (remove t) (Leaves t start may) := by
  refine (keeps_checkTable 1).bind fun ref _ => ?_
  refine Keeps.look.bind fun size _ => ?_
  refine (keeps_checkOptionalInteger 2 _).bind fun position _ => ?_
  split
  · exact keeps_badArgument _ _
  · split
    · refine Keeps.look.bind fun value _ => ?_
      exact permits.modify_bind (keeps_returnOne permits value) fun _ => ⟨rfl, rfl, rfl⟩
    · refine Keeps.look.bind fun result _ => ?_
      split
      · exact permits.modify_bind (keeps_returnOne permits _) fun _ => ⟨rfl, rfl, rfl⟩
      · exact keeps_badArgument _ _

theorem keeps_concat : Keeps inv (concat t) (Leaves t start may) := by
  refine (keeps_checkTable 1).bind fun ref _ => ?_
  refine (keeps_optional 2).bind fun separator _ => ?_
  extract_lets join
  have joined : ∀ separator, Keeps inv (join separator) (Leaves t start may) := by
    intro separator
    refine (keeps_checkOptionalInteger 3 1).bind fun first _ => ?_
    refine (keeps_checkLast ref 4).bind fun last _ => ?_
    refine Keeps.look.bind fun result _ => ?_
    split
    · exact keeps_returnOne permits _
    · exact .raiseText
  split
  · exact joined _
  · exact (keeps_checkString 2).bind fun separator _ => joined separator

theorem keeps_unpack : Keeps inv (unpack t) (Leaves t start may) := by
  refine (keeps_checkTable 1).bind fun ref _ => ?_
  refine (keeps_checkOptionalInteger 2 1).bind fun first _ => ?_
  refine (keeps_checkLast ref 3).bind fun last _ => ?_
  refine Keeps.ite (.pure trivial) (Keeps.ite .raiseText ?_)
  refine Keeps.look.bind fun values _ => ?_
  exact (keeps_pushAll permits values).bind fun _ _ => .pure trivial

theorem keeps_pack : Keeps inv (pack t) (Leaves t start may) := by
  refine keeps_arguments.bind fun values _ => ?_
  refine (Keeps.modifyGet fun _ before => permits.heap before rfl rfl rfl).bind fun ref _ => ?_
  exact keeps_returnOne permits _

end Sequence

namespace Arithmetic

theorem keeps_foldFrom (prefers : Float → Float → Bool) (count index : Nat) (best : Float) :
    Keeps inv (foldFrom t prefers count index best) Any := by
  induction count generalizing index best with
  | zero => exact .pure trivial
  | succ count ih => exact (keeps_checkNumber index).bind fun _ _ => ih _ _

theorem keeps_checkInterval (count : Nat) :
    Keeps inv (checkInterval t count) Any := by
  simp only [checkInterval]
  split
  · exact (keeps_checkInteger 1).bind fun _ _ => .pure trivial
  · refine (keeps_checkInteger 1).bind fun first _ => ?_
    exact (keeps_checkInteger 2).bind fun _ _ => .pure trivial
  · exact .argumentError

variable (permits : Permits t low start inv)

include permits

theorem keeps_draw {α : Type} (f : Surroundings → Generator → α × Generator) :
    Keeps inv (draw f) Any :=
  Keeps.modifyGet fun _ calm => permits.heap calm rfl rfl rfl

theorem keeps_ofFunction (f : Float → Float) :
    Keeps inv (ofFunction f t) (Leaves t start may) :=
  (keeps_checkNumber 1).bind fun _ _ => keeps_returnOne permits _

theorem keeps_atan : Keeps inv (atan t) (Leaves t start may) := by
  refine (keeps_checkNumber 1).bind fun y _ => ?_
  refine (keeps_optional 2).bind fun x _ => ?_
  split
  · exact keeps_returnOne permits _
  · exact (keeps_checkNumber 2).bind fun _ _ => keeps_returnOne permits _

theorem keeps_fmod : Keeps inv (fmod t) (Leaves t start may) := by
  refine (keeps_checkNumber 1).bind fun a _ => ?_
  refine (keeps_checkNumber 2).bind fun b _ => ?_
  split
  · exact keeps_badArgument _ _
  · exact keeps_returnOne permits _

theorem keeps_log : Keeps inv (log t) (Leaves t start may) := by
  refine (keeps_checkNumber 1).bind fun x _ => ?_
  refine (keeps_optional 2).bind fun base _ => ?_
  split
  · exact keeps_returnOne permits _
  · exact (keeps_checkNumber 2).bind fun _ _ => keeps_returnOne permits _

theorem keeps_extreme (prefers : Float → Float → Bool) :
    Keeps inv (extreme prefers t) (Leaves t start may) := by
  refine (keeps_checkNumber 1).bind fun first _ => ?_
  refine keeps_argumentCount.bind fun count _ => ?_
  exact (keeps_foldFrom prefers _ _ _).bind fun _ _ => keeps_returnOne permits _

theorem keeps_modf : Keeps inv (modf t) (Leaves t start may) := by
  refine (keeps_checkNumber 1).bind fun x _ => ?_
  refine (permits.push _).bind fun _ _ => ?_
  exact (permits.push _).bind fun _ _ => .pure trivial

theorem keeps_tointeger : Keeps inv (tointeger t) (Leaves t start may) := by
  refine (keeps_checkAny 1).bind fun v _ => ?_
  split
  · exact keeps_returnOne permits _
  · exact keeps_returnOne permits _

theorem keeps_type : Keeps inv (type t) (Leaves t start may) := by
  refine (keeps_checkAny 1).bind fun v _ => ?_
  split
  · exact keeps_returnOne permits _
  · exact keeps_returnOne permits _

theorem keeps_ult : Keeps inv (ult t) (Leaves t start may) := by
  refine (keeps_checkInteger 1).bind fun m _ => ?_
  exact (keeps_checkInteger 2).bind fun _ _ => keeps_returnOne permits _

theorem keeps_random : Keeps inv (random t) (Leaves t start may) := by
  refine keeps_argumentCount.bind fun count _ => ?_
  split
  · exact (keeps_draw permits _).bind fun _ _ => keeps_returnOne permits _
  · refine (keeps_checkInterval count).bind fun bounds _ => ?_
    obtain ⟨first, last⟩ := bounds
    dsimp only
    split
    · exact keeps_badArgument _ _
    · exact (keeps_draw permits _).bind fun _ _ => keeps_returnOne permits _

theorem keeps_randomseed : Keeps inv (randomseed t) (Leaves t start may) := by
  refine (keeps_optional 1).bind fun argument _ => ?_
  split
  · exact permits.modify_bind (.pure trivial) fun _ => ⟨rfl, rfl, rfl⟩
  · refine (keeps_checkNumber 1).bind fun n _ => ?_
    exact permits.modify_bind (.pure trivial) fun _ => ⟨rfl, rfl, rfl⟩

end Arithmetic

structure Ready (t : ThreadRef) (low : Nat) (s : Store) : Prop where
  valid : t < s.threads.size
  top : low ≤ (s.thread t).top
  frame : low ≤ ((s.thread t).frame?.map Frame.base).getD 0

theorem Calm.permits (valid : t < start.threads.size) (top : low ≤ (start.thread t).top) :
    Permits t low start (Calm t low start) where
  calm := id
  heap calm cells threads _ := calm.heap cells threads
  push := Calm.keeps_push top
  newCoroutine := Coroutine.keeps_newCoroutine valid

theorem Ready.permits (ready : Ready t low start) : Permits t low start (Calm t low start) :=
  Calm.permits ready.valid ready.top

theorem Builtin.keeps_enter (function : Builtin) (other : function ≠ .yield)
    (permits : Permits t low start inv) (resumes : function = .resume ∨ function = .wrapped → may) :
    Keeps inv (function.enter t) (Leaves t start may) := by
  cases function with
  | yield => exact absurd rfl other
  | assert => exact Basic.keeps_assert
  | error => exact Basic.keeps_error
  | getmetatable => exact Basic.keeps_getmetatable permits
  | ipairs => exact Basic.keeps_ipairs permits
  | next => exact Basic.keeps_next permits
  | pairs => exact Basic.keeps_pairs permits
  | pcall => exact Basic.keeps_pcall permits
  | print => exact Basic.keeps_print permits
  | rawequal => exact Basic.keeps_rawequal permits
  | rawget => exact Basic.keeps_rawget permits
  | rawlen => exact Basic.keeps_rawlen permits
  | rawset => exact Basic.keeps_rawset permits
  | select => exact Basic.keeps_select permits
  | setmetatable => exact Basic.keeps_setmetatable permits
  | tonumber => exact Basic.keeps_tonumber permits
  | tostring => exact Basic.keeps_tostring permits
  | type => exact Basic.keeps_type permits
  | ipairsStep => exact Basic.keeps_ipairsStep permits
  | create => exact Coroutine.keeps_create permits
  | resume => exact Coroutine.keeps_resume permits (resumes (.inl rfl))
  | status => exact Coroutine.keeps_status permits
  | running => exact Coroutine.keeps_running permits
  | wrap => exact Coroutine.keeps_wrap permits
  | isyieldable => exact Coroutine.keeps_isyieldable permits
  | wrapped => exact Coroutine.keeps_wrapped permits (resumes (.inr rfl))
  | insert => exact Sequence.keeps_insert permits
  | remove => exact Sequence.keeps_remove permits
  | tableConcat => exact Sequence.keeps_concat permits
  | unpack => exact Sequence.keeps_unpack permits
  | pack => exact Sequence.keeps_pack permits
  | atan => exact Arithmetic.keeps_atan permits
  | fmod => exact Arithmetic.keeps_fmod permits
  | log => exact Arithmetic.keeps_log permits
  | max => exact Arithmetic.keeps_extreme permits _
  | min => exact Arithmetic.keeps_extreme permits _
  | modf => exact Arithmetic.keeps_modf permits
  | random => exact Arithmetic.keeps_random permits
  | randomseed => exact Arithmetic.keeps_randomseed permits
  | tointeger => exact Arithmetic.keeps_tointeger permits
  | mathType => exact Arithmetic.keeps_type permits
  | ult => exact Arithmetic.keeps_ult permits
  | _ => exact Arithmetic.keeps_ofFunction permits _

theorem NativeBody.keeps_enter (body : NativeBody) (other : body ≠ .builtin .yield)
    (permits : Permits t low start inv)
    (resumes : body = .builtin .resume ∨ body = .builtin .wrapped → may) :
    Keeps inv (body.enter .bare t) (Leaves t start may) := by
  cases body with
  | builtin function =>
      refine function.keeps_enter (fun same => other (by rw [same])) permits fun same => resumes ?_
      exact same.imp (congrArg NativeBody.builtin) (congrArg NativeBody.builtin)
  | host name => exact .invalid

/-- What follows a protected call shifts its results, which no push does. -/
theorem Pending.keeps_succeed (next : Pending) (permits : Permits t low start inv)
    (shifts : next = .protectedCall → ∀ success,
      Keeps inv (Basic.pcallResults t success) (Leaves t start may)) (values : Array Value) :
    Keeps inv (next.succeed .bare t values) (Leaves t start may) := by
  cases next with
  | pairs => exact Basic.keeps_pairsResults permits values
  | tostring =>
      exact (Basic.keeps_renderedText values).bind fun _ _ => keeps_returnOne permits _
  | print line rest =>
      exact (Basic.keeps_renderedText values).bind fun _ _ => Basic.keeps_printFrom permits _ _ _
  | protectedCall => exact shifts rfl _
  | resumed => exact Coroutine.keeps_resumeResults permits (.ok values)
  | wrapped => exact Coroutine.keeps_wrappedResults permits (.ok values)
  | host name => exact .invalid

theorem Ready.keeps_succeed (ready : Ready t low start) (next : Pending) (values : Array Value) :
    Keeps (Calm t low start) (next.succeed .bare t values) (Leaves t start may) :=
  next.keeps_succeed ready.permits (fun _ => Basic.keeps_pcallResults ready.frame) values

theorem Pending.keeps_fail (next : Pending) (permits : Permits t low start inv) (e : Error) :
    Keeps inv (next.fail .bare t e) (Leaves t start may) := by
  cases next with
  | resumed => exact Coroutine.keeps_resumeResults permits (.error e)
  | wrapped => exact Coroutine.keeps_wrappedResults permits (.error e)
  | host name => exact .invalid
  | _ => exact .throw

end RegisterVm
