import RegisterVm.Proofs.Lifetime.Steps
import RegisterVm.Proofs.Limits.Instructions
import RegisterVm.Proofs.Limits.Machines

/-!
Every step of a machine keeps to the limits: one lemma for each way in which the activity on top
goes on.
-/

namespace RegisterVm

variable {limits : Limits} {s s' : Store} {t : ThreadRef} {activities rest : List Activity}
  {f : Frame} {below base : List Frame}

namespace Store.Fits

variable (fits : s.Fits limits)

include fits

theorem seats_of_native (head : (s.thread t).frames = f :: below) (typed : f.Typed)
    (native : f.kind = .native) : s.Seats t := by
  rw [Seats, head]
  refine List.forall_mem_cons.2 ⟨typed.seated native, fun g member => ?_⟩
  exact fits.waiting t g (by rwa [head])

theorem orderly_unwind (others : ∀ r, r ≠ t → s.Seats r) (suffix : base <:+ (s.thread t).frames)
    (seated : ∀ g ∈ base, g.Seated s) {level : Nat} (bound : level ≤ limits.slots) :
    (s.unwind t level base.length).Orderly limits := by
  have same : s.Extends (s.closeCells t level) := .of_eq (closures_closeCells s t level)
  have frames := fun r => frames_closeCells s t r level
  have kept := keepFrames_of_suffix suffix
  refine (fits.closeCells t level).orderly_modifyThread
    (fun r different => (others r different).extend same (suffix_of_eq (frames r)))
    (fun own => ?_) ?_
  · have dropped := own.keep (List.drop_suffix
      (((s.closeCells t level).thread t).frames.length - base.length) _)
    have left : ({ (s.closeCells t level).thread t with
        frames := Thread.keepFrames ((s.closeCells t level).thread t).frames base.length
        yielding := false } : Thread).Fits limits :=
      dropped.of_stack rfl rfl own.stack own.top
    exact (left.clear _ _).withTop bound
  · rw [Thread.frames_withTop, Thread.frames_clear, frames]
    simp only [kept]
    exact fun g member => (seated g member).extend same

theorem orderly_kill (others : ∀ r, r ≠ t → s.Seats r) :
    (Machine.killCoroutine s t).Orderly limits := by
  have same : s.Extends (s.closeCells t 0) := .of_eq (closures_closeCells s t 0)
  refine (fits.closeCells t 0).orderly_modifyThread (fun r different => ?_)
    (fun own => (own.keep List.nil_suffix).of_stack rfl rfl own.stack own.top) nofun
  exact (others r different).extend same (suffix_of_eq (frames_closeCells s t r 0))

end Store.Fits

theorem Store.Orderly.setPc (orderly : s.Orderly limits) (head : (s.thread t).frames = f :: below)
    (pc : Nat) : (s.modifyThread t fun th => th.setPc pc).Orderly limits := by
  have seats := orderly.seats t
  rw [Seats, head] at seats
  obtain ⟨own, waiting⟩ := List.forall_mem_cons.1 seats
  refine orderly.fits.orderly_modifyThread (fun r _ => orderly.seats r) (fun th => th.setPc pc) ?_
  rw [Thread.setPc_cons head]
  exact List.forall_mem_cons.2 ⟨own, waiting⟩

theorem Store.Spare.mark (spare : s.Spare limits t) {f : Thread → Thread}
    (frames : ∀ th, (f th).frames = th.frames) (top : ∀ th, (f th).top = th.top) :
    (s.modifyThread t f).Spare limits t := by
  intro g under head native
  rw [field_modifyThread Thread.frames s t t f frames] at head
  rw [field_modifyThread Thread.top s t t f top]
  exact spare g under head native

namespace Machine

section Serving

variable (orderly : s.Orderly limits) (placed : ∀ a ∈ activities, a.Placed limits)
  (serves : Serves t activities) (working : s.Working t (ofThread t activities) f base)

include orderly placed serves working

theorem native_fitting {action : Action NativeOutcome}
    (leads : Leads action s (Served limits t s) (Serving limits t s)) :
    Fitting limits (perform s activities action fun s outcome => settle s activities t outcome) := by
  have valid := working.valid serves.hears.ofThread_ne_nil
  refine perform_elim leads ?_ ?_
  · intro outcome s' served
    refine settle_fitting (orderly.serving served.toServing) placed
      (Nat.lt_of_lt_of_le valid served.confined.grown) serves (served.head working.head)
      working.native served.leaves served.roomy fun yields => ?_
    rw [served.confined.own.yielding, working.quiet] at yields
    contradiction
  · intro e s' serving
    exact .fail (orderly.serving serving) placed e

theorem yield_fitting (arrived : s.Arrived t f) :
    Fitting limits (perform s activities (yieldArguments t) fun s outcome =>
      settle s activities t outcome) := by
  have valid := working.valid serves.hears.ofThread_ne_nil
  have own := orderly.fits.frame valid working.head
  have granted := Nat.le_trans (own.granted working.native) limits.maxStack_le_slots
  simp only [nativeSlots] at granted
  refine perform_elim (leads_yieldArguments t s) ?_ ?_
  · rintro _ s' ⟨rfl, -, rfl⟩
    have thread := Store.thread_modifyThread_self s (fun th =>
      { th with yielded := th.arguments, yielding := true }) valid
    have yielded : (s.modifyThread t fun th =>
        { th with yielded := th.arguments, yielding := true }).Orderly limits :=
      orderly.mark (fun _ => rfl) (fun _ => rfl) (fun _ => rfl) fun _ => rfl
    refine settle_fitting yielded placed (by simpa using valid) serves
      (by rw [thread]; exact working.head) working.native trivial ?_ fun _ => ?_
    · rintro _ ⟨⟩ g rest head
      rw [thread] at head
      obtain ⟨rfl, -⟩ := List.cons.inj (working.head.symm.trans head)
      have := own.target
      have := own.base
      have := own.top
      omega
    · rw [thread]
      have := arrived.top
      simp only
      omega
  · rintro e s' rfl
    exact .fail orderly placed e

theorem enter_fitting (arrived : s.Arrived t f) (body : NativeBody) :
    Fitting limits (perform s activities (body.enter .bare t) fun s outcome =>
      settle s activities t outcome) := by
  by_cases yields : body = .builtin .yield
  · subst yields
    exact yield_fitting orderly placed serves working arrived
  · have valid := working.valid serves.hears.ofThread_ne_nil
    exact native_fitting orderly placed serves working
      (orderly.fits.serves_enter valid working.head arrived.top body yields)

end Serving

theorem orderly_unpin (orderly : s.Orderly limits) (t : ThreadRef) :
    (s.modifyThread t unpin).Orderly limits :=
  orderly.mark (fun _ => rfl) (fun _ => rfl) (fun _ => rfl) fun _ => rfl

section Succeeding

variable (orderly : s.Orderly limits)

include orderly

theorem endResumption_fitting (placed : ∀ a ∈ rest, a.Placed limits) (resumed : Resumed rest) :
    Fitting limits (endResumption s rest t) := by
  have idle : ∀ {s' : Store}, s'.Room limits rest := by
    intro s' r awaited
    match rest, resumed, awaited with
    | .native _ .protectedCall :: _, resumed, _ => rcases resumed with same | same <;> contradiction
  simp only [endResumption]
  split <;> refine .done (orderly.mark ?_ ?_ ?_ ?_) placed idle _ <;> exact fun _ => rfl

variable {a : Activity} (placed : ∀ b ∈ a :: rest, b.Placed limits)

include placed

theorem collect_fitting {slot : Nat} (own : a = .collect t slot) (asks : Asks t rest)
    (values : Array Value) : Fitting limits (succeed .bare s a rest values) := by
  subst own
  obtain ⟨bound, under⟩ := List.forall_mem_cons.1 placed
  change slot < limits.slots at bound
  simp only [succeed]
  refine perform_elim (leads_takeResults t slot s) ?_ fun _ _ impossible => impossible.elim
  rintro results _ rfl
  refine .done (orderly.modifyThread (fun own => ?_) (List.suffix_refl _)) under ?_ results
  · have cleared := own.clear slot (s.thread t).top
    exact cleared.of_stack rfl rfl cleared.stack (Nat.le_of_lt bound)
  · intro r awaited g under head native
    obtain rfl := awaited_of_asks asks awaited
    rw [Store.thread_modifyThread_self s _ (by simpa using Store.lt_of_frames head)]
    exact bound

theorem succeed_fitting (sound : s.Sound (a :: rest)) (room : s.Room limits (a :: rest))
    (values : Array Value) : Fitting limits (succeed .bare s a rest values) := by
  have under := (List.forall_mem_cons.1 placed).2
  cases a with
  | script t floor =>
      have settled : s.Settled t (.script t floor :: ofThread t rest) := sound.top rfl
      have quiet := settled.quiet (List.cons_ne_nil _ _)
      simp only [succeed, quiet, Bool.false_eq_true, if_false]
      exact ⟨orderly.fits, placed, fun r => .inl (orderly.seats r), fun _ => room⟩
  | native t next =>
      have settled : s.Settled t (.native t next :: ofThread t rest) := sound.top rfl
      obtain ⟨f, base, working⟩ := settled.working
      have valid := settled.valid (List.cons_ne_nil _ _)
      refine native_fitting orderly under sound.chained.serves working
        (orderly.fits.serves_succeed valid working.head working.native next values ?_ fun resumes => ?_)
      · rintro rfl
        exact room t rfl f base working.head working.native
      · exact (settled.ample (List.cons_ne_nil _ _) resumes).2 f
          (by simp [Thread.frame?, working.head])
  | collect t slot => exact collect_fitting orderly placed rfl sound.chained.asks values
  | restore t level depth =>
      obtain rfl := sound.chained.outermost
      exact .done orderly under (room_of_none rfl) values
  | guard t slot depth =>
      refine .done (orderly_unpin orderly t) under (fun r awaited => ?_) _
      obtain rfl := awaited_of_asks sound.chained.guards.asks awaited
      exact (room r rfl).mark (fun _ => rfl) fun _ => rfl
  | resumption t => exact endResumption_fitting orderly under sound.chained.resumed

end Succeeding

structure Falling (limits : Limits) (s : Store) (t : ThreadRef) (activities : List Activity) :
    Prop where
  fits : s.Fits limits
  others : ∀ r, r ≠ t → s.Seats r
  falls : ∃ base, base <:+ (s.thread t).frames ∧ (∀ f ∈ base, f.Seated s) ∧
    Expects (ofThread t activities) base

theorem Fitting.falling {a : Activity} {e : Error} (fitting : Fitting limits ⟨s, a :: rest, .fail e⟩)
    (own : a.thread = t)
    (left : ∃ base, base <:+ (s.thread t).frames ∧ Expects (ofThread t (a :: rest)) base) :
    Falling limits s t (a :: rest) := by
  refine ⟨fitting.fits, fun r different => ?_, ?_⟩
  · rcases fitting.seats r with seats | poised
    · exact seats
    · cases poised with
      | failing same => exact absurd (same.symm.trans own) different
  · rcases fitting.seats t with seats | poised
    · obtain ⟨base, suffix, expects⟩ := left
      exact ⟨base, suffix, fun f member => seats f (suffix.mem member), expects⟩
    · cases poised with
      | failing _ suffix seated expects => exact ⟨_, suffix, seated, expects⟩

namespace Falling

variable (falling : Falling limits s t activities)

include falling

theorem fitting (placed : ∀ a ∈ activities, a.Placed limits) (hears : Hears t activities)
    (e : Error) : Fitting limits ⟨s, activities, .fail e⟩ := by
  obtain ⟨a, rest, rfl, own⟩ := hears.exists_cons
  refine ⟨falling.fits, placed, fun r => ?_, nofun⟩
  by_cases same : r = t
  · subst same
    obtain ⟨base, suffix, seated, expects⟩ := falling.falls
    exact .inr (.failing own suffix seated expects)
  · exact .inl (falling.others r same)

theorem mark {f : Thread → Thread} (limited : ∀ th, (f th).limits = th.limits)
    (frames : ∀ th, (f th).frames = th.frames) (stack : ∀ th, (f th).stack = th.stack)
    (top : ∀ th, (f th).top = th.top) : Falling limits (s.modifyThread t f) t activities := by
  refine ⟨falling.fits.mark limited frames stack top, fun r different => ?_, ?_⟩
  · rw [Store.Seats, Store.thread_modifyThread_other s f different]
    exact falling.others r different
  · rw [Store.field_modifyThread Thread.frames s t t f frames]
    exact falling.falls

theorem descend (lower : ∀ base, Expects (ofThread t activities) base →
      ∃ base', base' <:+ base ∧ Expects (ofThread t rest) base') : Falling limits s t rest := by
  refine ⟨falling.fits, falling.others, ?_⟩
  obtain ⟨base, suffix, seated, expects⟩ := falling.falls
  obtain ⟨base', within, expects⟩ := lower base expects
  exact ⟨base', within.trans suffix, fun f member => seated f (within.mem member), expects⟩

end Falling

theorem expects_tail {a : Activity} {mine : List Activity} {frames : List Frame}
    (expects : Expects (a :: mine) frames) : ∃ base, base <:+ frames ∧ Expects mine base := by
  cases a with
  | script t floor =>
      obtain ⟨upper, base, rfl, -, -, expects⟩ := expects
      exact ⟨base, List.suffix_append upper base, expects⟩
  | native t next =>
      obtain ⟨f, base, rfl, -, -, expects⟩ := expects
      exact ⟨base, List.suffix_cons f base, expects⟩
  | collect t slot => exact ⟨frames, List.suffix_refl _, expects.2.2⟩
  | restore t level depth | guard t level depth =>
      exact ⟨frames, List.suffix_refl _, expects.2.2.2⟩
  | resumption t =>
      obtain ⟨rfl, -⟩ := expects
      exact ⟨frames, List.suffix_refl _, trivial⟩

section Failing

variable {a : Activity}

theorem Falling.pop (falling : Falling limits s t (a :: rest)) (own : a.thread = t) :
    Falling limits s t rest := by
  refine falling.descend fun base expects => ?_
  rw [ofThread_self own] at expects
  exact expects_tail expects

theorem caught (orderly : s.Orderly limits) {slot : Nat} (bound : slot + 1 < limits.slots)
    (value : Value) :
    (s.modifyThread t fun th => (th.put slot value).withTop (slot + 1)).Orderly limits ∧
      (s.modifyThread t fun th => (th.put slot value).withTop (slot + 1)).Spare limits t := by
  refine ⟨orderly.modifyThread (fun own => ?_) (List.suffix_refl _), fun g below head _ => ?_⟩
  · exact (own.put value (by omega)).withTop (Nat.le_of_lt bound)
  · rw [Store.thread_modifyThread_self s _ (by simpa using Store.lt_of_frames head)]
    exact bound

theorem guard_fails_fitting {slot depth : Nat}
    (falling : Falling limits s t (.guard t slot depth :: rest))
    (placed : ∀ b ∈ Activity.guard t slot depth :: rest, b.Placed limits)
    (guards : Guards t rest) (e : Error) :
    Fitting limits (failTop .bare s (.guard t slot depth) rest e) := by
  obtain ⟨bound, under⟩ := List.forall_mem_cons.1 placed
  change slot + 1 < limits.slots at bound
  have unpinned := falling.mark (f := unpin) (fun _ => rfl) (fun _ => rfl) (fun _ => rfl)
    fun _ => rfl
  simp only [failTop]
  generalize s.modifyThread t unpin = s at unpinned
  split
  · obtain ⟨base, suffix, seated, expects⟩ := unpinned.falls
    rw [ofThread_self (by rfl)] at expects
    obtain ⟨-, -, rfl, -⟩ := expects
    have below : slot ≤ limits.slots := by omega
    have unwound := unpinned.fits.orderly_unwind unpinned.others suffix seated below
    obtain ⟨orderly, spare⟩ := caught unwound bound e.value
    refine .done orderly under (fun r awaited => ?_) _
    obtain rfl := awaited_of_asks guards.asks awaited
    exact spare
  · exact (unpinned.pop rfl).fitting under guards.asks.hears e

theorem failTop_fitting (falling : Falling limits s t (a :: rest)) (own : a.thread = t)
    (chained : Chained (a :: rest)) (placed : ∀ b ∈ a :: rest, b.Placed limits)
    (hears : Hears t (a :: rest)) (e : Error) : Fitting limits (failTop .bare s a rest e) := by
  have under := (List.forall_mem_cons.1 placed).2
  have left := falling.pop own
  cases a with
  | script r floor =>
      cases own
      exact left.fitting under chained.starts.hears e
  | native r next =>
      cases own
      obtain ⟨e', handed⟩ := fail_passes (t := r) (s := s) next hears.2 e
      simp only [failTop, perform, handed]
      exact left.fitting under chained.serves.hears e'
  | collect r slot =>
      cases own
      have unpinned := left.mark (f := unpin) (fun _ => rfl) (fun _ => rfl) (fun _ => rfl)
        fun _ => rfl
      exact unpinned.fitting under chained.asks.hears e
  | restore r level depth =>
      cases own
      obtain ⟨base, suffix, seated, expects⟩ := falling.falls
      rw [ofThread_self (by rfl)] at expects
      obtain ⟨-, -, rfl, -⟩ := expects
      exact .fail (falling.fits.orderly_unwind falling.others suffix seated
        (List.forall_mem_cons.1 placed).1) under e
  | guard r slot depth =>
      cases own
      exact guard_fails_fitting falling placed chained.guards e
  | resumption r =>
      cases own
      exact .fail (falling.fits.orderly_kill falling.others) under e

end Failing

section Running

variable {floor : Nat}

theorem Fitting.run (orderly : s.Orderly limits)
    (placed : ∀ a ∈ Activity.script t floor :: rest, a.Placed limits) (spare : s.Spare limits t) :
    Fitting limits ⟨s, .script t floor :: rest, .run⟩ := by
  refine ⟨orderly.fits, placed, fun r => .inl (orderly.seats r), fun _ => ?_⟩
  rintro _ ⟨⟩
  exact spare

theorem spare_of_script (head : (s.thread t).frames = f :: below) (script : f.kind = .script) :
    s.Spare limits t := by
  intro g under head' native
  obtain ⟨rfl, -⟩ := List.cons.inj (head.symm.trans head')
  cases native.symm.trans script

theorem goTo_fitting (orderly : s.Orderly limits)
    (placed : ∀ a ∈ Activity.script t floor :: rest, a.Placed limits)
    (head : (s.thread t).frames = f :: below) (script : f.kind = .script) (codeSize current : Nat)
    (pc : Int) : Fitting limits (goTo s (.script t floor :: rest) t codeSize current pc) := by
  simp only [goTo]
  split
  · split
    · exact .run orderly placed (spare_of_script head script)
    · have advanced : ((s.modifyThread t fun th => th.setPc pc.toNat).thread t).frames =
          { f with pc := pc.toNat } :: below := by
        rw [thread_setPc (Store.lt_of_frames head) head]
      exact .run (orderly.setPc head pc.toNat) placed (spare_of_script advanced script)
  · exact .fail orderly placed _

theorem lands_fitting {x : Context} {start : Store} (orderly : start.Orderly limits)
    (placed : ∀ a ∈ Activity.script x.thread floor :: rest, a.Placed limits)
    (script : x.frame.kind = .script) (inside : floor ≤ below.length) (codeSize current : Nat)
    (flow : Flow) : x.Lands limits below start flow s → Fitting limits (match flow with
      | .next pc => goTo s (.script x.thread floor :: rest) x.thread codeSize current pc
      | .entered .script => ⟨s, .script x.thread floor :: rest, .run⟩
      | .entered (.native body) => ⟨s, .script x.thread floor :: rest, .enter x.thread body⟩
      | .returned => ⟨s, .script x.thread floor :: rest, .run⟩) := by
  intro lands
  cases lands with
  | next pc housed =>
      obtain ⟨at', head⟩ := housed.head
      have safe := housed.safe
      exact goTo_fitting (orderly.of_spares safe.fits safe.spares safe.seats) placed head script _ _ _
  | @entered s callee g under fits spares frames kind perched deep =>
      have others : ∀ r, r ≠ x.thread → s.Seats r := fun r different =>
        (orderly.seats r).extend spares.extended (spares.others r different)
      have seats : ∀ {m : Machine}, m.store = s → Poised x.thread m →
          ∀ r, m.store.Seats r ∨ Poised r m := by
        rintro m rfl poised r
        by_cases same : r = x.thread
        · exact .inr (same ▸ poised)
        · exact .inl (others r same)
      cases callee with
      | script =>
          refine ⟨fits, placed, seats rfl (.running frames perched (Nat.le_trans inside deep)),
            fun _ => ?_⟩
          rintro _ ⟨⟩
          exact spare_of_script frames kind
      | native body => exact ⟨fits, placed, seats rfl .entering, nofun⟩
  | returned safe spare =>
      exact .run (orderly.of_spares safe.fits safe.spares safe.seats) placed spare

section Turn

variable (fitting : Fitting limits ⟨s, .script t floor :: rest, .run⟩)
  (head : (s.thread t).frames = f :: below)

include fitting

theorem Fitting.others {r : ThreadRef} (different : r ≠ t) : s.Seats r := by
  rcases fitting.seats r with seats | poised
  · exact seats
  · cases poised
    exact absurd rfl different

include head

theorem Fitting.waiting : ∀ g ∈ below, g.Seated s := by
  have waiting := fitting.fits.waiting t
  rwa [head] at waiting

theorem Fitting.orderly_of_code {ref : ClosureRef} (callee : f.callee = .closure ref)
    {i : Instruction} (code : (s.closure ref).prototype.code[f.pc]? = some i) :
    s.Orderly limits ∧ f.Holds s ref := by
  have known : ref < s.closures.size := by
    by_contra unknown
    simp [Store.closure, Array.getElem?_eq_none (Nat.not_lt.1 unknown), Prototype.empty] at code
  have holds : f.Holds s ref := by
    rcases fitting.seats t with seats | poised
    · exact (seats f (head ▸ .head _)).perched ref callee
    · cases poised with
      | running head' perched =>
          obtain ⟨rfl, -⟩ := List.cons.inj (head.symm.trans head')
          exact perched ref callee
  have seated : f.Seated s := by
    intro ref' callee'
    obtain rfl : ref = ref' := by simpa [callee] using callee'
    exact ⟨known, holds⟩
  refine ⟨⟨fitting.fits, fun r => ?_⟩, holds⟩
  by_cases same : r = t
  · rw [same, Store.Seats, head]
    exact List.forall_mem_cons.2 ⟨seated, fitting.waiting head⟩
  · exact fitting.others same

variable (sound : s.Sound (.script t floor :: rest)) (inside : floor ≤ below.length)

include sound inside

theorem Fitting.falling_of_run : Falling limits s t (.script t floor :: rest) := by
  have settled : s.Settled t (.script t floor :: ofThread t rest) := sound.top rfl
  have expects := settled.expects
  rw [head] at expects
  refine ⟨fitting.fits, fun _ => fitting.others, below, head ▸ List.suffix_cons f below,
    fitting.waiting head, ?_⟩
  rw [ofThread_self (by rfl)]
  exact expects.pop inside

theorem runInstruction_fitting {ref : ClosureRef} (callee : f.callee = .closure ref) :
    Fitting limits (runInstruction s (.script t floor :: rest) t f (s.closure ref)) := by
  have placed := fitting.placed
  have settled : s.Settled t (.script t floor :: ofThread t rest) := sound.top rfl
  have valid := settled.valid (List.cons_ne_nil _ _)
  simp only [runInstruction]
  split
  · exact (fitting.falling_of_run head sound inside).fitting placed rfl _
  · rename_i i code
    obtain ⟨orderly, holds⟩ := fitting.orderly_of_code head callee code
    have advanced := orderly.setPc head (f.pc + 1)
    split
    · exact .fail advanced placed _
    · rename_i op opcode
      have script : f.kind = .script := by
        have typed := (settled.frames f (head ▸ .head _)).typed
        rw [Frame.Typed, callee] at typed
        exact typed
      have owns : Context.Owns ⟨t, f, s.closure ref, f.pc + 1⟩ limits := by
        refine ⟨fitting.fits.frame valid head, script, ?_, fitting.fits.enclosed ref⟩
        exact Nat.le_trans (Nat.add_le_add_left (Nat.le_max_left _ _) _) holds
      have named : i.pastNamed op ≤ (s.closure ref).prototype.window := by
        have enclosed := (fitting.fits.enclosed ref).code i (Array.mem_of_getElem? code)
        rw [Instruction.named, opcode] at enclosed
        exact Nat.le_trans (Nat.le_max_left _ _) enclosed
      have housed : Context.Housed ⟨t, f, s.closure ref, f.pc + 1⟩ limits below
          (s.modifyThread t fun th => th.setPc (f.pc + 1))
          (s.modifyThread t fun th => th.setPc (f.pc + 1)) :=
        ⟨⟨by simpa using valid, f.pc + 1, by rw [thread_setPc valid head]⟩,
          .refl advanced.fits (advanced.seats t)⟩
      refine perform_elim (Context.lands_execute owns housed op i named) ?_ ?_
      · intro flow s' lands
        exact lands_fitting advanced placed script inside _ _ flow lands
      · intro e s' safe
        exact .fail (advanced.of_spares safe.fits safe.spares safe.seats) placed e

end Turn

theorem runScript_fitting (sound : s.Sound (.script t floor :: rest))
    (fitting : Fitting limits ⟨s, .script t floor :: rest, .run⟩) :
    Fitting limits (runScript s rest t floor) := by
  have under := (List.forall_mem_cons.1 fitting.placed).2
  have turn := runScript_turn s rest t floor
  generalize runScript s rest t floor = next at turn ⊢
  cases turn with
  | spent short =>
      have orderly : s.Orderly limits := by
        refine ⟨fitting.fits, fun r => ?_⟩
        rcases fitting.seats r with seats | poised
        · exact seats
        · cases poised with
          | running head perched inside =>
              rw [head, List.length_cons] at short
              exact absurd (Nat.le_trans short inside) (Nat.not_succ_le_self _)
      refine .done orderly under (fun r awaited => ?_) _
      obtain rfl := awaited_of_serves sound.chained.starts.serves awaited
      exact fitting.room (.inl rfl) r rfl
  | runs head inside callee => exact runInstruction_fitting fitting head sound inside callee
  | astray head inside e =>
      exact ((fitting.falling_of_run head sound inside).pop rfl).fitting under
        sound.chained.starts.hears e

end Running

section Stepping

variable {a : Activity} {e : Error} {values : Array Value}

theorem Fitting.orderly_of_done (fitting : Fitting limits ⟨s, activities, .done values⟩) :
    s.Orderly limits :=
  ⟨fitting.fits, fun r => (fitting.seats r).resolve_right nofun⟩

theorem Fitting.orderly_of_entered {body : NativeBody}
    (fitting : Fitting limits ⟨s, activities, .enter t body⟩) {mine : List Activity}
    (working : s.Working t mine f base) : s.Orderly limits := by
  refine ⟨fitting.fits, fun r => ?_⟩
  rcases fitting.seats r with seats | poised
  · exact seats
  · cases poised
    have typed := (working.frames f (working.head ▸ .head _)).typed
    exact fitting.fits.seats_of_native working.head typed working.native

theorem fail_fitting (sound : s.Sound (a :: rest))
    (fitting : Fitting limits ⟨s, a :: rest, .fail e⟩) :
    Fitting limits (failTop .bare s a rest e) := by
  have own : ofThread a.thread (a :: rest) = a :: ofThread a.thread rest := ofThread_self rfl
  have settled := sound.settled a.thread
  have falling := fitting.falling rfl ⟨_, List.suffix_refl _, settled.expects⟩
  by_cases waits : ∃ t next, a = .native t next
  · obtain ⟨t, next, rfl⟩ := waits
    have settled : s.Settled t (.native t next :: ofThread t rest) := sound.top rfl
    obtain ⟨f, base, working⟩ := settled.working
    have valid := settled.valid (List.cons_ne_nil _ _)
    have typed := (working.frames f (working.head ▸ .head _)).typed
    have orderly : s.Orderly limits := by
      refine ⟨fitting.fits, fun r => ?_⟩
      by_cases same : r = t
      · rw [same]
        exact fitting.fits.seats_of_native working.head typed working.native
      · exact falling.others r same
    refine native_fitting orderly (List.forall_mem_cons.1 fitting.placed).2 sound.chained.serves
      working (orderly.fits.serves_fail valid working.head next e fun resumes => ?_)
    exact (settled.ample (List.cons_ne_nil _ _) resumes).2 f (by simp [Thread.frame?, working.head])
  · refine failTop_fitting falling rfl sound.chained fitting.placed ?_ e
    cases a with
    | native t next => exact absurd ⟨t, next, rfl⟩ waits
    | _ => rfl

theorem lost_fitting (invalid : s.threads.size ≤ t)
    (fitting : Fitting limits ⟨s, .resumption t :: rest, .fail e⟩) :
    Fitting limits ⟨s, rest, .fail e⟩ := by
  refine .fail ⟨fitting.fits, fun r => ?_⟩ (List.forall_mem_cons.1 fitting.placed).2 e
  rcases fitting.seats r with seats | poised
  · exact seats
  · cases poised with
    | failing own =>
        obtain rfl : t = r := own
        change s.Seats t
        rw [Store.Seats, Store.thread_invalid s invalid]
        exact fun f member => absurd member List.not_mem_nil

/-- Every step keeps to the limits. -/
theorem Fitting.step {m : Machine} (fitting : Fitting limits m) (healthy : m.Healthy) :
    Fitting limits (m.step .bare) := by
  cases healthy with
  | @settled s activities control sound goes =>
      cases activities with
      | nil =>
          have same : Machine.step .bare ⟨s, [], control⟩ = ⟨s, [], control⟩ := by
            rcases goes with rfl | ⟨values, rfl⟩ | ⟨e, rfl⟩ <;> rfl
          rwa [same]
      | cons a rest =>
          rcases goes with rfl | ⟨values, rfl⟩ | ⟨e, rfl⟩
          · cases a with
            | script t floor => exact runScript_fitting sound fitting
            | _ => exact fitting
          · exact succeed_fitting fitting.orderly_of_done fitting.placed sound
              (fitting.room (.inr ⟨values, rfl⟩)) values
          · exact fail_fitting sound fitting
  | entered apart working serves yieldable arrived =>
      exact enter_fitting (fitting.orderly_of_entered working) fitting.placed serves working
        arrived _
  | @leaving s t activities below values apart leaving shape =>
      have orderly := fitting.orderly_of_done
      rcases shape with rfl | ⟨floor, rfl⟩
      · exact endResumption_fitting orderly (List.forall_mem_cons.1 fitting.placed).2
          apart.chained.resumed
      · simp only [Machine.step, succeed, leaving.yielding, if_true]
        exact .done orderly (List.forall_mem_cons.1 fitting.placed).2 (room_of_none rfl) _
  | @failing s activities t e apart failing hears =>
      obtain ⟨a, rest, rfl, own⟩ := hears.exists_cons
      exact failTop_fitting (fitting.falling own failing.expects) own apart.chained fitting.placed
        hears e
  | @lost s t below e sound invalid =>
      simp only [Machine.step, failTop, killCoroutine_invalid invalid]
      exact lost_fitting invalid fitting

end Stepping

end Machine

end RegisterVm
