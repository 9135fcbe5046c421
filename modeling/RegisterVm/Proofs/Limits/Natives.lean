import RegisterVm.Proofs.Library.Results
import RegisterVm.Proofs.Lifetime.Activities
import RegisterVm.Proofs.Limits.Calls

/-!
Native functions within the limits. They push results where the limit leaves slots for them, and
what they return fits below the slots that they have worked on.
-/

namespace RegisterVm

variable {limits : Limits} {t : ThreadRef} {start s : Store} {outcome : NativeOutcome} {f : Frame}
  {below : List Frame}

theorem Limits.initialSlots_le_slots (limits : Limits) : initialSlots ≤ limits.slots :=
  Nat.le_max_right _ _

theorem Thread.fits_new (isMain : Bool) (globals : TableRef) (limits : Limits) :
    (Thread.new isMain globals limits).Fits limits where
  own := rfl
  depth := Nat.zero_le _
  stack := by simpa [Thread.new] using limits.initialSlots_le_slots
  top := Nat.zero_le _
  frames := nofun
  asked := trivial

theorem Thread.fits_coroutine (globals : TableRef) (limits : Limits) (entry : Value) :
    (((Thread.new false globals limits).put 0 entry).withTop 1).Fits limits := by
  have some : 0 < limits.slots := Nat.lt_of_lt_of_le (by decide) limits.initialSlots_le_slots
  exact ((Thread.fits_new false globals limits).put entry some).withTop some

theorem Store.Fits.leads_push (fits : s.Fits limits) (valid : t < s.threads.size)
    (value : Value) : Leads (push t value) s
      (fun _ s' => s'.Fits limits ∧ s'.closures = s.closures) fun s' => s' = s := by
  refine .lookThread_bind (.reserve_fits_bind (fun granted => .modifyThread ⟨?_, rfl⟩) rfl)
  have bound : (s.thread t).top + 1 ≤ limits.slots :=
    Nat.le_trans ((fits.threads t valid).le_maxStack granted) limits.maxStack_le_slots
  exact (fits.reserve _).adjust (fun own => (own.put value bound).withTop bound) rfl

structure Serving (limits : Limits) (t : ThreadRef) (start s : Store) : Prop
    extends Calm t 0 start s where
  fits : s.Fits limits
  closures : s.closures = start.closures

namespace Serving

theorem refl (fits : s.Fits limits) : Serving limits t s s := ⟨.refl t 0 s, fits, rfl⟩

theorem spares (serving : Serving limits t start s) : start.Spares t s :=
  .of_local serving.confined.toLocal (.of_eq serving.closures)

theorem head (serving : Serving limits t start s) (head : (start.thread t).frames = f :: below) :
    (s.thread t).frames = f :: below := serving.frames.trans head

theorem permits (valid : t < start.threads.size) :
    Permits t 0 start (Serving limits t start) where
  calm := toCalm
  heap serving cells threads closures :=
    ⟨serving.toCalm.heap cells threads, serving.fits.heap cells threads closures,
      closures.trans serving.closures⟩
  push value s serving := by
    have valid := Nat.lt_of_lt_of_le valid serving.confined.grown
    have calm := (Calm.keeps_push (Nat.zero_le _) value).leads serving.toCalm
    refine (calm.and (serving.fits.leads_push valid value)).mono ?_ ?_
    · rintro _ s' ⟨⟨calm, -⟩, fits, closures⟩
      exact ⟨⟨calm, fits, closures.trans serving.closures⟩, trivial⟩
    · rintro s' ⟨calm, rfl⟩
      exact serving
  newCoroutine entry s serving := by
    have known := Nat.lt_of_lt_of_le valid serving.confined.grown
    have calm := Coroutine.keeps_newCoroutine valid entry s serving.toCalm
    have own := (serving.fits.threads t known).own
    refine ⟨⟨calm.1, ?_, serving.closures⟩, trivial⟩
    show (s.newCoroutine _ (s.thread t).limits entry).2.Fits limits
    rw [own]
    exact serving.fits.newThread (Thread.fits_coroutine _ limits entry) rfl

end Serving

/-- There is room for what a native function returns where its caller wants it. -/
def Roomy (limits : Limits) (t : ThreadRef) (outcome : NativeOutcome) (s : Store) : Prop :=
  ∀ count, outcome = .returns count → ∀ f below, (s.thread t).frames = f :: below →
    f.target + min count (s.thread t).top < limits.slots

structure Served (limits : Limits) (t : ThreadRef) (start : Store) (outcome : NativeOutcome)
    (s : Store) : Prop extends Serving limits t start s where
  leaves : Leaves t s True outcome
  roomy : Roomy limits t outcome s

def Brief (outcome : NativeOutcome) : Prop := ∀ count, outcome = .returns count → count ≤ 3

theorem brief_of_asks (other : ∀ count, outcome ≠ .returns count) : Brief outcome :=
  fun count same => absurd same (other count)

theorem brief_returns {count : Nat} (few : count ≤ 3) : Brief (.returns count) := by
  rintro _ ⟨⟩
  exact few

theorem brief_returnOne (value : Value) : Keeps (fun _ => True) (returnOne t value) Brief :=
  Keeps.always.any_bind fun _ => .pure (brief_returns (by decide))

theorem Basic.brief_printFrom (line : String) (isFirst : Bool) (values : List Value) :
    Keeps (fun _ => True) (printFrom line isFirst values) Brief := by
  induction values generalizing line isFirst with
  | nil => exact Keeps.always.any_bind fun _ => .pure (brief_returns (Nat.zero_le 3))
  | cons v rest ih =>
      refine Keeps.always.any_bind fun rendering => ?_
      split
      · exact ih _ _
      · exact .pure (brief_of_asks nofun)

theorem Pending.brief_succeed (next : Pending) (shifts : next ≠ .protectedCall)
    (hears : ¬next.Resumes) (values : Array Value) :
    Keeps (fun _ => True) (next.succeed .bare t values) Brief := by
  cases next with
  | pairs => exact Keeps.always.any_bind fun _ => .pure (brief_returns (Nat.le_refl 3))
  | tostring => exact Keeps.always.any_bind fun _ => brief_returnOne _
  | print line rest => exact Keeps.always.any_bind fun _ => Basic.brief_printFrom _ _ _
  | protectedCall => exact absurd rfl shifts
  | resumed => exact absurd (.inl rfl) hears
  | wrapped => exact absurd (.inr rfl) hears
  | host name => exact .invalid

namespace Store.Fits

variable (fits : s.Fits limits) (valid : t < s.threads.size)
  (head : (s.thread t).frames = f :: below)

include fits valid head

theorem frame : f.Fits limits := (fits.threads t valid).frames f (by simp [head])

theorem roomy_of_covered (covered : Covered t f.base outcome s) : Roomy limits t outcome s := by
  intro count same g rest head'
  obtain ⟨rfl, -⟩ := List.cons.inj (head.symm.trans head')
  have own := fits.frame valid head
  have := covered count same
  have := (fits.threads t valid).top
  have := own.target
  have := own.base
  omega

theorem roomy_of_brief (native : f.kind = .native) (brief : Brief outcome) :
    Roomy limits t outcome s := by
  intro count same g rest head'
  obtain ⟨rfl, -⟩ := List.cons.inj (head.symm.trans head')
  have own := fits.frame valid head
  have granted := Nat.le_trans (own.granted native) limits.maxStack_le_slots
  have := brief count same
  have := own.target
  have := own.base
  have := own.top
  simp only [nativeSlots] at granted
  omega

theorem leads_served {action : Action NativeOutcome}
    (keeps : Keeps (Serving limits t s) action (Leaves t s True))
    {reason : NativeOutcome → Store → Prop} (leads : Leads action s reason fun _ => True)
    (enough : ∀ outcome s', s'.Fits limits → t < s'.threads.size →
      (s'.thread t).frames = f :: below → reason outcome s' → Roomy limits t outcome s') :
    Leads action s (Served limits t s) (Serving limits t s) := by
  refine ((keeps.leads (.refl fits)).and leads).mono ?_ fun _ after => after.1
  rintro outcome s' ⟨⟨serving, leaves⟩, because⟩
  exact ⟨serving, leaves.calm serving.toCalm, enough outcome s' serving.fits
    (Nat.lt_of_lt_of_le valid serving.confined.grown) (serving.head head) because⟩

theorem serves_enter (arrived : (s.thread t).top = f.top) (body : NativeBody)
    (other : body ≠ .builtin .yield) :
    Leads (body.enter .bare t) s (Served limits t s) (Serving limits t s) := by
  have filled : f.base + (s.thread t).argumentCount ≤ (s.thread t).top := by
    have := (fits.frame valid head).top
    simp only [Thread.argumentCount, Thread.frame?, head, List.head?_cons]
    omega
  exact fits.leads_served valid head
    (body.keeps_enter other (Serving.permits valid) fun _ => trivial)
    (body.covers_enter other valid filled) fun outcome s' fits valid head =>
      fits.roomy_of_covered valid head

theorem serves_pcallResults (native : f.kind = .native)
    (room : (s.thread t).top < limits.slots) (success : Bool) :
    Leads (Basic.pcallResults t success) s (Served limits t s) (Serving limits t s) := by
  have own := fits.frame valid head
  have base : ((s.thread t).frame?.map Frame.base).getD 0 = f.base := by simp [Thread.frame?, head]
  have bound : f.base + 1 + ((s.thread t).top - f.base) ≤ limits.slots := by
    have granted := Nat.le_trans (own.granted native) limits.maxStack_le_slots
    have := own.top
    simp only [nativeSlots] at granted
    omega
  have keeps : Keeps (Calm t 0 s) (Basic.pcallResults t success) (Leaves t s True) :=
    Basic.keeps_pcallResults (Nat.zero_le _) success
  have shifted : Leads (Basic.pcallResults t success) s (fun outcome s' => s'.Fits limits ∧
      s'.closures = s.closures ∧ Roomy limits t outcome s') fun s' => s' = s := by
    refine .lookThread_bind (.lookThread_bind (.modifyThread_bind (.pure ⟨?_, rfl, ?_⟩)))
    · rw [base]
      exact fits.adjust (fun th => (th.putAll _ (by simpa [Nat.add_assoc, Nat.add_comm] using
        bound)).withTop bound) (by simp)
    · rintro _ ⟨⟩ g rest head'
      have frames : (s.thread t).frames = g :: rest := by
        rw [← head', Store.thread_modifyThread_self s _ valid]
        simp
      obtain ⟨rfl, -⟩ := List.cons.inj (head.symm.trans frames)
      have := own.target
      have := own.base
      omega
  refine ((keeps.leads (.refl t 0 s)).and shifted).mono ?_ ?_
  · rintro outcome s' ⟨⟨calm, leaves⟩, fits, closures, roomy⟩
    exact ⟨⟨calm, fits, closures⟩, leaves.calm calm, roomy⟩
  · rintro s' ⟨-, rfl⟩
    exact .refl fits

theorem serves_succeed (native : f.kind = .native) (next : Pending) (values : Array Value)
    (room : next = .protectedCall → (s.thread t).top < limits.slots)
    (ample : next.Resumes → f.base ≤ (s.thread t).top) :
    Leads (next.succeed .bare t values) s (Served limits t s) (Serving limits t s) := by
  by_cases shifts : next = .protectedCall
  · subst shifts
    exact fits.serves_pcallResults valid head native (room rfl) _
  · have permits : Permits t 0 s (Serving limits t s) := Serving.permits valid
    have keeps : Keeps _ (next.succeed .bare t values) (Leaves t s True) :=
      next.keeps_succeed permits (fun same => absurd same shifts) values
    by_cases resumes : next.Resumes
    · have ready : Ready t f.base s := by
        refine ⟨valid, ample resumes, ?_⟩
        simp [Thread.frame?, head]
      exact fits.leads_served valid head keeps (next.covers_succeed ready values)
        fun outcome s' fits valid head => fits.roomy_of_covered valid head
    · exact fits.leads_served valid head keeps
        ((next.brief_succeed shifts resumes values).leads trivial)
        fun outcome s' fits valid head after => fits.roomy_of_brief valid head native after.2

theorem serves_fail (next : Pending) (e : Error)
    (ample : next.Resumes → f.base ≤ (s.thread t).top) :
    Leads (next.fail .bare t e) s (Served limits t s) (Serving limits t s) := by
  by_cases resumes : next.Resumes
  · have ready : Ready t f.base s := by
      refine ⟨valid, ample resumes, ?_⟩
      simp [Thread.frame?, head]
    exact fits.leads_served valid head (next.keeps_fail (Serving.permits valid) e)
      (next.covers_fail ready e) fun outcome s' fits valid head =>
        fits.roomy_of_covered valid head
  · cases next with
    | resumed => exact absurd (.inl rfl) resumes
    | wrapped => exact absurd (.inr rfl) resumes
    | host name => exact .invalid (.refl fits)
    | _ => exact .throw (.refl fits)

end Store.Fits

end RegisterVm
