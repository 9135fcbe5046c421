import RegisterVm.Proofs.Machine.Steps
import RegisterVm.Proofs.Protected.Guarding

/-!
The activities of each thread and the frames that they will look for when they go on. Activities of
different threads do not meddle with one another, so all of this is said thread by thread.
-/

namespace RegisterVm

def ofThread (t : ThreadRef) (activities : List Activity) : List Activity :=
  activities.filter fun a => a.thread = t

def Pending.Resumes (next : Pending) : Prop := next = .resumed ∨ next = .wrapped

def Starts (t : ThreadRef) : List Activity → Prop
  | .collect r _ :: _ | .guard r _ _ :: _ | .resumption r :: _ => r = t
  | _ => False

def Serves (t : ThreadRef) : List Activity → Prop
  | .script r _ :: _ | .collect r _ :: _ | .guard r _ _ :: _ | .resumption r :: _ => r = t
  | _ => False

def Asks (t : ThreadRef) : List Activity → Prop
  | .native r next :: _ => r = t ∧ ¬next.Resumes
  | .restore r _ _ :: _ => r = t
  | _ => False

def Guards (t : ThreadRef) : List Activity → Prop
  | .native r .protectedCall :: _ => r = t
  | _ => False

def Resumed : List Activity → Prop
  | [] => True
  | .native _ next :: _ => next.Resumes
  | _ => False

/-- Each activity stands on one that can have begun it, and no host adds functions. -/
inductive Chained : List Activity → Prop where
  | nil : Chained []
  | script {t : ThreadRef} {floor : Nat} {below : List Activity} (starts : Starts t below)
      (chained : Chained below) : Chained (.script t floor :: below)
  | native {t : ThreadRef} {next : Pending} {below : List Activity} (serves : Serves t below)
      (known : ∀ name, next ≠ .host name) (chained : Chained below) :
      Chained (.native t next :: below)
  | collect {t : ThreadRef} {place : Nat} {below : List Activity} (asks : Asks t below)
      (chained : Chained below) : Chained (.collect t place :: below)
  | guard {t : ThreadRef} {place depth : Nat} {below : List Activity} (guards : Guards t below)
      (chained : Chained below) : Chained (.guard t place depth :: below)
  | restore {t : ThreadRef} {level depth : Nat} : Chained [.restore t level depth]
  | resumption {t : ThreadRef} {below : List Activity} (resumed : Resumed below)
      (chained : Chained below) : Chained (.resumption t :: below)

theorem Chained.tail {a : Activity} {below : List Activity} (chained : Chained (a :: below)) :
    Chained below := by
  cases chained with
  | restore => exact .nil
  | script _ inner | native _ _ inner | collect _ inner | guard _ inner | resumption _ inner =>
      exact inner

theorem Chained.starts {t : ThreadRef} {floor : Nat} {below : List Activity}
    (chained : Chained (.script t floor :: below)) : Starts t below := by
  cases chained with
  | script starts inner => exact starts

theorem Chained.serves {t : ThreadRef} {next : Pending} {below : List Activity}
    (chained : Chained (.native t next :: below)) : Serves t below := by
  cases chained with
  | native serves => exact serves

theorem Chained.known {t : ThreadRef} {next : Pending} {below : List Activity}
    (chained : Chained (.native t next :: below)) : ∀ name, next ≠ .host name := by
  cases chained with
  | native serves known => exact known

theorem Chained.asks {t : ThreadRef} {place : Nat} {below : List Activity}
    (chained : Chained (.collect t place :: below)) : Asks t below := by
  cases chained with
  | collect asks => exact asks

theorem Chained.guards {t : ThreadRef} {place depth : Nat} {below : List Activity}
    (chained : Chained (.guard t place depth :: below)) : Guards t below := by
  cases chained with
  | guard guards => exact guards

theorem Chained.resumed {t : ThreadRef} {below : List Activity}
    (chained : Chained (.resumption t :: below)) : Resumed below := by
  cases chained with
  | resumption resumed => exact resumed

theorem Chained.outermost {t : ThreadRef} {level depth : Nat} {below : List Activity}
    (chained : Chained (.restore t level depth :: below)) : below = [] := by
  cases chained
  rfl

theorem Guards.asks {t : ThreadRef} {activities : List Activity} (guards : Guards t activities) :
    Asks t activities := by
  match activities, guards with
  | .native _ .protectedCall :: _, own => exact ⟨own, by rintro (same | same) <;> contradiction⟩

theorem Chained.onto_script {t : ThreadRef} {floor : Nat} {top : Activity} {rest : List Activity}
    (chained : Chained (top :: .script t floor :: rest)) : ∃ next, top = .native t next := by
  cases chained with
  | script starts => exact starts.elim
  | native serves =>
      obtain rfl := serves
      exact ⟨_, rfl⟩
  | collect asks => exact asks.elim
  | guard guards => exact guards.elim
  | resumption resumed => exact resumed.elim

def Hears (t : ThreadRef) : List Activity → Prop
  | .native r next :: _ => r = t ∧ ¬next.Resumes
  | a :: _ => a.thread = t
  | [] => False

def marks : List Activity → List (Nat × Nat)
  | [] => []
  | .restore _ level depth :: below | .guard _ level depth :: below => (level, depth) :: marks below
  | _ :: below => marks below

def Bounded (place : Nat) (activities : List Activity) : Prop :=
  ∀ level depth, (level, depth) ∈ marks activities → level ≤ place

/-- The frames that the activities of one thread look for. -/
def Expects : List Activity → List Frame → Prop
  | [], _ => True
  | .script _ floor :: below, frames =>
    ∃ upper base, frames = upper ++ base ∧ base.length = floor ∧ (∀ f ∈ upper, f.kind = .script) ∧
      Expects below base
  | .native t _ :: below, frames =>
    ∃ f base, frames = f :: base ∧ f.kind = .native ∧ f.yieldable = (pins t below == 0) ∧
      Expects below base
  | .collect _ place :: below, frames =>
    Bounded place below ∧ Beneath frames place ∧ Expects below frames
  | .restore _ level depth :: below, frames =>
    Bounded level below ∧ Beneath frames level ∧ depth = frames.length ∧ Expects below frames
  | .guard _ place depth :: below, frames =>
    Bounded place below ∧ (Beneath frames place ∧ frames.head?.map Frame.base = some place) ∧
      depth = frames.length ∧ Expects below frames
  | .resumption _ :: below, frames => below = [] ∧ frames = []

section Threads

variable {t r : ThreadRef} {a : Activity} {below activities : List Activity}

theorem ofThread_self (own : a.thread = t) :
    ofThread t (a :: below) = a :: ofThread t below := by
  simp [ofThread, own]

theorem ofThread_other (other : a.thread ≠ t) : ofThread t (a :: below) = ofThread t below := by
  simp [ofThread, other]

theorem Starts.serves (starts : Starts t activities) : Serves t activities := by
  cases activities with
  | nil => exact starts
  | cons a below =>
      cases a with
      | script => exact starts.elim
      | _ => exact starts

theorem Serves.hears (serves : Serves t activities) : Hears t activities := by
  cases activities with
  | nil => exact serves
  | cons a below =>
      cases a with
      | native => exact serves.elim
      | restore => exact serves.elim
      | _ => exact serves

theorem Starts.hears (starts : Starts t activities) : Hears t activities := starts.serves.hears

theorem Asks.hears (asks : Asks t activities) : Hears t activities := by
  cases activities with
  | nil => exact asks
  | cons a below =>
      cases a with
      | native => exact asks
      | restore => exact asks
      | _ => exact asks.elim

theorem Hears.exists_cons (hears : Hears t activities) :
    ∃ a below, activities = a :: below ∧ a.thread = t := by
  cases activities with
  | nil => exact hears.elim
  | cons a below =>
      refine ⟨a, below, rfl, ?_⟩
      cases a with
      | native => exact hears.1
      | _ => exact hears

theorem Hears.not_resumed (hears : Hears t activities) : ¬Resumed (ofThread t activities) := by
  obtain ⟨a, below, rfl, own⟩ := hears.exists_cons
  rw [ofThread_self own]
  cases a with
  | native => exact hears.2
  | _ => exact id

theorem Hears.ofThread_ne_nil (hears : Hears t activities) : ofThread t activities ≠ [] := by
  obtain ⟨a, below, rfl, own⟩ := hears.exists_cons
  simp [ofThread_self own]

end Threads

theorem keepFrames_of_suffix {base frames : List Frame} (suffix : base <:+ frames) :
    Thread.keepFrames frames base.length = base := by
  obtain ⟨above, rfl⟩ := suffix
  exact keepFrames_base above base

namespace Expects

variable {t : ThreadRef} {mine : List Activity} {frames : List Frame}

theorem depth_le (expects : Expects mine frames) {level depth : Nat}
    (mark : (level, depth) ∈ marks mine) : depth ≤ frames.length := by
  induction mine generalizing frames with
  | nil => simp [marks] at mark
  | cons a below ih =>
      cases a with
      | script t floor =>
          obtain ⟨upper, base, rfl, -, -, expects⟩ := expects
          have := ih expects mark
          simp only [List.length_append]
          omega
      | native t next =>
          obtain ⟨f, base, rfl, -, -, expects⟩ := expects
          have := ih expects mark
          simp only [List.length_cons]
          omega
      | collect t place => exact ih expects.2.2 mark
      | restore t level' depth' | guard t level' depth' =>
          obtain ⟨-, -, same, expects⟩ := expects
          simp only [marks, List.mem_cons, Prod.mk.injEq] at mark
          rcases mark with ⟨-, rfl⟩ | mark
          · omega
          · exact ih expects mark
      | resumption t =>
          obtain ⟨rfl, -⟩ := expects
          simp [marks] at mark

theorem pop {floor : Nat} {f : Frame} {below : List Frame}
    (expects : Expects (.script t floor :: mine) (f :: below)) (inside : floor ≤ below.length) :
    Expects (.script t floor :: mine) below := by
  obtain ⟨upper, base, frames, rfl, script, expects⟩ := expects
  cases upper with
  | nil =>
      obtain rfl : f :: below = base := frames
      exact absurd inside (Nat.not_succ_le_self _)
  | cons g upper =>
      obtain ⟨rfl, rfl⟩ := List.cons.inj frames
      exact ⟨upper, base, rfl, rfl, fun h member => script h (.tail _ member), expects⟩

theorem push {floor : Nat} {f : Frame} (expects : Expects (.script t floor :: mine) frames)
    (script : f.kind = .script) : Expects (.script t floor :: mine) (f :: frames) := by
  obtain ⟨upper, base, rfl, rfl, scripts, expects⟩ := expects
  exact ⟨f :: upper, base, rfl, rfl, List.forall_mem_cons.2 ⟨script, scripts⟩, expects⟩

theorem start (expects : Expects mine frames) {f : Frame} (script : f.kind = .script) :
    Expects (.script t frames.length :: mine) (f :: frames) :=
  ⟨[f], frames, rfl, rfl, by simp [script], expects⟩

theorem ended {floor : Nat} (expects : Expects (.script t floor :: mine) frames)
    (short : frames.length ≤ floor) : Expects mine frames := by
  obtain ⟨upper, base, rfl, rfl, -, expects⟩ := expects
  obtain rfl : upper = [] := by
    rw [List.length_append] at short
    exact List.length_eq_zero_iff.1 (by omega)
  exact expects

theorem floor_le {floor : Nat} (expects : Expects (.script t floor :: mine) frames)
    {level depth : Nat} (mark : (level, depth) ∈ marks mine) : depth ≤ floor := by
  obtain ⟨upper, base, -, rfl, -, expects⟩ := expects
  exact expects.depth_le mark

end Expects

theorem Bounded.mono {low high : Nat} {activities : List Activity}
    (bounded : Bounded low activities) (bound : low ≤ high) : Bounded high activities :=
  fun level depth mark => Nat.le_trans (bounded level depth mark) bound

theorem bounded_marks_cons {place level depth : Nat} {activities : List Activity}
    (bounded : Bounded place activities) (bound : level ≤ place) :
    ∀ level' depth', (level', depth') ∈ (level, depth) :: marks activities → level' ≤ place := by
  intro level' depth' mark
  simp only [List.mem_cons, Prod.mk.injEq] at mark
  rcases mark with ⟨rfl, -⟩ | mark
  · exact bound
  · exact bounded level' depth' mark

def Thread.Marked (mine : List Activity) (th : Thread) : Prop :=
  ∀ level depth, (level, depth) ∈ marks mine → ∃ base, base.length = depth ∧ th.Above level base

namespace Thread.Marked

variable {mine : List Activity} {th th' : Thread}

theorem map (marked : th.Marked mine) {mine' : List Activity}
    (fewer : ∀ m, m ∈ marks mine' → m ∈ marks mine)
    (step : ∀ level base, (level, base.length) ∈ marks mine' → th.Above level base →
      th'.Above level base) : th'.Marked mine' := by
  intro level depth mark
  obtain ⟨base, rfl, above⟩ := marked level depth (fewer _ mark)
  exact ⟨base, rfl, step level base mark above⟩

theorem head (marked : th.Marked mine) {f : Frame} {below : List Frame}
    (frames : th.frames = f :: below)
    (deep : ∀ level depth, (level, depth) ∈ marks mine → depth ≤ below.length) {level depth : Nat}
    (mark : (level, depth) ∈ marks mine) : f.Owned level ∧ level ≤ th.top := by
  obtain ⟨base, rfl, above⟩ := marked level depth mark
  obtain ⟨owned, -, top⟩ := above.pop frames (deep _ _ mark)
  exact ⟨owned, top⟩

theorem bounded_top (marked : th.Marked mine) {f : Frame} {below : List Frame}
    (frames : th.frames = f :: below)
    (deep : ∀ level depth, (level, depth) ∈ marks mine → depth ≤ below.length) :
    Bounded th.top mine :=
  fun _ _ mark => (marked.head frames deep mark).2

theorem bounded_slot (marked : th.Marked mine) {f : Frame} {below : List Frame}
    (frames : th.frames = f :: below)
    (deep : ∀ level depth, (level, depth) ∈ marks mine → depth ≤ below.length) :
    Bounded f.slot mine :=
  fun _ _ mark => (marked.head frames deep mark).1.slot

end Thread.Marked

namespace Machine

variable {t : ThreadRef} {activities : List Activity}

/-- While no yield would leave a call of its own, nothing of a thread lies above the resumption but a script. -/
theorem alone_of_unpinned (serves : Serves t activities) (chained : Chained activities)
    (unpinned : pins t (ofThread t activities) = 0) :
    ∃ below, activities = .resumption t :: below ∨
      ∃ floor, activities = .script t floor :: .resumption t :: below := by
  have started : ∀ {activities}, Starts t activities → pins t (ofThread t activities) = 0 →
      ∃ below, activities = .resumption t :: below := by
    intro activities starts unpinned
    obtain ⟨a, below, rfl, own⟩ := starts.hears.exists_cons
    rw [ofThread_self own] at unpinned
    cases a with
    | collect | guard =>
        cases own
        simp [pins, Activity.thread] at unpinned
    | resumption =>
        cases own
        exact ⟨below, rfl⟩
    | _ => exact starts.elim
  cases chained with
  | @script r floor below starts chained =>
      cases serves
      rw [ofThread_self (by rfl)] at unpinned
      obtain ⟨rest, rfl⟩ := started starts unpinned
      exact ⟨rest, .inr ⟨floor, rfl⟩⟩
  | nil | native | restore => exact serves.elim
  | @collect r place below =>
      obtain ⟨rest, same⟩ := @started (.collect r place :: below) serves unpinned
      exact ⟨rest, .inl same⟩
  | @guard r place depth below =>
      obtain ⟨rest, same⟩ := @started (.guard r place depth :: below) serves unpinned
      exact ⟨rest, .inl same⟩
  | @resumption r below =>
      cases serves
      exact ⟨below, .inl rfl⟩

end Machine

end RegisterVm
