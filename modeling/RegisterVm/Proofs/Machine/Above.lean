import RegisterVm.Proofs.Machine.Coroutines
import RegisterVm.Proofs.Machine.Scripts
import RegisterVm.Proofs.Machine.Unwinding

/-!
Frames above others. Whoever may have to unwind a thread marks its frames and a level; until then
every frame pushed above the marked ones lies from that level up. And every frame lies above where
the registers of the script frames below it begin.
-/

namespace RegisterVm

inductive Over (level : Nat) (base : List Frame) : List Frame → Prop where
  | base : Over level base base
  | push {f : Frame} {below : List Frame} (owned : f.Owned level)
      (stacked : Over level base below) : Over level base (f :: below)

structure Thread.Above (level : Nat) (base : List Frame) (th : Thread) : Prop where
  stacked : Over level base th.frames
  top : th.frames.length ≤ base.length ∨ level ≤ th.top

namespace Over

variable {level : Nat} {base frames : List Frame}

theorem pop {f : Frame} {below : List Frame} (stacked : Over level base (f :: below))
    (deep : base.length ≤ below.length) : f.Owned level ∧ Over level base below := by
  cases stacked with
  | base => exact absurd deep (Nat.not_succ_le_self _)
  | push owned stacked => exact ⟨owned, stacked⟩

theorem exists_append (stacked : Over level base frames) :
    ∃ above, frames = above ++ base ∧ ∀ f ∈ above, f.Owned level := by
  induction stacked with
  | base => exact ⟨[], rfl, by simp⟩
  | @push f below owned _ ih =>
      obtain ⟨above, rfl, all⟩ := ih
      refine ⟨f :: above, rfl, ?_⟩
      intro g member
      rcases List.mem_cons.1 member with rfl | inner
      · exact owned
      · exact all g inner

theorem of_append {above : List Frame} (all : ∀ f ∈ above, f.Owned level) :
    Over level base (above ++ base) := by
  induction above with
  | nil => exact .base
  | cons f rest ih => exact .push (all f (.head _)) (ih fun g member => all g (.tail _ member))

theorem mem (stacked : Over level base frames) {f : Frame} (member : f ∈ frames) :
    f.Owned level ∨ f ∈ base := by
  obtain ⟨above, rfl, all⟩ := stacked.exists_append
  rcases List.mem_append.1 member with inner | inner
  · exact .inl (all f inner)
  · exact .inr inner

theorem keepFrames_base (stacked : Over level base frames) :
    Thread.keepFrames frames base.length = base := by
  obtain ⟨above, rfl, -⟩ := stacked.exists_append
  exact RegisterVm.keepFrames_base above base

theorem keepFrames (stacked : Over level base frames) {depth : Nat} (deep : base.length ≤ depth) :
    Over level base (Thread.keepFrames frames depth) := by
  obtain ⟨above, rfl, all⟩ := stacked.exists_append
  obtain ⟨kept, same, suffix⟩ := keepFrames_append above deep
  rw [same]
  exact of_append fun f member => all f (suffix.mem member)

end Over

namespace Thread.Above

variable {level : Nat} {base : List Frame} {th th' : Thread}

theorem of_popped {below : List Frame} (stacked : Over level base below)
    (frames : th'.frames = below)
    (top : level ≤ th'.top ∨ ∃ caller rest, below = caller :: rest ∧ th'.top = caller.top) :
    th'.Above level base where
  stacked := by rwa [frames]
  top := by
    rw [frames]
    rcases top with above | ⟨caller, rest, rfl, top⟩
    · exact .inr above
    · by_cases deep : base.length ≤ rest.length
      · exact .inr (top ▸ (stacked.pop deep).1.low_le_top)
      · exact .inl (by simp only [List.length_cons]; omega)

theorem of_pushed {f : Frame} {below : List Frame} (stacked : Over level base below)
    (owned : f.Owned level) (frames : th'.frames = f :: below) (top : th'.top = f.top) :
    th'.Above level base where
  stacked := frames ▸ stacked.push owned
  top := .inr (top ▸ owned.low_le_top)

theorem of_same (above : th.Above level base) (frames : th'.frames = th.frames)
    (top : th'.top = th.top ∨ level ≤ th'.top) : th'.Above level base where
  stacked := by rw [frames]; exact above.stacked
  top := by
    have := above.top
    rw [frames]
    omega

theorem pop (above : th.Above level base) {f : Frame} {below : List Frame}
    (head : th.frames = f :: below) (deep : base.length ≤ below.length) :
    f.Owned level ∧ Over level base below ∧ level ≤ th.top := by
  have stacked := above.stacked
  have top := above.top
  rw [head] at stacked top
  refine ⟨(stacked.pop deep).1, (stacked.pop deep).2, ?_⟩
  simp only [List.length_cons] at top
  omega

theorem advance (above : th.Above level base) {f : Frame} {below : List Frame}
    (head : th.frames = f :: below) (deep : base.length ≤ below.length) (pc : Nat) :
    ({ th with frames := { f with pc } :: below } : Thread).Above level base := by
  obtain ⟨owned, stacked, top⟩ := above.pop head deep
  exact ⟨stacked.push ⟨owned.slot, owned.target, owned.base, owned.top⟩, .inr top⟩

theorem ran {t : ThreadRef} {f : Frame} {below : List Frame} {s : Store}
    {activities : List Activity} {m : Machine} (above : (s.thread t).Above level base)
    (valid : t < s.threads.size) (head : (s.thread t).frames = f :: below)
    (deep : base.length ≤ below.length) (ran : Ran t f below s activities m) :
    (m.store.thread t).Above level base := by
  obtain ⟨owned, stacked, top⟩ := above.pop head deep
  have floor := owned.low_le_floor
  cases ran with
  | stayed pc confined frames top' goes =>
      refine ⟨?_, .inr (by dsimp only; omega)⟩
      rw [frames]
      exact stacked.push ⟨owned.slot, owned.target, owned.base, owned.top⟩
  | assigned pc assigns written goes =>
      obtain ⟨stack, thread⟩ := Machine.thread_assigned valid head pc _ _
      have advanced := above.advance head deep pc
      rw [written, thread]
      exact ⟨advanced.stacked, advanced.top⟩
  | entered pc g fresh place deliver confined cells frames top' =>
      refine of_pushed (stacked.push ?_) ?_ frames top'
      · exact ⟨owned.slot, owned.target, owned.base, owned.top⟩
      · exact fresh.owned (Nat.le_trans floor place) (Nat.le_trans floor deliver)
  | replaced g fresh confined frames top' shut =>
      exact of_pushed stacked (fresh.owned owned.slot owned.target) frames top'
  | returned popped shut =>
      refine of_popped stacked popped.frames (popped.top.imp_left ?_)
      exact Nat.le_trans owned.low_le_reach
  | vacated e confined frames top' shut =>
      exact of_popped stacked frames (.inl (Nat.le_trans owned.slot top'))

end Thread.Above

def Beneath (frames : List Frame) (place : Nat) : Prop :=
  ∀ g ∈ frames, g.kind = .script → g.base ≤ place

def Layered : List Frame → Prop
  | [] => True
  | f :: below => Beneath below f.reach ∧ Layered below

structure Thread.Layers (th : Thread) : Prop where
  stacked : Layered th.frames
  top : Beneath th.frames th.top

namespace Beneath

variable {frames below : List Frame} {f : Frame} {place higher : Nat}

theorem nil : Beneath [] place := by simp [Beneath]

theorem mono (beneath : Beneath frames place) (bound : place ≤ higher) : Beneath frames higher :=
  fun g member script => Nat.le_trans (beneath g member script) bound

theorem min (beneath : Beneath frames place) (beneath' : Beneath frames higher) :
    Beneath frames (Min.min place higher) :=
  fun g member script => Nat.le_min.2 ⟨beneath g member script, beneath' g member script⟩

theorem suffix (beneath : Beneath frames place) (suffix : below <:+ frames) :
    Beneath below place :=
  fun g member => beneath g (suffix.mem member)

theorem tail (beneath : Beneath (f :: below) place) : Beneath below place :=
  beneath.suffix (List.suffix_cons f below)

theorem cons (base : f.kind = .script → f.base ≤ place) (beneath : Beneath below place) :
    Beneath (f :: below) place := by
  intro g member script
  rcases List.mem_cons.1 member with rfl | inner
  · exact base script
  · exact beneath g inner script

end Beneath

theorem Layered.suffix {frames below : List Frame} (stacked : Layered frames)
    (suffix : below <:+ frames) : Layered below := by
  induction frames with
  | nil =>
      rw [List.suffix_nil.1 suffix]
      trivial
  | cons f rest ih =>
      rcases List.suffix_cons_iff.1 suffix with rfl | inner
      · exact stacked
      · exact ih stacked.2 inner

namespace Thread.Layers

variable {th th' : Thread} {f : Frame} {below : List Frame}

theorem of_nil (frames : th.frames = []) : th.Layers := by
  refine ⟨?_, ?_⟩ <;> rw [frames]
  · trivial
  · exact .nil

theorem of_same (layers : th.Layers) (frames : th'.frames = th.frames)
    (top : th'.top = th.top ∨ Beneath th.frames th'.top) : th'.Layers := by
  refine ⟨?_, ?_⟩ <;> rw [frames]
  · exact layers.stacked
  · rcases top with same | beneath
    · rw [same]
      exact layers.top
    · exact beneath

theorem of_pushed (stacked : Layered below) (beneath : Beneath below f.reach)
    (owned : f.Owned 0) (frames : th.frames = f :: below) (top : th.top = f.top) : th.Layers := by
  have base := owned.base
  have above := owned.top
  refine ⟨?_, ?_⟩ <;> rw [frames]
  · exact ⟨beneath, stacked⟩
  · rw [top]
    refine .cons (fun _ => above) (beneath.mono ?_)
    simp only [Frame.reach]
    omega

theorem of_popped (stacked : Layered below) (formed : ∀ g ∈ below, g.Owned 0) {place : Nat}
    (beneath : Beneath below place) (frames : th.frames = below)
    (top : place ≤ th.top ∨ ∃ caller rest, below = caller :: rest ∧ th.top = caller.top) :
    th.Layers := by
  rcases top with above | ⟨caller, rest, rfl, top⟩
  · refine ⟨?_, ?_⟩ <;> rw [frames]
    · exact stacked
    · exact beneath.mono above
  · exact .of_pushed stacked.2 stacked.1 (formed caller (.head _)) frames top

theorem reach (layers : th.Layers) (head : th.frames = f :: below) :
    Beneath below f.reach ∧ Layered below := by
  have stacked := layers.stacked
  rwa [head] at stacked

theorem native (layers : th.Layers) (head : th.frames = f :: below) (native : f.kind = .native)
    (owned : f.Owned 0) : Beneath th.frames (Min.min th.top f.base) := by
  have base := owned.base
  refine layers.top.min ?_
  rw [head]
  refine .cons (by simp [native]) ((layers.reach head).1.mono ?_)
  simp only [Frame.reach]
  omega

theorem advance (layers : th.Layers) (head : th.frames = f :: below) (pc : Nat) :
    Layered ({ f with pc } :: below) ∧ Beneath ({ f with pc } :: below) th.top := by
  have stacked := layers.reach head
  have top := layers.top
  rw [head] at top
  exact ⟨stacked, .cons (top f (.head _)) top.tail⟩

theorem ran {t : ThreadRef} {s : Store} {activities : List Activity} {m : Machine}
    (layers : (s.thread t).Layers) (formed : ∀ g ∈ (s.thread t).frames, g.Owned 0)
    (valid : t < s.threads.size) (head : (s.thread t).frames = f :: below)
    (ran : Ran t f below s activities m) : (m.store.thread t).Layers := by
  obtain ⟨beneath, stacked⟩ := layers.reach head
  rw [head] at formed
  have owned := formed f (.head _)
  have base := owned.base
  have inner : ∀ g ∈ below, g.Owned 0 := fun g member => formed g (.tail _ member)
  have floor : f.floor = f.base := owned.floor_eq
  have above : Beneath below f.floor := beneath.mono (by simp only [Frame.reach]; omega)
  cases ran with
  | stayed pc confined frames top goes =>
      obtain ⟨stacked, beneath⟩ := layers.advance head pc
      refine ⟨frames ▸ stacked, ?_⟩
      rw [frames]
      rcases top with same | top
      · rwa [same]
      · exact .cons (fun _ => by simpa [floor] using top) (above.mono top)
  | assigned pc assigns written goes =>
      obtain ⟨stack, thread⟩ := Machine.thread_assigned valid head pc _ _
      rw [written, thread]
      exact ⟨(layers.advance head pc).1, (layers.advance head pc).2⟩
  | entered pc g fresh place deliver confined cells frames top =>
      refine .of_pushed (layers.advance head pc).1 ?_
        (fresh.owned (Nat.zero_le _) (Nat.zero_le _)) frames top
      have reach : f.floor ≤ g.reach := by
        simp only [Frame.reach, fresh.slot, fresh.target]
        omega
      exact .cons (fun _ => by simpa [floor] using reach) (above.mono reach)
  | replaced g fresh confined frames top =>
      refine .of_pushed stacked ?_ (fresh.owned (Nat.zero_le _) (Nat.zero_le _)) frames top
      rwa [Frame.reach, fresh.slot, fresh.target]
  | returned popped => exact .of_popped stacked inner beneath popped.frames popped.top
  | vacated e confined frames top =>
      refine .of_popped stacked inner beneath frames (.inl (Nat.le_trans ?_ top))
      exact Nat.min_le_left _ _

end Thread.Layers

end RegisterVm
