import RegisterVm.Proofs.Lifetime.Reachable

/-!
What lies below the registers of a script frame for as long as it is active: whatever runs above
it, slots there change by assignments to captured variables alone.
-/

namespace RegisterVm.Machine

variable {m m' : Machine} {s : Store} {t r : ThreadRef} {f g : Frame} {below rest : List Frame}
  {activities : List Activity} {path : Nat → Machine} {n index : Nat}

def Assigns (m m' : Machine) (t : ThreadRef) (index : Nat) (value : Value) : Prop :=
  m' = m.step .bare ∧ ∃ cell, m.assignment? = some (cell, value) ∧
    m.store.cells[cell]? = some (.slot t index)

theorem assigned_of_ne {s' : Store} {pc : Nat} {cell : CellRef} {value : Value}
    (head : (s.thread t).frames = f :: below)
    (written : s' = (s.modifyThread t fun th => th.setPc pc).writeCell cell value)
    (changed : (s'.thread r).get index ≠ (s.thread r).get index) :
    s.cells[cell]? = some (.slot r index) ∧ (s'.thread r).get index = value := by
  have advanced : ((s.modifyThread t fun th => th.setPc pc).thread r).get index =
      (s.thread r).get index := by
    by_cases same : r = t
    · subst same
      rw [thread_setPc (Store.lt_of_frames head) head]
      rfl
    · rw [Store.thread_modifyThread_other _ _ same]
  have cells : (s.modifyThread t fun th => th.setPc pc).cells = s.cells := rfl
  generalize s.modifyThread t (fun th => th.setPc pc) = s₁ at written advanced cells
  subst written
  rw [← cells]
  rw [← advanced] at changed
  exact Store.get_writeCell changed

theorem ran_kept (tidy : ∀ g ∈ (s.thread t).frames, g.Formed) (layers : (s.thread t).Layers)
    (head : (s.thread t).frames = f :: below) (ran : Ran t f below s activities m)
    (script : g.kind = .script) (before : Standing (s.thread r).frames g rest)
    (after : Standing (m.store.thread r).frames g rest)
    (stays : r = t → rest = below → ¬s.tailCalls t f) (bound : index < g.base) :
    (m.store.thread r).get index = (s.thread r).get index ∨
      ∃ cell, s.assignment? t f = some (cell, (m.store.thread r).get index) ∧
        s.cells[cell]? = some (.slot r index) := by
  have owned := (tidy f (head ▸ .head _)).owned
  have beneath := (layers.reach head).1
  have base := owned.base
  have reach : f.reach ≤ f.slot := Nat.min_le_left _ _
  have floor : f.floor = f.base := owned.floor_eq
  have other : ∀ {s' : Store} {low : Nat}, s.Confined t low s' → r ≠ t →
      (s'.thread r).get index = (s.thread r).get index := by
    intro s' low confined different
    rw [confined.others r different (Store.lt_of_standing before)]
  -- The frame is the innermost one or waits below it, and begins below where it works.
  have place : r = t → g.base ≤ f.base ∧ (Standing below g rest → g.base ≤ f.reach) := by
    rintro rfl
    refine ⟨?_, fun inner => inner.base_le script beneath⟩
    rw [head] at before
    rcases Standing.cons_iff.1 before with ⟨pc, rfl, -⟩ | inner
    · exact Nat.le_refl _
    · exact Nat.le_trans (inner.base_le script beneath) (by omega)
  have kept : ∀ {s' : Store} {low : Nat}, s.Confined t low s' → (r = t → g.base ≤ low) →
      (s'.thread r).get index = (s.thread r).get index := by
    intro s' low confined lowest
    by_cases same : r = t
    · have lies := lowest same
      subst same
      exact confined.own.slots index (by omega)
    · exact other confined same
  cases ran with
  | stayed pc confined frames top goes =>
      exact .inl (kept confined fun same => floor ▸ (place same).1)
  | entered pc h fresh above deliver confined =>
      exact .inl (kept confined fun same => floor ▸ (place same).1)
  | @assigned s' _ pc cell value assigns written goes =>
      by_cases same : (s'.thread r).get index = (s.thread r).get index
      · exact .inl same
      · obtain ⟨found, assigned⟩ := assigned_of_ne head written same
        exact .inr ⟨cell, by rw [assigned, assigns], found⟩
  | replaced h fresh confined frames top shut wanted room calls =>
      refine .inl (kept confined fun same => ?_)
      subst same
      rw [head] at before
      rcases Standing.cons_iff.1 before with ⟨pc, -, rfl⟩ | inner
      · exact absurd calls (stays rfl rfl)
      · exact Nat.le_trans ((place rfl).2 inner) reach
  | returned popped =>
      refine .inl (kept popped.confined fun same => ?_)
      subst same
      rw [popped.frames] at after
      exact (place rfl).2 after
  | vacated e confined frames =>
      refine .inl (kept confined fun same => ?_)
      subst same
      rw [frames] at after
      exact Nat.le_trans ((place rfl).2 after) reach

theorem Next.kept (next : Next m m') (healthy : m.Healthy) (script : f.kind = .script)
    (before : Standing (m.store.thread t).frames f below)
    (after : Standing (m'.store.thread t).frames f below)
    (stays : m.TailCalls t f below → m' ≠ m.step .bare) (bound : index < f.base) :
    (m'.store.thread t).get index = (m.store.thread t).get index ∨
      m.Assigns m' t index ((m'.store.thread t).get index) := by
  obtain harmless | ⟨rfl, r, floor, rest, activities, control, sound⟩ := next.harmless healthy
  · exact .inl (harmless.kept t f below script before after index bound)
  obtain ⟨s, _, _⟩ := m
  cases activities
  cases control
  have turn := runScript_turn s rest r floor
  rw [show Machine.step .bare ⟨s, .script r floor :: rest, .run⟩ = runScript s rest r floor from
    rfl] at after ⊢
  generalize ran : runScript s rest r floor = next at turn after ⊢
  cases turn with
  | spent short => exact .inl rfl
  | astray head inside e => exact .inl rfl
  | @runs g inner ref head inside callee =>
      have settled := (sound.settled r).toTidy
      have valid := Store.lt_of_frames head
      have step := ran_kept settled.frames settled.layers head
        (runInstruction_ran (.script r floor :: rest) valid head callee) script before after
        (fun same deep calls => ?_) bound
      · refine step.imp_right ?_
        rintro ⟨cell, assigns, found⟩
        refine ⟨ran.symm, cell, ?_, found⟩
        simp only [assignment?, head, if_neg (Nat.not_lt.2 inside), assigns]
      · subst same deep
        have innermost : ∃ pc, g = { f with pc } := by
          rw [head] at before
          rcases Standing.cons_iff.1 before with ⟨pc, own, -⟩ | inner
          · exact ⟨pc, own⟩
          · exact absurd inner.length_lt (Nat.lt_irrefl _)
        obtain ⟨pc, rfl⟩ := innermost
        exact stays ⟨floor, rest, pc, rfl, rfl, inside, head, calls⟩ rfl

/-- Frame `f` is active on top of `below` from the first of `n` events to the last. -/
structure Lives (t : ThreadRef) (f : Frame) (below : List Frame) (path : Nat → Machine) (n : Nat) :
    Prop where
  next : ∀ k, k < n → Next (path k) (path (k + 1))
  stands : ∀ k, k ≤ n → Standing ((path k).store.thread t).frames f below
  stays : ∀ k, k < n → (path k).TailCalls t f below → path (k + 1) ≠ (path k).step .bare

/-- What a slot holds after `n` events that held `first` before them: that value, or the one
assigned to it last through its cell. -/
def Stored (t : ThreadRef) (index : Nat) (path : Nat → Machine) (n : Nat) (first value : Value) :
    Prop :=
  value = first ∨ ∃ k, k < n ∧ (path k).Assigns (path (k + 1)) t index value ∧
    ∀ j, k < j → j ≤ n → ((path j).store.thread t).get index = value

theorem stored_of_steps (steps : ∀ k, k < n →
    ((path (k + 1)).store.thread t).get index = ((path k).store.thread t).get index ∨
      (path k).Assigns (path (k + 1)) t index (((path (k + 1)).store.thread t).get index)) :
    Stored t index path n (((path 0).store.thread t).get index)
      (((path n).store.thread t).get index) := by
  induction n with
  | zero => exact .inl rfl
  | succ n ih =>
      rcases steps n (Nat.lt_succ_self n) with same | assigns
      · rw [same]
        refine (ih fun k bound => steps k (by omega)).imp_right ?_
        rintro ⟨k, earlier, assigns, since⟩
        refine ⟨k, Nat.lt_succ_of_lt earlier, assigns, fun j later upto => ?_⟩
        by_cases end' : j = n + 1
        · rw [end', same]
        · exact since j later (by omega)
      · refine .inr ⟨n, Nat.lt_succ_self n, assigns, fun j later upto => ?_⟩
        obtain rfl : j = n + 1 := by omega
        rfl

theorem Lives.healthy (lives : Lives t f below path n) (healthy : (path 0).Healthy) (k : Nat)
    (upto : k ≤ n) : (path k).Healthy := by
  induction k with
  | zero => exact healthy
  | succ k ih => exact ((lives.next k upto).proceeds (ih (Nat.le_of_succ_le upto))).healthy

/-- Below an active frame every slot holds what it held, or what has been assigned to it last. -/
theorem Lives.stored (lives : Lives t f below path n) (healthy : (path 0).Healthy)
    (script : f.kind = .script) (bound : index < f.base) :
    Stored t index path n (((path 0).store.thread t).get index)
      (((path n).store.thread t).get index) :=
  stored_of_steps fun k earlier => (lives.next k earlier).kept
    (lives.healthy healthy k (Nat.le_of_lt earlier)) script (lives.stands k (Nat.le_of_lt earlier))
    (lives.stands (k + 1) earlier) (lives.stays k earlier) bound

end RegisterVm.Machine
