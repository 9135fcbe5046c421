import RegisterVm.Proofs.Machine.Above

/-!
Which script frames are active, what lies below their registers, and what becomes of the variables
captured in a frame that ends.
-/

namespace RegisterVm

/-- Frame `f` is active, at whatever instruction, on top of the frames `below`. -/
def Standing (frames : List Frame) (f : Frame) (below : List Frame) : Prop :=
  ∃ above pc, frames = above ++ { f with pc } :: below

namespace Standing

variable {f g : Frame} {frames below base : List Frame}

theorem nil_elim : ¬Standing [] f below := by
  rintro ⟨above, pc, same⟩
  simp at same

theorem cons_iff : Standing (g :: frames) f below ↔
    (∃ pc, g = { f with pc } ∧ frames = below) ∨ Standing frames f below := by
  constructor
  · rintro ⟨above, pc, same⟩
    cases above with
    | nil =>
        simp only [List.nil_append, List.cons.injEq] at same
        exact .inl ⟨pc, same⟩
    | cons h above =>
        simp only [List.cons_append, List.cons.injEq] at same
        exact .inr ⟨above, pc, same.2⟩
  · rintro (⟨pc, rfl, rfl⟩ | ⟨above, pc, rfl⟩)
    · exact ⟨[], pc, rfl⟩
    · exact ⟨g :: above, pc, rfl⟩

theorem push (standing : Standing frames f below) : Standing (g :: frames) f below :=
  cons_iff.2 (.inr standing)

theorem under (standing : Standing base f below) : Standing (frames ++ base) f below := by
  obtain ⟨above, pc, rfl⟩ := standing
  exact ⟨frames ++ above, pc, by simp⟩

theorem advance (standing : Standing (g :: frames) f below) (pc : Nat) :
    Standing ({ g with pc } :: frames) f below := by
  rcases cons_iff.1 standing with ⟨pc', rfl, rfl⟩ | inner
  · exact ⟨[], pc, rfl⟩
  · exact inner.push

theorem pop (standing : Standing (g :: frames) f below) (other : g.kind ≠ f.kind) :
    Standing frames f below := by
  rcases cons_iff.1 standing with ⟨pc, rfl, rfl⟩ | inner
  · exact absurd rfl other
  · exact inner

theorem append (standing : Standing (frames ++ base) f below) :
    (∃ pc, { f with pc } ∈ frames) ∨ Standing base f below := by
  induction frames with
  | nil => exact .inr standing
  | cons g frames ih =>
      rcases cons_iff.1 standing with ⟨pc, rfl, -⟩ | inner
      · exact .inl ⟨pc, .head _⟩
      · rcases ih inner with ⟨pc, member⟩ | inner
        · exact .inl ⟨pc, .tail _ member⟩
        · exact .inr inner

theorem length_lt (standing : Standing frames f below) : below.length < frames.length := by
  obtain ⟨above, pc, rfl⟩ := standing
  simp only [List.length_append, List.length_cons]
  omega

theorem base_le {place : Nat} (standing : Standing frames f below) (script : f.kind = .script)
    (beneath : Beneath frames place) : f.base ≤ place := by
  obtain ⟨above, pc, rfl⟩ := standing
  exact beneath { f with pc } (by simp) script

end Standing

namespace Store

/-- Store `s'` comes after store `s`: no cell has opened again, and of the variables captured before
none that lies from the base of an ended script frame up is open any more. -/
structure Onward (s s' : Store) : Prop where
  grown : s.cells.size ≤ s'.cells.size
  old : ∀ ref t index, ref < s.cells.size → s'.cells[ref]? = some (.slot t index) →
    s.cells[ref]? = some (.slot t index)
  ended : ∀ t f below, f.kind = .script → Standing (s.thread t).frames f below →
    ¬Standing (s'.thread t).frames f below → ∀ ref index, ref < s.cells.size →
    s'.cells[ref]? = some (.slot t index) → index < f.base

theorem Onward.refl (s : Store) : s.Onward s where
  grown := Nat.le_refl _
  old _ _ _ _ := id
  ended _ _ _ _ standing gone := absurd standing gone

theorem Onward.trans {a b c : Store} (first : a.Onward b) (second : b.Onward c) : a.Onward c where
  grown := Nat.le_trans first.grown second.grown
  old ref t index bound found :=
    first.old ref t index bound
      (second.old ref t index (Nat.lt_of_lt_of_le bound first.grown) found)
  ended t f below script standing gone ref index bound found := by
    have later := Nat.lt_of_lt_of_le bound first.grown
    by_cases middle : Standing (b.thread t).frames f below
    · exact second.ended t f below script middle gone ref index later found
    · exact first.ended t f below script standing middle ref index bound
        (second.old ref t index later found)

theorem lt_of_standing {s : Store} {t : ThreadRef} {f : Frame} {below : List Frame}
    (standing : Standing (s.thread t).frames f below) : t < s.threads.size := by
  apply lt_of_field Thread.frames
  intro none
  rw [none] at standing
  exact Standing.nil_elim standing

theorem Local.onward {t : ThreadRef} {low : Nat} {s s' : Store} (inside : s.Local t low s')
    (ended : ∀ f below, f.kind = .script → Standing (s.thread t).frames f below →
      Standing (s'.thread t).frames f below ∨
        ∀ (ref : CellRef) (index : Nat), s'.cells[ref]? = some (.slot t index) → index < f.base) :
    s.Onward s' where
  grown := inside.cells.grown
  old := inside.cells.old
  ended r f below script standing gone ref index _ found := by
    by_cases same : r = t
    · subst same
      rcases ended f below script standing with kept | closed
      · exact absurd kept gone
      · exact closed ref index found
    · rw [inside.others r same (lt_of_standing standing)] at gone
      exact absurd standing gone

theorem onward_modifyThread (s : Store) (t : ThreadRef) {f : Thread → Thread}
    (frames : (f (s.thread t)).frames = (s.thread t).frames)
    (lists : (f (s.thread t)).openCells = (s.thread t).openCells) :
    s.Onward (s.modifyThread t f) := by
  apply (local_modifyThread lists : Local t 0 s _).onward
  intro g below _ standing
  left
  rw [thread_modifyThread]
  split
  · rw [frames]
    exact standing
  · exact standing

theorem Linked.lt_of_closed {s s' : Store} (linked : s.Linked) {t : ThreadRef} {level : Nat}
    (shut : s.Shut t level s') {ref : CellRef} {index : Nat}
    (found : s'.cells[ref]? = some (.slot t index)) : index < level := by
  obtain ⟨before, apart⟩ := shut ref t index found
  exact apart rfl (linked.complete ref t index before)

/-- Store `s'` comes after store `s`, and every script frame is still active on the values that lie
below its base. -/
structure Sustains (s s' : Store) : Prop extends Onward s s' where
  stands : ∀ t f below, f.kind = .script → Standing (s.thread t).frames f below →
    Standing (s'.thread t).frames f below
  slots : ∀ t f below, f.kind = .script → Standing (s.thread t).frames f below →
    ∀ index, index < f.base → (s'.thread t).get index = (s.thread t).get index

variable {t : ThreadRef} {low : Nat} {s s' : Store}

theorem Sustains.refl (s : Store) : s.Sustains s where
  toOnward := .refl s
  stands _ _ _ _ := id
  slots _ _ _ _ _ _ _ := rfl

theorem Sustains.trans {a b c : Store} (first : a.Sustains b) (second : b.Sustains c) :
    a.Sustains c where
  toOnward := first.toOnward.trans second.toOnward
  stands t f below script standing :=
    second.stands t f below script (first.stands t f below script standing)
  slots t f below script standing index bound :=
    (second.slots t f below script (first.stands t f below script standing) index bound).trans
      (first.slots t f below script standing index bound)

theorem Local.sustains (inside : s.Local t low s')
    (sustains : ∀ f below, f.kind = .script → Standing (s.thread t).frames f below →
      Standing (s'.thread t).frames f below ∧
        ∀ index, index < f.base → (s'.thread t).get index = (s.thread t).get index) :
    s.Sustains s' := by
  have other : ∀ r f below, r ≠ t → Standing (s.thread r).frames f below →
      s'.thread r = s.thread r :=
    fun r _ _ different standing => inside.others r different (lt_of_standing standing)
  refine ⟨inside.onward fun f below script standing => .inl (sustains f below script standing).1,
    ?_, ?_⟩
  · intro r f below script standing
    by_cases same : r = t
    · subst same
      exact (sustains f below script standing).1
    · rwa [other r f below same standing]
  · intro r f below script standing
    by_cases same : r = t
    · subst same
      exact (sustains f below script standing).2
    · rw [other r f below same standing]
      exact fun _ _ => rfl

theorem sustains_modifyThread (s : Store) (t : ThreadRef) {f : Thread → Thread}
    (frames : (f (s.thread t)).frames = (s.thread t).frames)
    (lists : (f (s.thread t)).openCells = (s.thread t).openCells)
    (slots : (f (s.thread t)).stack = (s.thread t).stack) :
    s.Sustains (s.modifyThread t f) := by
  apply (local_modifyThread lists : Local t 0 s _).sustains
  intro g below _ standing
  rw [thread_modifyThread]
  split
  · rw [frames]
    exact ⟨standing, fun index _ => by rw [Thread.get, Thread.get, slots]⟩
  · exact ⟨standing, fun _ _ => rfl⟩

theorem Pushed.sustains {f : Frame} (pushed : s.Pushed t low f s')
    (beneath : Beneath (s.thread t).frames low) : s.Sustains s' := by
  apply pushed.confined.toLocal.sustains
  intro g below script standing
  rw [pushed.frames]
  refine ⟨standing.push, fun index bound => pushed.confined.own.slots index ?_⟩
  exact Nat.lt_of_lt_of_le bound (standing.base_le script beneath)

theorem Popped.sustains {f : Frame} {below : List Frame}
    (popped : s.Popped t low below s') (head : (s.thread t).frames = f :: below)
    (native : f.kind = .native) (beneath : Beneath below low) : s.Sustains s' := by
  apply popped.confined.toLocal.sustains
  intro g rest script standing
  rw [head] at standing
  have inner := standing.pop (by simp [native, script])
  rw [popped.frames]
  refine ⟨inner, fun index bound => popped.confined.own.slots index ?_⟩
  exact Nat.lt_of_lt_of_le bound (inner.base_le script beneath)

end Store

theorem Calm.sustains {t : ThreadRef} {low : Nat} {s s' : Store} (calm : Calm t low s s')
    (beneath : Beneath (s.thread t).frames low) : s.Sustains s' := by
  apply calm.confined.toLocal.sustains
  intro g below script standing
  rw [calm.frames]
  refine ⟨standing, fun index bound => calm.confined.own.slots index ?_⟩
  exact Nat.lt_of_lt_of_le bound (standing.base_le script beneath)

end RegisterVm
