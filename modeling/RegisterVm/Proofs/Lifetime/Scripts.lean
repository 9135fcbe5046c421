import RegisterVm.Proofs.Lifetime.Fading

/-!
A step of a script frame. A frame that goes on has captured nothing below its base; a frame that is
left has closed what was captured from its base up.
-/

namespace RegisterVm

variable {s s' : Store} {t : ThreadRef} {mine rest : List Activity} {floor : Nat} {f : Frame}
  {below : List Frame}

namespace Store

theorem Settled.stay (settled : s.Settled t (.script t floor :: mine))
    (head : (s.thread t).frames = f :: below) (script : f.kind = .script)
    (confined : s.Confined t f.base s') (upper : List Frame) (pc : Nat)
    (frames : (s'.thread t).frames = upper ++ { f with pc } :: below)
    (formed : ∀ g ∈ upper, g.Formed) (layers : (s'.thread t).Layers)
    (marked : (s'.thread t).Marked (.script t floor :: mine)) :
    s'.Tidy t (.script t floor :: mine) ∧ s.Onward s' := by
  have listed := settled.frames
  rw [head] at listed
  refine ⟨settled.toTidy.confined (List.cons_ne_nil _ _) confined ?_ layers ?_ marked, ?_⟩
  · intro g member
    rw [frames] at member
    rcases List.mem_append.1 member with new | old
    · exact formed g new
    · rcases List.mem_cons.1 old with rfl | old
      · obtain ⟨typed, owned, delivers⟩ := listed f (.head _)
        exact ⟨typed, ⟨owned.slot, owned.target, owned.base, owned.top⟩, delivers⟩
      · exact listed g (.tail _ old)
  · intro ref index found
    rw [frames]
    have self : { f with pc } ∈ upper ++ { f with pc } :: below := by simp
    by_cases bound : ref < s.cells.size
    · obtain ⟨g, member, kind, base⟩ :=
        settled.witnessed ref index (confined.cells.old ref t index bound found)
      rw [head] at member
      rcases List.mem_cons.1 member with rfl | inner
      · exact ⟨_, self, script, base⟩
      · exact ⟨g, by simp [inner], kind, base⟩
    · exact ⟨_, self, script, (confined.cells.fresh ref t index (Nat.not_lt.1 bound) found).2⟩
  · apply confined.toLocal.onward
    intro g rest _ standing
    left
    rw [head] at standing
    rw [frames]
    exact (standing.advance pc).under

theorem Settled.leave (settled : s.Settled t (.script t floor :: mine)) (linked : s.Linked)
    (head : (s.thread t).frames = f :: below) {low : Nat} (confined : s.Confined t low s')
    (upper : List Frame) (frames : (s'.thread t).frames = upper ++ below)
    (formed : ∀ g ∈ upper, g.Formed) (layers : (s'.thread t).Layers) (shut : s.Shut t f.base s')
    (marked : (s'.thread t).Marked (.script t floor :: mine)) :
    s'.Tidy t (.script t floor :: mine) ∧ s.Onward s' := by
  refine ⟨settled.toTidy.confined (List.cons_ne_nil _ _) confined ?_ layers ?_ marked, ?_⟩
  · intro g member
    rw [frames] at member
    rcases List.mem_append.1 member with new | old
    · exact formed g new
    · exact settled.frames g (head ▸ .tail _ old)
  · intro ref index found
    have closed := linked.lt_of_closed shut found
    obtain ⟨g, member, kind, base⟩ := settled.witnessed ref index (shut ref t index found).1
    rw [head] at member
    rcases List.mem_cons.1 member with rfl | inner
    · omega
    · refine ⟨g, ?_, kind, base⟩
      rw [frames]
      exact List.mem_append_right _ inner
  · apply confined.toLocal.onward
    intro g rest _ standing
    rw [head] at standing
    rcases Standing.cons_iff.1 standing with ⟨pc, rfl, rfl⟩ | inner
    · exact .inr fun ref index found => linked.lt_of_closed shut found
    · left
      rw [frames]
      exact inner.under

end Store

namespace Machine

theorem entered_healthy (apart : s'.Apart t (.script t floor :: rest))
    (tidy : s'.Tidy t (.script t floor :: ofThread t rest))
    (quiet : (s'.thread t).yielding = false) {g : Frame} {base : List Frame}
    (frames : (s'.thread t).frames = g :: base)
    (expects : Expects (.script t floor :: ofThread t rest) base) {place destination : Nat}
    {callee : Entered} (fresh : g.Fresh (s'.thread t).isYieldable place destination callee)
    (arrived : s'.Arrived t g) : Healthy ⟨s', .script t floor :: rest, callee.control t⟩ := by
  have own : ofThread t (.script t floor :: rest) = .script t floor :: ofThread t rest :=
    ofThread_self (by rfl)
  cases callee with
  | script =>
      refine .settled (apart.sound ?_) (.inl rfl)
      rw [own]
      refine ⟨tidy, ?_, fun _ => quiet, fun _ => False.elim⟩
      rw [frames]
      exact expects.push fresh.kind
  | native body =>
      have whole : s'.Tidy t (ofThread t (.script t floor :: rest)) := own ▸ tidy
      have announced := whole.isYieldable rfl apart.chained
      refine .entered apart ⟨whole, frames, fresh.kind, fresh.yieldable.trans announced, ?_, quiet⟩
        rfl ?_ arrived
      · rw [own]
        exact expects
      · intro yieldable
        rw [fresh.yieldable, Thread.isYieldable, tidy.pinned, own.symm] at yieldable
        simp only [Bool.and_eq_true, beq_iff_eq] at yieldable
        exact yieldable.2

/-- A step of a script frame keeps the invariant and closes what it has to. -/
theorem ran_proceeds (sound : s.Sound (.script t floor :: rest))
    (head : (s.thread t).frames = f :: below) (inside : floor ≤ below.length) {ref : ClosureRef}
    (callee : f.callee = .closure ref) {m : Machine}
    (ran : Ran t f below s (.script t floor :: rest) m) : Proceeds s m := by
  have own : ofThread t (.script t floor :: rest) = .script t floor :: ofThread t rest :=
    ofThread_self (by rfl)
  have settled := sound.settled t
  rw [own] at settled
  have valid := settled.toTidy.valid (List.cons_ne_nil _ _)
  have expects := settled.expects
  rw [head] at expects
  obtain ⟨typed, owned, settles⟩ := settled.frames f (head ▸ .head _)
  have script : f.kind = .script := by
    rw [Frame.Typed, callee] at typed
    exact typed
  have marked : (m.store.thread t).Marked (.script t floor :: ofThread t rest) := by
    refine settled.marked.map (fun _ => id) fun level base mark above => ?_
    exact above.ran valid head (Nat.le_trans (settled.expects.floor_le mark) inside) ran
  have layers := settled.layers.ran (fun g member => (settled.frames g member).owned) valid head ran
  have popped := expects.pop inside
  have quiet : ∀ {s' : Store} {low : Nat}, s.Confined t low s' → (s'.thread t).yielding = false :=
    fun confined => confined.own.yielding.trans (settled.quiet (List.cons_ne_nil _ _))
  have again : ∀ {s' : Store} {low : Nat}, s.Confined t low s' →
      s'.Tidy t (.script t floor :: ofThread t rest) →
      Expects (.script t floor :: ofThread t rest) (s'.thread t).frames →
      s'.Sound (.script t floor :: rest) := by
    intro s' low confined tidy expects
    apply (sound.apart t).rest confined.toLocal
    rw [own]
    exact ⟨tidy, expects, fun _ => quiet confined, fun _ => False.elim⟩
  have apart : ∀ {s' : Store} {low : Nat}, s.Confined t low s' →
      s'.Apart t (.script t floor :: rest) :=
    fun confined => (sound.apart t).move confined.toLocal sound.chained fun _ _ => rfl
  have goes : ∀ {control : Control}, (control = .run ∨ ∃ e, control = .fail e) → control = .run ∨
      (∃ values, control = .done values) ∨ ∃ e, control = .fail e :=
    fun goes => goes.imp_right .inr
  cases ran with
  | stayed pc confined frames top ends =>
      rw [owned.floor_eq] at confined
      obtain ⟨tidy, onward⟩ := settled.stay head script confined [] pc frames (by simp) layers
        marked
      refine ⟨.settled (again confined tidy ?_) (goes ends), onward⟩
      rw [frames]
      exact popped.push script
  | @assigned s' control pc cell value assigns written ends =>
      have thread := thread_setPc valid head pc
      have advance : s.Confined t f.base (s.modifyThread t fun th => th.setPc pc) :=
        Store.confined_reworked (Thread.reworked_setPc _ _)
      have above : ((s.modifyThread t fun th => th.setPc pc).thread t).Marked
          (.script t floor :: ofThread t rest) := by
        refine settled.marked.map (fun _ => id) fun level base mark above => ?_
        rw [thread]
        exact above.advance head (Nat.le_trans (settled.expects.floor_le mark) inside) pc
      have moved : ((s.modifyThread t fun th => th.setPc pc).thread t).Layers := by
        rw [thread]
        exact ⟨(settled.layers.advance head pc).1, (settled.layers.advance head pc).2⟩
      obtain ⟨tidy, onward⟩ := settled.stay head script advance [] pc (by rw [thread]; rfl)
        (by simp) moved above
      subst written
      have faded := Store.faded_writeCell (s.modifyThread t fun th => th.setPc pc) cell value
      refine ⟨.settled ((again advance tidy ?_).faded faded) (goes ends),
        onward.trans faded.onward⟩
      rw [thread]
      exact popped.push script
  | @entered s' callee place destination pc g fresh bound deliver confined cells frames top room
      delivers =>
      rw [owned.floor_eq] at confined
      obtain ⟨tidy, onward⟩ := settled.stay head script confined [g] pc frames
        (by simpa using fresh.formed delivers) layers marked
      rw [← confined.own.isYieldable] at fresh
      exact ⟨entered_healthy (apart confined) tidy (quiet confined) frames (popped.push script)
        fresh ⟨top, room⟩, onward⟩
  | @replaced s' callee g fresh confined frames top shut wanted room calls =>
      have delivers : g.Delivers := by rwa [Frame.Delivers, fresh.target, fresh.slot, wanted]
      obtain ⟨tidy, onward⟩ := settled.leave sound.linked head confined [g] frames
        (by simpa using fresh.formed delivers) layers shut marked
      rw [← confined.own.isYieldable] at fresh
      exact ⟨entered_healthy (apart confined) tidy (quiet confined) frames popped fresh
        ⟨top, room⟩, onward⟩
  | returned left shut returns =>
      obtain ⟨tidy, onward⟩ := settled.leave sound.linked head left.confined [] left.frames
        (by simp) layers shut marked
      refine ⟨.settled (again left.confined tidy ?_) (.inl rfl), onward⟩
      rw [left.frames]
      exact popped
  | vacated e confined frames top shut =>
      obtain ⟨tidy, onward⟩ := settled.leave sound.linked head confined [] frames (by simp) layers
        shut marked
      refine ⟨.settled (again confined tidy ?_) (.inr (.inr ⟨e, rfl⟩)), onward⟩
      rw [frames]
      exact popped

theorem runScript_proceeds (sound : s.Sound (.script t floor :: rest)) :
    Proceeds s (runScript s rest t floor) := by
  have own : ofThread t (.script t floor :: rest) = .script t floor :: ofThread t rest :=
    ofThread_self (by rfl)
  have settled := sound.settled t
  rw [own] at settled
  have gives : s.Apart t rest := (sound.apart t).pop (.refl s : s.Local t 0 s) rfl
  have starts := sound.chained.starts
  have tidy : s.Tidy t (ofThread t rest) := settled.toTidy.under rfl (by simp)
  have quiet := settled.quiet (List.cons_ne_nil _ _)
  have ended : (s.thread t).frames.length ≤ floor → s.Sound rest :=
    fun short => gives.sound ⟨tidy, settled.expects.ended short, fun _ => quiet,
      fun _ resumed => absurd resumed starts.hears.not_resumed⟩
  have turn := runScript_turn s rest t floor
  generalize runScript s rest t floor = next at turn ⊢
  cases turn with
  | spent short => exact ⟨.settled (ended short) (.inr (.inl ⟨_, rfl⟩)), .refl s⟩
  | runs head inside callee =>
      have valid := settled.toTidy.valid (List.cons_ne_nil _ _)
      exact ran_proceeds sound head inside callee
        (runInstruction_ran (.script t floor :: rest) valid head callee)
  | astray head inside e =>
      obtain ⟨upper, base, frames, -, -, expects⟩ := settled.expects
      exact ⟨.failing gives ⟨tidy, ⟨base, frames ▸ List.suffix_append upper base, expects⟩, quiet⟩
        starts.hears, .refl s⟩

end Machine

end RegisterVm
