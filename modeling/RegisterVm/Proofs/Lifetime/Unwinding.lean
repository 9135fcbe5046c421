import RegisterVm.Proofs.Lifetime.Sound

/-!
Putting a thread back to a mark. The frames that go lie above the mark, and the cells that lie there
have been closed before.
-/

namespace RegisterVm.Store

variable {s : Store} {t : ThreadRef} {mine : List Activity} {level : Nat} {base : List Frame}

theorem Tidy.unwind (tidy : s.Tidy t mine) (linked : s.Linked) (valid : t < s.threads.size)
    (held : (s.thread t).held = true) (above : (s.thread t).Above level base)
    (bounded : Bounded level mine) (beneath : Beneath base level)
    (deep : ∀ level depth, (level, depth) ∈ marks mine → depth ≤ base.length) :
    (s.unwind t level base.length).Tidy t mine := by
  have unwound := unwound_unwind s level base.length valid
  have kept := above.stacked.keepFrames_base
  obtain ⟨upper, frames, all⟩ := above.stacked.exists_append
  refine ⟨?_, ?_, ?_, ?_, ?_, ?_, ?_, ?_, ?_, ?_⟩
  · rw [unwound.frames, kept]
    intro f member
    apply tidy.frames f
    rw [frames]
    exact List.mem_append_right _ member
  · refine ⟨?_, ?_⟩ <;> rw [unwound.frames, kept]
    · exact tidy.layers.stacked.suffix (frames ▸ List.suffix_append upper base)
    · rw [unwound.top]
      exact beneath
  · intro ref index found
    have closed := linked.lt_of_closed (shut_closeCells s t level) found
    obtain ⟨f, member, script, bound⟩ :=
      tidy.witnessed ref index (shut_closeCells s t level ref t index found).1
    rw [unwound.frames, kept]
    rcases above.stacked.mem member with owned | inner
    · have := owned.low_lt_base
      omega
    · exact ⟨f, inner, script, bound⟩
  · refine tidy.marked.map (fun _ => id) fun level' base' mark outer => ⟨?_, .inr ?_⟩
    · rw [unwound.frames]
      exact outer.stacked.keepFrames (deep _ _ mark)
    · rw [unwound.top]
      exact bounded _ _ mark
  · rw [unwound.pinned, tidy.pinned]
  · rw [unwound.held]
    exact fun _ => held
  · rw [unwound.isMain]
    exact tidy.coroutine
  · rw [unwound.isMain, unwound.status, unwound.yielding]
    exact fun main => ⟨(tidy.main main).1, rfl⟩
  · rw [unwound.held, held]
    simp
  · rw [unwound.isMain, unwound.status]
    exact fun coroutine _ => tidy.busy coroutine held

theorem onward_unwind (linked : s.Linked) (valid : t < s.threads.size)
    (above : (s.thread t).Above level base) : s.Onward (s.unwind t level base.length) := by
  apply (s.local_unwind level base.length : s.Local t 0 _).onward
  intro f below _ standing
  obtain ⟨upper, frames, all⟩ := above.stacked.exists_append
  rw [frames] at standing
  rcases standing.append with ⟨pc, member⟩ | inner
  · right
    intro ref index found
    have closed := linked.lt_of_closed (shut_closeCells s t level) found
    have owned := (all _ member).low_lt_base
    simp only at owned
    omega
  · left
    rw [(unwound_unwind s level base.length valid).frames, above.stacked.keepFrames_base]
    exact inner

theorem Tidy.kill (tidy : s.Tidy t [.resumption t]) (linked : s.Linked) :
    (Machine.killCoroutine s t).Settled t [] := by
  have valid := tidy.valid (List.cons_ne_nil _ _)
  have coroutine := tidy.coroutine t (.head _)
  have thread : (Machine.killCoroutine s t).thread t = { s.thread t with
      openCells := (s.thread t).openCells.filter fun e => e.1 < 0,
      status := .dead, yielding := false, frames := [], held := false } := by
    rw [Machine.killCoroutine, thread_modifyThread_self _ _ (by rwa [threadCount_closeCells]),
      thread_closeCells, if_pos rfl]
  apply settled_resting <;> rw [thread]
  · exact coroutine
  · exact tidy.pinned
  · exact .dead rfl rfl rfl
  · simp
  · exact .of_nil rfl
  · intro ref index found
    have closed := linked.lt_of_closed (shut_closeCells s t 0) found
    omega

theorem onward_kill (linked : s.Linked) : s.Onward (Machine.killCoroutine s t) := by
  apply (Machine.local_killCoroutine s t : s.Local t 0 _).onward
  intro f below _ _
  right
  intro ref index found
  have closed := linked.lt_of_closed (shut_closeCells s t 0) found
  omega

end RegisterVm.Store
