import RegisterVm.Proofs.Machine.Standing

/-!
Loading constants. The pool shares equal constants, and of numbers the two zeros are equal though
they are not the same value. So a register is loaded with the very value that was given, through one
word or two, unless the pool already holds the zero of the other sign.
-/

namespace RegisterVm

def Constant.Opposes (k other : Constant) : Prop :=
  k.value = .number 0 ∧ other.value = .number (-0) ∨
    k.value = .number (-0) ∧ other.value = .number 0

namespace Constant

variable {k known other : Constant}

theorem zeros_apart : Value.number 0 ≠ .number (-0) := by
  intro equal
  exact absurd (congrArg Float.toBits (Value.number.inj equal)) (by decide)

theorem same_cases (equal : known.same k = true) : known.value = k.value ∨ k.Opposes known := by
  rw [Constant.same] at equal
  cases first : known.value <;> cases second : k.value <;>
    simp only [first, second, Value.same, Bool.false_eq_true, beq_iff_eq] at equal
  case number.number f g =>
    rcases (Float.beq_iff_ne_nan_and_eq.1 equal).2.2 with rfl | ⟨rfl, rfl⟩ | ⟨rfl, rfl⟩
    · exact .inl rfl
    · exact .inr (.inr ⟨second, first⟩)
    · exact .inr (.inl ⟨second, first⟩)
  all_goals exact .inl (by first | rfl | rw [equal])

theorem Opposes.same (opposes : k.Opposes other) : other.same k = true := by
  rw [Constant.same]
  rcases opposes with ⟨first, second⟩ | ⟨first, second⟩ <;> rw [first, second] <;> rfl

theorem Opposes.value_ne (opposes : k.Opposes other) : other.value ≠ k.value := by
  rcases opposes with ⟨first, second⟩ | ⟨first, second⟩ <;> rw [first, second]
  · exact zeros_apart.symm
  · exact zeros_apart

end Constant

namespace Builder

variable {b b' : Builder} {k known other : Constant}

theorem Shared.eq_of_same (shared : b.Shared) (first : known ∈ b.pool) (second : other ∈ b.pool)
    (left : known.same k = true) (right : other.same k = true) : known = other := by
  by_contra different
  have symmetric : Std.Symm fun x y : Constant => x.same y = false :=
    ⟨fun x y apart => (Value.same_symm _ _).trans apart⟩
  have apart : known.same other = false := List.Pairwise.forall shared first second different
  rw [Constant.same, Value.same_symm] at right
  rw [Constant.same, Value.same_trans left right] at apart
  contradiction

theorem length_pool_constant (b : Builder) (k : Constant) :
    (b.constant k).2.pool.length ≤ b.pool.length + 1 := by
  rcases constant_cases b k with ⟨index, known, there, -⟩ | ⟨-, added, -⟩
  · rw [there]
    exact Nat.le_succ _
  · rw [added, List.length_append, List.length_singleton]

theorem constant_value (shared : b.Shared) (k : Constant) :
    ∃ known, (b.constant k).2.pool[(b.constant k).1]? = some known ∧
      ((∀ other ∈ b.pool, ¬k.Opposes other) → known.value = k.value) ∧
      ∀ other ∈ b.pool, k.Opposes other → known.value = other.value := by
  rcases constant_cases b k with ⟨index, known, there, found, equal⟩ | ⟨last, added, absent⟩
  · have member := List.mem_of_getElem? found
    rw [there]
    refine ⟨known, found, fun none => ?_, fun other inside opposes => ?_⟩
    · rcases Constant.same_cases equal with same | opposes
      · exact same
      · exact absurd opposes (none known member)
    · rw [shared.eq_of_same member inside equal opposes.same]
  · refine ⟨k, ?_, fun _ => rfl, fun other inside opposes => ?_⟩
    · rw [added, last]
      simp
    · exact absurd opposes.same (by simp [absent other inside])

end Builder

namespace Machine

variable {m : Machine} {t : ThreadRef} {f : Frame} {closure : Closure} {i extra : Instruction}

def loaded (m : Machine) (t : ThreadRef) (f : Frame) (register : Nat) (v : Value) (pc : Nat) :
    Machine :=
  ⟨m.store.modifyThread t fun th => (th.put (f.base + register) v).setPc pc, m.activities, .run⟩

theorem Fetches.step_loadK (fetches : m.Fetches t f closure) (host : Host)
    (code : closure.prototype.code[f.pc]? = some i) (opcode : i.opcode? = some .loadK)
    (inside : f.pc + 1 < closure.prototype.code.size) :
    m.step host = m.loaded t f i.a (closure.prototype.constant i.bx) (f.pc + 1) :=
  @Fetches.step_assigns m (f.pc + 1) i .loadK [(i.a, closure.prototype.constant i.bx)] t f closure
    fetches host code opcode inside rfl

theorem Fetches.step_loadKX (fetches : m.Fetches t f closure) (host : Host)
    (code : closure.prototype.code[f.pc]? = some i) (opcode : i.opcode? = some .loadKX)
    (behind : closure.prototype.code[f.pc + 1]? = some extra)
    (inside : f.pc + 2 < closure.prototype.code.size) :
    m.step host = m.loaded t f i.a (closure.prototype.constant extra.ax) (f.pc + 2) := by
  have word : Context.extraWord ⟨t, f, closure, f.pc + 1⟩ "LOADKX" = pure extra.ax := by
    simp only [Context.extraWord, Context.prototype, behind]
  refine @Fetches.step_assigns m (f.pc + 2) i .loadKX
    [(i.a, closure.prototype.constant extra.ax)] t f closure fetches host code opcode inside ?_
  simp only [Context.execute, word]
  rfl

end Machine

namespace Builder

open Machine

variable {b b' : Builder} {k : Constant} {m : Machine} {t : ThreadRef} {f : Frame}
  {closure : Closure} {register : Nat}

theorem code_loadConstant (b : Builder) (register : Nat) (k : Constant) :
    ((b.constant k).1 ≤ Instruction.maxBx ∧
      (b.loadConstant register k).pc = b.pc + 1 ∧
      (b.loadConstant register k).prototype.code[b.pc]? =
        some (.abx .loadK register (b.constant k).1)) ∨
    (Instruction.maxBx < (b.constant k).1 ∧
      (b.loadConstant register k).pc = b.pc + 2 ∧
      (b.loadConstant register k).prototype.code[b.pc]? = some (.abx .loadKX register 0) ∧
      (b.loadConstant register k).prototype.code[b.pc + 1]? =
        some (.ofAx .extraArg (b.constant k).1)) := by
  rw [← pc_constant b k]
  simp only [Builder.loadConstant]
  split
  · rename_i small
    exact .inl ⟨small, pc_emit _ _, getElem?_emitted _ _⟩
  · rename_i large
    refine .inr ⟨by omega, by simp, getElem?_emit (getElem?_emitted _ _) _, ?_⟩
    rw [← pc_emit]
    exact getElem?_emitted _ _

theorem step_loadConstant (small : register < 256)
    (kept : ∀ place, b.pc ≤ place → place < (b.loadConstant register k).pc →
      b'.prototype.code[place]? = (b.loadConstant register k).prototype.code[place]?)
    (bound : (b.constant k).1 < 67108864) (fetches : m.Fetches t f closure)
    (runs : closure.prototype = b'.build) (stands : f.pc = b.pc) (host : Host) :
    m.step host = m.loaded t f register (b'.build.constant (b.constant k).1)
      (b.loadConstant register k).pc := by
  have fetched {place : Nat} {i : Instruction} (lower : b.pc ≤ place)
      (upper : place < (b.loadConstant register k).pc)
      (word : (b.loadConstant register k).prototype.code[place]? = some i) :
      closure.prototype.code[place]? = some i := by
    rw [runs]
    exact getElem?_build ((kept place lower upper).trans word)
  have returns : closure.prototype.endsInReturn := by
    rw [runs]
    exact endsInReturn_build b'
  rcases code_loadConstant b register k with
    ⟨narrow, next, first⟩ | ⟨-, next, first, second⟩
  · have code := fetched (Nat.le_refl _) (by omega) first
    have inside := Prototype.next_inside returns code (by
      rw [Instruction.opcode?_abx]
      decide)
    have index : (b.constant k).1 < 262144 := Nat.lt_succ_of_le narrow
    rw [← stands] at code inside next
    rw [fetches.step_loadK host code (Instruction.opcode?_abx _ _ _) inside, Instruction.a_abx,
      Instruction.bx_abx, Nat.mod_eq_of_lt small, Nat.mod_eq_of_lt index, runs, next]
  · have code := fetched (Nat.le_refl _) (by omega) first
    have behind := fetched (Nat.le_succ _) (by omega) second
    have inside := Prototype.next_inside returns behind (by
      rw [Instruction.opcode?_ofAx]
      decide)
    rw [← stands] at code behind inside next
    rw [fetches.step_loadKX host code (Instruction.opcode?_abx _ _ _) behind inside,
      Instruction.a_abx, Instruction.ax_ofAx, Nat.mod_eq_of_lt small, Nat.mod_eq_of_lt bound, runs,
      next]

/-- What executing the words leaves that a call to load a constant has emitted, whatever calls came
before it and after. The constant is in the register, or the zero of the other sign is if the pool
had that one already, and the frame goes on behind the words. -/
theorem loadConstant_loads {source : String} (before : (new source).Follows b)
    (small : register < 256) (later : (b.loadConstant register k).Follows b')
    (kept : ∀ place, b.pc ≤ place → place < (b.loadConstant register k).pc →
      b'.prototype.code[place]? = (b.loadConstant register k).prototype.code[place]?)
    (room : b'.pool.length ≤ 2 ^ 26) (fetches : m.Fetches t f closure)
    (runs : closure.prototype = b'.build) (stands : f.pc = b.pc) (host : Host) :
    ∃ v, m.step host = m.loaded t f register v (b.loadConstant register k).pc ∧
      ((∀ other ∈ b.pool, ¬k.Opposes other) → v = k.value) ∧
      ∀ other ∈ b.pool, k.Opposes other → v = other.value ∧ v ≠ k.value := by
  obtain ⟨known, there, own, opposite⟩ := constant_value (before.shared (shared_new source)) k
  have pool : (b.constant k).2.pool <+: b'.pool := pool_loadConstant b register k ▸ later.pool
  have index : (b.constant k).1 < (b.constant k).2.pool.length :=
    (List.getElem?_eq_some_iff.1 there).1
  have bound := Nat.lt_of_lt_of_le index (pool.length_le.trans room)
  have value : b'.build.constant (b.constant k).1 = known.value := by
    apply Prototype.constant_built
    rw [← there, List.getElem?_eq_getElem index, List.prefix_iff_getElem?.1 pool _ index]
  refine ⟨known.value, ?_, own, fun other inside opposes => ?_⟩
  · rw [step_loadConstant small kept bound fetches runs stands host, value]
  · rw [opposite other inside opposes]
    exact ⟨rfl, opposes.value_ne⟩

def zeros : Builder :=
  ((new "=main").loadConstant 0 (.number 0)).loadConstant 1 (.number 0x8000000000000000)

/-- The second of two zeros is loaded as the first. The last of 262145 constants is loaded as it was
given, through the word behind the first. -/
theorem loadConstant_loads_crowded :
    Machine.step .bare (standing zeros.build 1) =
        (standing zeros.build 1).loaded 0 (standingFrame 1) 1 (.number 0) 2 ∧
      ∃ b b' : Builder, b.loadConstant 0 (.table 262144) = b' ∧ b'.pc = b.pc + 2 ∧
        Machine.step .bare (standing b'.build b.pc) =
          (standing b'.build b.pc).loaded 0 (standingFrame b.pc) 0 (.table 262144) b'.pc := by
  constructor
  · obtain ⟨v, step, -, opposite⟩ := loadConstant_loads
      (b := (new "=main").loadConstant 0 (.number 0)) (k := .number 0x8000000000000000)
      (.single (.loadConstant _ _ _)) (by decide : 1 < 256) .refl (fun _ _ _ => rfl)
      (by decide +kernel) (standing_fetches zeros.build 1) rfl (by decide +kernel) .bare
    have zero := opposite (.number 0) (by decide +kernel) (.inr ⟨rfl, rfl⟩)
    have next : zeros.pc = 2 := by decide +kernel
    rw [step, zero.1]
    exact congrArg ((standing zeros.build 1).loaded 0 (standingFrame 1) 1 (.number 0)) next
  · obtain ⟨b, follows, index, pool⟩ : ∃ b, (new "=main").Follows b ∧
        (b.constant (.table 262144)).1 = 262144 ∧
          b.pool = (List.range 262144).map .table :=
      ⟨tables 262144, follows_tables 262144, constant_tables 262144⟩
    have room : (b.loadConstant 0 (.table 262144)).pool.length ≤ 2 ^ 26 := by
      have longer := length_pool_constant b (.table 262144)
      rw [pool, List.length_map, List.length_range] at longer
      rw [pool_loadConstant]
      omega
    obtain ⟨v, step, own, -⟩ := loadConstant_loads follows (by decide : 0 < 256) .refl
      (fun _ _ _ => rfl) room (standing_fetches (b.loadConstant 0 (.table 262144)).build b.pc) rfl
      rfl .bare
    refine ⟨b, _, rfl, ?_, ?_⟩
    · rw [pc_loadConstant, index, if_neg (by decide)]
    · rw [step, own]
      · rfl
      · intro other inside opposes
        rcases opposes with ⟨zero, -⟩ | ⟨zero, -⟩ <;> exact absurd zero (by simp [Constant.value])

end Builder

end RegisterVm
