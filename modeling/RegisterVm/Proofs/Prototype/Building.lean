import RegisterVm.Proofs.Instruction.Words
import RegisterVm.Proofs.Limits.Stores
import RegisterVm.Proofs.Prototype.RoundTrip

/-!
Built prototypes as their form takes them. The window that a builder computes is never below what
the code names and may be one register above it, so that a prototype which names the highest register
of all can be built with a window that no reader accepts.
-/

namespace RegisterVm

open scoped List

/-- What a builder has come to, from its start and without being given a window. -/
inductive Builder.Used : Builder → Prop where
  | new (source : String) : (Builder.new source).Used
  | parameters {b : Builder} (used : b.Used) (n : Nat) : (b.parameters n).Used
  | vararg {b : Builder} (used : b.Used) : b.vararg.Used
  | lines {b : Builder} (used : b.Used) (first last : UInt32) : (b.lines first last).Used
  | atLine {b : Builder} (used : b.Used) (line : UInt32) : (b.atLine line).Used
  | constant {b : Builder} (used : b.Used) (k : Constant) : (b.constant k).2.Used
  | operand {b : Builder} (used : b.Used) (k : Constant) : (b.operand k).2.Used
  | emit {b : Builder} (used : b.Used) (i : Instruction) : (b.emit i).Used
  | loadConstant {b : Builder} (used : b.Used) (register : Nat) (k : Constant) :
      (b.loadConstant register k).Used
  | patchJump {b : Builder} (used : b.Used) (pc target : Nat) : (b.patchJump pc target).Used
  | capture {b : Builder} (used : b.Used) (c : Capture) : (b.capture c).Used
  | child {b : Builder} (used : b.Used) (p : Prototype) : (b.child p).Used
  | localRange {b : Builder} (used : b.Used) (l : LocalRange) : (b.localRange l).Used

namespace Builder

@[simp] theorem windowGiven_constant (b : Builder) (k : Constant) :
    (b.constant k).2.windowGiven = b.windowGiven := by
  simp only [constant]
  split <;> rfl

@[simp] theorem windowGiven_emit (b : Builder) (i : Instruction) :
    (b.emit i).windowGiven = b.windowGiven := rfl

theorem Used.windowGiven {b : Builder} (used : b.Used) : b.windowGiven = false := by
  induction used with
  | constant _ k ih => rw [windowGiven_constant, ih]
  | operand _ k ih => exact (windowGiven_constant _ k).trans ih
  | loadConstant _ register k ih =>
      simp only [Builder.loadConstant]
      split <;> simp [ih]
  | _ => first | rfl | assumption

end Builder

namespace Prototype

/-- The prototype is what a builder has finished that was not given a window. -/
def Built (p : Prototype) : Prop := ∃ b : Builder, b.Used ∧ b.build = p

theorem endsInReturn_emit (b : Builder) : (b.emit (.abc .ret 0 1 0)).prototype.endsInReturn := by
  simp only [endsInReturn, Builder.emit, Array.back?_push]
  decide

theorem Built.returns {p : Prototype} (built : p.Built) : p.endsInReturn := by
  obtain ⟨b, used, rfl⟩ := built
  simp only [Builder.build]
  split
  · rename_i returns
    simp only [used.windowGiven]
    exact returns
  · simp only [Builder.windowGiven_emit, used.windowGiven]
    exact endsInReturn_emit b

theorem Built.window_eq {p : Prototype} (built : p.Built) : p.window = p.computedWindow := by
  obtain ⟨b, used, rfl⟩ := built
  simp only [Builder.build]
  split
  · simp only [used.windowGiven]
    rfl
  · simp only [Builder.windowGiven_emit, used.windowGiven]
    rfl

theorem computedWindow_le {p : Prototype} {bound : Nat} :
    p.computedWindow ≤ bound ↔
      p.parameters ≤ bound ∧ 2 ≤ bound ∧ ∀ i ∈ p.code, i.registers ≤ bound := by
  have folds (code : List Instruction) (start : Nat) :
      code.foldl (fun size i => max size i.registers) start ≤ bound ↔
        start ≤ bound ∧ ∀ i ∈ code, i.registers ≤ bound := by
    induction code generalizing start with
    | nil => simp
    | cons i rest ih =>
        rw [List.foldl_cons, ih, Nat.max_le, List.forall_mem_cons, and_assoc]
  rw [computedWindow, ← Array.foldl_toList, folds, Nat.max_le, and_assoc]
  simp only [Array.mem_toList_iff]

end Prototype

namespace Instruction

theorem pastOperand_le (operand : Nat) : pastOperand operand ≤ operand + 1 := by
  simp only [pastOperand]
  split
  · exact Nat.zero_le _
  · exact Nat.le_refl _

theorem pastTarget_le (i : Instruction) (op : Opcode) : i.pastTarget op ≤ 1024 := by
  have := i.a_le
  have := i.b_lt
  have := i.c_le
  simp only [pastTarget]
  split <;> omega

theorem pastSource_le (i : Instruction) (op : Opcode) : i.pastSource op ≤ 1024 := by
  have := i.b_lt
  have := i.c_le
  have := pastOperand_le i.b
  have := pastOperand_le i.c
  simp only [pastSource]
  split
  case h_11 => split <;> omega
  all_goals omega

theorem registers_lt (i : Instruction) : i.registers < 2 ^ 32 := by
  simp only [registers]
  split
  · have target := i.pastTarget_le
    have source := i.pastSource_le
    exact Nat.lt_of_le_of_lt (Nat.max_le.mpr ⟨target _, source _⟩) (by decide)
  · decide

theorem registers_le (i : Instruction) : i.registers ≤ max (i.named + 1) 256 := by
  have := i.a_le
  simp only [registers, named]
  cases i.opcode? with
  | none => exact Nat.zero_le _
  | some op =>
      cases op <;> simp only [pastTarget, pastNamed] <;> omega

end Instruction

namespace Prototype

structure Modest (p : Prototype) : Prop where
  code : p.code.size < 2 ^ 32 ∧ ∀ i ∈ p.code, i.opcode?.isSome
  constants : p.constants.size < 2 ^ 32 ∧ ∀ k ∈ p.constants, k.Plain
  strings : ∀ s, .string s ∈ p.constants → s.utf8ByteSize < 2 ^ 32
  children : p.children.size < 2 ^ 32
  captures : p.captures.size < 2 ^ 32 ∧ ∀ c ∈ p.captures, c.name.utf8ByteSize < 2 ^ 32
  lines : p.lines.size < 2 ^ 32
  locals : p.locals.size < 2 ^ 32 ∧ ∀ l ∈ p.locals, l.name.utf8ByteSize < 2 ^ 32
  source : ∀ s, p.source = some s → s.utf8ByteSize < 2 ^ 32
  parameters : p.parameters ≤ 255

theorem Modest.fits {p : Prototype} (modest : p.Modest) (built : p.Built) : p.Fits := by
  have window : p.window ≤ 2 ^ 32 - 1 := by
    rw [built.window_eq, computedWindow_le]
    exact ⟨Nat.le_trans modest.parameters (by decide), by decide,
      fun i _ => Nat.le_sub_one_of_lt i.registers_lt⟩
  exact ⟨modest.code.1, modest.constants.1, modest.children, modest.captures.1, modest.lines,
    modest.locals.1, Nat.lt_of_le_of_lt modest.parameters (by decide), by omega, modest.strings,
    modest.source, modest.locals.2, modest.captures.2⟩

theorem Modest.loadable_iff {p : Prototype} (modest : p.Modest) (built : p.Built) :
    p.Loadable ↔ ∀ i ∈ p.code, i.registers ≤ 256 := by
  have window : p.window ≤ 256 ↔ ∀ i ∈ p.code, i.registers ≤ 256 := by
    rw [built.window_eq, computedWindow_le]
    exact ⟨fun bounds => bounds.2.2,
      fun small => ⟨Nat.le_trans modest.parameters (by decide), by decide, small⟩⟩
  exact ⟨fun loadable => window.mp loadable.window,
    fun small => ⟨modest.code.2, built.returns, window.mpr small⟩⟩

/-- What has been built is written, and read back if the builder's table finds no register beyond
the highest one; so it does where the code names registers below that one only. -/
theorem built_loads {p : Prototype} (strip : Bool)
    (built : ∀ depth q, p.Nests depth q → q.Built ∧ q.Modest ∧ depth ≤ 200) :
    ∃ bytes, p.encode strip = .ok bytes ∧
      ((∃ q, decode bytes = .ok q) ↔
        ∀ depth q, p.Nests depth q → ∀ i ∈ q.code, i.registers ≤ 256) ∧
      ((∀ depth q, p.Nests depth q → ∀ i ∈ q.code, i.named ≤ 255) → ∃ q, decode bytes = .ok q) := by
  cases written : p.encode strip with
  | error fault =>
      obtain ⟨depth, q, nests, k, member, reference⟩ :=
        (encodeBody_error strip p).mp ((encode_error p strip).mp ⟨fault, written⟩)
      exact absurd ((built depth q nests).2.1.constants.2 k member) reference
  | ok bytes =>
      have reads : (∃ q, decode bytes = .ok q) ↔
          ∀ depth q, p.Nests depth q → ∀ i ∈ q.code, i.registers ≤ 256 := by
        rw [(decode_written (fun depth q nests =>
          (built depth q nests).2.1.fits (built depth q nests).1) written).1]
        refine forall_congr' fun depth => forall_congr' fun q => forall_congr' fun nests => ?_
        obtain ⟨assembled, modest, shallow⟩ := built depth q nests
        rw [modest.loadable_iff assembled, and_iff_left shallow]
      refine ⟨bytes, rfl, reads, fun named => reads.mpr fun depth q nests i member => ?_⟩
      exact Nat.le_trans i.registers_le
        (Nat.max_le.mpr ⟨Nat.succ_le_succ (named depth q nests i member), Nat.le_refl _⟩)

def returning (register : Nat) : Prototype :=
  ((Builder.new "=main").emit (.abc .ret register 2 0)).build

def creating (register : Nat) : Prototype :=
  (((Builder.new "=main").child (returning register)).emit (.abx .closure 0 0)).build

theorem children_returning (register : Nat) : (returning register).children = #[] := by
  simp only [returning, Builder.build]
  split <;> rfl

theorem children_creating (register : Nat) :
    (creating register).children = #[returning register] := by
  simp only [creating, Builder.build]
  split <;> rfl

theorem nests_creating {register depth : Nat} {q : Prototype}
    (nests : (creating register).Nests depth q) :
    (q = creating register ∨ q = returning register) ∧ depth ≤ 1 := by
  cases nests with
  | here => exact ⟨.inl rfl, Nat.zero_le 1⟩
  | nested member nests =>
      rw [children_creating, Array.mem_singleton] at member
      subst member
      cases nests with
      | here => exact ⟨.inr rfl, Nat.le_refl 1⟩
      | nested member _ =>
          rw [children_returning] at member
          exact absurd member (Array.not_mem_empty _)

theorem creating_built {register : Nat} (highest : register = 254 ∨ register = 255) (depth : Nat)
    (q : Prototype) (nests : (creating register).Nests depth q) :
    q.Built ∧ q.Modest ∧ depth ≤ 200 := by
  obtain ⟨either, bound⟩ := nests_creating nests
  refine ⟨?_, ?_, by omega⟩
  · rcases either with rfl | rfl
    · exact ⟨_, ((Builder.Used.new _).child _).emit _, rfl⟩
    · exact ⟨_, (Builder.Used.new _).emit _, rfl⟩
  · have source (s : String) (same : some "=main" = some s) : s.utf8ByteSize < 2 ^ 32 := by
      obtain rfl := Option.some.inj same
      decide
    rcases highest with rfl | rfl <;> rcases either with rfl | rfl <;>
      exact ⟨by decide, ⟨by decide, nofun⟩, nofun, by decide, ⟨by decide, nofun⟩, by decide,
        ⟨by decide, nofun⟩, source, by decide⟩

/-- With a nested function that returns the highest register the chunk is refused; with one that
returns the register below it is not. -/
theorem built_loads_edge :
    (∃ bytes, (creating 255).encode false = .ok bytes ∧ ∀ q, decode bytes ≠ .ok q) ∧
      ∃ bytes q, (creating 254).encode false = .ok bytes ∧ decode bytes = .ok q := by
  obtain ⟨bytes, written, refused, -⟩ := built_loads false (creating_built (.inr rfl))
  obtain ⟨bytes', written', -, accepted⟩ := built_loads false (creating_built (.inl rfl))
  refine ⟨⟨bytes, written, fun q read => ?_⟩, ?_⟩
  · have inside := refused.mp ⟨q, read⟩ 1 (returning 255)
      (.nested (by rw [children_creating]; exact Array.mem_singleton.mpr rfl) (.here _))
    exact absurd inside (by decide)
  · obtain ⟨q, read⟩ := accepted fun depth q nests => by
      rcases (nests_creating nests).1 with rfl | rfl <;> decide
    exact ⟨bytes', q, written', read⟩

end Prototype

end RegisterVm
