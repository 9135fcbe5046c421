import RegisterVm.Proofs.Prototype.Accepting

/-!
The forms of prototypes. A form is what the bytes of a prototype spell, field by field, with what
reading forgets: which byte stood for a flag, and names of captures beyond those there are or
missing behind them. The bytes that are accepted are those of readable forms, behind the signature,
the version and a flag, and they are accepted as the prototype that the form stands for.
-/

namespace RegisterVm

open scoped List

structure CaptureForm where
  mark : UInt8
  index : UInt32

namespace CaptureForm

def bytes (c : CaptureForm) : List UInt8 := c.mark :: Binary.word c.index

def capture (c : CaptureForm) : Capture := ⟨"", c.mark != 0, c.index⟩

end CaptureForm

structure Form where
  code : List Instruction
  constants : List Constant
  parameters : UInt32
  variadic : UInt8
  window : UInt32
  firstLine : UInt32
  lastLine : UInt32
  captures : List CaptureForm
  children : List Form
  source : String
  lines : List UInt32
  locals : List LocalRange
  names : List String

namespace Form

mutual

def bytes : Form → List UInt8
  | ⟨code, constants, parameters, variadic, window, firstLine, lastLine, captures, children, source,
      lines, locals, names⟩ =>
    Binary.counted (fun i => Binary.word i.word) code
      ++ Binary.counted (fun k => formBytes k.encode) constants
      ++ Binary.word parameters ++ [variadic] ++ Binary.word window
      ++ Binary.word firstLine ++ Binary.word lastLine
      ++ Binary.counted CaptureForm.bytes captures
      ++ (Binary.count children.length ++ bytesAll children)
      ++ Binary.string source ++ Binary.counted Binary.word lines
      ++ Binary.counted LocalRange.encode locals ++ Binary.counted Binary.string names

def bytesAll : List Form → List UInt8
  | [] => []
  | f :: rest => f.bytes ++ bytesAll rest

end

theorem bytesAll_eq (fs : List Form) : bytesAll fs = fs.flatMap bytes := by
  induction fs with
  | nil => rfl
  | cons f rest ih => rw [bytesAll, ih, List.flatMap_cons]

theorem bytes_eq (f : Form) :
    f.bytes = Binary.counted (fun i => Binary.word i.word) f.code
      ++ Binary.counted (fun k => formBytes k.encode) f.constants
      ++ Binary.word f.parameters ++ [f.variadic] ++ Binary.word f.window
      ++ Binary.word f.firstLine ++ Binary.word f.lastLine
      ++ Binary.counted CaptureForm.bytes f.captures ++ Binary.counted bytes f.children
      ++ Binary.string f.source ++ Binary.counted Binary.word f.lines
      ++ Binary.counted LocalRange.encode f.locals ++ Binary.counted Binary.string f.names := by
  obtain ⟨code, constants, parameters, variadic, window, firstLine, lastLine, captures, children,
    source, lines, locals, names⟩ := f
  rw [bytes, bytesAll_eq]
  rfl

theorem bytes_ne_nil (f : Form) : f.bytes ≠ [] := by
  simp only [bytes_eq, Binary.counted, Binary.count, Binary.word, List.cons_append]
  exact List.cons_ne_nil _ _

mutual

def prototype : Form → Prototype
  | ⟨code, constants, parameters, variadic, window, firstLine, lastLine, captures, children, source,
      lines, locals, names⟩ =>
    { code := code.toArray
      constants := constants.toArray
      children := (prototypeAll children).toArray
      captures := Reader.nameCaptures (captures.map CaptureForm.capture).toArray names.toArray
      parameters := parameters.toNat
      isVararg := variadic != 0
      window := window.toNat
      source := if source.isEmpty then none else some source
      lines := lines.toArray
      locals := locals.toArray
      firstLine
      lastLine }

def prototypeAll : List Form → List Prototype
  | [] => []
  | f :: rest => f.prototype :: prototypeAll rest

end

theorem prototypeAll_eq (fs : List Form) : prototypeAll fs = fs.map prototype := by
  induction fs with
  | nil => rfl
  | cons f rest ih => rw [prototypeAll, ih, List.map_cons]

theorem prototype_eq (f : Form) :
    f.prototype =
      { code := f.code.toArray
        constants := f.constants.toArray
        children := (f.children.map prototype).toArray
        captures := Reader.nameCaptures (f.captures.map CaptureForm.capture).toArray f.names.toArray
        parameters := f.parameters.toNat
        isVararg := f.variadic != 0
        window := f.window.toNat
        source := if f.source.isEmpty then none else some f.source
        lines := f.lines.toArray
        locals := f.locals.toArray
        firstLine := f.firstLine
        lastLine := f.lastLine } := by
  obtain ⟨code, constants, parameters, variadic, window, firstLine, lastLine, captures, children,
    source, lines, locals, names⟩ := f
  rw [prototype, prototypeAll_eq]

structure Sound (f : Form) : Prop where
  code : f.code.length < 2 ^ 32 ∧ ∀ i ∈ f.code, i.opcode?.isSome
  constants : f.constants.length < 2 ^ 32 ∧
    ∀ k ∈ f.constants, k.Plain ∧ ∀ s, k = .string s → s.utf8ByteSize < 2 ^ 32
  window : f.window.toNat ≤ Binary.maxWindow
  captures : f.captures.length < 2 ^ 32
  children : f.children.length < 2 ^ 32
  source : f.source.utf8ByteSize < 2 ^ 32
  lines : f.lines.length < 2 ^ 32
  locals : f.locals.length < 2 ^ 32 ∧ ∀ l ∈ f.locals, l.name.utf8ByteSize < 2 ^ 32
  names : f.names.length < 2 ^ 32 ∧ ∀ s ∈ f.names, s.utf8ByteSize < 2 ^ 32
  returns : f.prototype.endsInReturn

abbrev Fields : Type :=
  List Instruction × List Constant × UInt32 × UInt8 × UInt32 × UInt32 × UInt32 × List CaptureForm ×
    List Form × String × List UInt32 × List LocalRange × List String × Unit

def ofFields : Fields → Form
  | (code, constants, parameters, variadic, window, firstLine, lastLine, captures, children, source,
      lines, locals, names, _) =>
    ⟨code, constants, parameters, variadic, window, firstLine, lastLine, captures, children, source,
      lines, locals, names⟩

theorem exists_fields (f : Form) : ∃ r, ofFields r = f := by
  cases f
  exact ⟨(_, _, _, _, _, _, _, _, _, _, _, _, _, ()), rfl⟩

/-- The form can be read where `levels - 1` levels may lie below it. -/
def Readable : Nat → Form → Prop
  | 0, _ => False
  | levels + 1, f => f.Sound ∧ ∀ child ∈ f.children, child.Readable levels

end Form

theorem Constant.Plain.encodes {k : Constant} (plain : k.Plain) : ∃ bytes, k.encode = .ok bytes := by
  cases encoded : k.encode with
  | ok bytes => exact ⟨bytes, rfl⟩
  | error fault => exact absurd plain (Constant.encode_error.mp ⟨fault, encoded⟩)

theorem Constant.Plain.form_ne_nil {k : Constant} (plain : k.Plain) : formBytes k.encode ≠ [] := by
  obtain ⟨bytes, encoded⟩ := plain.encodes
  rw [encoded]
  exact Constant.encode_ne_nil encoded

namespace Reader

theorem accepts_capture : Accepts capture CaptureForm.bytes (fun _ => True) CaptureForm.capture := by
  unfold capture
  refine Accepts.reshape (accepts_flag.bind fun _ => accepts_word.bind fun _ => accepts_pure _)
    (fun c => ⟨c.1, c.2.1⟩) (fun c => ⟨(c.mark, c.index, ()), rfl⟩) ?_ ?_ fun _ => rfl
  · simp only [CaptureForm.bytes, List.append_nil, List.cons_append, List.nil_append, implies_true]
  · simp only [and_true, implies_true]

theorem accepts_prototype (levels : Nat) :
    Accepts (prototype levels) Form.bytes (Form.Readable levels) Form.prototype := by
  induction levels with
  | zero =>
      intro bytes p rest
      exact ⟨fun accepted => (nomatch accepted), fun ⟨_, unreadable, _⟩ => unreadable.elim⟩
  | succ levels ih =>
      rw [prototype]
      refine Accepts.reshape
        ((accepts_instruction.many fun _ _ => List.cons_ne_nil _ _).bind fun _ =>
          (accepts_constant.many fun k sound => sound.1.form_ne_nil).bind fun _ =>
          accepts_word.bind fun _ => accepts_flag.bind fun _ => accepts_word.bind fun _ =>
          accepts_word.bind fun _ => accepts_word.bind fun _ =>
          Accepts.unless ((accepts_capture.many fun _ _ => List.cons_ne_nil _ _).bind fun _ =>
            (ih.many fun f _ => Form.bytes_ne_nil f).bind fun _ => accepts_string.bind fun _ =>
            (accepts_word.many fun _ _ => List.cons_ne_nil _ _).bind fun _ =>
            (accepts_localRange.many fun _ _ => List.cons_ne_nil _ _).bind fun _ =>
            (accepts_string.many fun _ _ => List.cons_ne_nil _ _).bind fun _ =>
            accepts_guard _ _ _))
        Form.ofFields Form.exists_fields ?_ ?_ ?_
      · intro _
        simp only [Form.ofFields, Form.bytes_eq, List.append_assoc, List.append_nil]
      · rintro ⟨code, constants, parameters, variadic, window, firstLine, lastLine, captures,
          children, source, lines, locals, names, _⟩
        simp only [Form.ofFields, Form.Readable, List.map_id_fun, id, implies_true, and_true, true_and,
          Nat.not_lt]
        constructor
        · rintro ⟨own, below⟩
          have returns := own.returns
          rw [Form.prototype_eq] at returns
          exact ⟨own.code, own.constants, own.window, own.captures, ⟨own.children, below⟩, own.source,
            own.lines, own.locals, own.names, returns⟩
        · rintro ⟨code, constants, window, captures, ⟨children, below⟩, source, lines, locals, names,
            returns⟩
          refine ⟨⟨code, constants, window, captures, children, source, lines, locals, names, ?_⟩,
            below⟩
          rw [Form.prototype_eq]
          exact returns
      · intro _
        simp only [Form.ofFields, Form.prototype_eq, List.map_id_fun, id]

theorem file_ok {bytes : List UInt8} {r : Prototype × List UInt8} (accepted : file bytes = .ok r) :
    ∃ strip body, bytes = Binary.signature ++ [Binary.version, strip] ++ body := by
  have split : bytes.take 6 ++ bytes.drop 6 = bytes := List.take_append_drop 6 bytes
  unfold file at accepted
  obtain ⟨whole, left, got, accepted⟩ := bind_ok.mp accepted
  simp only [get, getThe, MonadStateOf.get, StateT.get, pure, Except.pure, Except.ok.injEq,
    Prod.mk.injEq] at got
  obtain ⟨rfl, rfl⟩ := got
  split at accepted
  · contradiction
  · split at accepted
    · contradiction
    · rename_i signed
      obtain ⟨_, left, placed, accepted⟩ := bind_ok.mp accepted
      obtain rfl : bytes.drop 6 = left := congrArg Prod.snd (Except.ok.inj placed)
      obtain ⟨version, left, first, accepted⟩ := bind_ok.mp accepted
      obtain ⟨version, -, found, rfl⟩ := (accepts_byte _ _ _).mp first
      split at accepted
      · contradiction
      · rename_i current
        obtain ⟨strip, body, second, _⟩ := bind_ok.mp accepted
        obtain ⟨strip, -, rfl, rfl⟩ := (accepts_byte _ _ _).mp second
        have signature : bytes.take 6 = Binary.signature := by simpa using signed
        have version : version = Binary.version := by simpa using current
        refine ⟨strip, body, ?_⟩
        rw [← split, signature, found, version, List.append_assoc]
        rfl

end Reader

namespace Form

/-- The bytes are those of the form, behind a header with this flag. -/
def Spells (f : Form) (strip : UInt8) (bytes : List UInt8) : Prop :=
  f.Readable (Binary.maxNesting + 1) ∧
    bytes = Binary.signature ++ [Binary.version, strip] ++ f.bytes

end Form

namespace Prototype

theorem decode_spelled {f : Form} {strip : UInt8} {bytes : List UInt8}
    (spells : f.Spells strip bytes) (more : List UInt8) :
    decode (bytes ++ more) = if more.isEmpty then .ok f.prototype else .error .trailingBytes := by
  obtain ⟨readable, rfl⟩ := spells
  rw [decode, List.append_assoc, Reader.file_eq,
    (Reader.accepts_prototype (Binary.maxNesting + 1)).reads readable]
  cases more <;> rfl

theorem decode_ok {bytes : List UInt8} {p : Prototype} :
    decode bytes = .ok p ↔ ∃ f strip, Form.Spells f strip bytes ∧ f.prototype = p := by
  constructor
  · intro accepted
    cases whole : Reader.file bytes with
    | error fault =>
        rw [decode, whole] at accepted
        contradiction
    | ok r =>
        obtain ⟨strip, body, rfl⟩ := Reader.file_ok whole
        cases front : Reader.prototype (Binary.maxNesting + 1) body with
        | error fault =>
            rw [Reader.file_eq, front] at whole
            contradiction
        | ok taken =>
            obtain ⟨f, readable, rfl, -⟩ := (Reader.accepts_prototype _ _ _ _).mp front
            have spells : f.Spells strip (Binary.signature ++ [Binary.version, strip] ++ f.bytes) :=
              ⟨readable, rfl⟩
            have read := decode_spelled spells taken.2
            rw [List.append_assoc, accepted] at read
            split at read
            · rename_i nothing
              rw [List.isEmpty_iff.mp nothing, List.append_nil]
              exact ⟨f, strip, spells, (Except.ok.inj read).symm⟩
            · contradiction
  · rintro ⟨f, strip, spells, rfl⟩
    have read := decode_spelled spells []
    rwa [List.append_nil] at read

end Prototype

end RegisterVm
