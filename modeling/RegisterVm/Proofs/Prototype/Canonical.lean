import RegisterVm.Proofs.Prototype.Forms

/-!
Writing again what was read. What is accepted stands for a prototype that can be written, and that
is read again as itself. The bytes themselves come back when they are canonical: a flag is 0 or 1
and every capture has its name. Nor can bytes be cut off an accepted form or put behind it.
-/

namespace RegisterVm

open scoped List

theorem Reader.name_nameCaptures {captures : Array Capture} {names : Array String} {c : Capture}
    (member : c ∈ nameCaptures captures names) :
    c.name ∈ names ∨ ∃ bare ∈ captures, c.name = bare.name := by
  obtain ⟨i, inside, rfl⟩ := Array.mem_mapIdx.mp member
  split
  · rename_i found
    exact .inl (Array.mem_of_getElem? found)
  · exact .inr ⟨_, Array.getElem_mem inside, rfl⟩

namespace Form

variable {f : Form} {levels : Nat}

theorem Sound.nesting (sound : f.Sound) (variadic : UInt8) {children : List Form}
    (few : children.length < 2 ^ 32) : Sound { f with variadic, children } := by
  refine ⟨sound.code, sound.constants, sound.window, sound.captures, few, sound.source, sound.lines,
    sound.locals, sound.names, ?_⟩
  have returns := sound.returns
  rw [prototype_eq] at returns ⊢
  exact returns

theorem Sound.constant_plain (sound : f.Sound) {k : Constant} (member : k ∈ f.prototype.constants) :
    k.Plain := by
  rw [prototype_eq, List.mem_toArray] at member
  exact (sound.constants.2 k member).1

theorem Sound.fits (sound : f.Sound) : f.prototype.Fits := by
  rw [prototype_eq]
  refine ⟨sound.code.1, sound.constants.1, ?_, ?_, sound.lines, sound.locals.1, f.parameters.toNat_lt,
    f.window.toNat_lt, ?_, ?_, ?_, ?_⟩
  · simpa using sound.children
  · simpa [Reader.nameCaptures] using sound.captures
  · intro s member
    exact (sound.constants.2 _ (List.mem_toArray.mp member)).2 s rfl
  · intro s present
    dsimp only at present
    split at present
    · contradiction
    · exact Option.some.inj present ▸ sound.source
  · exact fun l member => sound.locals.2 l (List.mem_toArray.mp member)
  · intro c member
    rcases Reader.name_nameCaptures member with named | ⟨bare, inside, unnamed⟩
    · exact sound.names.2 _ (List.mem_toArray.mp named)
    · obtain ⟨c', -, rfl⟩ := List.mem_map.mp (List.mem_toArray.mp inside)
      rw [unnamed]
      exact (by decide : "".utf8ByteSize < 2 ^ 32)

theorem Sound.loadable (sound : f.Sound) : f.prototype.Loadable := by
  refine ⟨?_, sound.returns, ?_⟩
  · rw [prototype_eq]
    exact fun i member => sound.code.2 i (List.mem_toArray.mp member)
  · rw [prototype_eq]
    exact sound.window

theorem source_ne_empty (f : Form) : f.prototype.source ≠ some "" := by
  rw [prototype_eq]
  dsimp only
  split
  · nofun
  · rename_i filled
    intro empty
    exact filled (by rw [Option.some.inj empty]; rfl)

theorem Readable.nests (readable : f.Readable levels) {depth : Nat} {q : Prototype}
    (nests : f.prototype.Nests depth q) : depth < levels ∧ ∃ g : Form, g.Sound ∧ g.prototype = q := by
  induction levels generalizing f depth with
  | zero => exact readable.elim
  | succ levels ih =>
      obtain ⟨sound, below⟩ := readable
      cases nests with
      | here => exact ⟨Nat.succ_pos levels, f, sound, rfl⟩
      | nested member nests =>
          rw [prototype_eq, List.mem_toArray, List.mem_map] at member
          obtain ⟨child, inside, rfl⟩ := member
          obtain ⟨bound, found⟩ := ih (below child inside) nests
          exact ⟨Nat.succ_lt_succ bound, found⟩

/-- The form is the one that its prototype is written in, if its text is sound. -/
inductive Canonical : Form → Prop
  | intro {f : Form} (variadic : f.variadic ≤ 1) (marks : ∀ c ∈ f.captures, c.mark ≤ 1)
      (names : f.names.length = f.captures.length)
      (children : ∀ child ∈ f.children, child.Canonical) : f.Canonical

end Form

namespace Prototype

theorem stored_self {p : Prototype} (sources : ∀ depth q, p.Nests depth q → q.source ≠ some "") :
    p.stored false = p := by
  induction p using nested_induction with
  | step p ih =>
      have children : p.children.toList.map (stored false) = p.children.toList := by
        refine (List.map_congr_left fun child member => ?_).trans (List.map_id _)
        exact ih child (Array.mem_toList_iff.mp member) fun depth q nests =>
          sources (depth + 1) q (.nested (Array.mem_toList_iff.mp member) nests)
      have source : p.source.filter (fun s => !s.isEmpty) = p.source := by
        have own := sources 0 p (.here p)
        cases present : p.source with
        | none => rfl
        | some s =>
            have filled : s ≠ "" := fun empty => own (by rw [present, empty])
            simp [Option.filter, filled]
      rw [stored_eq, children, source]
      simp only [Bool.false_eq_true, if_false, Array.toArray_toList]
      cases p
      rfl

/-- What is accepted can be written, and what is written is accepted as the same. -/
theorem encode_decoded {bytes : List UInt8} {p : Prototype} (accepted : decode bytes = .ok p) :
    ∃ again, p.encode false = .ok again ∧ decode again = .ok p := by
  obtain ⟨f, strip, ⟨readable, -⟩, rfl⟩ := decode_ok.mp accepted
  have levels (depth : Nat) (q : Prototype) (nests : f.prototype.Nests depth q) :
      depth < Binary.maxNesting + 1 ∧ ∃ g : Form, g.Sound ∧ g.prototype = q := readable.nests nests
  cases written : f.prototype.encode false with
  | error fault =>
      obtain ⟨depth, q, nests, k, member, reference⟩ :=
        (encodeBody_error false f.prototype).mp ((encode_error _ _).mp ⟨fault, written⟩)
      obtain ⟨-, g, sound, rfl⟩ := levels depth q nests
      exact absurd (sound.constant_plain member) reference
  | ok again =>
      obtain ⟨reads, only⟩ := decode_written (fun depth q nests => by
        obtain ⟨-, g, sound, rfl⟩ := levels depth q nests
        exact sound.fits) written
      obtain ⟨q, read⟩ := reads.mpr fun depth q nests => by
        obtain ⟨bound, g, sound, rfl⟩ := levels depth q nests
        exact ⟨sound.loadable, Nat.le_of_lt_succ bound⟩
      have same : f.prototype.stored false = f.prototype := stored_self fun depth q nests => by
        obtain ⟨-, g, sound, rfl⟩ := levels depth q nests
        exact g.source_ne_empty
      refine ⟨again, rfl, ?_⟩
      rw [read, only q read, same]

theorem encodeAll_each {α : Type} {encode : α → Except EncodeError (List UInt8)} {xs : List α}
    (each : ∀ x ∈ xs, ∃ bytes, encode x = .ok bytes) :
    encodeAll encode xs = .ok (xs.flatMap fun x => formBytes (encode x)) := by
  rcases encodeAll_cases encode xs with ⟨_, all⟩ | ⟨⟨x, member, fault, failed⟩, _⟩
  · exact all
  · obtain ⟨bytes, written⟩ := each x member
    rw [failed] at written
    contradiction

end Prototype

namespace Form

theorem flag_ne_zero {b : UInt8} (small : b ≤ 1) : Binary.flag (b != 0) = [b] := by
  have either : b = 0 ∨ b = 1 := by
    rcases Nat.le_one_iff_eq_zero_or_eq_one.mp (UInt8.le_iff_toNat_le.mp small) with zero | one
    · exact .inl (UInt8.toNat_inj.mp zero)
    · exact .inr (UInt8.toNat_inj.mp one)
  rcases either with rfl | rfl <;> rfl

theorem bytes_nameCaptures {captures : List CaptureForm} (marks : ∀ c ∈ captures, c.mark ≤ 1)
    (names : Array String) :
    (Reader.nameCaptures (captures.map CaptureForm.capture).toArray names).toList.flatMap
        (fun c => Binary.flag c.fromRegister ++ Binary.word c.index)
      = captures.flatMap CaptureForm.bytes := by
  -- naming changes neither of the fields that are written
  have fields : (Reader.nameCaptures (captures.map CaptureForm.capture).toArray names).toList.map
      (fun c => Binary.flag c.fromRegister ++ Binary.word c.index)
      = captures.map CaptureForm.bytes := by
    apply List.ext_getElem
    · simp [Reader.nameCaptures]
    · intro i _ inside
      rw [List.length_map] at inside
      have mark := flag_ne_zero (marks _ (List.getElem_mem inside))
      simp only [Reader.nameCaptures, List.getElem_map, Array.getElem_toList, Array.getElem_mapIdx]
      split <;> simp [CaptureForm.bytes, CaptureForm.capture, mark]
  rw [List.flatMap_def, fields, ← List.flatMap_def]

theorem encodeSizes_prototype {f : Form} (variadic : f.variadic ≤ 1)
    (marks : ∀ c ∈ f.captures, c.mark ≤ 1) :
    f.prototype.encodeSizes = Binary.word f.parameters ++ [f.variadic] ++ Binary.word f.window
      ++ Binary.word f.firstLine ++ Binary.word f.lastLine
      ++ Binary.counted CaptureForm.bytes f.captures := by
  have size : (Reader.nameCaptures (f.captures.map CaptureForm.capture).toArray
      f.names.toArray).size = f.captures.length := by
    simp [Reader.nameCaptures]
  rw [f.prototype_eq]
  simp only [Prototype.encodeSizes, Binary.count_toNat, flag_ne_zero variadic,
    bytes_nameCaptures marks, size, Binary.counted, List.append_assoc]

theorem encodeDebug_prototype {f : Form} (names : f.names.length = f.captures.length) :
    f.prototype.encodeDebug false = Binary.string f.source ++ Binary.counted Binary.word f.lines
      ++ Binary.counted LocalRange.encode f.locals ++ Binary.counted Binary.string f.names := by
  have named : (Reader.nameCaptures (f.captures.map CaptureForm.capture).toArray
      f.names.toArray).toList.map Capture.name = f.names := by
    apply List.ext_getElem
    · simp [Reader.nameCaptures, names]
    · intro i _ inside
      simp [Reader.nameCaptures, inside]
  have size : (Reader.nameCaptures (f.captures.map CaptureForm.capture).toArray
      f.names.toArray).size = f.names.length := by
    simp [Reader.nameCaptures, names]
  have texts : (Reader.nameCaptures (f.captures.map CaptureForm.capture).toArray
      f.names.toArray).toList.flatMap (fun c => Binary.string c.name)
      = f.names.flatMap Binary.string := by
    conv_rhs => rw [← named, List.flatMap_map]
  have source : (if f.source.isEmpty then none else some f.source).getD "" = f.source := by
    split
    · rename_i empty
      exact (String.isEmpty_iff.mp empty).symm
    · rfl
  rw [f.prototype_eq]
  simp only [Prototype.encodeDebug, Bool.false_eq_true, if_false, source, size, texts,
    Binary.counted, List.size_toArray, List.append_assoc]

end Form

namespace Prototype

theorem encodeBody_canonical {f : Form} {levels : Nat} (readable : f.Readable levels)
    (canonical : f.Canonical) : encodeBody false f.prototype = .ok f.bytes := by
  induction levels generalizing f with
  | zero => exact readable.elim
  | succ levels ih =>
      obtain ⟨sound, below⟩ := readable
      cases canonical with
      | intro variadic marks names children =>
          have pool : encodeAll Constant.encode f.constants
              = .ok (f.constants.flatMap fun k => formBytes k.encode) :=
            encodeAll_each fun k member => (sound.constants.2 k member).1.encodes
          have each (child : Form) (member : child ∈ f.children) :
              encodeBody false child.prototype = .ok child.bytes :=
            ih (below child member) (children child member)
          have nested : encodeAll (encodeBody false) (f.children.map Form.prototype)
              = .ok (f.children.flatMap Form.bytes) := by
            rw [encodeAll_each fun q member => by
              obtain ⟨child, inside, rfl⟩ := List.mem_map.mp member
              exact ⟨_, each child inside⟩, List.flatMap_map]
            exact congrArg _ (List.flatMap_congr fun child member => by rw [each child member]; rfl)
          rw [encodeBody_eq, Form.encodeSizes_prototype variadic marks,
            Form.encodeDebug_prototype names, f.bytes_eq]
          simp only [f.prototype_eq, pool, nested, encodeCode, bind, Except.bind, pure, Except.pure,
            List.append_assoc, Binary.counted, List.size_toArray, List.length_map]

/-- Of an accepted form only the flags' bytes and the spare or missing names are forgotten. -/
theorem decode_reencodes {bytes : List UInt8} {p : Prototype} (accepted : decode bytes = .ok p) :
    (∃ again, p.encode false = .ok again ∧ decode again = .ok p) ∧
      (∃ f strip, Form.Spells f strip bytes) ∧
      ∀ f strip, Form.Spells f strip bytes → strip = 0 → f.Canonical →
        p.encode false = .ok bytes := by
  refine ⟨encode_decoded accepted, ?_, ?_⟩
  · obtain ⟨f, strip, spells, -⟩ := decode_ok.mp accepted
    exact ⟨f, strip, spells⟩
  · rintro f strip spells rfl canonical
    have read := decode_ok.mpr ⟨f, 0, spells, rfl⟩
    rw [accepted] at read
    obtain rfl := Except.ok.inj read
    obtain ⟨readable, rfl⟩ := spells
    rw [encode, encodeBody_canonical readable canonical]
    rfl

/-- Bytes are accepted as a whole or not at all: nothing may be put behind them or cut off. -/
theorem decode_whole {bytes : List UInt8} {p : Prototype} (accepted : decode bytes = .ok p) :
    (∀ more, more ≠ [] → decode (bytes ++ more) = .error .trailingBytes) ∧
      ∀ front, front <+: bytes → front ≠ bytes → ∃ fault, decode front = .error fault := by
  have extended {bytes more : List UInt8} {p : Prototype} (accepted : decode bytes = .ok p)
      (added : more ≠ []) : decode (bytes ++ more) = .error .trailingBytes := by
    obtain ⟨f, strip, spells, rfl⟩ := decode_ok.mp accepted
    rw [decode_spelled spells, if_neg (by simpa using added)]
  refine ⟨fun more added => extended accepted added, ?_⟩
  rintro front ⟨more, rfl⟩ proper
  cases read : decode front with
  | error fault => exact ⟨fault, rfl⟩
  | ok q =>
      have added : more ≠ [] := by
        rintro rfl
        exact proper (List.append_nil front).symm
      rw [extended read added] at accepted
      contradiction

def leafForm : Form :=
  ⟨[Instruction.abc .ret 0 1 0], [.number 0x7ff8000000000001], 0, 0, 2, 0, 0, [⟨1, 3⟩], [], "", [1],
    [], [""]⟩

def branchForm : Form := { leafForm with variadic := 1, children := [leafForm] }

def branchBytes : List UInt8 := Binary.signature ++ [Binary.version, 0] ++ branchForm.bytes

theorem branchForm_spells : branchForm.Spells 0 branchBytes := by
  have plain (k : Constant) (member : k ∈ leafForm.constants) :
      k.Plain ∧ ∀ s, k = .string s → s.utf8ByteSize < 2 ^ 32 := by
    obtain rfl := List.mem_singleton.mp member
    exact ⟨trivial, nofun⟩
  have leafSound : leafForm.Sound := by
    refine ⟨by decide, ⟨by decide, plain⟩, by decide, by decide, by decide, by decide, by decide,
      by decide, by decide, ?_⟩
    rw [Form.prototype_eq]
    decide
  have leafReadable : leafForm.Readable Binary.maxNesting := ⟨leafSound, nofun⟩
  exact ⟨⟨leafSound.nesting 1 (by decide), fun child member =>
    List.mem_singleton.mp member ▸ leafReadable⟩, rfl⟩

theorem branchForm_canonical : branchForm.Canonical := by
  have leafCanonical : leafForm.Canonical := .intro (by decide) (by decide) rfl nofun
  exact .intro (by decide) (by decide) rfl fun child member =>
    List.mem_singleton.mp member ▸ leafCanonical

theorem decode_reencodes_branch :
    ∃ p, decode branchBytes = .ok p ∧ p.encode false = .ok branchBytes := by
  have accepted := decode_ok.mpr ⟨branchForm, 0, branchForm_spells, rfl⟩
  exact ⟨_, accepted,
    (decode_reencodes accepted).2.2 branchForm 0 branchForm_spells rfl branchForm_canonical⟩

theorem decode_whole_branch :
    decode (branchBytes ++ [0]) = .error .trailingBytes ∧
      ∃ fault, decode branchBytes.dropLast = .error fault := by
  have accepted := decode_ok.mpr ⟨branchForm, 0, branchForm_spells, rfl⟩
  obtain ⟨extended, cut⟩ := decode_whole accepted
  refine ⟨extended [0] (List.cons_ne_nil _ _), cut _ (List.dropLast_prefix _) fun same => ?_⟩
  have shorter := congrArg List.length same
  have filled : 0 < branchBytes.length := Nat.succ_pos _
  rw [List.length_dropLast] at shorter
  omega

end Prototype

end RegisterVm
