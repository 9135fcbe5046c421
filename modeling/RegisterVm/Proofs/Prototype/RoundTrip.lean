import RegisterVm.Proofs.Prototype.Reading

/-!
Writing a prototype and reading it back. A prototype is written unless a constant of it, or of one
nested in it, is a reference; what was written is read unless some prototype has a word that is no
instruction, does not end in a return, asks for too large a window or lies too deep; and what is read
is the prototype that was written, but for the debug records when they are left out.
-/

namespace RegisterVm

open scoped List

def Constant.Plain : Constant → Prop
  | .nil | .boolean _ | .number _ | .string _ => True
  | .table _ | .closure _ | .native _ | .thread _ => False

namespace Prototype

inductive Nests : Prototype → Nat → Prototype → Prop
  | here (p : Prototype) : p.Nests 0 p
  | nested {p child q : Prototype} {depth : Nat} (member : child ∈ p.children)
      (nests : child.Nests depth q) : p.Nests (depth + 1) q

structure Fits (p : Prototype) : Prop where
  code : p.code.size < 2 ^ 32
  constants : p.constants.size < 2 ^ 32
  children : p.children.size < 2 ^ 32
  captures : p.captures.size < 2 ^ 32
  lines : p.lines.size < 2 ^ 32
  locals : p.locals.size < 2 ^ 32
  parameters : p.parameters < 2 ^ 32
  window : p.window < 2 ^ 32
  strings : ∀ s, .string s ∈ p.constants → s.utf8ByteSize < 2 ^ 32
  source : ∀ s, p.source = some s → s.utf8ByteSize < 2 ^ 32
  localNames : ∀ l ∈ p.locals, l.name.utf8ByteSize < 2 ^ 32
  captureNames : ∀ c ∈ p.captures, c.name.utf8ByteSize < 2 ^ 32

theorem Fits.length_source {p : Prototype} (fits : p.Fits) (strip : Bool) :
    (if strip then "" else p.source.getD "").utf8ByteSize < 2 ^ 32 := by
  cases strip with
  | true => exact (by decide : "".utf8ByteSize < 2 ^ 32)
  | false =>
      cases source : p.source with
      | none => exact (by decide : "".utf8ByteSize < 2 ^ 32)
      | some s => exact fits.source s source

/-- What a reader asks of a prototype, wherever it is nested. -/
structure Loadable (p : Prototype) : Prop where
  valid : ∀ i ∈ p.code, i.opcode?.isSome
  returns : p.endsInReturn
  window : p.window ≤ 256

mutual

/-- What is kept of a prototype that is written: everything, or all but the debug records. An empty
source is the same as none. -/
def stored (strip : Bool) : Prototype → Prototype
  | ⟨code, constants, ⟨children⟩, captures, parameters, isVararg, window, source, lines, locals,
      firstLine, lastLine⟩ =>
    { code, constants, children := ⟨storedAll strip children⟩,
      captures := if strip then captures.map fun c => { c with name := "" } else captures,
      parameters, isVararg, window,
      source := if strip then none else source.filter fun s => !s.isEmpty,
      lines := if strip then #[] else lines, locals := if strip then #[] else locals,
      firstLine, lastLine }

def storedAll (strip : Bool) : List Prototype → List Prototype
  | [] => []
  | p :: rest => p.stored strip :: storedAll strip rest

end

theorem storedAll_eq (strip : Bool) (ps : List Prototype) :
    storedAll strip ps = ps.map (stored strip) := by
  induction ps with
  | nil => rfl
  | cons p rest ih => rw [storedAll, ih, List.map_cons]

theorem stored_eq (strip : Bool) (p : Prototype) :
    p.stored strip =
      { p with
        children := (p.children.toList.map (stored strip)).toArray
        captures := if strip then p.captures.map fun c => { c with name := "" } else p.captures
        source := if strip then none else p.source.filter fun s => !s.isEmpty
        lines := if strip then #[] else p.lines
        locals := if strip then #[] else p.locals } := by
  obtain ⟨code, constants, ⟨children⟩, captures, parameters, isVararg, window, source, lines, locals,
    firstLine, lastLine⟩ := p
  rw [stored, storedAll_eq]

/-- What holds of a prototype once it holds of those nested in it holds of all. -/
theorem nested_induction {motive : Prototype → Prop}
    (step : ∀ p, (∀ child ∈ p.children, motive child) → motive p) (p : Prototype) : motive p :=
  step p fun child _ => nested_induction step child
termination_by sizeOf p
decreasing_by
  rename_i member
  have smaller := Array.sizeOf_lt_of_mem member
  cases p
  simp only [mk.sizeOf_spec] at smaller ⊢
  omega

end Prototype

def formBytes : Except EncodeError (List UInt8) → List UInt8
  | .ok bytes => bytes
  | .error _ => []

section

variable {α : Type} {encode : α → Except EncodeError (List UInt8)}

theorem encodeAll_cases (encode : α → Except EncodeError (List UInt8)) (xs : List α) :
    ((∀ x ∈ xs, ∃ bytes, encode x = .ok bytes) ∧
      encodeAll encode xs = .ok (xs.flatMap fun x => formBytes (encode x))) ∨
    ((∃ x ∈ xs, ∃ fault, encode x = .error fault) ∧ ∃ fault, encodeAll encode xs = .error fault) := by
  induction xs with
  | nil => exact .inl ⟨fun _ member => absurd member List.not_mem_nil, rfl⟩
  | cons x xs ih =>
      cases first : encode x with
      | error fault =>
          refine .inr ⟨⟨x, List.mem_cons_self, fault, first⟩, fault, ?_⟩
          rw [encodeAll, first]
          rfl
      | ok bytes =>
          rcases ih with ⟨each, all⟩ | ⟨⟨y, member, failed⟩, fault, all⟩
          · refine .inl ⟨?_, ?_⟩
            · exact List.forall_mem_cons.mpr ⟨⟨bytes, first⟩, each⟩
            · rw [encodeAll, first, all, List.flatMap_cons, first]
              rfl
          · refine .inr ⟨⟨y, List.mem_cons_of_mem x member, failed⟩, fault, ?_⟩
            rw [encodeAll, first, all]
            rfl

theorem encodeAll_error {xs : List α} :
    (∃ fault, encodeAll encode xs = .error fault) ↔ ∃ x ∈ xs, ∃ fault, encode x = .error fault := by
  rcases encodeAll_cases encode xs with ⟨each, all⟩ | ⟨failing, failed⟩
  · constructor
    · rintro ⟨fault, failed⟩
      rw [all] at failed
      contradiction
    · rintro ⟨x, member, fault, failed⟩
      obtain ⟨bytes, written⟩ := each x member
      rw [written] at failed
      contradiction
  · exact ⟨fun _ => failing, fun _ => failed⟩

theorem encodeAll_ok {xs : List α} {bytes : List UInt8} (written : encodeAll encode xs = .ok bytes) :
    (∀ x ∈ xs, encode x = .ok (formBytes (encode x))) ∧
      bytes = xs.flatMap fun x => formBytes (encode x) := by
  rcases encodeAll_cases encode xs with ⟨each, all⟩ | ⟨_, fault, failed⟩
  · constructor
    · intro x member
      obtain ⟨form, found⟩ := each x member
      rw [found]
      rfl
    · rw [all] at written
      exact (Except.ok.inj written).symm
  · rw [failed] at written
    contradiction

end

theorem Constant.encode_ne_nil {k : Constant} {bytes : List UInt8} (written : k.encode = .ok bytes) :
    bytes ≠ [] := by
  rintro rfl
  cases k with
  | boolean b => cases b <;> simp [encode] at written
  | _ => simp [encode] at written

theorem Constant.plain_of_encode {k : Constant} {bytes : List UInt8}
    (written : k.encode = .ok bytes) : k.Plain := by
  cases k with
  | nil | boolean _ | number _ | string _ => trivial
  | _ => simp only [encode, reduceCtorEq] at written

theorem Constant.encode_error {k : Constant} : (∃ fault, k.encode = .error fault) ↔ ¬k.Plain := by
  cases k with
  | boolean b => cases b <;> simp [encode, Plain]
  | _ => simp [encode, Plain]

namespace Prototype

theorem encodeChildren_eq (strip : Bool) (ps : List Prototype) :
    encodeChildren strip ps = encodeAll (encodeBody strip) ps := by
  induction ps with
  | nil => rfl
  | cons p rest ih => rw [encodeChildren, encodeAll, ih]

theorem encodeBody_eq (strip : Bool) (p : Prototype) :
    encodeBody strip p = do
      let pool ← encodeAll Constant.encode p.constants.toList
      let nested ← encodeAll (encodeBody strip) p.children.toList
      return p.encodeCode ++ Binary.count p.constants.size ++ pool ++ p.encodeSizes
        ++ Binary.count p.children.size ++ nested ++ p.encodeDebug strip := by
  obtain ⟨code, constants, ⟨children⟩, captures, parameters, isVararg, window, source, lines, locals,
    firstLine, lastLine⟩ := p
  rw [encodeBody, encodeChildren_eq]
  rfl

theorem encodeBody_error (strip : Bool) (p : Prototype) :
    (∃ fault, encodeBody strip p = .error fault) ↔
      ∃ depth q, p.Nests depth q ∧ ∃ k ∈ q.constants, ¬k.Plain := by
  induction p using nested_induction with
  | step p ih =>
      have split : (∃ fault, encodeBody strip p = .error fault) ↔
          (∃ fault, encodeAll Constant.encode p.constants.toList = .error fault) ∨
            ∃ fault, encodeAll (encodeBody strip) p.children.toList = .error fault := by
        rw [encodeBody_eq]
        cases encodeAll Constant.encode p.constants.toList with
        | error fault => simp [bind, Except.bind]
        | ok pool =>
            cases encodeAll (encodeBody strip) p.children.toList <;>
              simp [bind, Except.bind, pure, Except.pure]
      rw [split, encodeAll_error, encodeAll_error]
      simp only [Array.mem_toList_iff, Constant.encode_error]
      constructor
      · rintro (⟨k, member, reference⟩ | ⟨child, member, failed⟩)
        · exact ⟨0, p, .here p, k, member, reference⟩
        · obtain ⟨depth, q, nests, found⟩ := (ih child member).mp failed
          exact ⟨depth + 1, q, .nested member nests, found⟩
      · rintro ⟨depth, q, nests, found⟩
        cases nests with
        | here => exact .inl found
        | nested member nests => exact .inr ⟨_, member, (ih _ member).mpr ⟨_, q, nests, found⟩⟩

theorem nests_loadable {p : Prototype} {levels : Nat} :
    (∀ depth q, p.Nests depth q → q.Loadable ∧ depth < levels + 1) ↔
      p.Loadable ∧ ∀ child ∈ p.children, ∀ depth q, child.Nests depth q →
        q.Loadable ∧ depth < levels := by
  constructor
  · intro all
    refine ⟨(all 0 p (.here p)).1, fun child member depth q nests => ?_⟩
    obtain ⟨loadable, bound⟩ := all (depth + 1) q (.nested member nests)
    exact ⟨loadable, by omega⟩
  · rintro ⟨loadable, nested⟩ depth q nests
    cases nests with
    | here => exact ⟨loadable, Nat.succ_pos levels⟩
    | nested member nests =>
        obtain ⟨found, bound⟩ := nested _ member _ q nests
        exact ⟨found, by omega⟩

theorem encodeBody_ok {strip : Bool} {p : Prototype} {bytes : List UInt8}
    (written : encodeBody strip p = .ok bytes) :
    (∀ k ∈ p.constants.toList, k.encode = .ok (formBytes k.encode)) ∧
      (∀ child ∈ p.children.toList,
        encodeBody strip child = .ok (formBytes (encodeBody strip child))) ∧
      bytes = p.encodeCode ++ Binary.count p.constants.size
        ++ p.constants.toList.flatMap (fun k => formBytes k.encode) ++ p.encodeSizes
        ++ Binary.count p.children.size
        ++ p.children.toList.flatMap (fun child => formBytes (encodeBody strip child))
        ++ p.encodeDebug strip := by
  rw [encodeBody_eq] at written
  cases constants : encodeAll Constant.encode p.constants.toList with
  | error fault =>
      rw [constants] at written
      contradiction
  | ok pool =>
      cases children : encodeAll (encodeBody strip) p.children.toList with
      | error fault =>
          rw [constants, children] at written
          contradiction
      | ok nested =>
          obtain ⟨eachConstant, poolBytes⟩ := encodeAll_ok constants
          obtain ⟨eachChild, nestedBytes⟩ := encodeAll_ok children
          rw [constants, children] at written
          subst poolBytes nestedBytes
          exact ⟨eachConstant, eachChild, (Except.ok.inj written).symm⟩

theorem encodeBody_ne_nil {strip : Bool} {p : Prototype} {bytes : List UInt8}
    (written : encodeBody strip p = .ok bytes) : bytes ≠ [] := by
  obtain ⟨_, _, rfl⟩ := encodeBody_ok written
  simp only [encodeCode, Binary.count, Binary.word, List.cons_append]
  exact List.cons_ne_nil _ _

theorem encode_error (p : Prototype) (strip : Bool) :
    (∃ fault, p.encode strip = .error fault) ↔ ∃ fault, encodeBody strip p = .error fault := by
  cases body : encodeBody strip p <;> simp [encode, body, bind, Except.bind, pure, Except.pure]

theorem encodeDebug_eq (p : Prototype) (strip : Bool) :
    p.encodeDebug strip =
      Binary.string (if strip then "" else p.source.getD "")
        ++ ((Binary.count (if strip then [] else p.lines.toList).length
            ++ (if strip then [] else p.lines.toList).flatMap Binary.word)
        ++ ((Binary.count (if strip then [] else p.locals.toList).length
            ++ (if strip then [] else p.locals.toList).flatMap LocalRange.encode)
        ++ (Binary.count (if strip then [] else p.captures.toList).length
            ++ (if strip then [] else p.captures.toList).flatMap fun c => Binary.string c.name))) := by
  cases strip with
  | true =>
      have empty : Text.encodeUtf8 "" = [] := List.length_eq_zero_iff.mp (Text.length_encodeUtf8 "")
      simp only [encodeDebug, Binary.string, empty, if_true, List.length_nil, List.flatMap_nil,
        List.append_nil, List.append_assoc]
      rfl
  | false => simp only [encodeDebug, Bool.false_eq_true, if_false, Array.length_toList,
      List.append_assoc]

end Prototype

namespace Reader

open Prototype

theorem takes_instruction (i : Instruction) :
    Takes instruction (Binary.word i.word) i.opcode?.isSome i := by
  have check : Takes (if i.opcode?.isNone then throw (.invalidOpcode i.word) else pure i) []
      i.opcode?.isSome i := by
    cases found : i.opcode? with
    | none => exact fun _ => ⟨fun valid => absurd valid Bool.false_ne_true, fun _ => ⟨_, rfl⟩⟩
    | some _ => exact (takes_pure i).congr rfl (by simp) fun _ => rfl
  exact ((takes_word i.word).bind fun _ => check).congr (List.append_nil _) (by rw [true_and])
    fun _ => rfl

theorem takes_constant {k : Constant} (plain : k.Plain)
    (fits : ∀ s, k = .string s → s.utf8ByteSize < 2 ^ 32) :
    Takes constant (formBytes k.encode) True k := by
  -- the tag decides which branch of the reader is left
  have tagged {tag : UInt8} {body : List UInt8} (next : Reader Constant)
      (branch : ∀ rest, constant (tag :: rest) = next rest) (takes : Takes next body True k) :
      Takes constant (tag :: body) True k := by
    intro rest
    rw [List.cons_append, branch]
    exact takes rest
  cases k with
  | nil => exact tagged _ (fun _ => rfl) (takes_pure _)
  | boolean b =>
      cases b with
      | false => exact tagged _ (fun _ => rfl) (takes_pure _)
      | true => exact tagged _ (fun _ => rfl) (takes_pure _)
  | number bits =>
      refine tagged (number >>= fun n => pure (.number n)) (fun _ => rfl) ?_
      exact Takes.congr ((takes_number bits).bind fun _ => takes_pure (Constant.number bits))
        (List.append_nil _) (and_self_iff) fun _ => rfl
  | string s =>
      refine tagged (string >>= fun s => pure (.string s)) (fun _ => rfl) ?_
      exact Takes.congr ((takes_string (fits s rfl)).bind fun _ => takes_pure (Constant.string s))
        (List.append_nil _) (and_self_iff) fun _ => rfl
  | _ => exact absurd plain id

theorem takes_capture (c : Capture) :
    Takes capture (Binary.flag c.fromRegister ++ Binary.word c.index) True { c with name := "" } := by
  unfold capture
  refine Takes.congr ((takes_flag c.fromRegister).bind fun _ => (takes_word c.index).bind fun _ =>
    takes_pure _) ?_ ?_ fun _ => rfl
  · rw [List.append_nil]
  · simp only [and_self]

theorem takes_localRange {l : LocalRange} (fits : l.name.utf8ByteSize < 2 ^ 32) :
    Takes localRange l.encode True l := by
  unfold localRange
  refine Takes.congr ((takes_string fits).bind fun _ => (takes_word l.startPc).bind fun _ =>
    (takes_word l.endPc).bind fun _ => takes_pure _) ?_ ?_ fun _ => rfl
  · simp only [LocalRange.encode, List.append_nil, List.append_assoc]
  · simp only [and_self]

theorem nameCaptures_stored (captures : Array Capture) (strip : Bool) :
    nameCaptures (captures.toList.map fun c => { c with name := "" }).toArray
        ((if strip then [] else captures.toList).map Capture.name).toArray
      = if strip then captures.map fun c => { c with name := "" } else captures := by
  apply Array.ext
  · cases strip <;> simp [nameCaptures]
  · intro i _ bound
    cases strip with
    | true => simp [nameCaptures]
    | false =>
        have inside : i < captures.size := bound
        simp [nameCaptures, inside]

theorem length_unless {α : Type} (strip : Bool) {xs : Array α} {bound : Nat}
    (small : xs.size < bound) : (if strip then [] else xs.toList).length < bound := by
  cases strip with
  | true => exact Nat.lt_of_le_of_lt (Nat.zero_le _) small
  | false => exact small

theorem mem_of_mem_unless {α : Type} {strip : Bool} {xs : Array α} {x : α}
    (member : x ∈ if strip then [] else xs.toList) : x ∈ xs := by
  cases strip with
  | true => exact absurd member List.not_mem_nil
  | false => exact Array.mem_toList_iff.mp member

theorem toArray_unless {α : Type} (strip : Bool) (xs : Array α) :
    (if strip then [] else xs.toList).toArray = if strip then #[] else xs := by
  cases strip <;> rfl

theorem source_reread (strip : Bool) (source : Option String) :
    (if (if strip then "" else source.getD "").isEmpty then none
      else some (if strip then "" else source.getD ""))
      = if strip then none else source.filter fun s => !s.isEmpty := by
  cases strip with
  | true => rfl
  | false =>
      cases source with
      | none => rfl
      | some s => cases empty : s.isEmpty <;> simp [empty, Option.filter]

theorem takes_prototype (strip : Bool) (p : Prototype) (levels : Nat)
    (fits : ∀ depth q, p.Nests depth q → q.Fits) {bytes : List UInt8}
    (written : encodeBody strip p = .ok bytes) :
    Takes (prototype levels) bytes (∀ depth q, p.Nests depth q → q.Loadable ∧ depth < levels)
      (p.stored strip) := by
  induction p using nested_induction generalizing levels bytes with
  | step p ih =>
      cases levels with
      | zero =>
          refine fun rest => ⟨fun all => ?_, fun _ => ⟨.nestedTooDeep, rfl⟩⟩
          exact absurd (all 0 p (.here p)).2 (Nat.not_lt_zero 0)
      | succ levels =>
          have own := fits 0 p (.here p)
          obtain ⟨constants, children, rfl⟩ := encodeBody_ok written
          have windowBack : p.window.toUInt32.toNat = p.window :=
            UInt32.toNat_ofNat_of_lt own.window
          have parametersBack : p.parameters.toUInt32.toNat = p.parameters :=
            UInt32.toNat_ofNat_of_lt own.parameters
          have takesCode := takes_many p.code.toList own.code
            (fun i _ => takes_instruction i) fun _ _ => List.cons_ne_nil _ _
          have takesPool := takes_many p.constants.toList own.constants
            (fun k member => takes_constant (Constant.plain_of_encode (constants k member))
              fun s text => own.strings s (text ▸ Array.mem_toList_iff.mp member))
            fun k member => Constant.encode_ne_nil (constants k member)
          have takesCaptures := takes_many p.captures.toList own.captures
            (fun c _ => takes_capture c) fun _ _ => List.cons_ne_nil _ _
          have takesChildren := takes_many p.children.toList own.children
            (fun child member => ih child (Array.mem_toList_iff.mp member) levels
              (fun depth q nests =>
                fits (depth + 1) q (.nested (Array.mem_toList_iff.mp member) nests))
              (children child member))
            fun child member => encodeBody_ne_nil (children child member)
          have takesSource := takes_string (own.length_source strip)
          have takesLines := takes_many _ (length_unless strip own.lines)
            (fun w _ => takes_word w) fun _ _ => List.cons_ne_nil _ _
          have takesLocals := takes_many _ (length_unless strip own.locals)
            (fun l member => takes_localRange (own.localNames l (mem_of_mem_unless member)))
            fun _ _ => List.cons_ne_nil _ _
          have takesNames := takes_many _ (length_unless strip own.captures)
            (fun c member => takes_string (own.captureNames c (mem_of_mem_unless member)))
            fun _ _ => List.cons_ne_nil _ _
          rw [prototype, nests_loadable]
          refine Takes.congr (takesCode.bind fun _ => takesPool.bind fun _ =>
            (takes_word p.parameters.toUInt32).bind fun _ => (takes_flag p.isVararg).bind fun _ =>
            (takes_word p.window.toUInt32).bind fun _ => (takes_word p.firstLine).bind fun _ =>
            (takes_word p.lastLine).bind fun _ => (takesCaptures.bind fun _ =>
              takesChildren.bind fun _ => takesSource.bind fun _ => takesLines.bind fun _ =>
              takesLocals.bind fun _ => takesNames.bind fun _ => takes_guard _ _ _).unless) ?_ ?_ ?_
          · simp only [encodeCode, encodeSizes, Binary.count, encodeDebug_eq, Array.length_toList,
              List.append_assoc, List.append_nil]
          · simp only [implies_true, true_and, List.map_id', Array.toArray_toList, windowBack,
              Array.mem_toList_iff, Prototype.endsInReturn, Nat.not_lt]
            constructor
            · rintro ⟨valid, window, nested, returns⟩
              exact ⟨⟨valid, returns, window⟩, nested⟩
            · rintro ⟨loadable, nested⟩
              exact ⟨loadable.valid, loadable.window, nested, loadable.returns⟩
          · intro _
            rw [stored_eq]
            simp only [List.map_id', Array.toArray_toList, windowBack, parametersBack,
              toArray_unless, nameCaptures_stored, source_reread]

theorem file_eq (strip : UInt8) (body : List UInt8) :
    file (Binary.signature ++ [Binary.version, strip] ++ body)
      = (prototype (Binary.maxNesting + 1) body >>= fun r =>
          (if r.2.isEmpty then pure r.1 else throw .trailingBytes : Reader Prototype) r.2) := by
  have long : ¬(Binary.signature ++ [Binary.version, strip] ++ body).length
      < Binary.signature.length := by
    simp only [List.length_append]
    omega
  have signed : ((Binary.signature ++ [Binary.version, strip] ++ body).take 6
      != Binary.signature) = false := rfl
  have left : (Binary.signature ++ [Binary.version, strip] ++ body).drop 6
      = Binary.version :: strip :: body := rfl
  simp only [file, bind, StateT.bind, Except.bind, get, getThe, MonadStateOf.get, StateT.get, set,
    StateT.set, pure, Except.pure, long, signed, left, byte, bne_self_eq_false, if_false,
    Bool.false_eq_true]

theorem decode_file {body : List UInt8} {sound : Prop} {p : Prototype} (stripped : UInt8)
    (takes : Takes (prototype (Binary.maxNesting + 1)) body sound p) :
    (sound → decode (Binary.signature ++ [Binary.version, stripped] ++ body) = .ok p) ∧
      (¬sound → ∃ fault,
        decode (Binary.signature ++ [Binary.version, stripped] ++ body) = .error fault) := by
  have here := takes []
  rw [List.append_nil] at here
  constructor
  · intro holds
    rw [decode, file_eq, here.1 holds]
    rfl
  · intro fails
    obtain ⟨fault, failed⟩ := here.2 fails
    rw [decode, file_eq, failed]
    exact ⟨fault, rfl⟩

end Reader

namespace Prototype

/-- What was written is accepted when all of it is loadable, and only as what is stored. -/
theorem decode_written {p : Prototype} {strip : Bool} {bytes : List UInt8}
    (fits : ∀ depth q, p.Nests depth q → q.Fits) (written : p.encode strip = .ok bytes) :
    ((∃ q, decode bytes = .ok q) ↔ ∀ depth q, p.Nests depth q → q.Loadable ∧ depth ≤ 200) ∧
      ∀ q, decode bytes = .ok q → q = p.stored strip := by
  cases body : encodeBody strip p with
  | error fault =>
      rw [encode, body] at written
      contradiction
  | ok form =>
      have layout : Binary.signature ++ [Binary.version, if strip then 1 else 0] ++ form = bytes := by
        rw [encode, body] at written
        exact Except.ok.inj written
      have takes := Reader.takes_prototype strip p (Binary.maxNesting + 1) fits body
      obtain ⟨accepted, refused⟩ := Reader.decode_file (if strip then 1 else 0) takes
      rw [layout] at accepted refused
      have depths : (∀ depth q, p.Nests depth q → q.Loadable ∧ depth ≤ 200) ↔
          ∀ depth q, p.Nests depth q → q.Loadable ∧ depth < Binary.maxNesting + 1 := by
        simp only [Binary.maxNesting, Nat.lt_succ_iff]
      rw [depths]
      constructor
      · constructor
        · rintro ⟨q, read⟩
          by_contra unsound
          obtain ⟨fault, failed⟩ := refused unsound
          rw [read] at failed
          contradiction
        · exact fun sound => ⟨_, accepted sound⟩
      · intro q read
        by_cases sound : ∀ depth q, p.Nests depth q → q.Loadable ∧ depth < Binary.maxNesting + 1
        · rw [accepted sound] at read
          exact (Except.ok.inj read).symm
        · obtain ⟨fault, failed⟩ := refused sound
          rw [read] at failed
          contradiction

theorem encode_roundTrips (p : Prototype) (strip : Bool)
    (fits : ∀ depth q, p.Nests depth q → q.Fits) :
    ((∃ fault, p.encode strip = .error fault) ↔
      ∃ depth q, p.Nests depth q ∧ ∃ k ∈ q.constants, ¬k.Plain) ∧
    ∀ bytes, p.encode strip = .ok bytes →
      ((∃ q, decode bytes = .ok q) ↔ ∀ depth q, p.Nests depth q → q.Loadable ∧ depth ≤ 200) ∧
      ∀ q, decode bytes = .ok q → q = p.stored strip := by
  constructor
  · rw [encode_error, encodeBody_error]
  · exact fun bytes written => decode_written fits written

def leaf : Prototype :=
  { empty with
    code := #[Instruction.abc .ret 0 1 0]
    constants := #[.number 0x7ff8000000000001]
    source := some ""
    lines := #[1] }

def branch : Prototype := { leaf with children := #[leaf], window := 256 }

theorem encode_roundTrips_branch :
    ∃ bytes, branch.encode false = .ok bytes ∧ decode bytes = .ok (branch.stored false) := by
  have within {depth : Nat} {q : Prototype} (nests : branch.Nests depth q) :
      (q = branch ∨ q = leaf) ∧ depth ≤ 1 := by
    cases nests with
    | here => exact ⟨.inl rfl, Nat.zero_le 1⟩
    | nested member nests =>
        have child := List.mem_singleton.mp (Array.mem_toList_iff.mpr member)
        subst child
        cases nests with
        | here => exact ⟨.inr rfl, Nat.le_refl 1⟩
        | nested member _ => exact absurd member (Array.not_mem_empty _)
  have fits (depth : Nat) (q : Prototype) (nests : branch.Nests depth q) : q.Fits := by
    rcases (within nests).1 with rfl | rfl
    all_goals constructor <;> simp [branch, leaf, empty]
  have loadable (depth : Nat) (q : Prototype) (nests : branch.Nests depth q) :
      q.Loadable ∧ depth ≤ 200 := by
    obtain ⟨rfl | rfl, bound⟩ := within nests
    all_goals exact ⟨⟨by decide, by decide, by decide⟩, by omega⟩
  obtain ⟨unwritten, read⟩ := encode_roundTrips branch false fits
  cases written : branch.encode false with
  | error fault =>
      obtain ⟨depth, q, nests, k, member, reference⟩ := unwritten.mp ⟨fault, written⟩
      rcases (within nests).1 with rfl | rfl
      all_goals
        have number := List.mem_singleton.mp (Array.mem_toList_iff.mpr member)
        subst number
        exact absurd trivial reference
  | ok bytes =>
      obtain ⟨readable, exact⟩ := read bytes written
      obtain ⟨q, found⟩ := readable.mpr loadable
      exact ⟨bytes, rfl, by rw [found, exact q found]⟩

end Prototype

end RegisterVm
