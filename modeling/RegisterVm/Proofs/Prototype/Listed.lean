import RegisterVm.Prototype.Listing
import RegisterVm.Proofs.Prototype.Canonical
import RegisterVm.Proofs.Prototype.Jumps

/-!
What a listing shows. Every prototype has one section, in the order in which the prototypes are
nested, and in its section every item has one line. The numbers that lines show are those of the
items, but the ends of a local range are counted in 32 bits.
-/

namespace RegisterVm

namespace Prototype

section Sections

def at? : Prototype → List Nat → Option Prototype
  | p, [] => some p
  | p, index :: path =>
    match p.children[index]? with
    | some child => child.at? path
    | none => none

mutual

def sections : Prototype → List (List Nat × Prototype)
  | ⟨code, constants, ⟨children⟩, captures, parameters, isVararg, window, source, lines, locals,
      firstLine, lastLine⟩ =>
    ([], ⟨code, constants, ⟨children⟩, captures, parameters, isVararg, window, source, lines,
      locals, firstLine, lastLine⟩) :: childSections 0 children

def childSections (index : Nat) : List Prototype → List (List Nat × Prototype)
  | [] => []
  | p :: rest =>
    p.sections.map (fun place => (index :: place.1, place.2)) ++ childSections (index + 1) rest

end

theorem sections_eq (p : Prototype) :
    p.sections = ([], p) :: childSections 0 p.children.toList := by
  obtain ⟨code, constants, ⟨children⟩, captures, parameters, isVararg, window, source, lines,
    locals, firstLine, lastLine⟩ := p
  rw [sections]

theorem linesAt_eq (indent name : String) (p : Prototype) : p.linesAt indent name =
    (p.ownLines name).map (indent ++ ·) ++ childLines ("  " ++ indent) 0 p.children.toList := by
  obtain ⟨code, constants, ⟨children⟩, captures, parameters, isVararg, window, source, lines,
    locals, firstLine, lastLine⟩ := p
  rw [linesAt]

theorem mem_childSections {path : List Nat} {q : Prototype} {index : Nat} {ps : List Prototype} :
    (path, q) ∈ childSections index ps ↔
      ∃ i child rest, ps[i]? = some child ∧ path = (index + i) :: rest ∧
        (rest, q) ∈ child.sections := by
  induction ps generalizing index with
  | nil => simp [childSections]
  | cons p ps ih =>
      rw [childSections, List.mem_append, ih]
      constructor
      · rintro (here | ⟨i, child, rest, found, rfl, inside⟩)
        · obtain ⟨⟨rest, q'⟩, inside, same⟩ := List.mem_map.1 here
          obtain ⟨rfl, rfl⟩ := Prod.mk.inj same
          exact ⟨0, p, rest, rfl, rfl, inside⟩
        · exact ⟨i + 1, child, rest, found, by rw [Nat.add_assoc, Nat.add_comm 1], inside⟩
      · rintro ⟨i, child, rest, found, rfl, inside⟩
        cases i with
        | zero =>
            obtain rfl := Option.some.inj found
            exact .inl (List.mem_map.2 ⟨(rest, q), inside, rfl⟩)
        | succ i =>
            exact .inr ⟨i, child, rest, found, by rw [Nat.add_assoc, Nat.add_comm 1], inside⟩

theorem mem_sections (p : Prototype) :
    ∀ path q, (path, q) ∈ p.sections ↔ p.at? path = some q := by
  induction p using nested_induction with
  | step p ih =>
      intro path q
      rw [sections_eq, List.mem_cons, mem_childSections]
      cases path with
      | nil => simp [at?, eq_comm]
      | cons index path =>
          simp only [Prod.mk.injEq, List.cons_ne_nil, false_and, false_or, Nat.zero_add,
            List.cons.injEq, Array.getElem?_toList, at?]
          constructor
          · rintro ⟨i, child, rest, found, ⟨rfl, rfl⟩, inside⟩
            rw [found]
            exact (ih child (Array.mem_of_getElem? found) path q).1 inside
          · intro leads
            split at leads
            · rename_i child found
              exact ⟨index, child, path, found, ⟨rfl, rfl⟩,
                (ih child (Array.mem_of_getElem? found) path q).2 leads⟩
            · contradiction

theorem sorted_childSections {index : Nat} {ps : List Prototype}
    (each : ∀ p ∈ ps, (p.sections.map Prod.fst).Pairwise (· < ·)) :
    ((childSections index ps).map Prod.fst).Pairwise (· < ·) := by
  induction ps generalizing index with
  | nil => exact .nil
  | cons p ps ih =>
      rw [childSections, List.map_append, List.pairwise_append]
      refine ⟨?_, ih fun q member => each q (List.mem_cons_of_mem _ member), ?_⟩
      · rw [List.map_map, List.pairwise_map]
        have first := each p List.mem_cons_self
        rw [List.pairwise_map] at first
        exact first.imp fun less => List.cons_lt_cons_self.2 less
      · intro a inside b beyond
        obtain ⟨⟨_, q⟩, member, rfl⟩ := List.mem_map.1 inside
        obtain ⟨⟨rest, _⟩, -, same⟩ := List.mem_map.1 member
        obtain ⟨rfl, -⟩ := Prod.mk.inj same
        obtain ⟨⟨_, r⟩, later, rfl⟩ := List.mem_map.1 beyond
        obtain ⟨i, child, path, -, rfl, -⟩ := mem_childSections.1 later
        exact List.cons_lt_cons_iff.2 (.inl (by omega))

theorem sorted_sections (p : Prototype) : (p.sections.map Prod.fst).Pairwise (· < ·) := by
  induction p using nested_induction with
  | step p ih =>
      rw [sections_eq, List.map_cons, List.pairwise_cons]
      refine ⟨?_, sorted_childSections fun child member => ih child (by simpa using member)⟩
      intro path member
      obtain ⟨⟨_, q⟩, inside, rfl⟩ := List.mem_map.1 member
      obtain ⟨i, child, rest, -, rfl, -⟩ := mem_childSections.1 inside
      exact List.nil_lt_cons _ _

def nameAt (name : String) (path : List Nat) : String := (path.getLast?.map childName).getD name

def margin (depth : Nat) : String := String.ofList (List.replicate (2 * depth) ' ')

theorem nameAt_cons (name : String) (index : Nat) (path : List Nat) :
    nameAt name (index :: path) = nameAt (childName index) path := by
  simp only [nameAt, List.getLast?_cons]
  cases path.getLast? <;> rfl

theorem margin_succ (depth : Nat) : "  " ++ margin depth = margin (depth + 1) := by
  rw [margin, margin, Nat.mul_succ, Nat.add_comm, ← List.replicate_append_replicate,
    String.ofList_append]
  rfl

def sectionLines (name : String) (depth : Nat) (place : List Nat × Prototype) : List String :=
  (place.2.ownLines (nameAt name place.1)).map (margin (depth + place.1.length) ++ ·)

theorem childLines_sections {depth index : Nat} {name : String} {ps : List Prototype}
    (each : ∀ p ∈ ps, ∀ name, p.linesAt (margin (depth + 1)) name =
      p.sections.flatMap (sectionLines name (depth + 1))) :
    childLines (margin (depth + 1)) index ps =
      (childSections index ps).flatMap (sectionLines name depth) := by
  induction ps generalizing index with
  | nil => rfl
  | cons p ps ih =>
      rw [childLines, childSections, List.flatMap_append, List.flatMap_map,
        ih fun q member => each q (List.mem_cons_of_mem _ member), each p List.mem_cons_self]
      congr 2
      funext place
      rw [sectionLines, sectionLines, nameAt_cons, List.length_cons, Nat.add_assoc depth 1,
        Nat.add_comm 1]

theorem linesAt_sections (p : Prototype) : ∀ depth name,
    p.linesAt (margin depth) name = p.sections.flatMap (sectionLines name depth) := by
  induction p using nested_induction with
  | step p ih =>
      intro depth name
      rw [linesAt_eq, sections_eq, List.flatMap_cons, margin_succ,
        childLines_sections fun child member => ih child (by simpa using member) (depth + 1)]
      rfl

end Sections

theorem nests_of_at {p q : Prototype} {path : List Nat} (leads : p.at? path = some q) :
    p.Nests path.length q := by
  induction path generalizing p with
  | nil =>
      obtain rfl := Option.some.inj leads
      exact .here p
  | cons index path ih =>
      rw [at?] at leads
      split at leads
      · rename_i child found
        exact .nested (Array.mem_of_getElem? found) (ih leads)
      · contradiction

section Items

def titled (count : Nat) : Nat := if count = 0 then 0 else count + 1

theorem length_section (title : String) (items : List String) :
    (section? title items).length = titled items.length := by
  cases items with
  | nil => rfl
  | cons item items => simp [section?, titled]

theorem getElem?_section {title item : String} {items : List String} {k : Nat}
    (there : items[k]? = some item) :
    (section? title items)[k + 1]? = some ("  " ++ toString k ++ " " ++ item) := by
  cases items with
  | nil => simp at there
  | cons first items =>
      rw [section?, List.isEmpty_cons, if_neg Bool.false_ne_true, List.getElem?_cons_succ,
        List.getElem?_mapIdx, there]
      rfl

/-- Every item of a prototype has its line, and there are no lines but those of the items and the
headings. -/
structure Itemizes (p : Prototype) (lines : List String) : Prop where
  length : lines.length = 2 + p.code.size + titled p.constants.size + titled p.locals.size +
    titled p.captures.size
  instructions : ∀ pc i, p.code[pc]? = some i → lines[2 + pc]? = some (p.instructionLine pc i)
  constants : ∀ k c, p.constants[k]? = some c →
    lines[2 + p.code.size + (k + 1)]? =
      some ("  " ++ toString k ++ " " ++ ("= " ++ c.value.quotedText))
  locals : ∀ k l, p.locals[k]? = some l →
    lines[2 + p.code.size + titled p.constants.size + (k + 1)]? =
      some ("  " ++ toString k ++ " " ++ localLine l)
  captures : ∀ k c, p.captures[k]? = some c →
    lines[2 + p.code.size + titled p.constants.size + titled p.locals.size + (k + 1)]? =
      some ("  " ++ toString k ++ " " ++ captureLine c)

theorem getElem?_between (before : List String) {among : List String} (after : List String)
    {k : Nat} {line : String} (there : among[k]? = some line) :
    (before ++ among ++ after)[before.length + k]? = some line := by
  have inside := (List.getElem?_eq_some_iff.1 there).1
  rw [List.append_assoc, List.getElem?_append_right (Nat.le_add_right _ _),
    Nat.add_sub_cancel_left, List.getElem?_append_left inside, there]

variable (p : Prototype)

def instructionLines : List String := p.code.toList.mapIdx fun pc i => p.instructionLine pc i

def constantLines : List String := section? "constants" <|
  p.constants.toList.map fun k => "= " ++ k.value.quotedText

def localLines : List String := section? "locals" (p.locals.toList.map localLine)

def captureLines : List String := section? "upvalues" (p.captures.toList.map captureLine)

theorem ownLines_eq (name : String) : p.ownLines name =
    p.header name ++ p.instructionLines ++ p.constantLines ++ p.localLines ++ p.captureLines := rfl

theorem length_instructionLines : p.instructionLines.length = p.code.size := by
  rw [instructionLines, List.length_mapIdx, Array.length_toList]

theorem length_constantLines : p.constantLines.length = titled p.constants.size := by
  rw [constantLines, length_section, List.length_map, Array.length_toList]

theorem length_localLines : p.localLines.length = titled p.locals.size := by
  rw [localLines, length_section, List.length_map, Array.length_toList]

theorem length_captureLines : p.captureLines.length = titled p.captures.size := by
  rw [captureLines, length_section, List.length_map, Array.length_toList]

theorem itemizes_ownLines (name : String) : p.Itemizes (p.ownLines name) := by
  have header : (p.header name).length = 2 := rfl
  have code := p.length_instructionLines
  have constants := p.length_constantLines
  have locals := p.length_localLines
  have captures := p.length_captureLines
  rw [ownLines_eq]
  refine ⟨?_, fun pc i there => ?_, fun k c there => ?_, fun k l there => ?_, fun k c there => ?_⟩
  · simp only [List.length_append, header, code, constants, locals, captures]
  · have line : p.instructionLines[pc]? = some (p.instructionLine pc i) := by
      simp [instructionLines, there]
    have found := getElem?_between (p.header name)
      (p.constantLines ++ p.localLines ++ p.captureLines) line
    rw [header] at found
    simpa only [List.append_assoc] using found
  · have line : p.constantLines[k + 1]? =
        some ("  " ++ toString k ++ " " ++ ("= " ++ c.value.quotedText)) :=
      getElem?_section (by simp [there])
    have found := getElem?_between (p.header name ++ p.instructionLines)
      (p.localLines ++ p.captureLines) line
    rw [List.length_append, header, code] at found
    simpa only [List.append_assoc] using found
  · have line : p.localLines[k + 1]? = some ("  " ++ toString k ++ " " ++ localLine l) :=
      getElem?_section (by simp [there])
    have found := getElem?_between (p.header name ++ p.instructionLines ++ p.constantLines)
      p.captureLines line
    simpa only [List.append_assoc, List.length_append, header, code, constants, Nat.add_assoc]
      using found
  · have line : p.captureLines[k + 1]? = some ("  " ++ toString k ++ " " ++ captureLine c) :=
      getElem?_section (by simp [there])
    have found := getElem?_between
      (p.header name ++ p.instructionLines ++ p.constantLines ++ p.localLines) [] line
    simpa only [List.append_assoc, List.append_nil, List.length_append, header, code, constants,
      locals, Nat.add_assoc] using found

end Items

section Numbers

theorem toNat_succ {n : UInt32} (small : n.toNat + 1 < 2 ^ 32) : (n + 1).toNat = n.toNat + 1 := by
  rw [UInt32.toNat_add]
  exact Nat.mod_eq_of_lt small

theorem eq_last {n : UInt32} (large : ¬n.toNat + 1 < 2 ^ 32) : n = 4294967295 := by
  have bound := n.toNat_lt
  exact UInt32.toNat_inj.1 (show n.toNat = 4294967295 by omega)

def rangeText (l : LocalRange) : String :=
  l.name ++ " " ++ toString (l.startPc.toNat + 1) ++ "-" ++ toString (l.endPc.toNat + 1)

theorem localLine_eq_iff (l : LocalRange) : localLine l = rangeText l ↔
    l.startPc.toNat + 1 < 2 ^ 32 ∧ l.endPc.toNat + 1 < 2 ^ 32 := by
  constructor
  · intro same
    have chars := congrArg String.toList same
    simp only [localLine, rangeText, String.toList_append, List.append_assoc,
      List.append_cancel_left_eq] at chars
    by_cases start : l.startPc.toNat + 1 < 2 ^ 32
    · refine ⟨start, ?_⟩
      by_contra large
      rw [toNat_succ start, List.append_cancel_left_eq, List.append_cancel_left_eq,
        eq_last large] at chars
      exact absurd chars (by decide)
    · have shown : (toString ((4294967295 : UInt32) + 1).toNat).toList = ['0'] := by decide
      have meant : (toString ((4294967295 : UInt32).toNat + 1)).toList =
          '4' :: "294967296".toList := by decide
      rw [eq_last start, shown, meant] at chars
      exact absurd (List.cons.inj chars).1 (by decide)
  · rintro ⟨start, last⟩
    rw [localLine, rangeText, toNat_succ start, toNat_succ last]

end Numbers

section Targets

variable {p : Prototype} {pc : Nat} {i : Instruction} {op : Opcode}

/-- Executing the instruction at `pc` sends a frame to `target`, unless it ends a loop or fails. -/
def Sends (p : Prototype) (pc : Nat) (op : Opcode) (target : Int) : Prop :=
  ∀ (m : Machine) (host : Host) t f closure, m.Fetches t f closure → closure.prototype = p →
    f.pc = pc → ∃ s', m.step host = Machine.goTo s' m.activities t p.code.size (pc + 1) target ∨
      (op = .forLoop ∨ op = .iterLoop) ∧
        m.step host = Machine.goTo s' m.activities t p.code.size (pc + 1) (pc + 1 : Nat) ∨
      ∃ e, m.step host = ⟨s', m.activities, .fail e⟩

theorem sends_jump (there : p.code[pc]? = some i) (opcode : i.opcode? = some op)
    (jumps : op.layout = .asbx) : p.Sends pc op (pc + 1 + i.sbx) := by
  rintro m host t f closure fetches rfl rfl
  cases executed : Context.execute ⟨t, f, closure, f.pc + 1⟩ op i
      (m.store.modifyThread t fun th => th.setPc (f.pc + 1)) with
  | ok flow s' =>
      refine ⟨s', ?_⟩
      rcases Context.execute_jumps jumps executed with rfl | ⟨rfl, loop⟩
      · left
        rw [fetches.step_next host there opcode executed]
        simp
      · exact .inr (.inl ⟨loop, fetches.step_next host there opcode executed⟩)
  | error e s' =>
      refine ⟨s', .inr (.inr ⟨e, ?_⟩)⟩
      rw [fetches.step_eq]
      simp only [Machine.runInstruction, there, opcode, Machine.perform, executed]

theorem instructionLine_jump (opcode : i.opcode? = some op) (jumps : op.layout = .asbx) :
    ∃ front, p.instructionLine pc i =
      front ++ "\t; to " ++ toString ((pc : Int) + 1 + i.sbx + 1) := by
  have note : p.note? pc i = some ("to " ++ toString ((pc : Int) + 2 + i.sbx)) := by
    rw [note?, opcode]
    cases op <;> simp [Opcode.layout] at jumps ⊢
  have target : (pc : Int) + 2 + i.sbx = pc + 1 + i.sbx + 1 := by omega
  have joined : ∀ front number : String,
      front ++ ("\t; " ++ ("to " ++ number)) = front ++ "\t; to " ++ number := by
    intro front number
    have mark : "\t; to " = "\t; " ++ "to " := rfl
    simp only [mark, String.append_assoc]
  rw [instructionLine, note, target]
  exact ⟨_, joined _ _⟩

end Targets

/-- What the lines of prototype `p` show, apart from the ends of ranges beyond 32 bits. -/
structure Tells (p : Prototype) : Prop where
  places : p.code.size < 2 ^ 32 ∧ ∀ i ∈ p.code, i.opcode?.isSome
  /-- A jump names the instruction that it sends its frame to, counted from one. -/
  jumps : ∀ pc i op, p.code[pc]? = some i → i.opcode? = some op → op.layout = .asbx →
    ∃ target : Int, p.Sends pc op target ∧ -2 ^ 63 ≤ target + 1 ∧ target + 1 < 2 ^ 63 ∧
      ∃ front, p.instructionLine pc i = front ++ "\t; to " ++ toString (target + 1)
  ranges : ∀ l ∈ p.locals, localLine l = rangeText l ↔
    l.startPc.toNat + 1 < 2 ^ 32 ∧ l.endPc.toNat + 1 < 2 ^ 32

theorem tells_of_decoded {bytes : List UInt8} {p q : Prototype} {depth : Nat}
    (accepted : decode bytes = .ok p) (nests : p.Nests depth q) :
    depth ≤ Binary.maxNesting ∧ q.Tells := by
  obtain ⟨f, strip, ⟨readable, -⟩, rfl⟩ := decode_ok.mp accepted
  obtain ⟨shallow, g, sound, rfl⟩ := readable.nests nests
  refine ⟨Nat.le_of_lt_succ shallow, ⟨sound.fits.code, sound.loadable.valid⟩, ?_,
    fun l _ => localLine_eq_iff l⟩
  intro pc i op there opcode jumps
  have inside := (Array.getElem?_eq_some_iff.1 there).1
  have small := sound.fits.code
  have offset := i.sbx_bounds
  exact ⟨pc + 1 + i.sbx, sends_jump there opcode jumps, by omega, by omega,
    instructionLine_jump opcode jumps⟩

/-- The listing of prototype `p`: a section for each path that leads to a prototype, in the order of
the paths, with a line for each item. -/
structure Lists (p : Prototype) : Prop where
  lines : p.listing = String.join ((p.sections.flatMap (sectionLines "main" 0)).map (· ++ "\n"))
  paths : ∀ path q, (path, q) ∈ p.sections ↔ p.at? path = some q
  sorted : (p.sections.map Prod.fst).Pairwise (· < ·)
  items : ∀ path q, (path, q) ∈ p.sections →
    path.length ≤ Binary.maxNesting ∧ q.Tells ∧ ∀ name, q.Itemizes (q.ownLines name)

/-- The listing of what was accepted shows everything once, and as it is but for the ends of ranges
that are counted beyond 32 bits. -/
theorem listing_of_decoded {bytes : List UInt8} {p : Prototype} (accepted : decode bytes = .ok p) :
    p.Lists := by
  refine ⟨?_, p.mem_sections, p.sorted_sections, fun path q member => ?_⟩
  · rw [← p.linesAt_sections 0 "main"]
    rfl
  · have leads := (p.mem_sections path q).1 member
    obtain ⟨shallow, tells⟩ := tells_of_decoded accepted (nests_of_at leads)
    exact ⟨shallow, tells, q.itemizes_ownLines⟩

def lastingForm : Form :=
  ⟨[.asbx .jump 0 0, .abc .ret 0 1 0], [], 0, 0, 2, 0, 0, [], [], "", [],
    [⟨"x", 0, 4294967295⟩], []⟩

def lastingBytes : List UInt8 := Binary.signature ++ [Binary.version, 0] ++ lastingForm.bytes

theorem lastingForm_sound : lastingForm.Sound := by
  refine ⟨by decide, ⟨by decide, nofun⟩, by decide, by decide, by decide, by decide, by decide,
    by decide, by decide, ?_⟩
  rw [Form.prototype_eq]
  decide

/-- The range from 1 to 4294967296 is shown as one to 0. -/
theorem listing_of_decoded_lasting : ∃ p, decode lastingBytes = .ok p ∧ p.Lists ∧
    ∃ l ∈ p.locals, localLine l = "x 1-0" ∧ rangeText l = "x 1-4294967296" := by
  have accepted := decode_ok.mpr ⟨lastingForm, 0, ⟨⟨lastingForm_sound, nofun⟩, rfl⟩, rfl⟩
  refine ⟨_, accepted, listing_of_decoded accepted, ⟨"x", 0, 4294967295⟩, ?_, by decide, by decide⟩
  rw [Form.prototype_eq]
  exact Array.mem_of_getElem? (i := 0) rfl

end Prototype

end RegisterVm
