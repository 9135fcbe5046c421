import RegisterVm.Machine.Index

/-!
Reading and writing a field looks at nothing of a store but its tables.
-/

namespace RegisterVm.Store

variable {s s' : Store}

theorem readChain_congr (tables : s'.tables = s.tables) (key : Value) (limit : Nat)
    (object : Value) : s'.readChain key limit object = s.readChain key limit object := by
  obtain ⟨row⟩ := s
  obtain ⟨row'⟩ := s'
  obtain rfl : row' = row := tables
  induction limit generalizing object with
  | zero => rfl
  | succ limit ih =>
      cases object with
      | table ref =>
          simp only [readChain, ih]
          rfl
      | _ => rfl

theorem writeChain_congr (tables : s'.tables = s.tables) (key : Value) (limit : Nat)
    (object : Value) : s'.writeChain key limit object = s.writeChain key limit object := by
  obtain ⟨row⟩ := s
  obtain ⟨row'⟩ := s'
  obtain rfl : row' = row := tables
  induction limit generalizing object with
  | zero => rfl
  | succ limit ih =>
      cases object with
      | table ref =>
          simp only [writeChain, ih]
          rfl
      | _ => rfl

theorem readField_congr (tables : s'.tables = s.tables) (object key : Value) :
    s'.readField object key = s.readField object key := by
  have chain := readChain_congr tables key maxChain
  obtain ⟨row⟩ := s
  obtain ⟨row'⟩ := s'
  obtain rfl : row' = row := tables
  cases object with
  | table ref =>
      simp only [readField, chain]
      rfl
  | _ => rfl

theorem fieldOwner_congr (tables : s'.tables = s.tables) (object key : Value) :
    s'.fieldOwner object key = s.fieldOwner object key := by
  have chain := writeChain_congr tables key maxChain
  obtain ⟨row⟩ := s
  obtain ⟨row'⟩ := s'
  obtain rfl : row' = row := tables
  cases object with
  | table ref =>
      simp only [fieldOwner, chain]
      rfl
  | _ => rfl

end RegisterVm.Store
