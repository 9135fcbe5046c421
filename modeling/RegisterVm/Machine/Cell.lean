import RegisterVm.Machine.Address

/-!
Captured variables. Every capture of a slot shares one cell until the slot's cell is closed, which
detaches it with the value the slot holds at that moment.
-/

namespace RegisterVm

def Thread.cellAt? (th : Thread) (index : Nat) : Option CellRef :=
  (th.openCells.find? fun e => e.1 == index).map Prod.snd

namespace Store

def readCell (s : Store) (ref : CellRef) : Value :=
  match s.cells[ref]? with
  | some (.slot thread index) => (s.thread thread).get index
  | some (.closed value) => value
  | none => .nil

def writeCell (s : Store) (ref : CellRef) (value : Value) : Store :=
  match s.cells[ref]? with
  | some (.slot thread index) => s.modifyThread thread fun th => th.put index value
  | _ => { s with cells := s.cells.setIfInBounds ref (.closed value) }

def closeCell (s : Store) (ref : CellRef) (value : Value) : Store :=
  { s with cells := s.cells.setIfInBounds ref (.closed value) }

def captureSlot (s : Store) (t : ThreadRef) (index : Nat) : CellRef × Store :=
  match (s.thread t).cellAt? index with
  | some ref => (ref, s)
  | none =>
    let (ref, s) := s.newCell (.slot t index)
    (ref, s.modifyThread t fun th => { th with openCells := (index, ref) :: th.openCells })

def closeCells (s : Store) (t : ThreadRef) (level : Nat) : Store :=
  let th := s.thread t
  if th.openCells.isEmpty then s
  else
    let closing := th.openCells.filter fun e => level ≤ e.1
    let s := closing.foldl (fun s e => s.closeCell e.2 (th.get e.1)) s
    s.modifyThread t fun th =>
      { th with openCells := th.openCells.filter fun e => e.1 < level }

def dropThread (s : Store) (t : ThreadRef) : Store := s.closeCells t 0

def cellText (s : Store) (ref : CellRef) : String :=
  match s.cells[ref]? with
  | some (.slot _ index) => "Upvalue(open @" ++ toString index ++ ")"
  | some (.closed value) => "Upvalue(closed " ++ value.quotedText s.address ++ ")"
  | none => ""

end Store

def closeCells (t : ThreadRef) (level : Nat) : Action Unit := modify fun s => s.closeCells t level

end RegisterVm
