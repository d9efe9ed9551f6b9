/-
Sheets: live cells by name, the graph of their references, the cell that each client has selected, and
the log of changes that can be undone. A sheet is built empty or restored from a record, and `record`
gives the record of its present state.
-/
import SharedSheet.RefGraph
import SharedSheet.Sheet.Cell
import SharedSheet.Sheet.Error

namespace SharedSheet

/-- How much of the past is kept; `none` keeps all of it. -/
structure Policy where
  maxCellHistory : Option Nat
  maxEdits : Option Nat
  deriving DecidableEq, Repr

/-- The policy that keeps everything. -/
def Policy.unbounded : Policy := ⟨none, none⟩

/-- An entry of the edit log: the content that a cell had before a change. -/
structure Edit where
  cell : CellName
  prior : String
  deriving DecidableEq, Repr

/-- A shared sheet. -/
structure Sheet where
  cells : Table CellName Cell
  refs : RefGraph CellName
  selections : Table ClientId CellName
  edits : EditLog Edit
  policy : Policy
  deriving DecidableEq

namespace Sheet

/-- The sheet without cells. -/
def new (policy : Policy) : Sheet :=
  ⟨Table.empty, RefGraph.empty, Table.empty, EditLog.empty policy.maxEdits, policy⟩

/-! ## Restoring and recording -/

/-- Puts a stored cell into the sheet. Cells with malformed names and dead cells are passed over, and a
formula that does not parse refers to nothing. -/
def restoreCell (s : Sheet) (r : CellRecord) : Sheet :=
  match CellName.parse? r.name with
  | none => s
  | some name =>
    let cell : Cell := ⟨name.text, r.content, keep s.policy.maxCellHistory r.history⟩
    if cell.isDead then s
    else
      let references := (contentReferences r.content).toOption.getD []
      { s with
        cells := s.cells.insert name cell
        refs := s.refs.replaceDependees name references }

/-- The log entry that a record stands for, unless its name is malformed. -/
def restoreEdit? (r : EditRecord) : Option Edit :=
  (CellName.parse? r.cell).map fun name => ⟨name, r.prior⟩

/-- Rebuilds a sheet from its record under a policy. Nothing is selected. -/
def restore (r : SheetRecord) (policy : Policy) : Sheet :=
  { r.cells.foldl restoreCell (new policy) with
    edits := EditLog.ofEntries (r.edits.filterMap restoreEdit?) policy.maxEdits }

/-- The records of all live cells, in the order of the table. -/
def populated (s : Sheet) : List CellRecord := s.cells.values.map Cell.record

/-- The edit log as it is stored. -/
def history (s : Sheet) : List EditRecord := s.edits.entries.map fun e => ⟨e.cell.text, e.prior⟩

/-- The record of the present state. -/
def record (s : Sheet) : SheetRecord := ⟨s.populated, s.history⟩

/-! ## Queries -/

/-- Reads a cell name that a client gave. -/
def readName (raw : String) : Except SheetError CellName :=
  match CellName.parse? raw with
  | some name => .ok name
  | none => .error (.invalidCellName raw)

/-- The content of a cell, empty if there is no such cell. -/
def content (s : Sheet) (name : CellName) : String :=
  match s.cells.get? name with
  | some cell => cell.content
  | none => ""

/-- The content of a cell that has one. -/
def get (s : Sheet) (raw : String) : Except SheetError String := do
  let name ← readName raw
  if (s.content name).isEmpty then .error (.cellNotFound name) else .ok (s.content name)

/-- Whether a cell is the client's selection. -/
def isSelected (s : Sheet) (client : ClientId) (name : CellName) : Bool :=
  s.selections.get? client == some name

/-- The cells whose formulas refer to a cell, ascending; none for a malformed name. -/
def dependents (s : Sheet) (raw : String) : List CellName :=
  ((CellName.parse? raw).map s.refs.dependentsOf).getD []

/-- The cells that a cell's formula refers to, ascending; none for a malformed name. -/
def dependees (s : Sheet) (raw : String) : List CellName :=
  ((CellName.parse? raw).map s.refs.dependeesOf).getD []

end Sheet

end SharedSheet
