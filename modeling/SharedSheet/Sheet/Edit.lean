/-
Operations on a sheet: selecting a cell, editing the selected cell, reverting a cell to its content
before, and undoing the newest change anywhere. An operation gives a new sheet or refuses; a change of
content is refused when the cell would come to depend on itself.
-/
import SharedSheet.Sheet.Basic
import SharedSheet.Sheet.Cycle

namespace SharedSheet

/-- A change that was made: the cell and its content after it. -/
structure CellUpdate where
  cell : CellName
  content : String
  deriving DecidableEq, Repr

namespace Sheet

/-! ## Selections -/

/-- Makes a cell the client's only selection. -/
def select (s : Sheet) (client : ClientId) (raw : String) : Except SheetError (CellName × Sheet) := do
  let name ← readName raw
  return (name, { s with selections := s.selections.insert client name })

/-- Forgets the client's selection. -/
def deselect (s : Sheet) (client : ClientId) : Sheet :=
  { s with selections := s.selections.erase client }

/-! ## Changes of content -/

/-- The stored form of a content, and the cells that it refers to: formulas are stored in their
canonical form, everything else as it is. -/
def normalize (content : String) : Except SheetError (String × List CellName) :=
  if Formula.isFormulaText content.toList then
    match Formula.parse content with
    | .ok f => .ok (f.text, f.references)
    | .error e => .error (.invalidContent e)
  else .ok (content, [])

/-- The cells that a stored content refers to. -/
def referencesOf (content : String) : Except SheetError (List CellName) :=
  (contentReferences content).mapError .invalidContent

/-- Refuses references that would make the cell depend on itself. -/
def checkAcyclic (s : Sheet) (name : CellName) (references : List CellName) : Except SheetError Unit :=
  if s.refs.wouldCycle name references then .error (.circularDependency name) else .ok ()

/-- The sheet with `cell` in place under a name, unless it is dead, and with its references. -/
def store (s : Sheet) (name : CellName) (cell : Cell) (references : List CellName) : Sheet :=
  { s with
    cells := if cell.isDead then s.cells.erase name else s.cells.insert name cell
    refs := s.refs.replaceDependees name references }

/-- Gives a cell a new content that has been checked. A cell that did not exist gets no history. -/
def commit (s : Sheet) (name : CellName) (content : String) (references : List CellName) : Sheet :=
  let cell :=
    match s.cells.get? name with
    | some cell => cell.set content s.policy.maxCellHistory
    | none => Cell.new name.text content
  s.store name cell references

/-- Sets the content of the cell that the client has selected. -/
def edit (s : Sheet) (client : ClientId) (raw content : String) : Except SheetError (CellUpdate × Sheet) := do
  let name ← readName raw
  if !s.isSelected client name then throw (.notSelected client name)
  let (content, references) ← normalize content
  s.checkAcyclic name references
  let logged := { s with edits := s.edits.push ⟨name, s.content name⟩ }
  return (⟨name, content⟩, logged.commit name content references)

/-- Swaps the content of a cell with the newest entry of its history. -/
def revert (s : Sheet) (raw : String) : Except SheetError (CellUpdate × Sheet) := do
  let name ← readName raw
  match s.cells.get? name with
  | none => .error (.cellNotFound name)
  | some cell =>
    match cell.revert? with
    | none => .error (.nothingToRevert name)
    | some reverted =>
      let references ← referencesOf reverted.content
      s.checkAcyclic name references
      let logged := { s with edits := s.edits.push ⟨name, cell.content⟩ }
      return (⟨name, reverted.content⟩, logged.store name reverted references)

/-- Brings back the content before the newest logged change, and takes the change off the log. -/
def undo (s : Sheet) : Except SheetError (CellUpdate × Sheet) := do
  match s.edits.pop? with
  | none => .error .noEditsToUndo
  | some (edit, older) =>
    let references ← referencesOf edit.prior
    s.checkAcyclic edit.cell references
    return (⟨edit.cell, edit.prior⟩, { s with edits := older }.commit edit.cell edit.prior references)

end Sheet

end SharedSheet
