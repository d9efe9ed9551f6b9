/-
The operations of a sheet as procedures that change it in place, one write after the other in the order in which they
happen. A refusal ends a procedure where it stands, and what was written before it stays written. A change of content
looks the cell up, puts the new cell in its place, rewires its references, and takes it out again if it is dead.
-/
import SharedSheet.Sheet.Request

namespace SharedSheet

/-- A procedure on a sheet, which can end with a refusal. -/
abbrev Procedure := EStateM SheetError Sheet

namespace Procedure

/-! ## Writes -/

def setSelection (client : ClientId) (name : CellName) : Procedure Unit :=
  modify fun s => { s with selections := s.selections.insert client name }

def pushEdit (e : Edit) : Procedure Unit := modify fun s => { s with edits := s.edits.push e }

def putCell (name : CellName) (cell : Cell) : Procedure Unit :=
  modify fun s => { s with cells := s.cells.insert name cell }

def rewire (name : CellName) (references : List CellName) : Procedure Unit :=
  modify fun s => { s with refs := s.refs.replaceDependees name references }

def removeIfDead (name : CellName) : Procedure Unit :=
  modify fun s => if (s.cells.get? name).any Cell.isDead then { s with cells := s.cells.erase name } else s

/-- Puts a cell in its place with its references, and takes it out again if it is dead. -/
def place (name : CellName) (cell : Cell) (references : List CellName) : Procedure Unit := do
  putCell name cell
  rewire name references
  removeIfDead name

/-- Refuses references by which the cell would come to depend on itself. -/
def requireAcyclic (name : CellName) (references : List CellName) : Procedure Unit := do
  if (← get).refs.wouldCycle name references then throw (.circularDependency name)

/-- Writes a content that has been checked. -/
def commit (name : CellName) (content : String) (references : List CellName) : Procedure CellUpdate := do
  let s ← get
  match s.cells.get? name with
  | some cell => place name (cell.set content s.policy.maxCellHistory) references
  | none => place name (Cell.new name.text content) references
  return ⟨name, content⟩

/-! ## Operations -/

def select (client : ClientId) (raw : String) : Procedure CellName := do
  let name ← ofExcept (Sheet.readName raw)
  setSelection client name
  return name

def edit (client : ClientId) (raw content : String) : Procedure CellUpdate := do
  let name ← ofExcept (Sheet.readName raw)
  if !(← get).isSelected client name then throw (.notSelected client name)
  let (content, references) ← ofExcept (Sheet.normalize content)
  requireAcyclic name references
  let prior := (← get).content name
  pushEdit ⟨name, prior⟩
  commit name content references

/-- The change is logged before the cell is looked up for writing, and that look-up can fail. -/
def revert (raw : String) : Procedure CellUpdate := do
  let name ← ofExcept (Sheet.readName raw)
  let some cell := (← get).cells.get? name | throw (.cellNotFound name)
  let some previous := cell.previous? | throw (.nothingToRevert name)
  let references ← ofExcept (Sheet.referencesOf previous)
  requireAcyclic name references
  pushEdit ⟨name, cell.content⟩
  let some cell := (← get).cells.get? name | throw (.cellNotFound name)
  let reverted := cell.revert?.getD cell
  place name reverted references
  return ⟨name, reverted.content⟩

/-- The newest entry is looked at first, and taken off the log when all checks are passed. -/
def undo : Procedure CellUpdate := do
  let some e := (← get).edits.peek? | throw .noEditsToUndo
  let references ← ofExcept (Sheet.referencesOf e.prior)
  requireAcyclic e.cell references
  let some (e, older) := (← get).edits.pop? | throw .noEditsToUndo
  modify fun s => { s with edits := older }
  commit e.cell e.prior references

/-- Carries out an action. -/
def request (r : Request) : Procedure Outcome := do
  match r.action with
  | .select raw => return .selected (← select r.client raw)
  | .edit raw content => return .updated (← edit r.client raw content)
  | .revert raw => return .updated (← revert raw)
  | .undo => return .updated (← undo)

end Procedure

/-- Carries out a request in place and says how it ended. -/
def Sheet.applyInPlace (s : Sheet) (r : Request) : Outcome × Sheet :=
  match (Procedure.request r).run s with
  | .ok o s => (o, s)
  | .error e s => (.rejected r.action.target? e, s)

end SharedSheet
