/-
Requests of clients to a sheet, and their outcomes. `apply` carries a request out; a refused request
leaves the sheet as it was.
-/
import SharedSheet.Sheet.Edit

namespace SharedSheet

/-- What a client can ask for. -/
inductive Action where
  | select (cell : String)
  | edit (cell content : String)
  | revert (cell : String)
  | undo
  deriving DecidableEq, Repr

/-- An action of a client. -/
structure Request where
  client : ClientId
  action : Action
  deriving DecidableEq, Repr

/-- How a request ended. -/
structure Outcome where
  success : Bool
  affectedCell : Option String
  newContent : Option String
  errorKind : Option ErrorKind
  message : Option String
  deriving DecidableEq, Repr

namespace Outcome

/-- A selection was made. -/
def selected (cell : CellName) : Outcome := ⟨true, some cell.text, none, none, none⟩

/-- A content was changed. -/
def updated (u : CellUpdate) : Outcome := ⟨true, some u.cell.text, some u.content, none, none⟩

/-- A request, aimed at `target` if at a cell at all, was refused. -/
def rejected (target : Option String) (e : SheetError) : Outcome :=
  ⟨false, target, none, some e.kind, some e.message⟩

end Outcome

/-- The cell that an action is aimed at: its normalised name, or the text as given if that is no name.
Undoing is aimed at no cell. -/
def Action.target? : Action → Option String
  | .select raw | .edit raw _ | .revert raw =>
    some (((CellName.parse? raw).map CellName.text).getD raw)
  | .undo => none

namespace Sheet

/-- Carries out an action: the successful outcome and the new sheet, or the refusal. -/
def perform (s : Sheet) (r : Request) : Except SheetError (Outcome × Sheet) :=
  match r.action with
  | .select raw => (s.select r.client raw).map fun (name, s) => (.selected name, s)
  | .edit raw content => (s.edit r.client raw content).map fun (u, s) => (.updated u, s)
  | .revert raw => (s.revert raw).map fun (u, s) => (.updated u, s)
  | .undo => s.undo.map fun (u, s) => (.updated u, s)

/-- Carries out a request and says how it ended. -/
def apply (s : Sheet) (r : Request) : Outcome × Sheet :=
  match s.perform r with
  | .ok result => result
  | .error e => (.rejected r.action.target? e, s)

end Sheet

end SharedSheet
