/-
Why a sheet refuses an operation: the causes, their classes as clients see them, and their texts.
-/
import SharedSheet.Formula.Basic
import SharedSheet.Text.Printable

namespace SharedSheet

/-- The number that the service gives to a client. -/
abbrev ClientId := UInt64

/-- The classes of refusals, each with a code that clients know. -/
inductive ErrorKind where
  | parse
  | divisionByZero
  | undefinedVariable
  | notSelected
  | invalidContent
  | invalidCellName
  | circularDependency
  | cellNotFound
  | nothingToRevert
  | noEditsToUndo
  | storage
  deriving DecidableEq, Repr

namespace ErrorKind

def code : ErrorKind → String
  | .parse => "parse"
  | .divisionByZero => "division_by_zero"
  | .undefinedVariable => "undefined_variable"
  | .notSelected => "not_selected"
  | .invalidContent => "invalid_content"
  | .invalidCellName => "invalid_cell_name"
  | .circularDependency => "circular_dependency"
  | .cellNotFound => "cell_not_found"
  | .nothingToRevert => "nothing_to_revert"
  | .noEditsToUndo => "no_edits_to_undo"
  | .storage => "storage"

/-- All classes. -/
def all : List ErrorKind :=
  [.parse, .divisionByZero, .undefinedVariable, .notSelected, .invalidContent, .invalidCellName,
    .circularDependency, .cellNotFound, .nothingToRevert, .noEditsToUndo, .storage]

/-- The class with this code. -/
def ofCode? (s : String) : Option ErrorKind := all.find? fun k => k.code == s

end ErrorKind

/-- The reasons for refusing an operation on a sheet. -/
inductive SheetError where
  | notSelected (client : ClientId) (cell : CellName)
  | invalidContent (e : FormulaError)
  | invalidCellName (raw : String)
  | circularDependency (cell : CellName)
  | cellNotFound (cell : CellName)
  | nothingToRevert (cell : CellName)
  | noEditsToUndo
  | formula (e : FormulaError)
  deriving DecidableEq, Repr

namespace SheetError

def kind : SheetError → ErrorKind
  | .notSelected .. => .notSelected
  | .invalidContent _ => .invalidContent
  | .invalidCellName _ => .invalidCellName
  | .circularDependency _ => .circularDependency
  | .cellNotFound _ => .cellNotFound
  | .nothingToRevert _ => .nothingToRevert
  | .noEditsToUndo => .noEditsToUndo
  | .formula (.parse _) => .parse
  | .formula .divisionByZero => .divisionByZero
  | .formula (.undefinedVariable _) => .undefinedVariable

def message : SheetError → String
  | .notSelected client cell => "client " ++ toString client.toNat ++ " has not selected " ++ cell.text
  | .invalidContent e => "invalid content: " ++ e.message
  | .invalidCellName raw => "invalid cell name: " ++ Text.quote raw
  | .circularDependency cell => "change to " ++ cell.text ++ " would create a circular dependency"
  | .cellNotFound cell => "cell not found: " ++ cell.text
  | .nothingToRevert cell => cell.text ++ " has no prior content to revert to"
  | .noEditsToUndo => "no edits to undo"
  | .formula e => e.message

/-- The fault of a formula behind the refusal, if there is one. -/
def cause? : SheetError → Option FormulaError
  | .invalidContent e => some e
  | .formula e => some e
  | _ => none

end SheetError

end SharedSheet
