/-
Sheets as text files, in lines. A cell is written as a marker, its name, its content, the length of its
history and the entries of the history; an edit as another marker, the name of the cell and its prior
content. The reader takes the lines one by one and stops at the first that cannot go on a record.
-/
import SharedSheet.Number.Literal
import SharedSheet.Number.Shortest
import SharedSheet.Sheet.Cell
import SharedSheet.Storage.Error
import SharedSheet.Text.Lines

namespace SharedSheet

/-- The line in front of a cell. -/
def CellRecord.marker : List Char := "CELL".toList

/-- The line in front of an edit. -/
def EditRecord.marker : List Char := "CELL_EDIT".toList

/-! ## Writing -/

/-- The lines of a cell. -/
def CellRecord.lines (c : CellRecord) : List (List Char) :=
  CellRecord.marker :: Text.escape c.name.toList :: Text.escape c.content.toList ::
    Number.digitsOf c.history.length :: c.history.map fun prior => Text.escape prior.toList

/-- The lines of an edit. -/
def EditRecord.lines (e : EditRecord) : List (List Char) :=
  [EditRecord.marker, Text.escape e.cell.toList, Text.escape e.prior.toList]

namespace SheetRecord

/-- The lines of a sheet: its cells, then its edits. -/
def lines (r : SheetRecord) : List (List Char) :=
  r.cells.flatMap CellRecord.lines ++ r.edits.flatMap EditRecord.lines

/-- The text of a sheet, every line ended by a newline. -/
def text (r : SheetRecord) : List Char := r.lines.flatMap (· ++ ['\n'])

/-! ## Reading -/

/-- What the next line has to hold. -/
inductive Place where
  | marker
  | cellName
  | cellContent (name : String)
  | historyLength (name content : String)
  /-- `left + 1` entries of the history are still to come; those read are listed last one first -/
  | history (name content : String) (left : Nat) (read : List String)
  | editCell
  | editPrior (cell : String)
  deriving DecidableEq, Repr

/-- What is missing when the text ends at a place. -/
def Place.missing? : Place → Option String
  | .marker => none
  | .cellName => some "cell name"
  | .cellContent _ => some "cell content"
  | .historyLength .. => some "history length"
  | .history .. => some "history entry"
  | .editCell => some "edited cell name"
  | .editPrior _ => some "prior content"

/-- The state of the reader: how many lines it has read, the records in them, the last one first, and the
place of the next line. -/
structure Reader where
  line : Nat
  cells : List CellRecord
  edits : List EditRecord
  place : Place
  deriving DecidableEq, Repr

/-- Reads the length of a history: digits, a plus in front of them allowed, below `2 ^ 64`. -/
def readLength? (s : List Char) : Option Nat :=
  let digits := if s.head? = some '+' then s.tail else s
  (Number.readDigits? digits).filter (· < UInt64.size)

namespace Reader

def start : Reader := ⟨0, [], [], .marker⟩

/-- Adds a cell, whose history is listed last one first. -/
def addCell (r : Reader) (name content : String) (read : List String) : Reader :=
  { r with cells := ⟨name, content, read.reverse⟩ :: r.cells, place := .marker }

/-- Takes a value where the place wants one. -/
def takeValue (r : Reader) (value : String) : Except RecordFault Reader :=
  match r.place with
  | .marker => .error (.unknownRecord value)
  | .cellName => .ok { r with place := .cellContent value }
  | .cellContent name => .ok { r with place := .historyLength name value }
  | .historyLength name content =>
    match readLength? value.toList with
    | some 0 => .ok (r.addCell name content [])
    | some (left + 1) => .ok { r with place := .history name content left [] }
    | none => .error (.badHistoryLength value)
  | .history name content 0 read => .ok (r.addCell name content (value :: read))
  | .history name content (left + 1) read => .ok { r with place := .history name content left (value :: read) }
  | .editCell => .ok { r with place := .editPrior value }
  | .editPrior cell => .ok { r with edits := ⟨cell, value⟩ :: r.edits, place := .marker }

/-- Takes one line. -/
def takeLine (r : Reader) (line : List Char) : Except RecordFault Reader :=
  match r.place with
  | .marker =>
    if line = CellRecord.marker then .ok { r with place := .cellName }
    else if line = EditRecord.marker then .ok { r with place := .editCell }
    else .error (.unknownRecord (String.ofList line))
  | _ =>
    match Text.unescape line with
    | .ok value => r.takeValue (String.ofList value)
    | .error e => .error (.escape e)

/-- Takes one line and counts it. -/
def step (r : Reader) (line : List Char) : Except Corrupt Reader :=
  match r.takeLine line with
  | .ok next => .ok { next with line := r.line + 1 }
  | .error fault => .error ⟨r.line + 1, fault⟩

/-- The sheet that has been read, if the last record is complete. -/
def finish (r : Reader) : Except Corrupt SheetRecord :=
  match r.place.missing? with
  | none => .ok ⟨r.cells.reverse, r.edits.reverse⟩
  | some expected => .error ⟨r.line, .unexpectedEnd expected⟩

end Reader

/-- The lines of a text; a newline at its end ends the last line. -/
def linesOf (s : List Char) : List (List Char) :=
  Text.parts '\n' (if s.getLast? = some '\n' then s.dropLast else s)

/-- Reads the text of a sheet. The empty text is the sheet without cells. -/
def ofText (s : List Char) : Except Corrupt SheetRecord :=
  if s.isEmpty then .ok empty else do (← (linesOf s).foldlM Reader.step Reader.start).finish

end SheetRecord

end SharedSheet
