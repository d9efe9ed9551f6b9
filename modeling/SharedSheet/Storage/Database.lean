/-
Sheets as rows of tables. The tables hold the names of the sheets, their cells, the histories of the
cells, and their edits. No two sheets have one name, and no two cells of a sheet; a row that would break
this is refused, and with it the whole transaction.
-/
import SharedSheet.Sheet.Cell

namespace SharedSheet

/-- A row of the table of sheets. -/
structure SheetRow where
  id : Nat
  name : String
  deriving DecidableEq, Repr

/-- A row of the table of cells, its sheet and name being its key. -/
structure CellRow where
  sheet : Nat
  name : String
  content : String
  deriving DecidableEq, Repr

/-- A row of the table of histories. Position 0 is the newest. -/
structure HistoryRow where
  sheet : Nat
  cell : String
  position : Nat
  content : String
  deriving DecidableEq, Repr

/-- A row of the table of edits. Position 0 is the newest. -/
structure EditRow where
  sheet : Nat
  position : Nat
  cell : String
  prior : String
  deriving DecidableEq, Repr

/-- The tables. -/
structure Database where
  sheets : List SheetRow
  cells : List CellRow
  histories : List HistoryRow
  edits : List EditRow
  deriving DecidableEq, Repr

namespace Database

/-- The tables without rows. -/
def empty : Database := ⟨[], [], [], []⟩

/-- Sorts rows by a key, rows with the same key staying in order. -/
def orderBy {α κ : Type} [Ord κ] (key : α → κ) (rows : List α) : List α :=
  rows.mergeSort fun a b => (compare (key a) (key b)).isLE

/-- The names of all sheets in ascending order. -/
def names (d : Database) : List String := (orderBy SheetRow.name d.sheets).map (·.name)

/-- The number of the sheet with this name. -/
def sheetId? (d : Database) (name : String) : Option Nat :=
  (d.sheets.find? fun row => row.name == name).map (·.id)

/-! ## Queries -/

/-- The history of a cell, newest first. -/
def historyOf (d : Database) (sheet : Nat) (cell : String) : List String :=
  (orderBy HistoryRow.position (d.histories.filter fun row => row.sheet == sheet && row.cell == cell)).map
    (·.content)

/-- The sheet with this name, its cells ascending by name. -/
def load (d : Database) (name : String) : SheetRecord :=
  match d.sheetId? name with
  | none => SheetRecord.empty
  | some id =>
    { cells := (orderBy CellRow.name (d.cells.filter fun row => row.sheet == id)).map fun row =>
        ⟨row.name, row.content, d.historyOf id row.name⟩
      edits := (orderBy EditRow.position (d.edits.filter fun row => row.sheet == id)).map fun row =>
        ⟨row.cell, row.prior⟩ }

/-! ## Changes -/

/-- The number for a new sheet. -/
def nextId (d : Database) : Nat := (d.sheets.map (·.id)).foldl max 0 + 1

/-- The number of the sheet with this name, which is put into the table if it is not there. -/
def ensureSheet (d : Database) (name : String) : Nat × Database :=
  match d.sheetId? name with
  | some id => (id, d)
  | none => (d.nextId, { d with sheets := d.sheets ++ [⟨d.nextId, name⟩] })

/-- Deletes all rows of a sheet except its name. -/
def clear (d : Database) (sheet : Nat) : Database :=
  { d with
    cells := d.cells.filter fun row => row.sheet != sheet
    histories := d.histories.filter fun row => row.sheet != sheet
    edits := d.edits.filter fun row => row.sheet != sheet }

/-- Inserts a cell with its history, unless the sheet has a cell of that name. -/
def insertCell? (sheet : Nat) (d : Database) (c : CellRecord) : Option Database :=
  if d.cells.any fun row => row.sheet == sheet && row.name == c.name then none
  else
    some { d with
      cells := d.cells ++ [⟨sheet, c.name, c.content⟩]
      histories := d.histories ++ c.history.mapIdx fun position content => ⟨sheet, c.name, position, content⟩ }

/-- Replaces a sheet in one transaction; `none` if it is refused. -/
def save? (d : Database) (name : String) (r : SheetRecord) : Option Database := do
  let (sheet, d) := d.ensureSheet name
  let d ← r.cells.foldlM (insertCell? sheet) (d.clear sheet)
  return { d with edits := d.edits ++ r.edits.mapIdx fun position e => ⟨sheet, position, e.cell, e.prior⟩ }

end Database

end SharedSheet
