/-
Sheets as the tables of a database file in a directory. While a transaction runs, its log lies beside the
file under one of two names. A log that is there when the file is used belongs to a transaction that never
came to its end: it is removed, and the tables are what they were before.
-/
import SharedSheet.Storage.Directory
import SharedSheet.Storage.Error

namespace SharedSheet.DatabaseFile

/-- The name of the file. -/
def file : String := "cellsync.db"

/-- The log of what a transaction overwrites. -/
def journal : String := "cellsync.db-journal"

/-- The log of what a transaction is going to write. -/
def writeAhead : String := "cellsync.db-wal"

/-- The bytes of a file, none if there is no such file. -/
def bytesOf (d : Directory) (name : String) : List Text.Byte :=
  match Table.get? d name with
  | some (.file bytes) => bytes
  | _ => []

/-- Whether the file is missing or empty. A file of one byte counts as empty. -/
def isVacant (d : Directory) : Bool :=
  match Table.get? d file with
  | none => true
  | some (.file bytes) => bytes.length ≤ 1
  | some _ => false

/-! ## Logs -/

/-- Whether a folder lies where a log would have to be. Then the file cannot be used. -/
def isBlocked (d : Directory) : Bool :=
  Table.get? d journal == some .folder || Table.get? d writeAhead == some .folder

/-- Whether the journal is to be removed: it holds something, and if there are tables that it could be
about, it does not begin with a zero, by which a transaction that is over marks it. -/
def isStale (d : Directory) : Bool :=
  match bytesOf d journal with
  | [] => false
  | b :: _ => b != 0 || isVacant d

/-- The directory with the file in it, made empty if it was missing. -/
def opened (d : Directory) : Directory :=
  if (Table.get? d file).isNone then Table.insert d file (.file []) else d

/-- The directory after the file was used, even if only to read it. -/
def recovered (d : Directory) : Directory :=
  if Table.get? d file == some .folder || isBlocked d then opened d
  else
    let d := opened (if isStale d then Table.erase d journal else d)
    if (bytesOf d writeAhead).isEmpty then d else Table.erase d writeAhead

/-! ## Operations -/

/-- The tables, if the file holds some. -/
def tables (d : Directory) : Except StorageError Database :=
  match Table.get? d file with
  | some (.database tables) => if isBlocked d then .error (.database .blocked) else .ok tables
  | _ => .error (.database .noTables)

/-- Makes sure that there are tables: a missing or an empty file gets them. -/
def prepare (d : Directory) : Except StorageError Directory :=
  if isBlocked d then .error (.database .blocked)
  else if isVacant d then
    .ok (Table.insert (Table.erase (recovered d) journal) file (.database Database.empty))
  else (tables d).map fun _ => recovered d

def list (d : Directory) : Except StorageError (List String) := (tables d).map Database.names

def load (d : Directory) (name : String) : Except StorageError SheetRecord := do
  checkSheetName name
  return (← tables d).load name

/-- Whether a sheet is changed by being saved: it is new, or it has contents before or afterwards. -/
def isChange (t : Database) (name : String) (r : SheetRecord) : Bool :=
  (t.sheetId? name).isNone || !(t.load name).isEmpty || !r.isEmpty

/-- Saves a sheet in a transaction, whose journal is gone when it is over. -/
def save (d : Directory) (name : String) (r : SheetRecord) : Except StorageError Unit × Directory :=
  match checkSheetName name, tables d with
  | .error e, _ => (.error e, d)
  | .ok (), .error e => (.error e, recovered d)
  | .ok (), .ok tables =>
    let d := if isChange tables name r then Table.erase (recovered d) journal else recovered d
    match tables.save? name r with
    | some tables => (.ok (), Table.insert d file (.database tables))
    | none => (.error (.database .repeated), d)

end SharedSheet.DatabaseFile
