/-
Stores, which keep sheets by name in one of three ways: as text files in a directory, as the tables of a
database file in a directory, or in memory. All three list the names in ascending order, give the empty
sheet for a name that is not there, and refuse names that no sheet can have.
-/
import SharedSheet.Storage.DatabaseFile
import SharedSheet.Storage.TextFiles

namespace SharedSheet

/-- The ways of keeping sheets. -/
inductive Backend where
  | text
  | database
  | memory
  deriving DecidableEq, Repr

/-- The operations of a store whose state has type `σ`. -/
structure Storage (σ : Type) where
  list : σ → Except StorageError (List String)
  load : σ → String → Except StorageError SheetRecord
  save : σ → String → SheetRecord → Except StorageError Unit × σ

/-! ## Memory -/

namespace Memory

def list (m : Table String SheetRecord) : List String := m.keys

def load (m : Table String SheetRecord) (name : String) : Except StorageError SheetRecord := do
  checkSheetName name
  return (m.get? name).getD SheetRecord.empty

def save (m : Table String SheetRecord) (name : String) (r : SheetRecord) :
    Except StorageError Unit × Table String SheetRecord :=
  match checkSheetName name with
  | .error e => (.error e, m)
  | .ok () => (.ok (), m.insert name r)

end Memory

/-! ## Any of them -/

/-- A store: how it keeps sheets, its directory, and what it holds in memory. -/
structure Store where
  backend : Backend
  directory : Directory
  memory : Table String SheetRecord
  deriving DecidableEq

namespace Store

def list (s : Store) : Except StorageError (List String) :=
  match s.backend with
  | .text => .ok (TextFiles.list s.directory)
  | .database => DatabaseFile.list s.directory
  | .memory => .ok (Memory.list s.memory)

def load (s : Store) (name : String) : Except StorageError SheetRecord :=
  match s.backend with
  | .text => TextFiles.load s.directory name
  | .database => DatabaseFile.load s.directory name
  | .memory => Memory.load s.memory name

def save (s : Store) (name : String) (r : SheetRecord) : Except StorageError Unit × Store :=
  match s.backend with
  | .text => let (result, d) := TextFiles.save s.directory name r; (result, { s with directory := d })
  | .database => let (result, d) := DatabaseFile.save s.directory name r; (result, { s with directory := d })
  | .memory => let (result, m) := Memory.save s.memory name r; (result, { s with memory := m })

/-- The store after a look at its sheets. A store may clean up on the way; the sheets stay. -/
def afterList (s : Store) : Store :=
  match s.backend with
  | .database => { s with directory := DatabaseFile.recovered s.directory }
  | _ => s

/-- The store after a look at the sheet with this name. -/
def afterLoad (s : Store) (name : String) : Store := if isSheetName name then s.afterList else s

/-- The store in a directory, opened anew. What an earlier store held in memory is gone. -/
def attach (backend : Backend) (d : Directory) : Except StorageError Store :=
  match backend with
  | .database => (DatabaseFile.prepare d).map fun d => ⟨backend, d, Table.empty⟩
  | _ => .ok ⟨backend, d, Table.empty⟩

/-- Opens a store anew in its directory, or keeps it if that fails. -/
def reopen (s : Store) : Except StorageError Unit × Store :=
  match attach s.backend s.directory with
  | .ok s => (.ok (), s)
  | .error e => (.error e, s.afterList)

/-- The operations of a store. -/
def storage : Storage Store := ⟨list, load, save⟩

end Store

end SharedSheet
