/-
Directories of files, as far as storage needs them: files by name with their contents, folders, and the
operations that change a directory. Renaming is atomic: it takes effect as a whole or not at all.
-/
import SharedSheet.Storage.Database
import SharedSheet.Table
import SharedSheet.Text.Utf8

namespace SharedSheet

open Text (Byte)

/-- What a directory holds under a name. -/
inductive Entry where
  | file (bytes : List Byte)
  | folder
  | database (d : Database)
  deriving DecidableEq

/-- The entries of a directory by name. -/
abbrev Directory := Table String Entry

/-- A change of a directory. -/
inductive FileOp where
  /-- makes an empty file, or empties the file that is there -/
  | create (file : String)
  /-- adds bytes at the end of a file -/
  | append (file : String) (bytes : List Byte)
  /-- waits until everything written to a file is safe -/
  | flush (file : String)
  /-- gives a file a new name, in place of a file of that name -/
  | rename (file target : String)
  deriving DecidableEq, Repr

namespace Directory

/-- How many bytes a file name may have. -/
def maxNameSize : Nat := 255

/-- Whether a file can have this name. -/
def fits (file : String) : Bool := file.utf8ByteSize ≤ maxNameSize

/-- Carries out one operation, or fails and changes nothing. -/
def perform? (d : Directory) : FileOp → Option Directory
  | .create file =>
    if fits file && d.get? file != some .folder then some (d.insert file (.file [])) else none
  | .append file bytes =>
    match d.get? file with
    | some (.file old) => some (d.insert file (.file (old ++ bytes)))
    | _ => none
  | .flush _ => some d
  | .rename file target =>
    match d.get? file with
    | some (.file bytes) =>
      if fits target && d.get? target != some .folder then
        some ((Table.erase d file).insert target (.file bytes))
      else none
    | _ => none

/-- Carries out operations up to the first that fails: the directory then, and whether none failed. -/
def performAll (d : Directory) : List FileOp → Directory × Bool
  | [] => (d, true)
  | op :: ops =>
    match perform? d op with
    | some d => performAll d ops
    | none => (d, false)

end Directory

end SharedSheet
