/-
Names of stored sheets, and why storage refuses. A name is a line of the listing and part of a file
name: it is not empty and holds no separator and no control character.
-/
import SharedSheet.Text.Lines
import SharedSheet.Text.Printable

namespace SharedSheet

/-- What is wrong with a stored sheet. -/
inductive RecordFault where
  | unexpectedEnd (expected : String)
  | badHistoryLength (text : String)
  | unknownRecord (line : String)
  | escape (e : Text.EscapeError)
  deriving DecidableEq, Repr

def Text.EscapeError.message : Text.EscapeError → String
  | .unknownEscape c => String.ofList ['u', 'n', 'k', 'n', 'o', 'w', 'n', ' ', 'e', 's', 'c', 'a', 'p', 'e', ' ', '\\', c]
  | .danglingBackslash => "dangling backslash"

def RecordFault.message : RecordFault → String
  | .unexpectedEnd expected => "unexpected end of file, expected " ++ expected
  | .badHistoryLength text => "bad history length " ++ Text.quote text
  | .unknownRecord line => "unknown record " ++ Text.quote line
  | .escape e => e.message

/-- A fault and the number of its line, from one on. -/
structure Corrupt where
  line : Nat
  fault : RecordFault
  deriving DecidableEq, Repr

/-- Why a file cannot be read or written. -/
inductive FileFault where
  /-- a folder lies where the file should be -/
  | folder
  /-- the bytes of the file are no text -/
  | notText
  | nameTooLong
  /-- the folder of the files cannot be made -/
  | noFolder
  deriving DecidableEq, Repr

/-- Why a database cannot be used. -/
inductive DatabaseFault where
  /-- a folder lies where a log would have to be -/
  | blocked
  /-- the file holds no tables -/
  | noTables
  /-- a record has two cells of one name -/
  | repeated
  | pathTooLong
  deriving DecidableEq, Repr

/-- The words of the system and of the database engine for what went wrong. -/
structure Causes where
  file : FileFault → String
  database : DatabaseFault → String

/-- Why storage refuses. -/
inductive StorageError where
  | io (f : FileFault)
  | database (f : DatabaseFault)
  | corrupt (c : Corrupt)
  | invalidName (name : String)
  deriving DecidableEq, Repr

def StorageError.message (words : Causes) : StorageError → String
  | .io f => "IO error: " ++ words.file f
  | .database f => "SQLite error: " ++ words.database f
  | .corrupt c => "Corrupt spreadsheet file at line " ++ toString c.line ++ ": " ++ c.fault.message
  | .invalidName name => "Invalid spreadsheet name: " ++ Text.quote name

/-! ## Names -/

/-- The control characters of Unicode. -/
def Text.isControl (c : Char) : Bool := c.toNat < 0x20 || (0x7F ≤ c.toNat && c.toNat ≤ 0x9F)

/-- Whether a sheet can be stored under a name. -/
def isSheetName (name : String) : Bool :=
  name != "" && name != "." && name != ".." &&
    name.toList.all fun c => c != '/' && c != '\\' && !Text.isControl c

/-- Refuses names under which no sheet can be stored. -/
def checkSheetName (name : String) : Except StorageError Unit :=
  if isSheetName name then .ok () else .error (.invalidName name)

end SharedSheet
