/-
Sheets as text files of a directory, one file a sheet. A sheet is written to a draft first, which then
takes the place of its file.
-/
import SharedSheet.Storage.Directory
import SharedSheet.Storage.RecordText

namespace SharedSheet.TextFiles

/-- The end of the names of sheet files. -/
def suffix : List Char := ".sprd".toList

/-- The file of a sheet. -/
def fileOf (name : String) : String := String.ofList (name.toList ++ suffix)

/-- The file that a sheet is written to before it takes the place of the old one. -/
def draftOf (name : String) : String := String.ofList ('.' :: name.toList ++ suffix ++ ".tmp".toList)

/-- The sheet whose file has this name. -/
def sheetOf? (file : String) : Option String :=
  let chars := file.toList
  if suffix.isSuffixOf chars then
    let name := String.ofList (chars.take (chars.length - suffix.length))
    if isSheetName name then some name else none
  else none

/-- The names of the sheets, ascending. -/
def list (d : Directory) : List String :=
  (d.keys.filterMap sheetOf?).mergeSort fun a b => (compare a b).isLE

/-- The sheet with this name. -/
def load (d : Directory) (name : String) : Except StorageError SheetRecord := do
  checkSheetName name
  match Table.get? d (fileOf name) with
  | none => .ok SheetRecord.empty
  | some (.file bytes) =>
    match Text.decode? bytes with
    | some text => (SheetRecord.ofText text).mapError .corrupt
    | none => .error (.io .notText)
  | some .folder => .error (.io .folder)
  | some (.database _) => .error (.io .notText)

/-- The operations that save a sheet whose text is written in these parts. -/
def saveOps (name : String) (parts : List (List Text.Byte)) : List FileOp :=
  .create (draftOf name) :: parts.map (.append (draftOf name)) ++
    [.flush (draftOf name), .rename (draftOf name) (fileOf name)]

/-- What is wrong when a sheet cannot be saved: the draft's name is the longest of all. -/
def saveFault (name : String) : FileFault := if Directory.fits (draftOf name) then .folder else .nameTooLong

/-- Saves a sheet. -/
def save (d : Directory) (name : String) (r : SheetRecord) : Except StorageError Unit × Directory :=
  match checkSheetName name with
  | .error e => (.error e, d)
  | .ok () =>
    match Directory.performAll d (saveOps name [Text.encode r.text]) with
    | (d, true) => (.ok (), d)
    | (d, false) => (.error (.io (saveFault name)), d)

end SharedSheet.TextFiles
