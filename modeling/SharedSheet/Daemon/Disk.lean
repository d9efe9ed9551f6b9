/-
The files of a machine by their absolute paths, and the folders that a store lives in. The text of a path
is followed name by name, and only from a folder can it be gone on, be it to the folder itself or back.
-/
import SharedSheet.Storage.Directory
import SharedSheet.Text.Lines

namespace SharedSheet

open Text (Byte)

/-- An absolute path: the names from the root on. -/
abbrev Path := List String

namespace Path

/-- One step from a folder: to the folder itself, to the folder that it lies in, or to what has a name. -/
def enter (p : Path) (name : String) : Path :=
  if name.isEmpty ∨ name = "." then p else if name = ".." then p.dropLast else p ++ [name]

/-- Whether a text starts at the root. -/
def isAbsolute (text : String) : Bool := text.toList.head? == some '/'

/-- The names in the text of a path. -/
def names (text : String) : List String := (Text.parts '/' text.toList).map String.ofList

/-- Where the first step of a text starts. -/
def origin (current : Path) (text : String) : Path := if isAbsolute text then [] else current

/-- The path that a text means in the current folder, if all its steps can be made. -/
def resolve (current : Path) (text : String) : Path := (names text).foldl enter (origin current text)

/-- The text of a path. -/
def text (p : Path) : String := String.join (p.map ("/" ++ ·))

/-- The texts of the folders around what a text means, the innermost first. -/
def around (text : String) : List String :=
  let steps := (names text).filter fun name => !name.isEmpty && name != "."
  ((List.range steps.length).drop 1).reverse.map fun n =>
    (if isAbsolute text then "/" else "") ++ "/".intercalate (steps.take n)

/-- How many bytes the text of a path may have. -/
def maxSize : Nat := 4095

/-- Whether a text can be the text of a path. -/
def isUsable (text : String) : Bool :=
  text != "" && text.utf8ByteSize ≤ maxSize && !text.toList.contains '\x00'

end Path

/-- The entries of a machine by the texts of their paths. -/
abbrev Disk := Table String Entry

namespace Disk

/-- Why the text of a path leads nowhere, or why no folder can be made there. -/
inductive Fault where
  /-- a name is not there -/
  | missing
  /-- there is something already -/
  | taken
  /-- nothing can be there -/
  | impossible
  deriving DecidableEq, Repr

/-- What is at a path. The root is a folder. -/
def entry? (d : Disk) (p : Path) : Option Entry :=
  if p.isEmpty then some .folder else Table.get? d p.text

/-! ## Following texts -/

/-- Goes on from a path. -/
def step (d : Disk) (p : Path) (name : String) : Except Fault Path :=
  if d.entry? p != some .folder then .error .impossible
  else if (d.entry? (p.enter name)).isSome then .ok (p.enter name)
  else if Directory.fits name then .error .missing
  else .error .impossible

/-- The path and the entry that a text leads to. -/
def find? (d : Disk) (current : Path) (text : String) : Option (Path × Entry) :=
  if Path.isUsable text then do
    let p ← ((Path.names text).foldlM d.step (Path.origin current text)).toOption
    return (p, ← d.entry? p)
  else none

/-- Whether a text leads to a folder. -/
def isFolder (d : Disk) (current : Path) (text : String) : Bool :=
  (d.find? current text).any fun e => e.2 == .folder

/-! ## Making folders -/

/-- Makes the folder that a text means. The folder in which it is to lie has to be there. -/
def makeFolder (d : Disk) (current : Path) (text : String) : Except Fault Disk := do
  if text = "" then throw .missing
  if !Path.isUsable text then throw .impossible
  match (Path.names text).reverse.dropWhile String.isEmpty with
  | [] => throw .taken
  | name :: before =>
    let p ← before.reverse.foldlM d.step (Path.origin current text)
    match d.step p name with
    | .ok _ => throw .taken
    | .error .missing => return Table.insert d (p.enter name).text .folder
    | .error fault => throw fault

/-- Makes the first of some folders, and the later ones before it if it cannot be made without them: the
disk then, and whether the folder is there. -/
def makeFolderIn (d : Disk) (current : Path) : List String → Disk × Bool
  | [] => (d, true)
  | text :: outer =>
    match d.makeFolder current text with
    | .ok d => (d, true)
    | .error .missing =>
      match d.makeFolderIn current outer with
      | (d, false) => (d, false)
      | (d, true) =>
        match d.makeFolder current text with
        | .ok d => (d, true)
        | .error _ => (d, d.isFolder current text)
    | .error _ => (d, d.isFolder current text)

/-- Makes the folder that a text means and the folders around it, as far as they are missing. The empty
text means the current folder. -/
def makeFolders (d : Disk) (current : Path) (text : String) : Disk × Bool :=
  if text = "" then (d, true) else d.makeFolderIn current (text :: Path.around text)

/-! ## Contents of folders -/

/-- Whether the text of a path is that of something right inside a folder: its name. -/
def nameIn? (p : Path) (path : String) : Option String :=
  let inside := (p.text ++ "/").toList
  let name := path.toList.drop inside.length
  if inside.isPrefixOf path.toList && !name.contains '/' then some (String.ofList name) else none

/-- The entries right inside a folder. -/
def folder (d : Disk) (p : Path) : Directory :=
  Table.ofList (d.entries.filterMap fun (path, e) => (nameIn? p path).map (·, e))

/-- The disk with these entries right inside a folder, in place of those that are there. -/
def putFolder (d : Disk) (p : Path) (entries : Directory) : Disk :=
  entries.entries.foldl (fun d (name, e) => Table.insert d (p.text ++ "/" ++ name) e)
    (Table.filter d fun path _ => (nameIn? p path).isNone)

end Disk

end SharedSheet
