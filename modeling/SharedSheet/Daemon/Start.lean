/-
The start of the daemon: it reads its command line and its configuration file, opens its storage, and
listens. It ends at once if one of these fails, and otherwise when its console says so.
-/
import SharedSheet.Daemon.Arguments
import SharedSheet.Daemon.Disk
import SharedSheet.Settings.Document
import SharedSheet.Storage.Store
import SharedSheet.Text.Lines

namespace SharedSheet.Daemon

/-- The machine that the daemon runs on: its disk, the current folder, the folders for configuration and
for data, and the addresses on which one can listen. -/
structure Machine where
  disk : Disk
  current : Path
  configFolder : Path
  dataFolder : Path
  canListen : String → Bool

/-- Why the daemon did not come to listen. -/
inductive Failure where
  | arguments (s : Arguments.Stop)
  | settings (e : SettingsError)
  | storage (e : StorageError)
  | address
  deriving DecidableEq, Repr

/-- The exit code of a failure. Asking for information is none. -/
def Failure.code : Failure → Nat
  | .arguments .misuse => 2
  | .arguments _ => 0
  | .settings _ => 2
  | .storage _ => 1
  | .address => 1

/-- What is said about invalid settings. -/
def Failure.invalidSettings? : Failure → Option String
  | .settings (.invalid f) => some ("cellsyncd: " ++ f.message)
  | _ => none

/-- The configuration file, if no other is named. -/
def defaultConfig (m : Machine) : Path := m.configFolder ++ ["cellsync", "server.toml"]

/-- The folder of the sheets, if no other is named. -/
def defaultFolder (m : Machine) : Path := m.dataFolder ++ ["cellsync", "spreadsheets"]

/-- The settings in the file that a text leads to. What is there but is no file cannot be read. -/
def loadSettings (m : Machine) (text : String) : Except SettingsError Settings :=
  match m.disk.find? m.current text with
  | none => Settings.ofFile none
  | some (_, .file bytes) => Settings.ofFile (some bytes)
  | some _ => .error .io

/-- The text of the configuration file's path. -/
def configText (m : Machine) (a : Arguments) : String := a.config.getD (defaultConfig m).text

/-- The settings of the configuration file and the command line. They are checked both before and after
the command line takes effect. -/
def settings (m : Machine) (a : Arguments) : Except SettingsError Settings := do
  let s := a.override (← loadSettings m (configText m a))
  match s.validate with
  | .ok () => .ok s
  | .error f => .error (.invalid f)

/-! ## Storage -/

/-- The text of the path of the folder that the sheets are in. -/
def folderText (m : Machine) (s : Settings) : String := s.directory.getD (defaultFolder m).text

/-- How many bytes the absolute path of a database file may have. -/
def maxDatabasePath : Nat := 504

/-- How many bytes the absolute paths on the way to a database file may have. -/
def maxDatabaseStep : Nat := 511

/-- Whether a database file in a folder has paths that are short enough. -/
def fitsDatabase (m : Machine) (folder : String) : Bool :=
  let names := Path.names folder
  let steps := (List.range (names.length + 1)).map fun n =>
    (names.take n).foldl Path.enter (Path.origin m.current folder)
  steps.all (fun p => p.text.utf8ByteSize ≤ maxDatabaseStep) &&
    ((Path.resolve m.current folder).enter DatabaseFile.file).text.utf8ByteSize ≤ maxDatabasePath

/-- Opens the storage, its folder made first: the disk then, and the store with the path of its folder. -/
def openStorage (m : Machine) (s : Settings) : Disk × Except StorageError (Store × Path) :=
  let text := folderText m s
  if s.backend = .memory then (m.disk, (Store.attach .memory Table.empty).map (·, m.current))
  else
    match m.disk.makeFolders m.current text with
    | (disk, false) => (disk, .error (.io .noFolder))
    | (disk, true) =>
      let folder := Path.resolve m.current text
      if s.backend = .database && !fitsDatabase m text then (disk, .error (.database .pathTooLong))
      else
        match Store.reopen ⟨s.backend, disk.folder folder, Table.empty⟩ with
        | (.ok (), store) => (disk.putFolder folder store.directory, .ok (store, folder))
        | (.error e, store) => (disk.putFolder folder store.directory, .error e)

/-- A daemon that listens, and the folder of its sheets. -/
structure Running where
  settings : Settings
  store : Store
  folder : Path

/-- Starts the daemon: the disk then, and the running daemon. -/
def start (m : Machine) (args : List String) : Disk × Except Failure Running :=
  match Arguments.empty.read args with
  | .error stop => (m.disk, .error (.arguments stop))
  | .ok a =>
    match settings m a with
    | .error e => (m.disk, .error (.settings e))
    | .ok s =>
      let (disk, opened) := openStorage m s
      match opened with
      | .error e => (disk, .error (.storage e))
      | .ok (store, folder) =>
        if m.canListen s.listenAddress then (disk, .ok ⟨s, store, folder⟩) else (disk, .error .address)

/-- Whether a line of the console ends the daemon. -/
def isQuit (line : List Char) : Bool :=
  let word := Text.trim line
  word == "quit".toList || word == "exit".toList

/-- Whether a console text ends the daemon. -/
def quits (console : String) : Bool := (Text.lines console.toList).any isQuit

end SharedSheet.Daemon
