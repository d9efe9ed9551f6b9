/-
The daemon on a real machine. Here the files, the console and the connections are; all decisions are made
by the definitions that this module calls. Sheets are kept as text files or in memory.
-/
import SharedSheet.Daemon.Start
import SharedSheet.Service.Session
import Std.Async.DNS
import Std.Async.TCP

namespace SharedSheet.Daemon

open Std.Async Std.Net

/-! ## Files -/

/-- What is at a path of the machine. -/
def readEntry (p : Path) : IO (Option Entry) := do
  let file := (← IO.currentDir) / p.text
  if ← file.isDir then return some .folder
  if ← file.pathExists then return some (.file (← IO.FS.readBinFile file).toList)
  return none

/-- The disk with what is at a path. -/
def addEntry (d : Disk) (p : Path) : IO Disk := do
  match ← readEntry p with
  | some e => return Table.insert d p.text e
  | none => return d

/-- The disk with what is at all paths on the way that a text describes. -/
def addText (d : Disk) (current : Path) (text : String) : IO Disk := do
  let mut disk := d
  for n in [0:current.length] do disk ← addEntry disk (current.take (n + 1))
  let mut p := Path.origin current text
  for name in Path.names text do
    p := p.enter name
    disk ← addEntry disk p
  return disk

/-- The disk with what is right inside a folder. -/
def addFolder (d : Disk) (p : Path) : IO Disk := do
  let mut disk := d
  let folder := (← IO.currentDir) / p.text
  if ← folder.isDir then
    for e in ← folder.readDir do
      disk ← addEntry disk (p ++ [e.fileName])
  return disk

/-- Makes the folders that are on one disk and not on another. -/
def makeNewFolders (before after : Disk) : IO Unit := do
  for (path, e) in after.entries do
    if e == .folder && (Table.get? before path).isNone then IO.FS.createDirAll path

/-- Writes the files of a folder that differ from those before, each under a draft's name first. -/
def writeChanges (p : Path) (before after : Directory) : IO Unit := do
  for (name, e) in after.entries do
    if let .file bytes := e then
      if Table.get? before name ≠ some e then
        let folder := (← IO.currentDir) / p.text
        IO.FS.writeBinFile (folder / ("." ++ name ++ ".tmp")) ⟨bytes.toArray⟩
        IO.FS.rename (folder / ("." ++ name ++ ".tmp")) (folder / name)

/-- A folder that an environment variable names by its absolute path, or else one below the home folder. -/
def folderOf (setting : String) (below : List String) : IO Path := do
  match (← IO.getEnv setting).filter fun s => s.toList.head? = some '/' with
  | some s => return Path.resolve [] s
  | none =>
    let home := Path.resolve [] ((← IO.getEnv "HOME").getD ".")
    return home ++ below

/-- The machine, as far as a command line makes the daemon look at it. -/
def machine (args : List String) : IO Machine := do
  let current := Path.resolve [] (← IO.currentDir).toString
  let m : Machine := {
    disk := Table.empty
    current
    configFolder := ← folderOf "XDG_CONFIG_HOME" [".config"]
    dataFolder := ← folderOf "XDG_DATA_HOME" [".local", "share"]
    canListen := fun _ => true }
  match Arguments.empty.read args with
  | .error _ => return m
  | .ok a =>
    let m := { m with disk := ← addText m.disk current (configText m a) }
    match settings m a with
    | .error _ => return m
    | .ok s =>
      let disk ← addText m.disk current (folderText m s)
      return { m with disk := ← addFolder disk (Path.resolve current (folderText m s)) }

/-! ## Words -/

def fileWords : FileFault → String
  | .folder => "Is a directory"
  | .notText => "stream did not contain valid UTF-8"
  | .nameTooLong => "File name too long"
  | .noFolder => "Not a directory"

/-- What this machine says about a fault. It has no database engine of its own. -/
def wording : Wording where
  file := fileWords
  database _ := "there is no database engine on this machine"
  request _ := "the line is no request"

/-! ## Connections -/

/-- An open connection: its socket, its session, and the reader of its lines. -/
structure Connection where
  socket : TCP.Socket.Client
  session : Session
  reader : LineReader

/-- Sends a text to a connection. -/
def send (socket : TCP.Socket.Client) (text : String) : IO Unit :=
  if text.isEmpty then return else (socket.send text.toUTF8).block

/-- What has arrived on a connection since the last look: bytes, and whether the stream has ended. -/
def arrived (socket : TCP.Socket.Client) : IO (List Text.Byte × Bool) := do
  try
    match ← (socket.recvSelector 4096).tryFn.block with
    | none => return ([], false)
    | some none => return ([], true)
    | some (some bytes) => return (bytes.toList, false)
  catch _ => return ([], true)

/-- Takes in the connections that wait. -/
def acceptAll (server : TCP.Socket.Server) (v : Service Store) (connections : List Connection) :
    IO (Service Store × List Connection) := do
  match ← server.tryAccept with
  | none => return (v, connections)
  | some socket =>
    match v.accept with
    | (.ok session, v) =>
      return (v, connections ++ [⟨socket, session, LineReader.new v.limits.maxMessageSize⟩])
    | (.error text, v) =>
      send socket text
      socket.shutdown.block
      return (v, connections)

/-- Serves the connections once, and drops those whose sessions are finished. -/
def serveAll (v : Service Store) (connections : List Connection) : IO (Service Store × List Connection) := do
  let mut v := v
  let mut kept := #[]
  for c in connections do
    let (bytes, ended) ← arrived c.socket
    let (text, session, reader, w) := v.feed Store.storage c.session c.reader bytes ended
    v := w
    let alive ← try send c.socket text; pure true catch _ => pure false
    if alive && session.phase ≠ .finished then kept := kept.push { c with session, reader }
    else
      v := v.leave Store.storage session
      try c.socket.shutdown.block catch _ => pure ()
  return (v, kept.toList)

/-- The address to listen on, looked up if need be. -/
def lookUp (s : Settings) : IO SocketAddress := do
  let host := String.ofList (s.bind.toList.filter fun c => c ≠ '[' ∧ c ≠ ']')
  let found : Array IPAddr ← (DNS.getAddrInfo host (toString s.portNumber)).block
  match found[0]? with
  | some (IPAddr.v4 addr) => return SocketAddress.v4 ⟨addr, UInt16.ofNat s.portNumber⟩
  | some (IPAddr.v6 addr) => return SocketAddress.v6 ⟨addr, UInt16.ofNat s.portNumber⟩
  | none => throw (IO.userError "no such address")

/-! ## The command -/

/-- Reads the console until it tells the daemon to end. -/
def watchConsole (stop : IO.Ref Bool) : IO Unit := do
  let input ← IO.getStdin
  let mut reading := true
  while reading do
    let line ← input.getLine
    if line.isEmpty then reading := false
    else if quits line then
      stop.set true
      reading := false

/-- Listens and serves until the console tells the daemon to end. -/
def run (r : Running) : IO UInt32 := do
  let server ← TCP.Socket.Server.mk
  try
    server.bind (← lookUp r.settings)
    server.listen 128
  catch e =>
    IO.eprintln ("cellsyncd: cannot listen on " ++ r.settings.listenAddress ++ ": " ++ toString e)
    return 1
  let stop ← IO.mkRef false
  discard <| IO.asTask (watchConsole stop) .dedicated
  let mut v := Service.new (Controller.new r.store (Registry.new r.settings.limits.queueDepth) r.settings.policy)
    r.settings.limits wording
  let mut connections : List Connection := []
  while !(← stop.get) do
    let before := v.controller.stored.directory
    (v, connections) ← acceptAll server v connections
    (v, connections) ← serveAll v connections
    writeChanges r.folder before v.controller.stored.directory
    IO.sleep 50
  let before := v.controller.stored.directory
  v := v.stop Store.storage
  writeChanges r.folder before v.controller.stored.directory
  discard <| serveAll v connections
  return 0

/-- What is said about a failure. -/
def complaint : Failure → String
  | .arguments .help =>
    "Usage: cellsyncd [--config FILE] [--bind HOST] [--port PORT] [--data-dir DIR] [--storage text|sqlite|memory] [--verbose]"
  | .arguments .version => "cellsyncd 0.1.0"
  | .arguments .misuse => "cellsyncd: unusable arguments (try --help)"
  | .settings (.invalid f) => "cellsyncd: " ++ f.message
  | .settings .io => "cellsyncd: cannot read the configuration file"
  | .settings .unreadable => "cellsyncd: the configuration file is no settings document"
  | .storage e => "cellsyncd: cannot open storage: " ++ e.message wording.toCauses
  | .address => "cellsyncd: cannot listen"

/-- Runs the daemon with the arguments of its command line: the exit code. -/
def command (args : List String) : IO UInt32 := do
  let m ← machine args
  let (disk, result) := start m args
  match result with
  | .error f =>
    makeNewFolders m.disk disk
    if f.code = 0 then IO.println (complaint f) else IO.eprintln (complaint f)
    return UInt32.ofNat f.code
  | .ok r =>
    if r.settings.backend = .database then
      IO.eprintln "cellsyncd: there is no database engine on this machine"
      return 1
    makeNewFolders m.disk disk
    run r

end SharedSheet.Daemon

def main (args : List String) : IO UInt32 := SharedSheet.Daemon.command args
