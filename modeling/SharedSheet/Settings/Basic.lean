/-
Settings of the service, their defaults, and the rules that they have to satisfy: there is an address to
listen on, and no limit is zero.
-/
import SharedSheet.Sheet.Basic
import SharedSheet.Storage.Store
import SharedSheet.Text.Basic

namespace SharedSheet

/-- What the service allows its clients. -/
structure Limits where
  maxConnections : Nat
  /-- in bytes, the end of the line not counted -/
  maxMessageSize : Nat
  /-- how many lines in a row may be unreadable before the client is dropped -/
  maxParseFailures : Nat
  /-- how many messages may wait for a client -/
  queueDepth : Nat
  deriving DecidableEq, Repr

def Limits.default : Limits := ⟨64, 65536, 3, 256⟩

/-- The settings of the service. Without a directory the default one is meant. -/
structure Settings where
  bind : String
  portNumber : Nat
  logLevel : String
  backend : Backend
  directory : Option String
  policy : Policy
  limits : Limits
  deriving DecidableEq, Repr

/-- What is wrong with settings that can be read. -/
inductive SettingsFault where
  | emptyBind
  | zeroLimit (key : String)
  | zeroHistory (key : String)
  | unknownBackend (name : String)
  deriving DecidableEq, Repr

/-- Why there are no settings. -/
inductive SettingsError where
  | io
  | unreadable
  | invalid (fault : SettingsFault)
  deriving DecidableEq, Repr

namespace SettingsFault

def detail : SettingsFault → String
  | emptyBind => "bind address is empty"
  | zeroLimit key => "limits." ++ key ++ " must be at least 1"
  | zeroHistory key => "history." ++ key ++ " must be at least 1 (omit it for unbounded)"
  | unknownBackend name =>
    "unknown storage backend " ++ Text.quote name ++ " (expected text, sqlite or memory)"

def message (f : SettingsFault) : String := "Invalid config: " ++ f.detail

end SettingsFault

namespace Backend

def name : Backend → String
  | .text => "text"
  | .database => "sqlite"
  | .memory => "memory"

/-- The backend with this name. -/
def ofName? (s : String) : Option Backend :=
  [Backend.text, .database, .memory].find? fun b => b.name == s

/-- The backend with this name in any case of its letters. -/
def ofArgument (s : String) : Except SettingsFault Backend :=
  let name := String.ofList (s.toList.map Char.toLower)
  match ofName? name with
  | some b => .ok b
  | none => .error (.unknownBackend name)

end Backend

namespace Settings

/-- The settings where nothing is set. -/
def default : Settings := ⟨"0.0.0.0", 1100, "info", .text, none, Policy.unbounded, Limits.default⟩

/-- The limits by their keys, in the order in which they are checked. -/
def limitsByKey (l : Limits) : List (String × Nat) :=
  [("max_connections", l.maxConnections), ("max_message_size", l.maxMessageSize),
    ("max_parse_failures", l.maxParseFailures), ("outbound_queue_depth", l.queueDepth)]

/-- The caps on histories by their keys, in the order in which they are checked. -/
def capsByKey (p : Policy) : List (String × Option Nat) :=
  [("max_cell_history", p.maxCellHistory), ("max_edits", p.maxEdits)]

/-- Everything that is wrong with settings, the first fault first. -/
def faults (s : Settings) : List SettingsFault :=
  (if (Text.trim s.bind.toList).isEmpty then [SettingsFault.emptyBind] else []) ++
    ((limitsByKey s.limits).filter fun e => e.2 == 0).map (.zeroLimit ·.1) ++
    ((capsByKey s.policy).filter fun e => e.2 == some 0).map (.zeroHistory ·.1)

/-- Refuses settings with their first fault. -/
def validate (s : Settings) : Except SettingsFault Unit :=
  match s.faults with
  | [] => .ok ()
  | f :: _ => .error f

/-- The address to listen on. A host with colons in it gets brackets if it has none. -/
def listenAddress (s : Settings) : String :=
  let host := s.bind.toList
  let bracketed := if host.contains ':' && host.head? != some '[' then '[' :: host ++ [']'] else host
  String.ofList bracketed ++ ":" ++ toString s.portNumber

end Settings

end SharedSheet
