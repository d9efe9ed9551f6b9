/-
Settings as a TOML document. Keys may be left out, and unknown ones are ignored. A group of settings can
also be an array of its values in the order of their keys.
-/
import SharedSheet.Settings.Basic
import SharedSheet.Toml.Reader

namespace SharedSheet.Settings

/-- The values at these keys of a group of settings. -/
def group? (keys : List String) : Toml → Option (List (Option Toml))
  | .table _ entries => some (keys.map (Toml.Entries.get? entries))
  | .array _ items => some (keys.mapIdx fun i _ => items[i]?)
  | .moment _ => some (keys.map fun _ => none)
  | _ => none

def text? : Toml → Option String
  | .string s => some s
  | _ => none

/-- A natural number below a bound. -/
def natural? (bound : Nat) : Toml → Option Nat
  | .integer n => if 0 ≤ n ∧ n < bound then some n.toNat else none
  | _ => none

/-- A name of a backend, by itself or as the key of an empty table or array. -/
def backend? : Toml → Option Backend
  | .string s => Backend.ofName? s
  | .table _ [(s, .table _ [])] => Backend.ofName? s
  | .table _ [(s, .array _ [])] => Backend.ofName? s
  | _ => none

/-- The value read from what stands at a key, and the default if there is nothing. -/
def orDefault {α : Type} (read : Toml → Option α) (d : α) : Option Toml → Option α
  | none => some d
  | some v => read v

/-- The bounds of 16, 32 and 64 bits without a sign. -/
def bound (bits : Nat) : Nat := 1 <<< bits

def storage? (v : Toml) : Option (Backend × Option String) := do
  match ← group? ["backend", "dir"] v with
  | [backend, dir] =>
    return (← orDefault backend? default.backend backend, ← orDefault (fun v => (text? v).map some) none dir)
  | _ => none

def policy? (v : Toml) : Option Policy := do
  let cap (v : Toml) : Option (Option Nat) := (natural? (bound 64) v).map some
  match ← group? ["max_cell_history", "max_edits"] v with
  | [history, edits] => return ⟨← orDefault cap none history, ← orDefault cap none edits⟩
  | _ => none

def limits? (v : Toml) : Option Limits := do
  let d := Limits.default
  match ← group? ["max_connections", "max_message_size", "max_parse_failures", "outbound_queue_depth"] v with
  | [connections, size, failures, depth] =>
    return ⟨← orDefault (natural? (bound 64)) d.maxConnections connections,
      ← orDefault (natural? (bound 64)) d.maxMessageSize size,
      ← orDefault (natural? (bound 32)) d.maxParseFailures failures,
      ← orDefault (natural? (bound 64)) d.queueDepth depth⟩
  | _ => none

/-- The settings that a document stands for. -/
def ofEntries? (t : Toml.Entries) : Option Settings := do
  let at? (k : String) := t.get? k
  let (backend, directory) ← orDefault storage? (default.backend, none) (at? "storage")
  return {
    bind := ← orDefault text? default.bind (at? "bind")
    portNumber := ← orDefault (natural? (bound 16)) default.portNumber (at? "port")
    logLevel := ← orDefault text? default.logLevel (at? "log_level")
    backend
    directory
    policy := ← orDefault policy? default.policy (at? "history")
    limits := ← orDefault limits? default.limits (at? "limits") }

/-- Reads and checks a document. -/
def ofText (text : String) : Except SettingsError Settings :=
  match (Toml.parse? text).bind ofEntries? with
  | none => .error .unreadable
  | some s => (s.validate.map fun _ => s).mapError .invalid

/-- Reads and checks the document in a file, given its bytes. Without a file the defaults hold. -/
def ofFile (bytes? : Option (List Text.Byte)) : Except SettingsError Settings :=
  match bytes? with
  | none => .ok default
  | some bytes =>
    match Text.decode? bytes with
    | none => .error .io
    | some text => ofText (String.ofList text)

end SharedSheet.Settings
