/-
Sessions, one for each connection. A session starts with a handshake: the client says its name, gets a
listing of the sheets, names a sheet, and gets its cells and its own number. After that every line is a
request. Too many unreadable lines in a row end the session, and so does a line that is too long.
-/
import SharedSheet.Service.Controller
import SharedSheet.Service.Framing
import SharedSheet.Settings.Basic
import SharedSheet.Wire.Message
import SharedSheet.Wire.Request

namespace SharedSheet

/-- How far a session is. -/
inductive Phase where
  | naming
  | choosing (username : String)
  | serving (failures : Nat)
  | finished
  deriving DecidableEq, Repr

/-- What the service has counted, in 64 bits: sessions that ended for unreadable lines and for lines that
were too long, and connections that were refused. -/
structure Metrics where
  parseFailures : UInt64
  oversize : UInt64
  refused : UInt64
  deriving DecidableEq, Repr

/-- The words that a service passes on: beside those for what went wrong in the storage, those of the reader
of requests for what is wrong with an unreadable line. -/
structure Wording extends Causes where
  request : String → String

/-- The service: the controller, the limits, the words, and what was counted. -/
structure Service (σ : Type) where
  controller : Controller σ
  limits : Limits
  wording : Wording
  metrics : Metrics

/-- The session of a client. -/
structure Session where
  client : ClientId
  phase : Phase
  deriving DecidableEq, Repr

/-! ## Requests -/

/-- What a session does about a line behind the handshake. -/
inductive Reaction where
  | skip
  | perform (a : Action)
  | complain (giveUp : Bool)
  deriving DecidableEq, Repr

/-- The reaction to a line, and the number of unreadable lines in a row then. A session gives up at
`limit` of them. Blank lines do not count, and do not interrupt a row either. -/
def Reaction.toLine (limit failures : Nat) (line : String) : Reaction × Nat :=
  if (Text.trim line.toList).isEmpty then (.skip, failures)
  else
    match Action.decode? line with
    | some a => (.perform a, 0)
    | none => (.complain (limit ≤ failures + 1), failures + 1)

namespace Service

variable {σ : Type}

/-- The service before the first connection. -/
def new (controller : Controller σ) (limits : Limits) (wording : Wording) : Service σ :=
  ⟨controller, limits, wording, ⟨0, 0, 0⟩⟩

/-- Takes a connection in, or refuses it with a last text. -/
def accept (v : Service σ) : Except String Session × Service σ :=
  if v.limits.maxConnections ≤ v.controller.registry.connections then
    (.error (Message.serverError "Server full").encode,
      { v with metrics := { v.metrics with refused := v.metrics.refused + 1 } })
  else
    let (client, controller) := v.controller.register
    (.ok ⟨client, .naming⟩, { v with controller })

/-- The complaint about an unreadable line. -/
def unreadableLine (detail : String) : Message := .malformedRequest ("Malformed request: " ++ detail)

/-- The complaint about a line that is too long. -/
def oversizeLine (limit : Nat) : Message := .malformedRequest ("Message exceeds " ++ toString limit ++ " bytes")

/-- Writes out what is queued for a client: the text, whether more can come, and the service then. -/
def flush (v : Service σ) (c : ClientId) : String × Bool × Service σ :=
  let (messages, closed, registry) := v.controller.registry.drain c
  (String.join (messages.map Message.encode), !closed, { v with controller := { v.controller with registry } })

/-- What a client gets when it has joined a sheet: the cells with a content, and the client's number. -/
def welcome (c : ClientId) (cells : List CellRecord) : String :=
  String.join ((cells.filter fun cell => !cell.content.isEmpty).map fun cell =>
    (Message.cellUpdated cell.name cell.content).encode) ++ Handshake.clientIdLine c

/-- A line of a session: the text that is written back at once, the phase then, and the service. -/
def takeLine (ops : Storage σ) (v : Service σ) (s : Session) (line : String) : String × Phase × Service σ :=
  match s.phase with
  | .naming =>
    match Handshake.field? line with
    | some username => (Handshake.listing (v.controller.sheetNames ops), .choosing username, v)
    | none => ("", .naming, v)
  | .choosing username =>
    match Handshake.field? line with
    | some sheetName =>
      match v.controller.connect ops s.client username sheetName with
      | .ok (cells, controller) => (welcome s.client cells, .serving 0, { v with controller })
      | .error e => ((Message.serverError (e.message v.wording.toCauses)).encode, .finished, v)
    | none => ("", .choosing username, v)
  | .serving failures =>
    match Reaction.toLine v.limits.maxParseFailures failures line with
    | (.skip, failures) => ("", .serving failures, v)
    | (.perform a, failures) => ("", .serving failures, { v with controller := v.controller.handle s.client a })
    | (.complain giveUp, failures) =>
      let registry := v.controller.registry.send s.client (unreadableLine (v.wording.request line))
      let v := { v with controller := { v.controller with registry } }
      if giveUp then
        let v := { v with metrics := { v.metrics with parseFailures := v.metrics.parseFailures + 1 } }
        let (text, _, v) := v.flush s.client
        (text, .finished, v)
      else ("", .serving failures, v)
  | .finished => ("", .finished, v)

/-- What a session does when an attempt to read has ended. -/
def take (ops : Storage σ) (v : Service σ) (s : Session) : ReadEvent → String × Phase × Service σ
  | .line line => v.takeLine ops s line
  | .idle => ("", s.phase, v)
  | .closed => ("", .finished, v)
  | .tooLong =>
    ((oversizeLine v.limits.maxMessageSize).encode, .finished,
      { v with metrics := { v.metrics with oversize := v.metrics.oversize + 1 } })

/-- One round of a session. A session that is served first gets what is queued for it, and ends if no more
can come; then it reads. -/
def round (ops : Storage σ) (v : Service σ) (s : Session) (event : ReadEvent) : String × Session × Service σ :=
  match s.phase with
  | .serving _ =>
    let (queued, isOpen, v) := v.flush s.client
    if isOpen then
      let (text, phase, v) := v.take ops s event
      (queued ++ text, { s with phase }, v)
    else (queued, { s with phase := .finished }, v)
  | _ =>
    let (text, phase, v) := v.take ops s event
    (text, { s with phase }, v)

/-- Feeds bytes that have arrived to a session; behind them the stream has ended, or else it pauses. The
result is the text that is written back, and the session, its reader and the service then. -/
def feed (ops : Storage σ) (v : Service σ) (s : Session) (r : LineReader) (bytes : List Text.Byte) (ended : Bool) :
    String × Session × LineReader × Service σ :=
  let (event, r, rest) := r.poll ⟨[bytes], ended⟩
  let (text, s, v) := v.round ops s event
  let later := rest.pieces.headD []
  let goesOn : Bool :=
    match event with
    | .line _ => true
    | .idle => ended
    | _ => false
  if s.phase = .finished then (text, s, r, v)
  else if goesOn ∧ later.length < bytes.length then
    let (more, s, r, v) := feed ops v s r later ended
    (text ++ more, s, r, v)
  else (text, s, r, v)
termination_by bytes.length
decreasing_by
  rename_i h
  simpa only [later, List.headD_eq_head?_getD] using h.2

/-- The end of a session: the client leaves its sheet and the registry. -/
def leave (ops : Storage σ) (v : Service σ) (s : Session) : Service σ :=
  let controller := v.controller.disconnect ops s.client
  let registry := (controller.registry.unregister s.client).abandon s.client
  { v with controller := { controller with registry } }

/-- The end of the service. -/
def stop (ops : Storage σ) (v : Service σ) : Service σ := { v with controller := v.controller.shutdown ops }

end Service

end SharedSheet
