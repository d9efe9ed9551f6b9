/-
What a connection carries to a client. The handshake that opens it consists of the client's name, the
listing of the sheets, the name of a sheet and the client's number, each on lines of its own. Messages
follow, one JSON object a line, with the kind of the message under `messageType`.
-/
import SharedSheet.Text.Basic
import SharedSheet.Text.Lines
import SharedSheet.Wire.Outcome

namespace SharedSheet

/-! ## The handshake -/

namespace Handshake

/-- The listing of sheets: each name on a line, then an empty line. -/
def listing (names : List String) : String :=
  String.ofList (names.flatMap (fun name => name.toList ++ ['\n']) ++ ['\n'])

/-- Reads a listing up to its first empty line. -/
def parseListing (text : String) : List String :=
  ((Text.lines text.toList).takeWhile fun line => !line.isEmpty).map String.ofList

/-- The line with the client's number. -/
def clientIdLine (c : ClientId) : String := toString c.toNat ++ "\n"

/-- What a line of a client says: the line without blanks around it, if anything is left. -/
def field? (line : String) : Option String :=
  let s := Text.trimmed line
  if s.isEmpty then none else some s

end Handshake

/-! ## Messages -/

/-- What a client can be told. -/
inductive Message where
  | cellUpdated (cell contents : String)
  | cellSelected (cell : String) (selector : ClientId) (selectorName : String)
  | disconnected (user : ClientId)
  | requestError (cell message : String) (kind : Option ErrorKind)
  | serverError (message : String)
  deriving DecidableEq, Repr

namespace Message

/-- A request that could not be read; it was aimed at no cell. -/
def malformedRequest (detail : String) : Message := .requestError "" detail none

/-- The answer to a request that was refused; there is none to a request that was carried out. -/
def ofRejection? (o : Outcome) : Option Message :=
  if o.success then none
  else some (.requestError (o.affectedCell.getD "") (o.message.getD "Request rejected") o.errorKind)

/-- The number of a client as a value. -/
def clientJson (c : ClientId) : Json := .ofNat c.toNat

def toJson : Message → Json
  | .cellUpdated cell contents =>
    .object [("messageType", .string "cellUpdated"), ("cellName", .string cell), ("contents", .string contents)]
  | .cellSelected cell selector selectorName =>
    .object [("messageType", .string "cellSelected"), ("cellName", .string cell),
      ("selector", clientJson selector), ("selectorName", .string selectorName)]
  | .disconnected user => .object [("messageType", .string "disconnected"), ("user", clientJson user)]
  | .requestError cell message kind =>
    .object ([("messageType", .string "requestError"), ("cellName", .string cell), ("message", .string message)] ++
      kind.toList.map (("errorKind", .string ·.code)))
  | .serverError message => .object [("messageType", .string "serverError"), ("message", .string message)]

/-- Nothing under the code of an error class: null or an empty object. -/
def isNothing : Json → Bool
  | .null => true
  | .object [] => true
  | _ => false

/-- The message that a value stands for. -/
def ofJson? (v : Json) : Option Message := do
  let (kind, fields) ← Json.Fields.tagged? "messageType" v
  match kind with
  | "cellUpdated" =>
    match ← fields.select? ["cellName", "contents"] with
    | [some (.string cell), some (.string contents)] => some (.cellUpdated cell contents)
    | _ => none
  | "cellSelected" =>
    match ← fields.select? ["cellName", "selector", "selectorName"] with
    | [some (.string cell), some selector, some (.string selectorName)] =>
      some (.cellSelected cell (← ClientId.ofJson? selector) selectorName)
    | _ => none
  | "disconnected" =>
    match ← fields.select? ["user"] with
    | [some user] => some (.disconnected (← ClientId.ofJson? user))
    | _ => none
  | "requestError" =>
    match ← fields.select? ["cellName", "message", "errorKind"] with
    | [cell, some (.string message), kind] =>
      let cell ← (cell.getD (.string "")).string?
      some (.requestError cell message (← Json.optional (ErrorKind.ofJson? isNothing) kind))
    | _ => none
  | "serverError" =>
    match ← fields.select? ["message"] with
    | [some (.string message)] => some (.serverError message)
    | _ => none
  | _ => none

/-- The line of a message, its newline included. -/
def encode (m : Message) : String := m.toJson.render ++ "\n"

/-- Reads the line of a message. -/
def decode? (line : String) : Option Message := do ofJson? (← Json.parse? line)

end Message

end SharedSheet
