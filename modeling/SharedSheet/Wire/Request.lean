/-
Requests on the wire: one JSON object a line, with the kind of the request under `requestType`.
-/
import SharedSheet.Json.Fields
import SharedSheet.Json.Parser
import SharedSheet.Sheet.Request
import SharedSheet.Text.Basic

namespace SharedSheet.Action

/-- The name of an action on the wire. -/
def kindName : Action → String
  | .select _ => "selectCell"
  | .edit .. => "editCell"
  | .revert _ => "revertCell"
  | .undo => "undo"

def toJson (a : Action) : Json :=
  .object (("requestType", .string a.kindName) ::
    match a with
    | .select cell => [("cellName", .string cell)]
    | .edit cell content => [("cellName", .string cell), ("contents", .string content)]
    | .revert cell => [("cellName", .string cell)]
    | .undo => [])

/-- The action that a value stands for. The content of an edit may be left out and is empty then. -/
def ofJson? (v : Json) : Option Action := do
  let (kind, fields) ← Json.Fields.tagged? "requestType" v
  match kind with
  | "selectCell" =>
    match ← fields.select? ["cellName"] with
    | [some (.string cell)] => some (.select cell)
    | _ => none
  | "editCell" =>
    match ← fields.select? ["cellName", "contents"] with
    | [some (.string cell), some (.string content)] => some (.edit cell content)
    | [some (.string cell), none] => some (.edit cell "")
    | _ => none
  | "revertCell" =>
    match ← fields.select? ["cellName"] with
    | [some (.string cell)] => some (.revert cell)
    | _ => none
  | "undo" => (fields.select? []).map fun _ => .undo
  | _ => none

/-- The line of a request, its newline included. -/
def encode (a : Action) : String := a.toJson.render ++ "\n"

/-- Reads the line of a request. Blanks around it do not matter. -/
def decode? (line : String) : Option Action := do ofJson? (← Json.parseChars? (Text.trim line.toList))

end SharedSheet.Action
