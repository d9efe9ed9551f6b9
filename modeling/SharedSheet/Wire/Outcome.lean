/-
Outcomes, and the numbers and error classes in them, as JSON. A part that an outcome does not have is
left out of its object.
-/
import SharedSheet.Json.Fields
import SharedSheet.Json.Parser
import SharedSheet.Sheet.Request

namespace SharedSheet

/-- The client number that a value is. -/
def ClientId.ofJson? : Json → Option ClientId
  | .integer n => if 0 ≤ n ∧ n < UInt64.size then some (UInt64.ofNat n.toNat) else none
  | _ => none

/-- The class that a value stands for: a code, or an object with a code as its only key and nothing under
it, where `isNothing` says what counts as nothing. -/
def ErrorKind.ofJson? (isNothing : Json → Bool) : Json → Option ErrorKind
  | .string code => ErrorKind.ofCode? code
  | .object [(code, v)] => if isNothing v then ErrorKind.ofCode? code else none
  | _ => none

namespace Json

def isNull : Json → Bool
  | .null => true
  | _ => false

/-- A value that may be missing or null: `none` refuses it, `some none` says that there is none. -/
def optional {α : Type} (read : Json → Option α) : Option Json → Option (Option α)
  | none => some none
  | some .null => some none
  | some v => (read v).map some

def string? : Json → Option String
  | .string s => some s
  | _ => none

end Json

namespace Outcome

def toJson (o : Outcome) : Json :=
  .object (("success", .bool o.success) ::
    (o.affectedCell.toList.map (("affected_cell", .string ·)) ++
      o.newContent.toList.map (("new_content", .string ·)) ++
      o.errorKind.toList.map (("error_kind", .string ·.code)) ++
      o.message.toList.map (("message", .string ·))))

/-- The compact text of an outcome. -/
def text (o : Outcome) : String := o.toJson.render

/-- The names of the parts. -/
def declared : List String := ["success", "affected_cell", "new_content", "error_kind", "message"]

/-- The outcome that a record stands for. An object may leave out all but `success`, an array nothing. -/
def ofFields? (fields : Json.Fields) : Option Outcome := do
  if let .positional items := fields then guard (items.length = 5)
  match ← fields.select? declared with
  | [some (.bool success), cell, content, kind, message] =>
    some ⟨success, ← Json.optional Json.string? cell, ← Json.optional Json.string? content,
      ← Json.optional (ErrorKind.ofJson? Json.isNull) kind, ← Json.optional Json.string? message⟩
  | _ => none

/-- Reads the text of an outcome. -/
def decode? (s : String) : Option Outcome := do ofFields? (← Json.Fields.parse? declared s)

end Outcome

namespace Request

/-- The request that a record with `kind`, `cell_name`, `content` and `client` stands for. The two texts
may be missing and are empty then. -/
def ofJson? (v : Json) : Option Request := do
  match ← (← Json.Fields.ofJson? v).select? ["kind", "cell_name", "content", "client"] with
  | [some kind, cell, content, some client] =>
    let cell ← (cell.getD (.string "")).string?
    let content ← (content.getD (.string "")).string?
    let client ← ClientId.ofJson? client
    let kind ←
      match kind with
      | .string kind => some kind
      | .object [(kind, .null)] => some kind
      | _ => none
    match kind with
    | "selectCell" => some ⟨client, .select cell⟩
    | "editCell" => some ⟨client, .edit cell content⟩
    | "revertCell" => some ⟨client, .revert cell⟩
    | "undo" => some ⟨client, .undo⟩
    | _ => none
  | _ => none

end Request

end SharedSheet
