/-
Records in JSON. A record is written as an object with named members or as an array of its values in
declared order. Which members an object has besides the declared ones does not matter; a declared one
must not be there twice. A reader that knows the declared names skips the other members: their text
must have the form of a value, but the value may be missing and as deep as it likes.
-/
import SharedSheet.Json.Parser

namespace SharedSheet.Json

/-- The values of a record as they are written. -/
inductive Fields where
  | named (members : List (String × Json))
  | positional (items : List Json)

namespace Fields

/-- The record that a value is. -/
def ofJson? : Json → Option Fields
  | .object members => some (.named members)
  | .array items => some (.positional items)
  | _ => none

/-- The kind of a record and the record without it. An object names its kind under the key `tag`, once;
in an array it comes first. -/
def tagged? (tag : String) : Json → Option (String × Fields)
  | .object members =>
    match members.filter fun m => m.1 == tag with
    | [(_, .string kind)] => some (kind, .named (members.filter fun m => m.1 != tag))
    | _ => none
  | .array (.string kind :: items) => some (kind, .positional items)
  | _ => none

/-- The value under a name, `none` if there is none; refuses a name that is there twice. -/
def member? (members : List (String × Json)) (name : String) : Option (Option Json) :=
  match members.filter fun m => m.1 == name with
  | [] => some none
  | [(_, v)] => some (some v)
  | _ => none

/-- The values of the declared members, in declared order. An array may stop early, but it must not go
on behind the last one. -/
def select? (declared : List String) : Fields → Option (List (Option Json))
  | .named members => declared.mapM (member? members)
  | .positional items =>
    if items.length ≤ declared.length then
      some (items.map some ++ List.replicate (declared.length - items.length) none)
    else none

/-! ## Reading -/

/-- Where the text of a record has arrived: in the part that is read, or in a member that is skipped, with
the members that were read before it. -/
inductive Progress where
  | reading (state : State)
  | skipping (state : State) (members : List (String × Json))

/-- A token with a value, whatever it is, where only the form counts. -/
def form : Token → Token
  | .string _ => .string (some "")
  | .scalar _ => .scalar (some .null)
  | t => t

/-- Takes one token. -/
def Progress.step (declared : List String) (p : Progress) (t : Token) : Option Progress :=
  match p, t with
  | .reading (.colon members key []), .colon =>
    some (if declared.contains key then .reading (.value [.object members key])
      else .skipping (.value []) members)
  | .reading state, t => (state.step (some maxDepth) t).map .reading
  | .skipping state members, t =>
    (state.step none (form t)).map fun
      | .done _ => .reading (.afterMember members [])
      | state => .skipping state members

/-- Reads the one record that a text consists of. -/
def parse? (declared : List String) (s : String) : Option Fields := do
  match ← (← scan s.toList).foldlM (Progress.step declared) (.reading (.value [])) with
  | .reading (.done v) => ofJson? v
  | _ => none

end Fields

end SharedSheet.Json
