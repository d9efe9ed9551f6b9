/-
Reading JSON. A machine takes the tokens of a text one by one; its state is the value or the part of a
container at which the text has arrived, and the containers around it, innermost first. Containers may
be nested `maxDepth` deep.
-/
import SharedSheet.Json.Token

namespace SharedSheet.Json

/-- A container that waits for a value; what it holds so far is listed newest first. -/
inductive Frame where
  | array (items : List Json)
  | object (members : List (String × Json)) (key : String)

/-- Where the text has arrived, with the frames around. -/
inductive State where
  /-- a value has to follow -/
  | value (outer : List Frame)
  /-- right behind an opening bracket -/
  | firstItem (outer : List Frame)
  /-- behind an item of an array -/
  | afterItem (items : List Json) (outer : List Frame)
  /-- right behind an opening brace -/
  | firstKey (outer : List Frame)
  /-- behind a comma in an object -/
  | key (members : List (String × Json)) (outer : List Frame)
  /-- behind a key -/
  | colon (members : List (String × Json)) (key : String) (outer : List Frame)
  /-- behind a member of an object -/
  | afterMember (members : List (String × Json)) (outer : List Frame)
  /-- behind the whole value -/
  | done (v : Json)

/-- How deep containers may be nested. -/
def maxDepth : Nat := 127

namespace State

/-- Hands a complete value to the container that waits for it. -/
def deliver (v : Json) : List Frame → State
  | [] => .done v
  | .array items :: outer => .afterItem (v :: items) outer
  | .object members k :: outer => .afterMember ((k, v) :: members) outer

/-- Takes a token where a value has to begin. The limit says how deep containers may be nested. -/
def beginValue (limit : Option Nat) (outer : List Frame) : Token → Option State
  | .scalar v => v.map (deliver · outer)
  | .string s => s.map fun s => deliver (.string s) outer
  | .openBracket => if limit.all (outer.length < ·) then some (.firstItem outer) else none
  | .openBrace => if limit.all (outer.length < ·) then some (.firstKey outer) else none
  | _ => none

/-- Takes one token. -/
def step (limit : Option Nat) (state : State) (t : Token) : Option State :=
  match state, t with
  | .value outer, t => beginValue limit outer t
  | .firstItem outer, .closeBracket => some (deliver (.array []) outer)
  | .firstItem outer, t => beginValue limit (.array [] :: outer) t
  | .afterItem items outer, .comma => some (.value (.array items :: outer))
  | .afterItem items outer, .closeBracket => some (deliver (.array items.reverse) outer)
  | .firstKey outer, .closeBrace => some (deliver (.object []) outer)
  | .firstKey outer, .string k => k.map (.colon [] · outer)
  | .key members outer, .string k => k.map (.colon members · outer)
  | .colon members k outer, .colon => some (.value (.object members k :: outer))
  | .afterMember members outer, .comma => some (.key members outer)
  | .afterMember members outer, .closeBrace => some (deliver (.object members.reverse) outer)
  | _, _ => none

end State

/-- Reads the one value that a text consists of. -/
def parseChars? (s : List Char) : Option Json := do
  match ← (← scan s).foldlM (State.step (some maxDepth)) (.value []) with
  | .done v => some v
  | _ => none

@[inherit_doc parseChars?]
def parse? (s : String) : Option Json := parseChars? s.toList

end SharedSheet.Json
