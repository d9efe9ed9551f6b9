/-
Reading TOML documents: keys, values, and the lines of a document. Arrays and inline tables lie inside
one another less than `maxDepth` deep.
-/
import SharedSheet.Toml.Scalar
import SharedSheet.Toml.Text

namespace SharedSheet.Toml

/-- Reads one thing or more with separators between them. Behind a separator, `ends` may tell from the
text that no more follow. -/
def readSeparated {α : Type} (separator : Char) (ends : List Char → Bool)
    (read : List Char → Option (α × List Char)) (s : List Char) : Option (List α × List Char) :=
  match read s with
  | none => none
  | some (a, []) => some ([a], [])
  | some (a, c :: r) =>
    if c ≠ separator then some ([a], c :: r)
    else if ends r then some ([a], r)
    else if r.length < s.length then
      (readSeparated separator ends read r).map fun (as, r) => (a :: as, r)
    else none
termination_by s.length

/-! ## Keys -/

/-- The characters of keys without quotes. -/
def isKeyChar (c : Char) : Bool := c.isAlphanum || c == '_' || c == '-'

/-- Reads a key without dots, and the blanks around it. -/
def readPlainKey (s : List Char) : Option (String × List Char) :=
  let found : Option (List Char × List Char) :=
    match skipBlanks s with
    | [] => none
    | c :: s =>
      if c = '"' ∨ c = '\'' then readLine c s
      else if isKeyChar c then some (c :: s.takeWhile isKeyChar, s.dropWhile isKeyChar)
      else none
  found.map fun (k, r) => (String.ofList k, skipBlanks r)

/-- One more than the number of parts that a key may have, and than the depth of values. -/
def maxDepth : Nat := 80

/-- Reads a key of one part or more, with dots between the parts. -/
def readKey (s : List Char) : Option (List String × List Char) :=
  (readSeparated '.' (fun _ => false) readPlainKey s).filter fun (k, _) => k.length < maxDepth

/-! ## Values -/

/-- Reads a pair of a key and a value, where `read` reads values. -/
def readPair (read : List Char → Option (Toml × List Char)) (s : List Char) :
    Option ((List String × Toml) × List Char) := do
  match ← readKey s with
  | (k, '=' :: r) =>
    let (v, r) ← read (skipBlanks r)
    return ((k, v), skipBlanks r)
  | _ => none

/-- Reads the items of an array behind its bracket, where `read` reads values. -/
def readArray (read : List Char → Option (Toml × List Char)) (s : List Char) : Option (Toml × List Char) := do
  let item (s : List Char) := (read (skipFiller s)).map fun (v, r) => (v, skipFiller r)
  let closes (s : List Char) : Bool := (skipFiller s).head? == some ']'
  let (items, r) ← if closes s then some ([], s) else readSeparated ',' closes item s
  match skipFiller r with
  | ']' :: r => return (.array false items, r)
  | _ => none

/-- Reads the pairs of an inline table behind its brace, where `read` reads values. -/
def readInlineTable (read : List Char → Option (Toml × List Char)) (s : List Char) :
    Option (Toml × List Char) := do
  let (pairs, r) ←
    if (skipBlanks s).head? = some '}' then some ([], skipBlanks s)
    else readSeparated ',' (fun _ => false) (readPair read) s
  match r with
  | '}' :: r =>
    let entries : Entries ← pairs.foldlM (fun t (k, v) => Entries.addPair v k t) []
    return (.table .inline entries, r)
  | _ => none

/-- Reads a value with arrays and inline tables up to so many levels deep. -/
def readValue (levels : Nat) (s : List Char) : Option (Toml × List Char) :=
  match levels, s with
  | n + 1, '[' :: s => readArray (readValue n) s
  | n + 1, '{' :: s => readInlineTable (readValue n) s
  | _, s =>
    match readString s with
    | some (t, r) => some (.string t, r)
    | none => readScalar s

/-! ## Documents -/

/-- Reads a line that is not empty. -/
def readStatement : List Char → Option (Statement × List Char)
  | '[' :: '[' :: s => do
    match ← readKey s with
    | (path, ']' :: ']' :: r) => return (.element path, ← endLine? r)
    | _ => none
  | '[' :: s => do
    match ← readKey s with
    | (path, ']' :: r) => return (.table path, ← endLine? r)
    | _ => none
  | s => do
    let ((k, v), r) ← readPair (readValue (maxDepth - 1)) s
    return (.pair k v, ← endLine? r)

/-- Reads the lines of a document. -/
def readStatements (s : List Char) : Option (List Statement) :=
  if s.isEmpty then some []
  else
    let found : Option (List Statement × List Char) :=
      match endLine? s with
      | some r => some ([], r)
      | none => (readStatement (skipBlanks s)).map fun (x, r) => ([x], r)
    match found with
    | none => none
    | some (xs, r) => if r.length < s.length then (readStatements r).map (xs ++ ·) else none
termination_by s.length

/-- The entries of a document, which may start with a byte order mark. -/
def parse? (text : String) : Option Entries := do
  let s := text.toList
  ofStatements? (← readStatements (if s.head? = some '\uFEFF' then s.tail else s))

end SharedSheet.Toml
