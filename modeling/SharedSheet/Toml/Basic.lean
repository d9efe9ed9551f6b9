/-
TOML values, and how tables grow while a document is read. A table remembers how it came to be, since
that decides what may be added to it: a table that was written as a value is complete, one with a header
of its own is open only below that header, and one that dotted keys made only to dotted keys.
-/

namespace SharedSheet

/-- How a table came to be. -/
inductive Toml.Origin where
  /-- written as a value between braces -/
  | inline
  /-- announced by a header -/
  | header
  /-- a parent of a table with a header -/
  | implied
  /-- a parent in a dotted key -/
  | dotted
  deriving DecidableEq, Repr

/-- A value. An array is growing if headers in double brackets append to it. -/
inductive Toml where
  | string (s : String)
  | integer (n : Int)
  | float (x : Float)
  | boolean (b : Bool)
  /-- a date, a time, or both, as written -/
  | moment (text : String)
  | array (growing : Bool) (items : List Toml)
  | table (origin : Toml.Origin) (entries : List (String × Toml))
  deriving Repr

namespace Toml

/-- The entries of a table, in the order of their first mention. -/
abbrev Entries := List (String × Toml)

namespace Entries

def get? (t : Entries) (k : String) : Option Toml := (t.find? fun e => e.1 == k).map (·.2)

/-- The entries with `v` at `k`, in place if the key is there and at the end otherwise. -/
def set (t : Entries) (k : String) (v : Toml) : Entries :=
  if t.any fun e => e.1 == k then t.map fun e => if e.1 == k then (k, v) else e else t ++ [(k, v)]

/-- Adds a pair with a dotted key. Its parents are made as they are needed. The last parent must be
dotted too, and the key itself must be new. -/
def addPair (v : Toml) : List String → Entries → Option Entries
  | [], _ => none
  | [k], t => if (t.get? k).isSome then none else some (t.set k v)
  | k :: path, t =>
    match t.get? k with
    | none => (addPair v path []).map fun sub => t.set k (.table .dotted sub)
    | some (.table .dotted sub) => (addPair v path sub).map fun sub => t.set k (.table .dotted sub)
    | some (.table .implied sub) =>
      if path.length = 1 then none else (addPair v path sub).map fun sub => t.set k (.table .implied sub)
    | some (.array true items) =>
      match items.getLast? with
      | some (.table origin sub) =>
        if path.length = 1 then none
        else (addPair v path sub).map fun sub => t.set k (.array true (items.dropLast ++ [.table origin sub]))
      | _ => none
    | some _ => none

/-- Changes the table at a path. A growing array stands for its last table. -/
def below (change : Entries → Option Entries) : List String → Entries → Option Entries
  | [], t => change t
  | k :: path, t =>
    match t.get? k with
    | none => (below change path []).map fun sub => t.set k (.table .implied sub)
    | some (.table .inline _) => none
    | some (.table origin sub) => (below change path sub).map fun sub => t.set k (.table origin sub)
    | some (.array true items) =>
      match items.getLast? with
      | some (.table origin sub) =>
        (below change path sub).map fun sub => t.set k (.array true (items.dropLast ++ [.table origin sub]))
      | _ => none
    | some _ => none

/-- Opens a table by its header, which it can have only once. -/
def openTable (k : String) (t : Entries) : Option Entries :=
  match t.get? k with
  | none => some (t.set k (.table .header []))
  | some (.table .implied sub) => some (t.set k (.table .header sub))
  | some _ => none

/-- Appends an empty table to a growing array. -/
def appendTable (k : String) (t : Entries) : Option Entries :=
  match t.get? k with
  | none => some (t.set k (.array true [.table .header []]))
  | some (.array true items) => some (t.set k (.array true (items ++ [.table .header []])))
  | some _ => none

end Entries

/-! ## Statements -/

/-- What a line of a document says. -/
inductive Statement where
  | pair (key : List String) (value : Toml)
  | table (path : List String)
  | element (path : List String)

/-- A document under construction: its entries, and the path of the table that pairs go to. -/
structure Draft where
  entries : Entries
  current : List String

/-- Takes in a statement, unless it contradicts those before it. -/
def Draft.add? (d : Draft) : Statement → Option Draft
  | .pair key value => (d.entries.below (Entries.addPair value key) d.current).map fun t => { d with entries := t }
  | .table path => header Entries.openTable path
  | .element path => header Entries.appendTable path
where
  header (change : String → Entries → Option Entries) (path : List String) : Option Draft := do
    return ⟨← d.entries.below (change (← path.getLast?)) path.dropLast, path⟩

/-- The entries of the document with these statements. -/
def ofStatements? (statements : List Statement) : Option Entries :=
  (statements.foldlM Draft.add? ⟨[], []⟩).map (·.entries)

end Toml

end SharedSheet
