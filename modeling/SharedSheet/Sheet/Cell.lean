/-
What a sheet is made of. A cell has its name, a content and the contents before it, newest first: setting
a content keeps the old one in the history, up to a cap, and reverting swaps the content with the newest
entry, so that two reverts cancel. The log holds the changes that can be undone, newest first, with an
optional cap on its length. Records are the form in which cells, changes and sheets are stored.
-/

namespace SharedSheet

/-- The entries that a cap leaves of a list; without a cap, all of them. -/
def keep {α : Type} (cap : Option Nat) (entries : List α) : List α :=
  match cap with
  | some n => entries.take n
  | none => entries

/-! ## Records

A record may hold anything a file can hold: its names need not be cell names and its formulas need not
parse. -/

/-- A stored cell, its history newest first. -/
structure CellRecord where
  name : String
  content : String
  history : List String
  deriving DecidableEq, Repr

/-- A stored entry of the edit log: the content that a cell had before a change. -/
structure EditRecord where
  cell : String
  prior : String
  deriving DecidableEq, Repr

/-- A stored sheet, its edits newest first. -/
structure SheetRecord where
  cells : List CellRecord
  edits : List EditRecord
  deriving DecidableEq, Repr

namespace SheetRecord

/-- The record of a sheet that was never touched. -/
def empty : SheetRecord := ⟨[], []⟩

def isEmpty (r : SheetRecord) : Bool := r.cells.isEmpty && r.edits.isEmpty

end SheetRecord

/-! ## Cells -/

/-- The name of a cell, its content and its history, newest first. -/
structure Cell where
  name : String
  content : String
  history : List String
  deriving DecidableEq, Repr

namespace Cell

/-- A cell without history. -/
def new (name content : String) : Cell := ⟨name, content, []⟩

/-- The content that a revert would bring back. -/
def previous? (c : Cell) : Option String := c.history.head?

/-- The cell with a new content, the old one in front of its history, of which `cap` entries are kept. -/
def set (c : Cell) (content : String) (cap : Option Nat) : Cell :=
  { c with content, history := keep cap (c.content :: c.history) }

/-- The cell with its content and the newest entry of its history swapped. -/
def revert? (c : Cell) : Option Cell :=
  match c.history with
  | [] => none
  | previous :: older => some { c with content := previous, history := c.content :: older }

/-- A dead cell has no content and nothing to go back to but empty contents. -/
def isDead (c : Cell) : Bool := c.content.isEmpty && c.history.all String.isEmpty

/-- The cell as it is stored. -/
def record (c : Cell) : CellRecord := ⟨c.name, c.content, c.history⟩

end Cell

/-! ## The log -/

/-- A log of entries of type `ε`, newest first. -/
structure EditLog (ε : Type) where
  entries : List ε
  cap : Option Nat
  deriving DecidableEq, Repr

namespace EditLog

variable {ε : Type}

def empty (cap : Option Nat) : EditLog ε := ⟨[], cap⟩

/-- The log of the newest of these entries. -/
def ofEntries (entries : List ε) (cap : Option Nat) : EditLog ε := ⟨keep cap entries, cap⟩

/-- A push over the cap drops the oldest entries. -/
def push (log : EditLog ε) (e : ε) : EditLog ε := { log with entries := keep log.cap (e :: log.entries) }

def peek? (log : EditLog ε) : Option ε := log.entries.head?

/-- The newest entry and the log without it. -/
def pop? (log : EditLog ε) : Option (ε × EditLog ε) :=
  match log.entries with
  | [] => none
  | e :: older => some (e, { log with entries := older })

def size (log : EditLog ε) : Nat := log.entries.length

end EditLog

end SharedSheet
