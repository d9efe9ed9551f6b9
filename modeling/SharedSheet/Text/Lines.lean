/-
Texts and lines. `parts` cuts a text at every separator; the last part is the one behind the last separator, empty if
the text ends there. `lines` are the lines as a reader sees them: without their endings, a newline with or without a
carriage return before it, and without an empty last part.

A value is written on one line with a backslash in front of newlines, carriage returns and backslashes. Escaping and
unescaping are inverse to each other on texts without raw line ends.
-/

namespace SharedSheet.Text

/-! ## The lines of a text -/

/-- The parts of a text between separators, at least one. -/
def parts (separator : Char) : List Char → List (List Char)
  | [] => [[]]
  | c :: s =>
    if c = separator then [] :: parts separator s
    else
      match parts separator s with
      | [] => [[c]]
      | part :: later => (c :: part) :: later

/-- The text without a carriage return at its end. -/
def dropReturn (s : List Char) : List Char := if s.getLast? = some '\r' then s.dropLast else s

/-- The lines of a text. -/
def lines (s : List Char) : List (List Char) :=
  let all := parts '\n' s
  all.dropLast.map dropReturn ++ (all.getLast?.toList.filter fun part => !part.isEmpty)

/-! ## Values on one line -/

/-- The written form of one character. -/
def escapeChar (c : Char) : List Char :=
  match c with
  | '\\' => ['\\', '\\']
  | '\n' => ['\\', 'n']
  | '\r' => ['\\', 'r']
  | c => [c]

/-- The text on one line. -/
def escape (s : List Char) : List Char := s.flatMap escapeChar

/-- What is wrong with a written value. -/
inductive EscapeError where
  | unknownEscape (c : Char)
  | danglingBackslash
  deriving DecidableEq, Repr

/-- The character that a letter stands for behind a backslash. -/
def escaped? : Char → Option Char
  | '\\' => some '\\'
  | 'n' => some '\n'
  | 'r' => some '\r'
  | _ => none

/-- Reads a written value back. -/
def unescape : List Char → Except EscapeError (List Char)
  | [] => .ok []
  | ['\\'] => .error .danglingBackslash
  | '\\' :: c :: s =>
    match escaped? c with
    | some d => (unescape s).map (d :: ·)
    | none => .error (.unknownEscape c)
  | c :: s => (unescape s).map (c :: ·)

end SharedSheet.Text
