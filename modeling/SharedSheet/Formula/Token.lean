/-
Tokens, the units of a formula: binary operators, parentheses, references to cells, and numbers. The
numbers may be of any type; the library uses doubles. `tokenize` splits the text of a formula into
tokens: it knows operators, parentheses, runs of digits and points, and runs of letters with digits
behind them, and ignores everything else.
-/
import SharedSheet.CellName
import SharedSheet.Number.Literal
import SharedSheet.Number.Shortest

namespace SharedSheet.Formula

universe u

/-- The binary operators. -/
inductive BinOp where
  | add
  | sub
  | mul
  | div
  deriving DecidableEq, Repr

def BinOp.symbol : BinOp → Char
  | .add => '+'
  | .sub => '-'
  | .mul => '*'
  | .div => '/'

/-- Addition and subtraction, which bind less tightly than the other two. -/
def BinOp.isSum : BinOp → Bool
  | .add | .sub => true
  | .mul | .div => false

/-- Multiplication and division. -/
def BinOp.isProduct (o : BinOp) : Bool := !o.isSum

/-- One unit of a formula with numbers of type `ν`. -/
inductive Token (ν : Type u) where
  | op (o : BinOp)
  | opening
  | closing
  | cell (name : CellName)
  | number (x : ν)
  deriving DecidableEq, Repr

namespace Token

/-- The operators and parentheses, each written as one character. -/
def ofSymbol? {ν : Type u} (c : Char) : Option (Token ν) :=
  match c with
  | '+' => some (.op .add)
  | '-' => some (.op .sub)
  | '*' => some (.op .mul)
  | '/' => some (.op .div)
  | '(' => some .opening
  | ')' => some .closing
  | _ => none

/-- The canonical spelling of a token. -/
def spelling : Token Float → List Char
  | .op o => [o.symbol]
  | .opening => ['(']
  | .closing => [')']
  | .cell name => name.text.toList
  | .number x => Number.textOf x

end Token

/-! ## From characters to tokens -/

/-- Why a run of digits and points is no number. -/
inductive LexError where
  | invalidNumber (literal : List Char)
  | numberOutOfRange (literal : List Char)
  deriving DecidableEq, Repr

/-- The characters of unsigned numbers. -/
def isNumeric (c : Char) : Bool := c.isDigit || c == '.'

/-- Reads a number of a formula, which has to be finite. -/
def readNumber (literal : List Char) : Except LexError Float :=
  match Number.read? literal with
  | some x => if x.isFinite then .ok x else .error (.numberOutOfRange literal)
  | none => .error (.invalidNumber literal)

theorem length_dropWhile_le (p : Char → Bool) (s : List Char) : (s.dropWhile p).length ≤ s.length :=
  (List.dropWhile_sublist p).length_le

/-- Splits a text without lower-case letters into tokens. A run of letters and the digits right behind
it is a reference if there are such digits, and nothing otherwise. -/
def scan : List Char → Except LexError (List (Token Float))
  | [] => .ok []
  | c :: s =>
    if c.isUpper then
      let rest := s.dropWhile Char.isUpper
      let tokens := scan (rest.dropWhile Char.isDigit)
      match CellName.ofChars? (c :: s.takeWhile Char.isUpper ++ rest.takeWhile Char.isDigit) with
      | some name => tokens.map (.cell name :: ·)
      | none => tokens
    else if isNumeric c then
      match readNumber (c :: s.takeWhile isNumeric) with
      | .ok x => (scan (s.dropWhile isNumeric)).map (.number x :: ·)
      | .error e => .error e
    else
      match Token.ofSymbol? c with
      | some t => (scan s).map (t :: ·)
      | none => scan s
termination_by s => s.length
decreasing_by
  · have h₁ := length_dropWhile_le Char.isUpper s
    have h₂ := length_dropWhile_le Char.isDigit (s.dropWhile Char.isUpper)
    simp only [List.length_cons]
    omega
  · have h := length_dropWhile_le isNumeric s
    simp only [List.length_cons]
    omega
  · simp
  · simp

/-- Splits the text of a formula into tokens; letters count as upper case. -/
def tokenize (s : List Char) : Except LexError (List (Token Float)) := scan (s.map Char.toUpper)

end SharedSheet.Formula
