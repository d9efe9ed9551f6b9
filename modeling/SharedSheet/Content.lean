/-
What a stored content says. A content is a literal with its value, which is nothing, a number or a text; or it is a
formula, or the text of a formula that does not parse.
-/
import SharedSheet.Formula.Basic
import SharedSheet.Number.Literal
import SharedSheet.Text.Basic

namespace SharedSheet

/-- What a cell shows. -/
inductive Value where
  | empty
  | number (x : Float)
  | text (s : String)
  deriving DecidableEq

namespace Value

/-- A content that is no formula: empty, a finite number with or without blanks around it, or else the
text as it is. -/
def ofLiteral (s : String) : Value :=
  if s.isEmpty then .empty
  else
    match Number.read? (Text.trim s.toList) with
    | some x => if x.isFinite then .number x else .text s
    | none => .text s

/-- The number that the value is, if it is one. -/
def number? : Value → Option Float
  | .number x => some x
  | _ => none

end Value

/-- What a stored content is. -/
inductive Content where
  | literal (v : Value)
  | formula (f : Formula)
  | broken (e : FormulaError)

/-- Reads a content; an equals sign in front makes it a formula. -/
def Content.read (s : String) : Content :=
  if Formula.isFormulaText s.toList then
    match Formula.parse s with
    | .ok f => .formula f
    | .error e => .broken e
  else .literal (Value.ofLiteral s)

theorem Content.read_empty : Content.read "" = .literal .empty := by
  simp [read, Formula.isFormulaText, Value.ofLiteral]

end SharedSheet
