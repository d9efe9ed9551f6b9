/-
Formulas: an equals sign and a well-shaped token sequence. `parse` reads one from a text, `text` is its
canonical form, `references` are the cells it names, and `evaluate` its value.
-/
import SharedSheet.Formula.Eval
import SharedSheet.Formula.Shape

namespace SharedSheet

open Formula in
/-- A token sequence of the right shape. -/
structure Formula where
  tokens : List (Token Float)
  wellShaped : validate tokens = .ok ()
  deriving DecidableEq

namespace Formula

/-- Why a text is no formula, or a formula no expression. -/
inductive ParseError where
  | noEqualsSign
  | lexical (e : LexError)
  | shape (e : ShapeError Float)
  | malformed
  deriving DecidableEq, Repr

def LexError.message : LexError → String
  | .invalidNumber literal => "invalid number: " ++ String.ofList literal
  | .numberOutOfRange literal => "number out of range: " ++ String.ofList literal

def ShapeError.message : ShapeError Float → String
  | .noTokens => "formula must contain at least one token"
  | .openingAfterOperand => "( cannot follow a number, variable, or )"
  | .closingAfterOperator => ") cannot follow ( or an operator"
  | .unopened => "unbalanced )"
  | .startsWithOperator => "first token must be a number, variable, or ("
  | .operatorAfterOperator o => String.singleton o.symbol ++ " cannot follow ( or an operator"
  | .operandAfterOperand t => String.ofList t.spelling ++ " cannot follow a number, variable, or )"
  | .unclosed => "unbalanced ("
  | .endsWithOperator => "last token must be a number, variable, or )"

def ParseError.message : ParseError → String
  | .noEqualsSign => "formula must start with ="
  | .lexical e => e.message
  | .shape e => e.message
  | .malformed => "malformed expression"

end Formula

/-- What can go wrong with a formula. -/
inductive FormulaError where
  | parse (e : Formula.ParseError)
  | divisionByZero
  | undefinedVariable (name : CellName)
  deriving DecidableEq, Repr

namespace FormulaError

def message : FormulaError → String
  | .parse e => "formula parse error: " ++ e.message
  | .divisionByZero => "division by zero"
  | .undefinedVariable name => "undefined variable: " ++ name.text

def ofEval : Formula.EvalError → FormulaError
  | .malformed => .parse .malformed
  | .divisionByZero => .divisionByZero
  | .undefinedCell name => .undefinedVariable name

end FormulaError

namespace Formula

/-- Formulas are the contents that begin with an equals sign. -/
def isFormulaText (s : List Char) : Bool := s.head? == some '='

/-- Reads a formula with its leading equals sign. -/
def parseChars : List Char → Except ParseError Formula
  | '=' :: body =>
    match tokenize body with
    | .error e => .error (.lexical e)
    | .ok tokens =>
      match h : validate tokens with
      | .error e => .error (.shape e)
      | .ok () => .ok ⟨tokens, h⟩
  | _ => .error .noEqualsSign

@[inherit_doc parseChars]
def parse (s : String) : Except FormulaError Formula := (parseChars s.toList).mapError .parse

/-- The canonical form: an equals sign, then the tokens without anything between them. -/
def chars (f : Formula) : List Char := '=' :: f.tokens.flatMap Token.spelling

@[inherit_doc chars]
def text (f : Formula) : String := String.ofList f.chars

/-- The cells that the formula names, each once, in the order of their first appearance. -/
def references (f : Formula) : List CellName :=
  (f.tokens.filterMap fun
    | .cell name => some name
    | _ => none).eraseDups

/-- The value of the formula where `lookup` gives the values of cells. -/
def value (f : Formula) (lookup : CellName → Option Float) : Except FormulaError Float :=
  (evaluate Arithmetic.double lookup f.tokens).mapError .ofEval

end Formula

/-- The cells that a content refers to. A content that is no formula refers to none. -/
def contentReferences (content : String) : Except FormulaError (List CellName) :=
  if Formula.isFormulaText content.toList then (Formula.parse content).map Formula.references else .ok []

end SharedSheet
