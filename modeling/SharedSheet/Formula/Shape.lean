/-
The shape of a formula: operands and operators alternate, and parentheses are balanced around
complete parts. `validate` reads the tokens once from the left, remembering what the last token lets
follow and how many parentheses are open, and names the first fault.
-/
import SharedSheet.Formula.Token

namespace SharedSheet.Formula

universe u

/-- What is wrong with the shape of a token sequence. -/
inductive ShapeError (ν : Type u) where
  | noTokens
  | openingAfterOperand
  | closingAfterOperator
  | unopened
  | startsWithOperator
  | operatorAfterOperator (o : BinOp)
  | operandAfterOperand (operand : Token ν)
  | unclosed
  | endsWithOperator
  deriving DecidableEq, Repr

/-- The place between two tokens, by what stands before it. -/
inductive Position where
  | start
  | afterOperator
  | afterOperand
  deriving DecidableEq, Repr

variable {ν : Type u}

/-- Checks the rest of a formula at a position inside `depth` open parentheses. An opening parenthesis
leaves the same place as an operator does, a closing one the same as an operand. -/
def checkFrom (p : Position) (depth : Nat) : List (Token ν) → Except (ShapeError ν) Unit
  | [] =>
    if depth ≠ 0 then .error .unclosed
    else if p ≠ .afterOperand then .error .endsWithOperator
    else .ok ()
  | .opening :: ts =>
    if p = .afterOperand then .error .openingAfterOperand else checkFrom .afterOperator (depth + 1) ts
  | .closing :: ts =>
    if p = .afterOperator then .error .closingAfterOperator
    else
      match depth with
      | 0 => .error .unopened
      | depth + 1 => checkFrom .afterOperand depth ts
  | .op o :: ts =>
    match p with
    | .start => .error .startsWithOperator
    | .afterOperator => .error (.operatorAfterOperator o)
    | .afterOperand => checkFrom .afterOperator depth ts
  | .cell name :: ts =>
    if p = .afterOperand then .error (.operandAfterOperand (.cell name)) else checkFrom .afterOperand depth ts
  | .number x :: ts =>
    if p = .afterOperand then .error (.operandAfterOperand (.number x)) else checkFrom .afterOperand depth ts

/-- Checks the shape of a whole formula. -/
def validate (tokens : List (Token ν)) : Except (ShapeError ν) Unit :=
  if tokens.isEmpty then .error .noTokens else checkFrom .start 0 tokens

end SharedSheet.Formula
