/-
Evaluation of a token sequence with two stacks, one of values and one of operators and parentheses
that wait for their right side. A product is computed as soon as its right operand is there; a sum
waits for the next sum operator, a closing parenthesis or the end. The arithmetic is a parameter.
-/
import SharedSheet.Formula.Token

namespace SharedSheet.Formula

universe u

/-- The four operations, and the test that guards division. -/
structure Arithmetic (ν : Type u) where
  add : ν → ν → ν
  sub : ν → ν → ν
  mul : ν → ν → ν
  div : ν → ν → ν
  isZero : ν → Bool

/-- Arithmetic on doubles; both zeros are zero. -/
def Arithmetic.double : Arithmetic Float := ⟨(· + ·), (· - ·), (· * ·), (· / ·), (· == 0.0)⟩

/-- Why an evaluation has no value. -/
inductive EvalError where
  | malformed
  | divisionByZero
  | undefinedCell (name : CellName)
  deriving DecidableEq, Repr

variable {ν : Type u}

/-- Applies an operator, left operand first. -/
def Arithmetic.apply (a : Arithmetic ν) (o : BinOp) (left right : ν) : Except EvalError ν :=
  match o with
  | .add => .ok (a.add left right)
  | .sub => .ok (a.sub left right)
  | .mul => .ok (a.mul left right)
  | .div => if a.isZero right then .error .divisionByZero else .ok (a.div left right)

/-- What waits for its right side. -/
inductive Pending where
  | op (o : BinOp)
  | opening
  deriving DecidableEq, Repr

/-- The two stacks, their tops first. -/
structure Stacks (ν : Type u) where
  values : List ν
  pending : List Pending

namespace Stacks

/-- The stacks before the first token. -/
def empty : Stacks ν := ⟨[], []⟩

/-- Applies the waiting operator on top to the two values on top. -/
def reduce (a : Arithmetic ν) (s : Stacks ν) : Except EvalError (Stacks ν) :=
  match s.pending, s.values with
  | .op o :: pending, right :: left :: values => do
    let v ← a.apply o left right
    return ⟨v :: values, pending⟩
  | _, _ => .error .malformed

/-- Reduces once if an operator that satisfies `p` is on top. -/
def reduceIf (a : Arithmetic ν) (p : BinOp → Bool) (s : Stacks ν) : Except EvalError (Stacks ν) :=
  match s.pending with
  | .op o :: _ => if p o then s.reduce a else .ok s
  | _ => .ok s

/-- Pushes an operand, and multiplies or divides by it if that waits. -/
def operand (a : Arithmetic ν) (v : ν) (s : Stacks ν) : Except EvalError (Stacks ν) :=
  reduceIf a BinOp.isProduct { s with values := v :: s.values }

/-- Lets a new operator or parenthesis wait. -/
def wait (p : Pending) (s : Stacks ν) : Stacks ν := { s with pending := p :: s.pending }

/-- One token. -/
def step (a : Arithmetic ν) (lookup : CellName → Option ν) (s : Stacks ν) :
    Token ν → Except EvalError (Stacks ν)
  | .number x => s.operand a x
  | .cell name =>
    match lookup name with
    | some v => s.operand a v
    | none => .error (.undefinedCell name)
  | .op o => if o.isSum then (s.reduceIf a BinOp.isSum).map (wait (.op o)) else .ok (s.wait (.op o))
  | .opening => .ok (s.wait .opening)
  | .closing => do
    let s ← s.reduceIf a BinOp.isSum
    match s.pending with
    | .opening :: pending => reduceIf a BinOp.isProduct { s with pending }
    | _ => .error .malformed

/-- The value at the end of the formula. -/
def finish (a : Arithmetic ν) (s : Stacks ν) : Except EvalError ν := do
  match ← s.reduceIf a BinOp.isSum with
  | ⟨[v], []⟩ => .ok v
  | _ => .error .malformed

end Stacks

/-- The value of a token sequence where `lookup` gives the values of cells. -/
def evaluate (a : Arithmetic ν) (lookup : CellName → Option ν) (tokens : List (Token ν)) :
    Except EvalError ν := do
  (← tokens.foldlM (Stacks.step a lookup) Stacks.empty).finish a

end SharedSheet.Formula
