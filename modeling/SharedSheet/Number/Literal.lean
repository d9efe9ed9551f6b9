/-
The texts of numbers: an optional sign, then decimal digits with an optional point and an optional
exponent, or one of the words for infinity and not-a-number in any case. `Literal.read?` decides the
grammar; `Literal.value` is the double nearest to what the text says.
-/

namespace SharedSheet.Number

/-- What the text of a number says, before rounding: `digits · 10^exponent` with a sign. -/
inductive Literal where
  | infinity (negative : Bool)
  | notANumber
  | decimal (negative : Bool) (digits : Nat) (exponent : Int)
  deriving DecidableEq, Repr

/-- Splits an optional sign off: whether it is a minus, and the rest. -/
def splitSign : List Char → Bool × List Char
  | '-' :: s => (true, s)
  | '+' :: s => (false, s)
  | s => (false, s)

/-- A natural number written with one digit or more and nothing else. -/
def readDigits? (s : List Char) : Option Nat :=
  if s.isEmpty || !s.all Char.isDigit then none else some (Nat.ofDigitChars 10 s 0)

/-- Whether digits are a natural number without needless zeros: a single zero, or no zero in front. -/
def isWhole (digits : List Char) : Bool :=
  match digits with
  | [] => false
  | ['0'] => true
  | c :: _ => c != '0'

/-- The exponent part: nothing, or a letter `e`, an optional sign and digits. -/
def readExponent? : List Char → Option Int
  | [] => some 0
  | c :: s =>
    if c = 'e' ∨ c = 'E' then
      (readDigits? (splitSign s).2).map fun n : Nat => if (splitSign s).1 then -(n : Int) else n
    else none

/-- The digits after a decimal point, if the text goes on with one, and what follows them. -/
def splitFraction : List Char → List Char × List Char
  | '.' :: s => (s.takeWhile Char.isDigit, s.dropWhile Char.isDigit)
  | s => ([], s)

/-- The unsigned decimal forms. A point needs a digit on one side of it at least. -/
def readDecimal? (negative : Bool) (s : List Char) : Option Literal :=
  let whole := s.takeWhile Char.isDigit
  let (fraction, rest) := splitFraction (s.dropWhile Char.isDigit)
  if whole.isEmpty && fraction.isEmpty then none
  else (readExponent? rest).map fun e =>
    .decimal negative (Nat.ofDigitChars 10 (whole ++ fraction) 0) (e - fraction.length)

/-- Reads the text of a number, or refuses it. -/
def Literal.read? (s : List Char) : Option Literal :=
  let (negative, body) := splitSign s
  let word := body.map Char.toLower
  if word = ['i', 'n', 'f'] ∨ word = ['i', 'n', 'f', 'i', 'n', 'i', 't', 'y'] then some (.infinity negative)
  else if word = ['n', 'a', 'n'] then some .notANumber
  else readDecimal? negative body

/-- The double nearest to the literal, ties to the even neighbour; too large a literal is infinite. -/
def Literal.value : Literal → Float
  | .infinity negative => signed negative (1.0 / 0.0)
  | .notANumber => 0.0 / 0.0
  | .decimal negative digits exponent =>
    signed negative (Float.ofScientific digits (decide (exponent < 0)) exponent.natAbs)
where
  /-- Attaches the sign, to zero as well. -/
  signed (negative : Bool) (x : Float) : Float := if negative then -x else x

/-- The double that a text denotes. -/
def read? (s : List Char) : Option Float := (Literal.read? s).map Literal.value

end SharedSheet.Number
