/-
The values of a TOML document that are written without quotes and brackets: integers, floats, booleans,
and dates and times.
-/
import SharedSheet.Number.Literal
import SharedSheet.Text.Basic
import SharedSheet.Toml.Basic

namespace SharedSheet.Toml

/-! ## Numbers -/

/-- Takes out the underscores between digits; refuses underscores elsewhere and all that is no digit. -/
def ungroup? (isDigit : Char → Bool) : List Char → Option (List Char)
  | [] => none
  | [c] => if isDigit c then some [c] else none
  | c :: '_' :: s => if isDigit c then (ungroup? isDigit s).map (c :: ·) else none
  | c :: s => if isDigit c then (ungroup? isDigit s).map (c :: ·) else none

/-- A decimal number without needless zeros. -/
def readWhole? (s : List Char) : Option Nat := do
  let digits ← ungroup? Char.isDigit s
  guard (Number.isWhole digits)
  return Nat.ofDigitChars 10 digits 0

/-- A number in a base of up to sixteen. -/
def readInBase? (base : Nat) (s : List Char) : Option Nat := do
  let value (c : Char) : Option Nat := (Text.hexValue? c).filter (· < base)
  let digits ← ungroup? (fun c => (value c).isSome) s
  digits.foldlM (fun n c => (value c).map (n * base + ·)) 0

/-- Reads an integer, which has to fit 64 bits with a sign. Only decimal numbers have signs. -/
def readInteger? (s : List Char) : Option Int := do
  let n : Int ←
    match s with
    | '0' :: 'x' :: s => readInBase? 16 s
    | '0' :: 'o' :: s => readInBase? 8 s
    | '0' :: 'b' :: s => readInBase? 2 s
    | s =>
      let (negative, body) := Number.splitSign s
      (readWhole? body).map fun n => if negative then -(n : Int) else n
  guard (Int64.minValue.toInt ≤ n ∧ n ≤ Int64.maxValue.toInt)
  return n

/-- An exponent, its letter taken away: an optional sign and digits. -/
def isExponent (s : List Char) : Bool := (ungroup? Char.isDigit (Number.splitSign s).2).isSome

/-- What follows the whole part of a float: a point and digits, an exponent, or both. -/
def isFloatTail (s : List Char) : Bool :=
  match s with
  | '.' :: s =>
    let isMark (c : Char) : Bool := c == 'e' || c == 'E'
    (ungroup? Char.isDigit (s.takeWhile (!isMark ·))).isSome &&
      ((s.dropWhile (!isMark ·)).isEmpty || isExponent (s.dropWhile (!isMark ·)).tail)
  | 'e' :: s | 'E' :: s => isExponent s
  | _ => false

/-- Reads a float. Infinity and not-a-number are words of three letters, and a number too large for a
double is refused. -/
def readFloat? (s : List Char) : Option Float := do
  let body := (Number.splitSign s).2
  if body = ['i', 'n', 'f'] ∨ body = ['n', 'a', 'n'] then Number.read? s
  else
    let isGrouped (c : Char) : Bool := c.isDigit || c == '_'
    guard ((readWhole? (body.takeWhile isGrouped)).isSome && isFloatTail (body.dropWhile isGrouped))
    let x ← Number.read? (s.filter (· != '_'))
    guard (x != 1.0 / 0.0)
    return x

/-! ## Dates and times -/

/-- The value of two digits. -/
def readPair? (a b : Char) : Option Nat := Number.readDigits? [a, b]

/-- The number of days of a month. -/
def daysOf (year month : Nat) : Nat :=
  if month = 2 then (if year % 4 = 0 ∧ (year % 100 ≠ 0 ∨ year % 400 = 0) then 29 else 28)
  else if month = 4 ∨ month = 6 ∨ month = 9 ∨ month = 11 then 30
  else 31

/-- What follows a date of the calendar at the start of a text. -/
def skipDate? : List Char → Option (List Char)
  | y₁ :: y₂ :: y₃ :: y₄ :: '-' :: m₁ :: m₂ :: '-' :: d₁ :: d₂ :: s => do
    let year ← Number.readDigits? [y₁, y₂, y₃, y₄]
    let month ← readPair? m₁ m₂
    let day ← readPair? d₁ d₂
    guard (1 ≤ month ∧ month ≤ 12 ∧ 1 ≤ day ∧ day ≤ daysOf year month)
    return s
  | _ => none

/-- What follows hours and minutes. -/
def skipHour? : List Char → Option (List Char)
  | h₁ :: h₂ :: ':' :: m₁ :: m₂ :: s => do
    guard ((← readPair? h₁ h₂) < 24 ∧ (← readPair? m₁ m₂) < 60)
    return s
  | _ => none

/-- What follows a time of day with its seconds, leap seconds and fractions of a second allowed. -/
def skipTime? (s : List Char) : Option (List Char) := do
  match ← skipHour? s with
  | ':' :: s₁ :: s₂ :: s =>
    guard ((← readPair? s₁ s₂) ≤ 60)
    match s with
    | '.' :: s => if (s.takeWhile Char.isDigit).isEmpty then none else some (s.dropWhile Char.isDigit)
    | s => some s
  | _ => none

/-- Whether a text is an offset from universal time, or empty. -/
def isOffset : List Char → Bool
  | [] | ['Z'] | ['z'] => true
  | '+' :: s | '-' :: s => skipHour? s == some []
  | _ => false

/-- Whether a text is a time of day, and perhaps an offset. -/
def isTimed (s : List Char) : Bool := ((skipTime? s).map isOffset).getD false

/-- Whether a text is a date, a time of day, or both with a letter between them and perhaps an offset. -/
def isMoment (s : List Char) : Bool :=
  match skipDate? s with
  | some [] => true
  | some ('T' :: s) | some ('t' :: s) => isTimed s
  | some _ => false
  | none => skipTime? s == some []

/-! ## All of them -/

/-- The characters of these values. -/
def isScalar (c : Char) : Bool := c.isAlphanum || c == '+' || c == '-' || c == '_' || c == '.' || c == ':'

/-- The value that a whole text stands for. -/
def scalar? (s : List Char) : Option Toml :=
  if s = ['t', 'r', 'u', 'e'] then some (.boolean true)
  else if s = ['f', 'a', 'l', 's', 'e'] then some (.boolean false)
  else if isMoment s then some (.moment (String.ofList s))
  else
    match readInteger? s with
    | some n => some (.integer n)
    | none => (readFloat? s).map .float

/-- Reads a value at the start of a text. Between a date and a time there may be a space. -/
def readScalar (s : List Char) : Option (Toml × List Char) :=
  let word := s.takeWhile isScalar
  let rest := s.dropWhile isScalar
  match skipDate? word, rest with
  | some [], ' ' :: c :: s =>
    if c.isDigit then
      let time := (c :: s).takeWhile isScalar
      if isTimed time then some (.moment (String.ofList (word ++ ' ' :: time)), s.dropWhile isScalar) else none
    else some (.moment (String.ofList word), rest)
  | _, _ => (scalar? word).map (·, rest)

end SharedSheet.Toml
