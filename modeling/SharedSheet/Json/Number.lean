/-
Numbers in JSON texts. An integer that fits 64 bits is kept as it is. Of every other number the leading
digits count, as many as fit 64 bits; they are rounded to a double and scaled by a power of ten in double
arithmetic. What overflows on the way has no value, although it is a number.
-/
import SharedSheet.Json.Basic
import SharedSheet.Number.Literal

namespace SharedSheet.Json

/-- The characters of numbers. -/
def isNumeric (c : Char) : Bool := c.isDigit || c == '-' || c == '+' || c == '.' || c == 'e' || c == 'E'

/-- A number without its sign, as it is written. Without a point and an exponent part it has no
`exponent`. -/
structure Numeral where
  whole : List Char
  fraction : List Char
  exponent : Option Int

namespace Numeral

/-- Reads a number behind its sign: no needless zeros, and a digit on either side of a point. -/
def read? (s : List Char) : Option Numeral :=
  let whole := s.takeWhile Char.isDigit
  if !Number.isWhole whole then none
  else
    match s.dropWhile Char.isDigit with
    | [] => some ⟨whole, [], none⟩
    | '.' :: s =>
      let fraction := s.takeWhile Char.isDigit
      if fraction.isEmpty then none
      else (Number.readExponent? (s.dropWhile Char.isDigit)).map (⟨whole, fraction, some ·⟩)
    | s => (Number.readExponent? s).map (⟨whole, [], some ·⟩)

/-- Appends digits to a number as long as it fits 64 bits: the number, and how many digits are left. -/
def appendDigits (n : Nat) : List Char → Nat × Nat
  | [] => (n, 0)
  | c :: s =>
    let m := n * 10 + (c.toNat - '0'.toNat)
    if m < UInt64.size then appendDigits m s else (n, s.length + 1)

/-- The leading digits as a number, and the power of ten that goes with it. -/
def decimal (n : Numeral) : Nat × Int :=
  let (digits, left) := appendDigits 0 n.whole
  let (digits, dropped) := appendDigits digits n.fraction
  (digits, n.exponent.getD 0 + left - (n.fraction.length - dropped : Nat))

/-- The double nearest to a power of ten. -/
def tenPow (e : Nat) : Float := Float.ofScientific 1 false e

/-- The double `x · 10 ^ e`, by one multiplication or by divisions; `none` if that is beyond the
doubles. -/
def scale? (x : Float) (e : Int) : Option Float :=
  if 0 ≤ e then
    if x == 0.0 then some x
    else if 308 < e then none
    else
      let y := x * tenPow e.toNat
      if y.isFinite then some y else none
  else if -308 ≤ e then some (x / tenPow e.natAbs)
  else if x == 0.0 then some x
  else scale? (x / tenPow 308) (e + 308)
termination_by e.natAbs

/-- The double that a number without its sign stands for. -/
def value? (n : Numeral) : Option Float :=
  let (digits, e) := n.decimal
  scale? (Float.ofNat digits) e

end Numeral

/-- Whether an integer fits 64 bits, with or without sign. -/
def fits64 (n : Int) : Bool := Int64.minValue.toInt ≤ n && n < (UInt64.size : Int)

/-- Reads a number, which may have no value. Zero with a minus is a double. -/
def readNumber? (s : List Char) : Option (Option Json) :=
  let (negative, body) := if s.head? = some '-' then (true, s.tail) else (false, s)
  (Numeral.read? body).map fun n =>
    let whole : Int := Nat.ofDigitChars 10 n.whole 0
    let whole := if negative then -whole else whole
    if n.exponent.isNone && fits64 whole && !(negative && whole == 0) then some (.integer whole)
    else n.value?.map fun x => .real (if negative then -x else x)

end SharedSheet.Json
