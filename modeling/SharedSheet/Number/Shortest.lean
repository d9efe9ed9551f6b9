/-
The shortest decimal of a double, and its printed form. A positive double `m · 2^e` stands for an interval
of reals, those that round to it. Among the decimals in that interval `shortest` takes one on the coarsest
grid `10^k` that has any, and there the one nearest to the double. The search goes from coarse grids to
fine ones and ends at the latest on the grid that holds the double itself.
-/

namespace SharedSheet.Number

/-- The decimal `digits · 10^exponent`. -/
structure Decimal where
  digits : Nat
  exponent : Int
  deriving DecidableEq, Repr

/-- The reals that round to one positive double, all three bounds in units of `2^exponent`. The ends
belong to the interval when the mantissa is even. -/
structure Interval where
  lower : Nat
  value : Nat
  upper : Nat
  exponent : Int
  closed : Bool
  deriving Repr

namespace Interval

/-- The interval around `mantissa · 2^exponent`: half a unit on both sides, but a quarter below a
power of two, whose lower neighbour is twice as near. -/
def around (mantissa : Nat) (exponent : Int) : Interval where
  lower := 4 * mantissa - (if mantissa = Nat.pow 2 52 ∧ -1074 < exponent then 1 else 2)
  value := 4 * mantissa
  upper := 4 * mantissa + 2
  exponent := exponent - 2
  closed := mantissa % 2 == 0

/-- `x · 2^exponent` in units of `10^k` is `x · numerator k / denominator k`. -/
def numerator (i : Interval) (k : Int) : Nat := Nat.pow 2 i.exponent.toNat * Nat.pow 10 (-k).toNat

@[inherit_doc numerator]
def denominator (i : Interval) (k : Int) : Nat := Nat.pow 2 (-i.exponent).toNat * Nat.pow 10 k.toNat

/-- Whether `digits · 10^k` lies in the interval. -/
def contains (i : Interval) (k : Int) (digits : Nat) : Bool :=
  let x := digits * i.denominator k
  if i.closed then decide (i.lower * i.numerator k ≤ x ∧ x ≤ i.upper * i.numerator k)
  else decide (i.lower * i.numerator k < x ∧ x < i.upper * i.numerator k)

/-- The multiple of `10^k` in the interval that is nearest to the value, the larger one if two are. -/
def onGrid? (i : Interval) (k : Int) : Option Nat :=
  let scaled := i.value * i.numerator k
  let below := scaled / i.denominator k
  match i.contains k below, i.contains k (below + 1) with
  | true, true => some (if i.denominator k ≤ 2 * (scaled % i.denominator k) then below + 1 else below)
  | true, false => some below
  | false, true => some (below + 1)
  | false, false => none

/-- Searches the grids `10^(finest + n)`, …, `10^finest` in this order. The last one is taken to hold
the value. -/
def search (i : Interval) (finest : Int) : Nat → Decimal
  | 0 => ⟨i.value * i.numerator finest / i.denominator finest, finest⟩
  | n + 1 =>
    match i.onGrid? (finest + (n + 1)) with
    | some digits => ⟨digits, finest + (n + 1)⟩
    | none => search i finest n

end Interval

/-- A power of ten above `mantissa · 2^exponent`: it has fewer than `30103 / 100000` decimal digits per
binary digit. -/
def coarsest (mantissa : Nat) (exponent : Int) : Int :=
  (exponent + (Nat.log2 mantissa + 1 : Nat)) * 30103 / 100000 + 1

/-- The shortest decimal that rounds to `mantissa · 2^exponent`. -/
def shortest (mantissa : Nat) (exponent : Int) : Decimal :=
  let finest := min exponent 0
  (Interval.around mantissa exponent).search finest (coarsest mantissa exponent - finest).toNat

/-! ## In print

A double is printed as its shortest decimal in positional notation. No exponent is ever written, an
integer has no point, and the sign of zero is kept. -/

/-- The decimal digits of a natural number. -/
def digitsOf (n : Nat) : List Char := Nat.toDigits 10 n

/-- A decimal in positional notation: zeros fill the places up to the point on either side. -/
def Decimal.plain (d : Decimal) : List Char :=
  let digits := digitsOf d.digits
  let places := (-d.exponent).toNat
  if 0 ≤ d.exponent then digits ++ List.replicate d.exponent.toNat '0'
  else if places < digits.length then
    digits.take (digits.length - places) ++ '.' :: digits.drop (digits.length - places)
  else '0' :: '.' :: List.replicate (places - digits.length) '0' ++ digits

/-- Writes the sign of a negative value in front. -/
def withSign (sign : Float.Model.UnpackedFloat.Sign) (s : List Char) : List Char :=
  match sign with
  | .negative => '-' :: s
  | .positive => s

/-- The text of a double. -/
def textOf (x : Float) : List Char :=
  match x.toModel.unpack with
  | .notANumber => ['N', 'a', 'N']
  | .infinity sign => withSign sign ['i', 'n', 'f']
  | .zero sign => withSign sign ['0']
  | .finite sign mantissa exponent _ => withSign sign (shortest mantissa exponent).plain

/-- `textOf` as a string. -/
def text (x : Float) : String := String.ofList (textOf x)

end SharedSheet.Number
