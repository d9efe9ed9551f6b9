/-
Cell names: one or more letters A–Z followed by one or more digits, as in `A1` or `AB12`. A
`CellName` holds such a text and the proof of its shape. `parse?` accepts any case and blanks around
the name; all other parts of the library work with the normalised name only. Names are recognised by
their characters (`isCellName`) or by their bytes (`isCellNameBytes`).
-/
import SharedSheet.Text.Basic
import SharedSheet.Text.Utf8

namespace SharedSheet

open Text (Byte)

/-- Letters A–Z, at least one, then digits, at least one, and nothing else. -/
def isCellName (s : List Char) : Bool :=
  !(s.takeWhile Char.isUpper).isEmpty && !(s.dropWhile Char.isUpper).isEmpty &&
    (s.dropWhile Char.isUpper).all Char.isDigit

/-- The byte of a letter A–Z. -/
def isUpperByte (b : Byte) : Bool := 65 ≤ b && b ≤ 90

/-- The byte of a digit. -/
def isDigitByte (b : Byte) : Bool := 48 ≤ b && b ≤ 57

/-- The bytes of a cell name: some letters are counted off, but not all bytes, and the others are digits. -/
def isCellNameBytes (bytes : List Byte) : Bool :=
  let letters := (bytes.takeWhile isUpperByte).length
  if letters = 0 ∨ letters = bytes.length then false else (bytes.drop letters).all isDigitByte

/-- The normalised name of a cell. -/
structure CellName where
  text : String
  wellFormed : isCellName text.toList = true
  deriving DecidableEq, Repr

namespace CellName

theorem ext {a b : CellName} (h : a.text = b.text) : a = b := by
  cases a; cases b; cases h; rfl

/-- Names are ordered as texts, by code point. -/
instance : Ord CellName := ⟨fun a b => compare a.text b.text⟩

instance : Std.TransOrd CellName where
  eq_swap {a b} :=
    show compare a.text b.text = (compare b.text a.text).swap from Std.OrientedCmp.eq_swap
  isLE_trans {a b c} :=
    show (compare a.text b.text).isLE → (compare b.text c.text).isLE → (compare a.text c.text).isLE from
      Std.TransCmp.isLE_trans

instance : Std.LawfulEqOrd CellName where
  compare_self {a} := show compare a.text a.text = .eq from Std.ReflCmp.compare_self
  eq_of_compare h := ext (Std.LawfulEqOrd.eq_of_compare h)

/-- The cell name with exactly these characters. -/
def ofChars? (s : List Char) : Option CellName :=
  if h : isCellName s = true then some ⟨String.ofList s, by simpa using h⟩ else none

/-- Reads a cell name in any case, with or without blanks around it. -/
def parse? (raw : String) : Option CellName :=
  ofChars? ((Text.trim raw.toList).map Char.toUpper)

end CellName

end SharedSheet
