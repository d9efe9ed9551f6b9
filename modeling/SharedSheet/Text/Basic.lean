/-
Characters and what texts are made of. A character is blank when it has the Unicode property White_Space; `trim`
removes the longest blank runs at both ends and nothing else. Hexadecimal digits are read in either case.
-/

namespace SharedSheet.Text

/-! ## Blanks -/

/-- The characters with the Unicode property White_Space. -/
def isBlank (c : Char) : Bool :=
  let n := c.toNat
  (0x09 ≤ n && n ≤ 0x0D) || n == 0x20 || n == 0x85 || n == 0xA0 || n == 0x1680 ||
    (0x2000 ≤ n && n ≤ 0x200A) || n == 0x2028 || n == 0x2029 || n == 0x202F || n == 0x205F || n == 0x3000

/-- The text without the longest run at its end whose characters satisfy `p`. -/
def dropEndWhile (p : Char → Bool) (s : List Char) : List Char :=
  (s.reverse.dropWhile p).reverse

/-- The text without its leading and trailing blanks. -/
def trim (s : List Char) : List Char := dropEndWhile isBlank (s.dropWhile isBlank)

/-- `trim` on strings. -/
def trimmed (s : String) : String := String.ofList (trim s.toList)

/-! ## Hexadecimal digits -/

/-- The value of a hexadecimal digit. -/
def hexValue? (c : Char) : Option Nat :=
  if c.isDigit then some (c.toNat - 48)
  else if 'a' ≤ c ∧ c ≤ 'f' then some (c.toNat - 87)
  else if 'A' ≤ c ∧ c ≤ 'F' then some (c.toNat - 55)
  else none

/-- Reads exactly `count` hexadecimal digits behind the value `start`: the value, and the rest. -/
def readHex (start : Nat) : (count : Nat) → List Char → Option (Nat × List Char)
  | 0, s => some (start, s)
  | _ + 1, [] => none
  | n + 1, c :: s =>
    match hexValue? c with
    | some v => readHex (start * 16 + v) n s
    | none => none

theorem length_readHex {start count n : Nat} {s r : List Char} (h : readHex start count s = some (n, r)) :
    r.length ≤ s.length := by
  induction count generalizing start s with
  | zero => simp_all [readHex]
  | succ count ih =>
    cases s with
    | nil => simp [readHex] at h
    | cons c s =>
      rw [readHex] at h
      split at h
      · exact Nat.le_succ_of_le (ih h)
      · simp at h

end SharedSheet.Text
