/-
Addresses to listen on, as far as they need no look-up: the local host by its name, and numbers. A number
of version 4 has one to four parts, the last of which stands for all the bytes that are left. A number of
version 6 stands in brackets, possibly with a zone behind a percent sign.
-/
import SharedSheet.Number.Literal
import SharedSheet.Text.Basic
import SharedSheet.Text.Lines

namespace SharedSheet

/-- An address as a number of 32 or of 128 bits. -/
inductive Address where
  | version4 (n : Nat)
  | version6 (n : Nat)
  deriving DecidableEq, Repr

namespace Address

/-! ## Version 4 -/

/-- A number in decimal, in hexadecimal behind `0x`, or in octal behind `0`. -/
def readPart? (s : List Char) : Option Nat :=
  match s with
  | '0' :: x :: s =>
    if x = 'x' ∨ x = 'X' then
      if s.isEmpty then none else s.foldlM (fun n c => (Text.hexValue? c).map (n * 16 + ·)) 0
    else (x :: s).foldlM (fun n c => if '0' ≤ c ∧ c ≤ '7' then some (n * 8 + (c.toNat - '0'.toNat)) else none) 0
  | s => Number.readDigits? s

/-- The number that parts stand for: bytes from the front, and what is left in the last part. -/
def joinParts? : List Nat → Nat → Option Nat
  | [], _ => none
  | [n], size => if n < 1 <<< (8 * size) then some n else none
  | n :: ns, size + 1 => if ns.length ≤ size ∧ n < 256 then (joinParts? ns size).map (n <<< (8 * size) + ·) else none
  | _, 0 => none

/-- A number of version 4 in any of its spellings. -/
def readVersion4? (s : List Char) : Option Nat := do
  joinParts? (← (Text.parts '.' s).mapM readPart?) 4

/-- A number of version 4 as four decimal bytes without needless zeros. -/
def readBytes? (s : List Char) : Option Nat := do
  let parts := Text.parts '.' s
  guard (parts.length = 4 ∧ parts.all fun p => Number.isWhole p && p.length ≤ 3)
  joinParts? (← parts.mapM Number.readDigits?) 4

/-! ## Version 6 -/

/-- The number of a group of at most 16 bits. -/
def readGroup? (s : List Char) : Option Nat :=
  if s.isEmpty || 4 < s.length then none else s.foldlM (fun n c => (Text.hexValue? c).map (n * 16 + ·)) 0

/-- The groups between colons. The last may be a number of version 4, which makes two. -/
def readGroups? (s : List Char) : Option (List Nat) :=
  if s.isEmpty then some []
  else
    let parts := Text.parts ':' s
    match (parts.getLast?.bind readBytes?) with
    | some n => (parts.dropLast.mapM readGroup?).map (· ++ [n / 65536, n % 65536])
    | none => parts.mapM readGroup?

/-- The place of the first two colons in a row: what stands before and behind them. -/
def splitGap : List Char → Option (List Char × List Char)
  | ':' :: ':' :: s => some ([], s)
  | c :: s => (splitGap s).map fun (a, b) => (c :: a, b)
  | [] => none

/-- Eight groups of 16 bits, or fewer with a gap of zeros in one place, before which there is no number of
version 4. -/
def readVersion6? (s : List Char) : Option Nat := do
  let groups ←
    match splitGap s with
    | some (front, back) =>
      guard (!front.contains '.')
      let (front, back) := (← readGroups? front, ← readGroups? back)
      guard (front.length + back.length < 8)
      some (front ++ List.replicate (8 - front.length - back.length) 0 ++ back)
    | none =>
      let groups ← readGroups? s
      guard (groups.length = 8)
      some groups
  return groups.foldl (fun n g => n * 65536 + g) 0

/-- Whether a text is a zone: a percent sign and a number of 32 bits, or nothing. -/
def isZone : List Char → Bool
  | [] => true
  | '%' :: s => ((Number.readDigits? s).map fun n => decide (n < UInt32.size)).getD false
  | _ => false

/-! ## Hosts -/

/-- The address that a host stands for. -/
def ofHost? (s : List Char) : Option Address :=
  match s with
  | '[' :: s =>
    let body := s.dropLast
    if s.getLast? == some ']' && isZone (body.dropWhile (· != '%')) then
      (readVersion6? (body.takeWhile (· != '%'))).map .version6
    else none
  | s =>
    if s.map Char.toLower == "localhost".toList then some (.version4 0x7F000001)
    else (readVersion4? s).map .version4

/-- The address of a text with a port number behind its last colon. -/
def ofText? (text : String) : Option Address :=
  ofHost? ((text.toList.reverse.dropWhile (· != ':')).drop 1).reverse

/-- Whether an address can be listened on without version 6: it is one of version 4, in its own form or in
that of version 6, or it is the one that stands for all addresses. -/
def needsNoVersion6 : Address → Bool
  | version4 _ => true
  | version6 n => n == 0 || n >>> 32 == 0xFFFF

end Address

end SharedSheet
