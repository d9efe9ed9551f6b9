/-
Texts as bytes. `encode` writes a text in UTF-8 and `decode?` reads it back, refusing bytes that are not
UTF-8. `decodeLossy` reads any bytes: it puts a replacement character in place of every part that cannot
be read, where a part is the longest beginning of a character's encoding, or else a single byte.
-/

namespace SharedSheet.Text

abbrev Byte := UInt8

/-- The UTF-8 bytes of a text. -/
def encode (s : List Char) : List Byte := s.flatMap String.utf8EncodeChar

/-- What the first byte of a character says: how many bytes follow it, between which bounds the next one
lies, and the bits that it carries itself. -/
structure Lead where
  following : Nat
  low : Byte
  high : Byte
  bits : Nat

/-- Reads a first byte. Overlong forms, surrogates and numbers above the code space have none, or bounds
on the second byte that shut them out. -/
def lead? (b : Byte) : Option Lead :=
  let n := b.toNat
  if n < 0x80 then some ⟨0, 0x80, 0xBF, n⟩
  else if n < 0xC2 then none
  else if n < 0xE0 then some ⟨1, 0x80, 0xBF, n - 0xC0⟩
  else if n = 0xE0 then some ⟨2, 0xA0, 0xBF, 0⟩
  else if n = 0xED then some ⟨2, 0x80, 0x9F, 0xD⟩
  else if n < 0xF0 then some ⟨2, 0x80, 0xBF, n - 0xE0⟩
  else if n = 0xF0 then some ⟨3, 0x90, 0xBF, 0⟩
  else if n < 0xF4 then some ⟨3, 0x80, 0xBF, n - 0xF0⟩
  else if n = 0xF4 then some ⟨3, 0x80, 0x8F, 4⟩
  else none

/-- Reads the `following` last bytes of a character, the first of them between `low` and `high`: the
character if all are there, and the bytes behind those that could be read. -/
def readFollowing (low high : Byte) (bits : Nat) : (following : Nat) → List Byte → Option Char × List Byte
  | 0, s => (some (Char.ofNat bits), s)
  | _ + 1, [] => (none, [])
  | n + 1, b :: s =>
    if low ≤ b ∧ b ≤ high then readFollowing 0x80 0xBF (bits * 64 + (b.toNat - 0x80)) n s else (none, b :: s)

theorem length_readFollowing (low high : Byte) (bits following : Nat) (s : List Byte) :
    (readFollowing low high bits following s).2.length ≤ s.length := by
  induction following generalizing low high bits s with
  | zero => simp [readFollowing]
  | succ n ih =>
    cases s with
    | nil => simp [readFollowing]
    | cons b s =>
      rw [readFollowing]
      split
      · exact Nat.le_succ_of_le (ih ..)
      · exact Nat.le_refl _

/-- Reads one character or one unreadable part. -/
def readChar (b : Byte) (s : List Byte) : Option Char × List Byte :=
  match lead? b with
  | some l => readFollowing l.low l.high l.bits l.following s
  | none => (none, s)

theorem length_readChar (b : Byte) (s : List Byte) : (readChar b s).2.length ≤ s.length := by
  unfold readChar
  split
  · exact length_readFollowing ..
  · exact Nat.le_refl _

/-- The character that stands for unreadable bytes. -/
def replacement : Char := '\uFFFD'

/-- The characters of a byte sequence, `none` for every unreadable part. -/
def readAll : List Byte → List (Option Char)
  | [] => []
  | b :: s => (readChar b s).1 :: readAll (readChar b s).2
termination_by s => s.length
decreasing_by
  have := length_readChar b s
  simp only [List.length_cons]
  omega

/-- Reads UTF-8. -/
def decode? (s : List Byte) : Option (List Char) := (readAll s).mapM fun c => c

/-- Reads bytes as UTF-8 where that is possible. -/
def decodeLossy (s : List Byte) : List Char := (readAll s).map fun c => c.getD replacement

end SharedSheet.Text
