/-
Lines in a stream of bytes that arrives in pieces. A `LineReader` gathers bytes until a line is complete,
and looks at no more of them than a line within the limit can have. `poll` is one attempt to read: it ends
with a line, at a pause of the stream, at the end of the stream, or with a line that is too long.
-/
import SharedSheet.Text.Utf8

namespace SharedSheet

open Text (Byte)

/-- Bytes that are still to come, in pieces. The stream pauses between two pieces; behind the last one it
ends, or else it pauses and stays open. -/
structure Incoming where
  pieces : List (List Byte)
  ended : Bool
  deriving DecidableEq, Repr

/-- How an attempt to read a line ends. -/
inductive ReadEvent where
  | line (text : String)
  | idle
  | closed
  | tooLong
  deriving DecidableEq, Repr

/-- The bytes of a line that is not complete, and how many bytes a line may have. -/
structure LineReader where
  limit : Nat
  buffer : List Byte
  deriving DecidableEq, Repr

namespace LineReader

def newline : Byte := 10

def carriageReturn : Byte := 13

/-- The reader at the start of a stream. -/
def new (limit : Nat) : LineReader := ⟨limit, []⟩

/-- Splits off the bytes up to the first newline, it included, but no more than `n` of them. -/
def splitLine : (n : Nat) → List Byte → List Byte × List Byte
  | 0, s => ([], s)
  | _ + 1, [] => ([], [])
  | n + 1, b :: s => if b = newline then ([b], s) else (b :: (splitLine n s).1, (splitLine n s).2)

/-- The bytes of a line without its newline and one carriage return before it. -/
def content (line : List Byte) : List Byte :=
  if line.dropLast.getLast? = some carriageReturn then line.dropLast.dropLast else line.dropLast

/-- Judges the buffer after bytes were added to it. -/
def judge (r : LineReader) : ReadEvent × LineReader :=
  if r.buffer.getLast? = some newline then
    if (content r.buffer).length > r.limit then (.tooLong, { r with buffer := content r.buffer })
    else (.line (String.ofList (Text.decodeLossy (content r.buffer))), { r with buffer := [] })
  else if r.buffer.length > r.limit then (.tooLong, r)
  else (.idle, r)

/-- How many bytes may be added to the buffer: a line within the limit has at most two bytes more. -/
def budget (r : LineReader) : Nat := r.limit + 2 - r.buffer.length

/-- Attempts to read. Bytes that arrived before a pause are kept. -/
def poll (r : LineReader) (s : Incoming) : ReadEvent × LineReader × Incoming :=
  let piece := s.pieces.headD []
  let later := s.pieces.tail
  let (taken, rest) := splitLine r.budget piece
  let grown := { r with buffer := r.buffer ++ taken }
  if taken.getLast? = some newline ∨ taken.length = r.budget then
    if taken.isEmpty then (.closed, r, s)
    else (grown.judge.1, grown.judge.2, { s with pieces := rest :: later })
  else if later.isEmpty ∧ s.ended then
    if taken.isEmpty then (.closed, r, { s with pieces := [] })
    else (grown.judge.1, grown.judge.2, { s with pieces := [] })
  else (.idle, grown, { s with pieces := later })

end LineReader

end SharedSheet
