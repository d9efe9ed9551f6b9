/-
Tokenizing in place: a text is read from left to right, characters are gathered as long as they are of one kind, and
what was gathered is put behind the tokens found before. Letters and the digits behind them are a reference as soon as
there are more characters than letters; nobody asks then whether they are the name of a cell.
-/
import SharedSheet.Formula.Token

namespace SharedSheet.Formula

/-- A token as it is found in place. What a reference names is any text. -/
inductive Lexeme where
  | op (o : BinOp)
  | opening
  | closing
  | reference (name : String)
  | number (x : Float)
  deriving DecidableEq, Repr

/-- A token as it would be found in place. -/
def Token.lexeme : Token Float → Lexeme
  | .op o => .op o
  | .opening => .opening
  | .closing => .closing
  | .cell name => .reference name.text
  | .number x => .number x

/-- Moves characters that satisfy `p` from a text to what is gathered: all that is gathered then, and the rest. -/
def gather (p : Char → Bool) (gathered : List Char) : List Char → List Char × List Char
  | [] => (gathered, [])
  | c :: s => if p c then gather p (gathered ++ [c]) s else (gathered, c :: s)

theorem gather_eq (p : Char → Bool) (gathered s : List Char) :
    gather p gathered s = (gathered ++ s.takeWhile p, s.dropWhile p) := by
  induction s generalizing gathered with
  | nil => simp [gather]
  | cons c s ih =>
    rw [gather]
    by_cases hc : p c = true
    · rw [if_pos hc, ih, List.takeWhile_cons_of_pos hc, List.dropWhile_cons_of_pos hc, List.append_assoc]
      rfl
    · rw [if_neg hc, List.takeWhile_cons_of_neg hc, List.dropWhile_cons_of_neg hc, List.append_nil]

theorem length_gather_le (p : Char → Bool) (gathered s : List Char) : (gather p gathered s).2.length ≤ s.length := by
  rw [gather_eq]
  exact length_dropWhile_le p s

/-- Some character is gathered if the first one can be. -/
theorem length_gather_lt {p : Char → Bool} {c : Char} (hc : p c = true) (gathered s : List Char) :
    (gather p gathered (c :: s)).2.length < (c :: s).length := by
  rw [gather, if_pos hc]
  exact Nat.lt_succ_of_le (length_gather_le ..)

/-- Reads a text to its end and puts its tokens behind those that were found before. -/
def collect (found : List Lexeme) : List Char → Except LexError (List Lexeme)
  | [] => .ok found
  | c :: s =>
    match Token.ofSymbol? c with
    | some t => collect (found ++ [t.lexeme]) s
    | none =>
      if c.isUpper then
        let letters := gather Char.isUpper [] (c :: s)
        let name := gather Char.isDigit letters.1 letters.2
        if letters.1.length < name.1.length then collect (found ++ [.reference (String.ofList name.1)]) name.2
        else collect found name.2
      else if isNumeric c then
        let literal := gather isNumeric [] (c :: s)
        match readNumber literal.1 with
        | .ok x => collect (found ++ [.number x]) literal.2
        | .error e => .error e
      else collect found s
termination_by s => s.length
decreasing_by
  · simp
  · exact Nat.lt_of_le_of_lt (length_gather_le ..) (length_gather_lt ‹_› ..)
  · exact Nat.lt_of_le_of_lt (length_gather_le ..) (length_gather_lt ‹_› ..)
  · exact length_gather_lt ‹_› ..
  · simp

/-- The tokens of a text as they are found in place; letters count as upper case. -/
def lexemes (s : List Char) : Except LexError (List Lexeme) := collect [] (s.map Char.toUpper)

end SharedSheet.Formula
