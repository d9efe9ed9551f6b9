/-
The texts inside a TOML document: blanks, line ends, comments, and the four kinds of strings. A string
stands between single or double quotes, one on each side or three; only double quotes allow escapes, and
only three quotes allow newlines.
-/
import SharedSheet.Text.Basic

namespace SharedSheet.Toml

/-- The characters that may stand in comments and, quotes and backslashes apart, in strings. -/
def isPlain (c : Char) : Bool := c == '\t' || (' ' ≤ c && c != '\x7f')

def isBlank (c : Char) : Bool := c == ' ' || c == '\t'

def skipBlanks (s : List Char) : List Char := s.dropWhile isBlank

/-- What follows a newline, which may have a carriage return in front. -/
def newline? : List Char → Option (List Char)
  | '\n' :: s => some s
  | '\r' :: '\n' :: s => some s
  | _ => none

theorem length_newline? {s r : List Char} (h : newline? s = some r) : r.length < s.length := by
  unfold newline? at h
  split at h <;> simp only [Option.some.injEq, reduceCtorEq] at h
  · subst h
    simp only [List.length_cons]
    omega
  · subst h
    simp only [List.length_cons]
    omega

/-- The text behind blanks and newlines. -/
def skipSpace (s : List Char) : List Char :=
  match s with
  | '\r' :: '\n' :: s => skipSpace s
  | c :: s => if isBlank c || c == '\n' then skipSpace s else c :: s
  | [] => []

theorem length_skipSpace (s : List Char) : (skipSpace s).length ≤ s.length := by
  fun_induction skipSpace s with
  | case1 s ih =>
    simp only [List.length_cons]
    omega
  | case2 c s _ _ ih =>
    simp only [List.length_cons]
    omega
  | case3 => exact Nat.le_refl _
  | case4 => exact Nat.le_refl _

/-- The text behind blanks, newlines and comments. -/
def skipFiller (s : List Char) : List Char :=
  match s with
  | '\r' :: '\n' :: s => skipFiller s
  | c :: s =>
    if c = '#' then skipFiller (s.dropWhile isPlain)
    else if isBlank c || c == '\n' then skipFiller s
    else c :: s
  | [] => []
termination_by s.length
decreasing_by
  · simp only [List.length_cons]
    omega
  · have := (List.dropWhile_sublist (l := s) isPlain).length_le
    simp only [List.length_cons]
    omega
  · simp

/-- What follows the rest of a line that says nothing more. -/
def endLine? (s : List Char) : Option (List Char) :=
  let rest :=
    match skipBlanks s with
    | '#' :: s => s.dropWhile isPlain
    | s => s
  if rest.isEmpty then some [] else newline? rest

/-! ## Strings -/

/-- The character that a letter stands for behind a backslash. -/
def shortEscape? : Char → Option Char
  | 'b' => some '\x08'
  | 't' => some '\t'
  | 'n' => some '\n'
  | 'f' => some '\x0c'
  | 'r' => some '\r'
  | '"' => some '"'
  | '\\' => some '\\'
  | _ => none

/-- Reads the number of a character in so many hexadecimal digits. -/
def readCodePoint (digits : Nat) (s : List Char) : Option (Char × List Char) :=
  match Text.readHex 0 digits s with
  | some (n, r) => if n.isValidChar then some (Char.ofNat n, r) else none
  | none => none

/-- Reads an escape behind its backslash. -/
def readEscape : List Char → Option (Char × List Char)
  | 'u' :: s => readCodePoint 4 s
  | 'U' :: s => readCodePoint 8 s
  | c :: s => (shortEscape? c).map (·, s)
  | [] => none

theorem length_readCodePoint {digits : Nat} {s r : List Char} {c : Char}
    (h : readCodePoint digits s = some (c, r)) : r.length ≤ s.length := by
  unfold readCodePoint at h
  split at h
  · rename_i he
    split at h <;> simp only [Option.some.injEq, Prod.mk.injEq, reduceCtorEq] at h
    exact h.2 ▸ Text.length_readHex he
  · simp at h

theorem length_readEscape {s r : List Char} {c : Char} (h : readEscape s = some (c, r)) :
    r.length < s.length := by
  unfold readEscape at h
  split at h
  · exact Nat.lt_succ_of_le (length_readCodePoint h)
  · exact Nat.lt_succ_of_le (length_readCodePoint h)
  · simp only [Option.map_eq_some_iff, Prod.mk.injEq] at h
    obtain ⟨-, -, -, rfl⟩ := h
    simp
  · simp at h

/-- Whether escapes count between these quotes. -/
def hasEscapes (quote : Char) : Bool := quote == '"'

/-- Reads a string of one line behind its opening quote. -/
def readLine (quote : Char) (s : List Char) : Option (List Char × List Char) :=
  match s with
  | [] => none
  | c :: s =>
    if c = quote then some ([], s)
    else if c = '\\' ∧ hasEscapes quote then
      match _h : readEscape s with
      | some (e, r) => (readLine quote r).map fun (t, r) => (e :: t, r)
      | none => none
    else if isPlain c then (readLine quote s).map fun (t, r) => (c :: t, r)
    else none
termination_by s.length
decreasing_by
  · have := length_readEscape _h
    simp only [List.length_cons]
    omega
  · simp

/-- Reads a string of several lines behind its three opening quotes. One or two quotes are part of the
string. A run of three to five quotes closes it, those over three being part of it. A backslash at the
end of a line takes away all blanks and newlines that follow. -/
def readLines (quote : Char) (s : List Char) : Option (List Char × List Char) :=
  match s with
  | [] => none
  | c :: s =>
    if c = quote then
      let more := (s.takeWhile (· == quote)).length
      let rest := s.dropWhile (· == quote)
      if more < 2 then (readLines quote rest).map fun (t, r) => (List.replicate (more + 1) quote ++ t, r)
      else if more < 5 then some (List.replicate (more - 2) quote, rest)
      else none
    else if c = '\\' ∧ hasEscapes quote then
      match _h : newline? (skipBlanks s) with
      | some r => readLines quote (skipSpace r)
      | none =>
        match _h : readEscape s with
        | some (e, r) => (readLines quote r).map fun (t, r) => (e :: t, r)
        | none => none
    else
      match _h : newline? (c :: s) with
      | some r => (readLines quote r).map fun (t, r) => ('\n' :: t, r)
      | none => if isPlain c then (readLines quote s).map fun (t, r) => (c :: t, r) else none
termination_by s.length
decreasing_by
  · have := (List.dropWhile_sublist (l := s) (· == quote)).length_le
    simp only [List.length_cons]
    omega
  · have := length_skipSpace r
    have := length_newline? _h
    have := (List.dropWhile_sublist (l := s) isBlank).length_le
    unfold skipBlanks at *
    simp only [List.length_cons]
    omega
  · have := length_readEscape _h
    simp only [List.length_cons]
    omega
  · exact length_newline? _h
  · simp

/-- Reads a string of any kind. A newline right behind three opening quotes is no part of it. -/
def readString : List Char → Option (String × List Char)
  | q :: s =>
    if q = '"' ∨ q = '\'' then
      let content :=
        match s with
        | q₁ :: q₂ :: t => if q₁ = q ∧ q₂ = q then readLines q ((newline? t).getD t) else readLine q s
        | _ => readLine q s
      content.map fun (t, r) => (String.ofList t, r)
    else none
  | [] => none

end SharedSheet.Toml
