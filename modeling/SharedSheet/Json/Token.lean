/-
The tokens of a JSON text: punctuation, strings, numbers and the three words. `scan` splits a text into
tokens and drops the blanks between them; it refuses what is no token, a string with a raw control
character among them. A string with a lone surrogate is a token, and so is a number beyond the doubles,
but they have no value.
-/
import SharedSheet.Json.Number
import SharedSheet.Text.Basic

namespace SharedSheet.Json

inductive Token where
  | openBrace
  | closeBrace
  | openBracket
  | closeBracket
  | comma
  | colon
  | string (s : Option String)
  | scalar (v : Option Json)

/-! ## Strings -/

/-- The value of four hexadecimal digits. -/
def hexValue4? (a b c d : Char) : Option Nat := do
  return (((← Text.hexValue? a) * 16 + (← Text.hexValue? b)) * 16 + (← Text.hexValue? c)) * 16 + (← Text.hexValue? d)

/-- The character that a letter stands for behind a backslash. -/
def shortEscape? : Char → Option Char
  | '"' => some '"'
  | '\\' => some '\\'
  | '/' => some '/'
  | 'b' => some '\x08'
  | 'f' => some '\x0c'
  | 'n' => some '\n'
  | 'r' => some '\r'
  | 't' => some '\t'
  | _ => none

/-- The first half of a surrogate pair. -/
def isHighSurrogate (n : Nat) : Bool := 0xD800 ≤ n && n ≤ 0xDBFF

/-- The second half of a surrogate pair. -/
def isLowSurrogate (n : Nat) : Bool := 0xDC00 ≤ n && n ≤ 0xDFFF

/-- Reads an escape behind its backslash: the character and the rest. Half a surrogate pair without the
other half is no character. -/
def readEscape : List Char → Option (Option Char × List Char)
  | 'u' :: a :: b :: c :: d :: s =>
    match hexValue4? a b c d with
    | none => none
    | some n =>
      if isLowSurrogate n then some (none, s)
      else if isHighSurrogate n then
        match s with
        | '\\' :: 'u' :: e :: f :: g :: h :: r =>
          match hexValue4? e f g h with
          | some m =>
            if isLowSurrogate m then some (some (Char.ofNat (0x10000 + (n - 0xD800) * 0x400 + (m - 0xDC00))), r)
            else some (none, s)
          | none => none
        | _ => some (none, s)
      else some (some (Char.ofNat n), s)
  | c :: s => (shortEscape? c).map fun c => (some c, s)
  | [] => none

theorem length_readEscape {s r : List Char} {c : Option Char} (h : readEscape s = some (c, r)) :
    r.length < s.length := by
  unfold readEscape at h
  repeat' split at h
  all_goals simp only [Option.some.injEq, Option.map_eq_some_iff, Prod.mk.injEq, reduceCtorEq] at h
  all_goals first
    | obtain ⟨-, rfl⟩ := h
      simp only [List.length_cons]
      omega
    | obtain ⟨-, -, -, rfl⟩ := h
      simp

/-- Reads a string behind its opening quote: the characters, and the rest behind the closing quote. -/
def readString : List Char → Option (List (Option Char) × List Char)
  | [] => none
  | '"' :: s => some ([], s)
  | '\\' :: s =>
    match _h : readEscape s with
    | some (c, r) => (readString r).map fun (t, r) => (c :: t, r)
    | none => none
  | c :: s => if c.toNat < 0x20 then none else (readString s).map fun (t, r) => (some c :: t, r)
termination_by s => s.length
decreasing_by
  · have := length_readEscape _h
    simp only [List.length_cons]
    omega
  · simp

theorem length_readString {s r : List Char} {t : List (Option Char)} (h : readString s = some (t, r)) :
    r.length < s.length := by
  fun_induction readString s generalizing t r with
  | case1 => simp at h
  | case2 s => simp_all
  | case3 s c r' he ih =>
    simp only [Option.map_eq_some_iff, Prod.mk.injEq, Prod.exists] at h
    obtain ⟨t', r'', h, -, rfl⟩ := h
    have := ih h
    have := length_readEscape he
    simp only [List.length_cons]
    omega
  | case4 => simp at h
  | case5 => simp at h
  | case6 c s _ _ _ ih =>
    simp only [Option.map_eq_some_iff, Prod.mk.injEq, Prod.exists] at h
    obtain ⟨t', r'', h, -, rfl⟩ := h
    have := ih h
    simp only [List.length_cons]
    omega

/-! ## Texts -/

/-- The blanks between tokens. -/
def isBlank (c : Char) : Bool := c == ' ' || c == '\n' || c == '\r' || c == '\t'

/-- The tokens of one character. -/
def punctuation? : Char → Option Token
  | '{' => some .openBrace
  | '}' => some .closeBrace
  | '[' => some .openBracket
  | ']' => some .closeBracket
  | ',' => some .comma
  | ':' => some .colon
  | _ => none

/-- The three words: the value, and the rest behind the word. -/
def readWord : List Char → Option (Json × List Char)
  | 'n' :: 'u' :: 'l' :: 'l' :: s => some (.null, s)
  | 't' :: 'r' :: 'u' :: 'e' :: s => some (.bool true, s)
  | 'f' :: 'a' :: 'l' :: 's' :: 'e' :: s => some (.bool false, s)
  | _ => none

theorem length_readWord {s r : List Char} {v : Json} (h : readWord s = some (v, r)) : r.length < s.length := by
  unfold readWord at h
  split at h <;> simp_all <;> omega

/-- Splits a text into tokens. -/
def scan (s : List Char) : Option (List Token) :=
  match s with
  | [] => some []
  | c :: s =>
    if isBlank c then scan s
    else
      match punctuation? c with
      | some t => (scan s).map (t :: ·)
      | none =>
        if c = '"' then
          match _h : readString s with
          | some (t, r) => (scan r).map (.string ((t.mapM id).map String.ofList) :: ·)
          | none => none
        else if isNumeric c then
          match readNumber? (c :: s.takeWhile isNumeric) with
          | some v => (scan (s.dropWhile isNumeric)).map (.scalar v :: ·)
          | none => none
        else
          match _h : readWord (c :: s) with
          | some (v, r) => (scan r).map (.scalar (some v) :: ·)
          | none => none
termination_by s.length
decreasing_by
  · simp
  · simp
  · have := length_readString _h
    simp only [List.length_cons]
    omega
  · have := (List.dropWhile_sublist (l := s) isNumeric).length_le
    simp only [List.length_cons]
    omega
  · exact length_readWord _h

end SharedSheet.Json
