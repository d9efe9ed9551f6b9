/-
Tokens and the text around them. A character that belongs to no name and to no number separates what stands on its two
sides: both are tokenized as if they stood alone (`tokenize_separated`). Tokenizing in place finds the same tokens
(`lexemes_eq`), because letters with digits behind them are the name of a cell, and nothing else is: the texts that are
one reference are exactly the names of cells (`references_are_names`).
-/
import SharedSheet.Formula.Lexing
import SharedSheet.Proofs.Formula.Canonical

namespace SharedSheet.Formula

open Text

/-! ## Separators -/

/-- A run that reaches a character of another kind ends there, and does not depend on what follows. -/
theorem run_before {p : Char → Bool} {c : Char} (hc : p c = false) (s t : List Char) :
    (s ++ c :: t).takeWhile p = s.takeWhile p ∧ (s ++ c :: t).dropWhile p = s.dropWhile p ++ c :: t := by
  induction s with
  | nil => simp [hc]
  | cons d s ih =>
    by_cases hd : p d = true
    · simp [hd, ih]
    · simp [hd]

/-- The tokens of two texts with what stands between them, or what is wrong with the first text that has no tokens. -/
def joined (before : Except LexError (List (Token Float))) (between : Option (Token Float))
    (behind : Except LexError (List (Token Float))) : Except LexError (List (Token Float)) :=
  match before, behind with
  | .ok ts, .ok us => .ok (ts ++ between.toList ++ us)
  | .error e, _ => .error e
  | .ok _, .error e => .error e

theorem joined_map_cons (t : Token Float) (before : Except LexError (List (Token Float)))
    (between : Option (Token Float)) (behind : Except LexError (List (Token Float))) :
    joined (before.map (t :: ·)) between behind = (joined before between behind).map (t :: ·) := by
  rcases before with e | ts
  · rfl
  · rcases behind with e | us
    · rfl
    · rfl

/-- Letters and the digits behind them are taken together. -/
theorem scan_letters {d : Char} (hd : d.isUpper = true) (s : List Char) :
    scan (d :: s) =
      match CellName.ofChars? (d :: s.takeWhile Char.isUpper ++ (s.dropWhile Char.isUpper).takeWhile Char.isDigit) with
      | some name => (scan ((s.dropWhile Char.isUpper).dropWhile Char.isDigit)).map (.cell name :: ·)
      | none => scan ((s.dropWhile Char.isUpper).dropWhile Char.isDigit) := by
  rw [scan]
  exact if_pos hd

theorem scan_separated {c : Char} (hup : c.isUpper = false) (hnum : isNumeric c = false) (a b : List Char) :
    scan (a ++ c :: b) = joined (scan a) (Token.ofSymbol? c) (scan b) := by
  have hdig : c.isDigit = false := (Bool.or_eq_false_iff.1 hnum).1
  fun_induction scan a with
  | case1 =>
    rw [List.nil_append, scan, hup, hnum]
    rcases Token.ofSymbol? c with _ | t
    · rcases scan b with e | us <;> rfl
    · rcases scan b with e | us <;> rfl
  | case2 d s hd rest tokens name hname ih =>
    -- a name ends before the separator, with its letters or with its digits
    obtain ⟨utake, udrop⟩ := run_before hup s b
    obtain ⟨dtake, ddrop⟩ := run_before hdig (s.dropWhile Char.isUpper) b
    rw [List.cons_append, scan_letters hd, utake, udrop, dtake, ddrop, hname]
    dsimp only
    rw [ih, joined_map_cons]
  | case3 d s hd rest tokens hname ih =>
    obtain ⟨utake, udrop⟩ := run_before hup s b
    obtain ⟨dtake, ddrop⟩ := run_before hdig (s.dropWhile Char.isUpper) b
    rw [List.cons_append, scan_letters hd, utake, udrop, dtake, ddrop, hname]
    exact ih
  | case4 d s hd hd' x hx ih =>
    obtain ⟨ntake, ndrop⟩ := run_before hnum s b
    rw [List.cons_append, scan, if_neg hd, if_pos hd', ntake, ndrop, hx]
    dsimp only
    rw [ih, joined_map_cons]
  | case5 d s hd hd' e he =>
    obtain ⟨ntake, -⟩ := run_before hnum s b
    rw [List.cons_append, scan, if_neg hd, if_pos hd', ntake, he]
    rfl
  | case6 d s hd hd' t ht ih =>
    rw [List.cons_append, scan, if_neg hd, if_neg hd', ht]
    dsimp only
    rw [ih, joined_map_cons]
  | case7 d s hd hd' ht ih =>
    rw [List.cons_append, scan, if_neg hd, if_neg hd', ht]
    exact ih

/-- A character that is neither a letter nor a digit nor a point separates two texts: the tokens of the whole are
those of the first text, then the operator or parenthesis that the character is, if it is one, and then those of the
second. If something is wrong with the first text then the same is wrong with the whole, and else the same as with the
second. -/
theorem tokenize_separated (a b : List Char) (c : Char) (hletter : c.isAlpha = false) (hdigit : c.isDigit = false)
    (hpoint : c ≠ '.') :
    tokenize (a ++ c :: b) =
      match tokenize a, tokenize b with
      | .ok ts, .ok us => .ok (ts ++ (Token.ofSymbol? c).toList ++ us)
      | .error e, _ => .error e
      | .ok _, .error e => .error e := by
  obtain ⟨hup, hlow⟩ : c.isUpper = false ∧ c.isLower = false := Bool.or_eq_false_iff.1 hletter
  have hnum : isNumeric c = false := Bool.or_eq_false_iff.2 ⟨hdigit, beq_eq_false_iff_ne.2 hpoint⟩
  have hupper : c.toUpper = c := by
    refine toUpper_eq_self ?_
    by_contra h
    rw [Bool.eq_false_iff, ne_eq, isLower_iff] at hlow
    omega
  unfold tokenize
  rw [List.map_append, List.map_cons, hupper]
  exact scan_separated hup hnum _ _

/-- The text before the separator has a fault, and so has the text behind it. -/
theorem tokenize_separated_faults : '%'.isAlpha = false ∧ '%'.isDigit = false ∧ '%' ≠ '.' ∧
    tokenize ("a1+1..2".toList ++ '%' :: "b2*.".toList) = .error (.invalidNumber "1..2".toList) := by
  have hbefore : tokenize "a1+1..2".toList = .error (.invalidNumber "1..2".toList) := by decide +kernel
  refine ⟨rfl, rfl, by decide, ?_⟩
  rw [tokenize_separated "a1+1..2".toList "b2*.".toList '%' rfl rfl (by decide), hbefore]

/-! ## Names -/

theorem ofSymbol?_class {c : Char} {t : Token Float} (h : Token.ofSymbol? c = some t) :
    c.isUpper = false ∧ isNumeric c = false := by
  unfold Token.ofSymbol? at h
  split at h
  case h_7 => cases h
  all_goals exact ⟨rfl, rfl⟩

theorem letters_upper {c : Char} (hc : c.isUpper = true) (s : List Char) :
    ∀ d ∈ c :: s.takeWhile Char.isUpper, d.isUpper = true := by
  intro d hd
  rcases List.mem_cons.1 hd with rfl | hd
  · exact hc
  · exact List.mem_takeWhile_imp hd

/-- What is gathered from a letter on: the letters, and then the digits with them. -/
theorem gather_name {c : Char} (hc : c.isUpper = true) (s : List Char) :
    gather Char.isUpper [] (c :: s) = (c :: s.takeWhile Char.isUpper, s.dropWhile Char.isUpper) ∧
      gather Char.isDigit (gather Char.isUpper [] (c :: s)).1 (gather Char.isUpper [] (c :: s)).2 =
        (c :: s.takeWhile Char.isUpper ++ (s.dropWhile Char.isUpper).takeWhile Char.isDigit,
          (s.dropWhile Char.isUpper).dropWhile Char.isDigit) := by
  have hletters : gather Char.isUpper [] (c :: s) = (c :: s.takeWhile Char.isUpper, s.dropWhile Char.isUpper) := by
    rw [gather_eq, List.takeWhile_cons_of_pos hc, List.dropWhile_cons_of_pos hc]
    rfl
  exact ⟨hletters, by rw [hletters, gather_eq]⟩

theorem map_map_cons (t : Token Float) (found : List Lexeme) (e : Except LexError (List (Token Float))) :
    (e.map (t :: ·)).map (fun ts => found ++ ts.map Token.lexeme) =
      e.map fun ts => found ++ [t.lexeme] ++ ts.map Token.lexeme := by
  rcases e with e | ts
  · rfl
  · simp [Except.map]

/-- Tokenizing in place finds the tokens, and puts them behind those found before. -/
theorem collect_eq (found : List Lexeme) (s : List Char) :
    collect found s = (scan s).map fun ts => found ++ ts.map Token.lexeme := by
  fun_induction collect found s with
  | case1 found =>
    rw [scan]
    simp [Except.map]
  | case2 found c s t ht ih =>
    obtain ⟨hup, hnum⟩ := ofSymbol?_class ht
    rw [scan_symbol hup hnum ht, map_map_cons]
    exact ih
  | case3 found c s ht hup letters name hlonger ih =>
    -- there are digits, so the letters with them are the name of a cell
    obtain ⟨hletters, hname⟩ : letters = _ ∧ name = _ := gather_name hup s
    clear_value letters name
    subst hletters hname
    have hdigits : (s.dropWhile Char.isUpper).takeWhile Char.isDigit ≠ [] := by
      rintro hnil
      simp [hnil] at hlonger
    have hcell : CellName.ofChars? _ = some ⟨_, _⟩ := dif_pos (isCellName_append (letters_upper hup s)
      (fun _ => List.mem_takeWhile_imp) (List.cons_ne_nil _ _) hdigits)
    rw [scan_letters hup, hcell]
    dsimp only
    rw [map_map_cons]
    exact ih
  | case4 found c s ht hup letters name hlonger ih =>
    obtain ⟨hletters, hname⟩ : letters = _ ∧ name = _ := gather_name hup s
    clear_value letters name
    subst hletters hname
    have hdigits : (s.dropWhile Char.isUpper).takeWhile Char.isDigit = [] := by
      rw [List.length_append, Nat.not_lt] at hlonger
      dsimp only at hlonger
      exact List.length_eq_zero_iff.1 (by omega)
    have hcell : CellName.ofChars? (c :: s.takeWhile Char.isUpper) = none := dif_neg (Bool.eq_false_iff.1
      (isCellName_letters (letters_upper hup s)))
    rw [scan_letters hup, hdigits, List.append_nil, hcell]
    exact ih
  | case5 found c s ht hup hnum literal x hx ih =>
    have hliteral : literal = _ := gather_eq ..
    rw [List.takeWhile_cons_of_pos hnum, List.dropWhile_cons_of_pos hnum, List.nil_append] at hliteral
    clear_value literal
    subst hliteral
    rw [scan, if_neg hup, if_pos hnum, hx]
    dsimp only
    rw [map_map_cons]
    exact ih
  | case6 found c s ht hup hnum literal e he =>
    have hliteral : literal = _ := gather_eq ..
    rw [List.takeWhile_cons_of_pos hnum, List.dropWhile_cons_of_pos hnum, List.nil_append] at hliteral
    clear_value literal
    subst hliteral
    rw [scan, if_neg hup, if_pos hnum, he]
    rfl
  | case7 found c s ht hup hnum ih =>
    rw [scan, if_neg hup, if_neg hnum, ht]
    exact ih

theorem lexemes_eq (s : List Char) : lexemes s = (tokenize s).map fun ts => ts.map Token.lexeme := collect_eq [] _

theorem lexemes_eq_ok {s : List Char} {ls : List Lexeme} (h : lexemes s = .ok ls) :
    ∃ ts, tokenize s = .ok ts ∧ ls = ts.map Token.lexeme := by
  rw [lexemes_eq] at h
  rcases htok : tokenize s with e | ts
  · rw [htok] at h
    cases h
  · rw [htok] at h
    exact ⟨ts, rfl, (Except.ok.inj h).symm⟩

/-- What is found in place as a reference is the name of a cell. -/
theorem exists_name {s : List Char} {ls : List Lexeme} (h : lexemes s = .ok ls) {w : String} (hw : .reference w ∈ ls) :
    ∃ name : CellName, name.text = w := by
  obtain ⟨ts, -, rfl⟩ := lexemes_eq_ok h
  obtain ⟨t, -, ht⟩ := List.mem_map.1 hw
  cases t with
  | cell name => exact ⟨name, Lexeme.reference.inj ht⟩
  | op | opening | closing | number => cases ht

theorem lexemes_text (name : CellName) : lexemes name.text.toList = .ok [.reference name.text] := by
  have hscan := scan_cell name (s := []) (by simp)
  rw [List.append_nil, scan] at hscan
  rw [lexemes_eq, tokenize, name.toUpper_text, hscan]
  rfl

/-- References and names are one language, known to two recognisers that have nothing in common. A text is the name of a
cell, as its bytes tell, exactly if in place it is found to be one reference, which is to the text itself; and what is
found in place as a reference, in any text, is read as the name of a cell and stays as it is. Tokens are what is found
in place. -/
theorem references_are_names :
    (∀ v : String, isCellNameBytes (encode v.toList) = true ↔ lexemes v.toList = .ok [.reference v]) ∧
    (∀ (s : String) (ls : List Lexeme), lexemes s.toList = .ok ls → ∀ w, .reference w ∈ ls →
      ∃ name, CellName.parse? w = some name ∧ name.text = w) ∧
    ∀ s : String, lexemes s.toList = (tokenize s.toList).map fun ts => ts.map Token.lexeme := by
  refine ⟨fun v => ?_, fun s ls hls w hw => ?_, fun s => lexemes_eq _⟩
  · rw [isCellNameBytes_encode]
    constructor
    · intro hname
      exact lexemes_text ⟨v, hname⟩
    · intro hv
      obtain ⟨name, rfl⟩ := exists_name hv List.mem_cons_self
      exact name.wellFormed
  · obtain ⟨name, rfl⟩ := exists_name hls hw
    exact ⟨name, name.parse?_text, rfl⟩

/-- Letters without digits behind them are no reference, and the name behind them is one. -/
theorem references_are_names_mixed : lexemes "x+aa7".toList = .ok [.op .add, .reference "AA7"] ∧
    ∃ name, CellName.parse? "AA7" = some name ∧ name.text = "AA7" := by
  have hfound : lexemes "x+aa7".toList = .ok [.op .add, .reference "AA7"] := by decide +kernel
  exact ⟨hfound, references_are_names.2.1 "x+aa7" _ hfound "AA7" (by simp)⟩

end SharedSheet.Formula
