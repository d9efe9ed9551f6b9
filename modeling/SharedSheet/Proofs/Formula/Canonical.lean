/-
The canonical form of formulas. The canonical text of a parsed formula parses to the same formula
(`parse_text`): tokens are found again in their spelling, because a formula has no two operands side by
side that could run together.
-/
import SharedSheet.Formula.Basic
import SharedSheet.Proofs.CellName
import SharedSheet.Proofs.Number.Shortest

namespace SharedSheet.Formula

open Text

/-! ## What scanning gives -/

/-- A number that can be written down: finite, and without a minus sign. -/
def Token.IsPlain : Token Float → Prop
  | .number x => Number.IsUnsigned x.toModel.unpack ∧ x.isFinite = true
  | _ => True

theorem readNumber_eq_ok {s : List Char} {x : Float} (h : readNumber s = .ok x) :
    Number.read? s = some x ∧ x.isFinite = true := by
  unfold readNumber at h
  split at h
  · rename_i y hy
    split at h
    · cases h
      exact ⟨hy, ‹_›⟩
    · cases h
  · cases h

theorem map_cons_eq_ok {ε α : Type} {e : Except ε (List α)} {x : α} {l : List α} (h : e.map (x :: ·) = .ok l) :
    ∃ l', e = .ok l' ∧ l = x :: l' := by
  rcases e with e | l'
  · cases h
  · cases h
    exact ⟨l', rfl, rfl⟩

/-- The numbers that scanning finds are finite and have no sign. -/
theorem isPlain_of_scan {s : List Char} {ts : List (Token Float)} (h : scan s = .ok ts) : ∀ t ∈ ts, t.IsPlain := by
  fun_induction scan s generalizing ts with
  | case1 =>
    cases h
    simp
  | case2 =>
    -- a name of a cell
    rename_i ih
    obtain ⟨ts', hts, rfl⟩ := map_cons_eq_ok h
    rintro t (_ | ⟨_, ht⟩)
    · trivial
    · exact ih hts t ht
  | case3 =>
    rename_i ih
    exact ih h
  | case4 c s hup hnum x hx ih =>
    -- a number, read from a run of digits and points
    obtain ⟨ts', hts, rfl⟩ := map_cons_eq_ok h
    rintro t (_ | ⟨_, ht⟩)
    · obtain ⟨hread, hfin⟩ := readNumber_eq_ok hx
      refine ⟨Number.isUnsigned_read? ?_ hread, hfin⟩
      intro d hd
      rcases List.mem_cons.1 hd with rfl | hd
      · exact hnum
      · exact List.mem_takeWhile_imp hd
    · exact ih hts t ht
  | case5 => cases h
  | case6 c s hup hnum t₀ ht₀ ih =>
    obtain ⟨ts', hts, rfl⟩ := map_cons_eq_ok h
    rintro t (_ | ⟨_, ht⟩)
    · unfold Token.ofSymbol? at ht₀
      split at ht₀ <;> cases ht₀ <;> trivial
    · exact ih hts t ht
  | case7 c s hup hnum ht₀ ih => exact ih h

/-! ## What the shape forbids -/

def Token.isOperand {ν : Type} : Token ν → Bool
  | .cell _ | .number _ => true
  | _ => false

/-- No two operands stand side by side. -/
def Separated (ts : List (Token Float)) : Prop :=
  ts.IsChain fun t u => t.isOperand = true → u.isOperand = false

theorem separated_cons {t : Token Float} {ts : List (Token Float)} :
    Separated (t :: ts) ↔ (∀ u ∈ ts.head?, t.isOperand = true → u.isOperand = false) ∧ Separated ts :=
  List.isChain_cons

/-- Behind an operand no operand is accepted. -/
theorem separated_of_checkFrom {p : Position} {depth : ℕ} {ts : List (Token Float)}
    (h : checkFrom p depth ts = .ok ()) :
    (∀ u ∈ ts.head?, p = .afterOperand → u.isOperand = false) ∧ Separated ts := by
  induction ts generalizing p depth with
  | nil => exact ⟨by simp, .nil⟩
  | cons t ts ih =>
    rw [separated_cons]
    have hne : ∀ {e : ShapeError Float}, Except.error e ≠ .ok () := by simp
    -- an operator, the two parentheses, and the two operands
    rcases t with o | _ | _ | name | x <;> unfold checkFrom at h
    · rcases p with _ | _ | _
      · exact absurd h hne
      · exact absurd h hne
      · exact ⟨by rintro _ ⟨⟩ _; rfl, by rintro _ _ ⟨⟩, (ih h).2⟩
    · split at h
      · exact absurd h hne
      · exact ⟨by rintro _ ⟨⟩ _; rfl, by rintro _ _ ⟨⟩, (ih h).2⟩
    · split at h
      · exact absurd h hne
      · split at h
        · exact absurd h hne
        · exact ⟨by rintro _ ⟨⟩ _; rfl, by rintro _ _ ⟨⟩, (ih h).2⟩
    · split at h
      · exact absurd h hne
      · rename_i hp
        exact ⟨fun _ _ hp' => absurd hp' hp, fun u hu _ => (ih h).1 u hu rfl, (ih h).2⟩
    · split at h
      · exact absurd h hne
      · rename_i hp
        exact ⟨fun _ _ hp' => absurd hp' hp, fun u hu _ => (ih h).1 u hu rfl, (ih h).2⟩

theorem separated_of_validate {ts : List (Token Float)} (h : validate ts = .ok ()) : Separated ts := by
  unfold validate at h
  split at h
  · cases h
  · exact (separated_of_checkFrom h).2

/-! ## Spelling and scanning -/

/-- A token that is no operand is one character, and neither a letter nor a digit nor a point. -/
theorem symbol_spelling {t : Token Float} (h : t.isOperand = false) :
    ∃ c, t.spelling = [c] ∧ c.isUpper = false ∧ isNumeric c = false ∧ Token.ofSymbol? c = some t ∧ c.toNat < 97 := by
  rcases t with o | _ | _ | _ | _
  · rcases o with _ | _ | _ | _ <;> exact ⟨_, rfl, rfl, rfl, rfl, by decide⟩
  · exact ⟨_, rfl, rfl, rfl, rfl, by decide⟩
  · exact ⟨_, rfl, rfl, rfl, rfl, by decide⟩
  · cases h
  · cases h

/-- What follows an operand cannot be taken for a part of it. -/
theorem head_of_separated {t : Token Float} {ts : List (Token Float)} (h : Separated (t :: ts))
    (ht : t.isOperand = true) :
    ∀ c ∈ (ts.flatMap Token.spelling).head?, c.isUpper = false ∧ isNumeric c = false := by
  intro c hc
  rcases ts with _ | ⟨u, ts⟩
  · cases hc
  · obtain ⟨d, hd, hup, hnum, -⟩ := symbol_spelling ((separated_cons.1 h).1 u rfl ht)
    rw [List.flatMap_cons, hd] at hc
    cases hc
    exact ⟨hup, hnum⟩

theorem scan_symbol {c : Char} {t : Token Float} (hup : c.isUpper = false) (hnum : isNumeric c = false)
    (ht : Token.ofSymbol? c = some t) (s : List Char) : scan (c :: s) = (scan s).map (t :: ·) := by
  rw [scan, hup, hnum, ht]
  simp

theorem isUpper_of_isNumeric {c : Char} (h : isNumeric c = true) : c.isUpper = false := by
  unfold isNumeric at h
  rw [Bool.or_eq_true, isDigit_iff, beq_iff_eq] at h
  rw [Bool.eq_false_iff, ne_eq, isUpper_iff]
  rcases h with h | rfl
  · omega
  · decide

theorem scan_number {w s : List Char} {x : Float} (hne : w ≠ []) (hw : ∀ c ∈ w, isNumeric c = true)
    (hread : readNumber w = .ok x) (hs : ∀ c ∈ s.head?, isNumeric c = false) :
    scan (w ++ s) = (scan s).map (.number x :: ·) := by
  obtain ⟨c, w, rfl⟩ := List.exists_cons_of_ne_nil hne
  have hc := hw c (by simp)
  have hup := isUpper_of_isNumeric hc
  obtain ⟨htake, hdrop⟩ := split_run (fun d hd => hw d (List.mem_cons_of_mem _ hd)) hs
  rw [List.cons_append, scan, hup, hc, htake, hdrop, hread]
  simp

theorem scan_cell (name : CellName) {s : List Char} (hs : ∀ c ∈ s.head?, isNumeric c = false) :
    scan (name.text.toList ++ s) = (scan s).map (.cell name :: ·) := by
  obtain ⟨letters, digits, htext, hl, hd, hup, hdig⟩ := exists_parts name.wellFormed
  obtain ⟨c, letters, rfl⟩ := List.exists_cons_of_ne_nil hl
  have hc := hup c (by simp)
  obtain ⟨d, digits, rfl⟩ := List.exists_cons_of_ne_nil hd
  have hd' : d.isUpper = false := isUpper_of_isNumeric (Number.isNumeric_of_isDigit (hdig d (by simp)))
  -- the letters end at the first digit, the digits at the next symbol
  obtain ⟨utake, udrop⟩ := split_run (t := d :: digits ++ s) (fun u hu => hup u (List.mem_cons_of_mem _ hu))
    (by rintro _ ⟨⟩; exact hd')
  obtain ⟨dtake, ddrop⟩ := split_run (t := s) hdig fun u hu => by
    have h := hs u hu
    unfold isNumeric at h
    rw [Bool.or_eq_false_iff] at h
    exact h.1
  have hname : CellName.ofChars? (c :: letters ++ d :: digits) = some name := by
    rw [← htext, name.ofChars?_text]
  rw [htext, List.append_assoc, List.cons_append, scan, hc, utake, udrop]
  simp only [dtake, ddrop, hname, if_true]

/-- Scanning finds the tokens again in their spelling. -/
theorem scan_spelling {ts : List (Token Float)} (hsep : Separated ts) (hplain : ∀ t ∈ ts, t.IsPlain) :
    scan (ts.flatMap Token.spelling) = .ok ts := by
  induction ts with
  | nil => rw [List.flatMap_nil, scan]
  | cons t ts ih =>
    have hts := ih (separated_cons.1 hsep).2 fun u hu => hplain u (List.mem_cons_of_mem _ hu)
    rw [List.flatMap_cons]
    by_cases ht : t.isOperand = true
    · have hhead := head_of_separated hsep ht
      rcases t with _ | _ | _ | name | x
      · cases ht
      · cases ht
      · cases ht
      · show scan (name.text.toList ++ _) = _
        rw [scan_cell name fun c hc => (hhead c hc).2, hts]
        rfl
      · obtain ⟨hun, hfin⟩ : (Token.number x).IsPlain := hplain _ (by simp)
        obtain ⟨hne, hnum⟩ := Number.isNumeric_textOf hun hfin
        have hread : readNumber (Number.textOf x) = .ok x := by
          unfold readNumber
          rw [Number.read?_textOf hun hfin]
          exact if_pos hfin
        show scan (Number.textOf x ++ _) = _
        rw [scan_number hne hnum hread fun c hc => (hhead c hc).2, hts]
        rfl
    · obtain ⟨c, hspell, hup, hnum, hsym, -⟩ := symbol_spelling (Bool.eq_false_iff.2 ht)
      rw [hspell, List.cons_append, List.nil_append, scan_symbol hup hnum hsym, hts]
      rfl

/-- No letter of a spelling is lower-case. -/
theorem toUpper_spelling {t : Token Float} (ht : t.IsPlain) : t.spelling.map Char.toUpper = t.spelling := by
  by_cases hop : t.isOperand = true
  · rcases t with _ | _ | _ | name | x
    · cases hop
    · cases hop
    · cases hop
    · exact name.toUpper_text
    · obtain ⟨hun, hfin⟩ := ht
      refine (List.map_congr_left fun c hc => ?_).trans (List.map_id _)
      have h := (Number.isNumeric_textOf hun hfin).2 c hc
      unfold isNumeric at h
      rw [Bool.or_eq_true, isDigit_iff, beq_iff_eq] at h
      rcases h with h | rfl
      · exact toUpper_eq_self (by omega)
      · rfl
  · obtain ⟨c, hspell, -, -, -, hlt⟩ := symbol_spelling (Bool.eq_false_iff.2 hop)
    rw [hspell, List.map_singleton, toUpper_eq_self (.inl hlt)]

theorem toUpper_flatMap_spelling {ts : List (Token Float)} (h : ∀ t ∈ ts, t.IsPlain) :
    (ts.flatMap Token.spelling).map Char.toUpper = ts.flatMap Token.spelling := by
  induction ts with
  | nil => rfl
  | cons t ts ih =>
    rw [List.flatMap_cons, List.map_append, toUpper_spelling (h t (by simp)),
      ih fun u hu => h u (List.mem_cons_of_mem _ hu)]

/-! ## The canonical text -/

theorem parseChars_eq_ok {s : List Char} {f : Formula} (h : parseChars s = .ok f) :
    ∃ body, s = '=' :: body ∧ tokenize body = .ok f.tokens := by
  unfold parseChars at h
  split at h
  · rename_i body
    split at h
    · cases h
    · rename_i tokens htok
      split at h
      · cases h
      · cases h
        exact ⟨body, rfl, htok⟩
  · cases h

theorem parse_eq_ok {s : String} {f : Formula} (h : Formula.parse s = .ok f) : parseChars s.toList = .ok f := by
  unfold Formula.parse at h
  rcases hp : parseChars s.toList with e | g
  · rw [hp] at h
    cases h
  · rw [hp] at h
    cases h
    rfl

/-- Reading a formula from its canonical text gives the same formula. -/
theorem parse_text {s : String} {f : Formula} (h : Formula.parse s = .ok f) : Formula.parse f.text = .ok f := by
  obtain ⟨body, -, htok⟩ := parseChars_eq_ok (parse_eq_ok h)
  have hplain := isPlain_of_scan htok
  have hbody : tokenize (f.tokens.flatMap Token.spelling) = .ok f.tokens := by
    unfold tokenize
    rw [toUpper_flatMap_spelling hplain, scan_spelling (separated_of_validate f.wellShaped) hplain]
  have hchars : parseChars f.chars = .ok f := by
    unfold chars parseChars
    simp only
    split
    · rename_i e he
      rw [hbody] at he
      cases he
    · rename_i tokens ht
      rw [hbody] at ht
      cases ht
      split
      · rename_i e he
        rw [f.wellShaped] at he
        cases he
      · rfl
  unfold Formula.parse text
  rw [String.toList_ofList, hchars]
  rfl

/-- The canonical text of a formula that parses is found to have the same tokens again, none of them merged with its
neighbour and none lost, and so it is its own canonical text. -/
theorem canonical_stable (s : String) (f : Formula) (h : Formula.parse s = .ok f) :
    (∃ g, Formula.parse f.text = .ok g ∧ g.tokens = f.tokens) ∧
      (Formula.parse f.text).map Formula.text = .ok f.text := by
  have hparse := parse_text h
  constructor
  · exact ⟨f, hparse, rfl⟩
  · rw [hparse]
    rfl

/-- Blanks, a stray character, small letters and a number with needless zeros are gone after the first reading. -/
theorem canonical_stable_spaced :
    ∃ f : Formula, Formula.parse "= b2 -(.50 # + Cc03)" = .ok f ∧ f.text = "=B2-(0.5+CC03)" ∧
      (∃ g, Formula.parse f.text = .ok g ∧ g.tokens = f.tokens) ∧
        (Formula.parse f.text).map Formula.text = .ok f.text := by
  have htext : (Formula.parse "= b2 -(.50 # + Cc03)").map Formula.text = .ok "=B2-(0.5+CC03)" := by decide +kernel
  rcases hp : Formula.parse "= b2 -(.50 # + Cc03)" with e | f
  · rw [hp] at htext
    cases htext
  · rw [hp] at htext
    exact ⟨f, rfl, Except.ok.inj htext, canonical_stable _ f hp⟩

end SharedSheet.Formula
