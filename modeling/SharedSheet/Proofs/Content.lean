/-
What contents say. A content that is no formula shows nothing if it is empty, a number if it is the text of a finite one
with or without blanks around it, and otherwise itself (`Value.Shows`); the reader of contents finds just this
(`Value.ofLiteral_eq_iff`). A formula is a content that parses, and names the cells that it refers to.
-/
import SharedSheet.Content
import SharedSheet.Proofs.Formula.Canonical
import SharedSheet.Proofs.Number.Numeral
import SharedSheet.Proofs.Number.Scientific

namespace SharedSheet

open Text (isBlank)

/-! ## Literals -/

namespace Value

/-- The text of a finite number, which may have blanks around it. -/
def IsNumeral (s : String) (x : Float) : Prop :=
  ∃ before numeral after l, s.toList = before ++ numeral ++ after ∧ (∀ c ∈ before, isBlank c = true) ∧
    (∀ c ∈ after, isBlank c = true) ∧ Number.Spells numeral l ∧ l.Denotes x

/-- What a content shows that is no formula. -/
inductive Shows : String → Value → Prop
  | empty : Shows "" .empty
  | number {s : String} {x : Float} (numeral : IsNumeral s x) : Shows s (.number x)
  | text {s : String} (nonempty : s ≠ "") (noNumeral : ∀ x, ¬IsNumeral s x) : Shows s (.text s)

/-- A number is what is left when the blanks are cut off. -/
theorem isNumeral_iff {s : String} {x : Float} :
    IsNumeral s x ↔ Number.read? (Text.trim s.toList) = some x ∧ x.isFinite = true := by
  unfold Number.read?
  rw [Option.map_eq_some_iff]
  constructor
  · rintro ⟨before, numeral, after, l, hs, hbefore, hafter, hspells, hdenotes⟩
    obtain ⟨hvalue, hfinite⟩ := Number.Literal.denotes_iff.1 hdenotes
    rw [hs, hspells.trim hbefore hafter]
    exact ⟨⟨l, Number.Literal.read?_eq_some_iff.2 hspells, hvalue⟩, hfinite⟩
  · rintro ⟨⟨l, hread, hvalue⟩, hfinite⟩
    obtain ⟨before, after, hs, hbefore, hafter⟩ := Text.exists_trim s.toList
    exact ⟨before, _, after, l, hs, hbefore, hafter, Number.Literal.read?_eq_some_iff.1 hread,
      Number.Literal.denotes_iff.2 ⟨hvalue, hfinite⟩⟩

theorem not_isNumeral_empty (x : Float) : ¬IsNumeral "" x := by
  rw [isNumeral_iff]
  rintro ⟨h, -⟩
  cases h

/-- A content is read as what it shows. -/
theorem shows_ofLiteral (s : String) : Shows s (ofLiteral s) := by
  unfold ofLiteral
  split
  · rename_i hempty
    rw [String.isEmpty_iff.1 hempty]
    exact .empty
  · rename_i hsome
    have hne : s ≠ "" := fun h => hsome (String.isEmpty_iff.2 h)
    split
    · rename_i x hread
      split
      · rename_i hfinite
        exact .number (isNumeral_iff.2 ⟨hread, hfinite⟩)
      · rename_i hinfinite
        refine .text hne fun y hy => ?_
        obtain ⟨hread', hfinite⟩ := isNumeral_iff.1 hy
        rw [hread'] at hread
        cases hread
        exact hinfinite hfinite
    · rename_i hread
      refine .text hne fun y hy => ?_
      rw [(isNumeral_iff.1 hy).1] at hread
      cases hread

/-- A content shows one thing. -/
theorem Shows.unique {s : String} {v w : Value} (hv : Shows s v) (hw : Shows s w) : v = w := by
  cases hv with
  | empty =>
    cases hw with
    | empty => rfl
    | number hx => exact absurd hx (not_isNumeral_empty _)
    | text hne => exact absurd rfl hne
  | number hx =>
    cases hw with
    | empty => exact absurd hx (not_isNumeral_empty _)
    | number hy =>
      have hread := (isNumeral_iff.1 hx).1
      rw [(isNumeral_iff.1 hy).1] at hread
      cases hread
      rfl
    | text _ hnone => exact absurd hx (hnone _)
  | text hne hnone =>
    cases hw with
    | empty => exact absurd rfl hne
    | number hy => exact absurd hy (hnone _)
    | text => rfl

theorem ofLiteral_eq_iff {s : String} {v : Value} : ofLiteral s = v ↔ Shows s v := by
  constructor
  · rintro rfl
    exact shows_ofLiteral s
  · exact (shows_ofLiteral s).unique

theorem shows_number_iff {s : String} {x : Float} : Shows s (.number x) ↔ IsNumeral s x := by
  constructor
  · intro h
    cases h
    assumption
  · exact .number

end Value

/-! ## Contents -/

theorem isFormulaText_of_parse {content : String} {f : Formula} (h : Formula.parse content = .ok f) :
    Formula.isFormulaText content.toList = true := by
  obtain ⟨body, hs, -⟩ := Formula.parseChars_eq_ok (Formula.parse_eq_ok h)
  rw [hs]
  rfl

namespace Content

theorem read_eq_literal_iff {c : String} {v : Value} :
    read c = .literal v ↔ Formula.isFormulaText c.toList = false ∧ Value.Shows c v := by
  rw [← Value.ofLiteral_eq_iff]
  unfold read
  rcases hc : Formula.isFormulaText c.toList with _ | _
  · simp
  · rw [if_pos rfl]
    cases Formula.parse c <;> simp

theorem read_eq_formula_iff {c : String} {f : Formula} : read c = .formula f ↔ Formula.parse c = .ok f := by
  unfold read
  constructor
  · intro h
    split at h
    · rcases hp : Formula.parse c with e | g
      · rw [hp] at h
        cases h
      · rw [hp] at h
        cases h
        rfl
    · cases h
  · intro h
    rw [if_pos (isFormulaText_of_parse h), h]

theorem read_of_parse_error {c : String} {e : FormulaError} (hc : Formula.isFormulaText c.toList = true)
    (h : Formula.parse c = .error e) : read c = .broken e := by
  unfold read
  rw [if_pos hc, h]

end Content

/-! ## References of contents -/

/-- A content names a cell if it is a formula with a reference to it. -/
def Names (content : String) (y : CellName) : Prop := ∃ f, Formula.parse content = .ok f ∧ y ∈ f.references

/-- The references of a content are the cells that it names; a formula that does not parse names none. -/
theorem mem_contentReferences {content : String} {y : CellName} :
    y ∈ (contentReferences content).toOption.getD [] ↔ Names content y := by
  unfold contentReferences Names
  constructor
  · intro h
    split at h
    · rcases hp : Formula.parse content with e | f
      · rw [hp] at h
        cases h
      · rw [hp] at h
        exact ⟨f, rfl, h⟩
    · cases h
  · rintro ⟨f, hf, hy⟩
    rw [if_pos (isFormulaText_of_parse hf), hf]
    exact hy

theorem mem_of_contentReferences {content : String} {references : List CellName}
    (h : contentReferences content = .ok references) (y : CellName) : y ∈ references ↔ Names content y := by
  rw [← mem_contentReferences, h]
  rfl

theorem not_names_empty (y : CellName) : ¬Names "" y := by
  rintro ⟨f, hf, -⟩
  cases isFormulaText_of_parse hf

end SharedSheet
