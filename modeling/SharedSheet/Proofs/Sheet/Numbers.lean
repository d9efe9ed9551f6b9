/-
The numbers of cells, said without the computation. A cell has the number of its literal, or the value of its
formula once every reference of the formula has a number; no other cell has one (`HasNumber`). This is the least
function that keeps the rule (`isLeastNumbering_number?`), so a cell on a cycle has no number
(`number?_of_onCycle`), and the number of a formula is found from the numbers of its references
(`number?_eq`).
-/
import SharedSheet.Proofs.Content
import SharedSheet.Proofs.Formula.Evaluation
import SharedSheet.Proofs.Sheet.Acyclic
import SharedSheet.Sheet.Value

namespace SharedSheet

open Relation

namespace Sheet

/-! ## The rule -/

/-- What a numbering gives a cell by its content: the number of a literal, or the value of a formula all of whose
references have numbers. -/
def Gives (s : Sheet) (num : CellName → Option Float) (y : CellName) (v : Float) : Prop :=
  (Formula.isFormulaText (s.content y).toList = false ∧ Value.IsNumeral (s.content y) v) ∨
  ∃ f, Formula.parse (s.content y) = .ok f ∧ (∀ r ∈ f.references, ∃ w, num r = some w) ∧ f.value num = .ok v

/-- The least function that gives every cell what its content gives it. -/
structure IsLeastNumbering (s : Sheet) (num : CellName → Option Float) : Prop where
  exact : ∀ y v, num y = some v ↔ s.Gives num y v
  least : ∀ other : CellName → Option Float, (∀ y v, other y = some v ↔ s.Gives other y v) →
    ∀ y v, num y = some v → other y = some v

/-- There is one such function at most. -/
theorem IsLeastNumbering.unique {s : Sheet} {num num' : CellName → Option Float} (h : s.IsLeastNumbering num)
    (h' : s.IsLeastNumbering num') : num = num' := by
  funext y
  refine Option.ext fun v => ⟨h.least num' h'.exact y v, h'.least num h.exact y v⟩

/-- The numbers of cells, by the rule and nothing else. -/
inductive HasNumber (s : Sheet) : CellName → Float → Prop
  | literal {y : CellName} {v : Float} (content : Content.read (s.content y) = .literal (.number v)) : HasNumber s y v
  | formula {y : CellName} {f : Formula} {num : CellName → Float} {v : Float}
      (content : Content.read (s.content y) = .formula f) (references : ∀ r ∈ f.references, HasNumber s r (num r))
      (value : f.value (fun r => some (num r)) = .ok v) : HasNumber s y v

variable {s : Sheet} {y : CellName} {v : Float}

theorem hasNumber_literal_iff {l : Value} (hc : Content.read (s.content y) = .literal l) :
    s.HasNumber y v ↔ l = .number v := by
  constructor
  · intro h
    cases h with
    | literal hc' =>
      rw [hc] at hc'
      exact Content.literal.inj hc'
    | formula hc' =>
      rw [hc] at hc'
      cases hc'
  · rintro rfl
    exact .literal hc

theorem not_hasNumber_of_broken {e : FormulaError} (hc : Content.read (s.content y) = .broken e) :
    ¬s.HasNumber y v := by
  intro h
  cases h with
  | literal hc' | formula hc' =>
    rw [hc] at hc'
    cases hc'

theorem HasNumber.exists_references {f : Formula} (h : s.HasNumber y v)
    (hc : Content.read (s.content y) = .formula f) :
    ∃ num : CellName → Float, (∀ r ∈ f.references, s.HasNumber r (num r)) ∧
      f.value (fun r => some (num r)) = .ok v := by
  cases h with
  | literal hc' =>
    rw [hc] at hc'
    cases hc'
  | formula hc' hrefs hvalue =>
    rw [hc] at hc'
    cases hc'
    exact ⟨_, hrefs, hvalue⟩

/-- A cell has one number at most. -/
theorem HasNumber.unique {w : Float} (hv : s.HasNumber y v) (hw : s.HasNumber y w) : v = w := by
  induction hv generalizing w with
  | literal hc =>
    rw [hasNumber_literal_iff hc] at hw
    cases hw
    rfl
  | formula hc _ hvalue ih =>
    -- the references have the same numbers in both derivations
    obtain ⟨num, hrefs, hvalue'⟩ := hw.exists_references hc
    rw [Formula.value_congr fun r hr => congrArg some (ih r hr (hrefs r hr)), hvalue'] at hvalue
    exact (Except.ok.inj hvalue).symm

open Classical in
/-- The number of a cell, if it has one. -/
noncomputable def number? (s : Sheet) (y : CellName) : Option Float :=
  if h : ∃ v, s.HasNumber y v then some h.choose else none

theorem number?_eq_some_iff : s.number? y = some v ↔ s.HasNumber y v := by
  unfold number?
  split
  · rename_i h
    rw [Option.some.injEq]
    constructor
    · rintro rfl
      exact h.choose_spec
    · exact fun hv => h.choose_spec.unique hv
  · rename_i h
    constructor
    · intro hn
      cases hn
    · exact fun hv => absurd ⟨v, hv⟩ h

theorem hasNumber_formula_iff {f : Formula} (hc : Content.read (s.content y) = .formula f) :
    s.HasNumber y v ↔ f.value s.number? = .ok v := by
  constructor
  · intro h
    obtain ⟨num, hrefs, hvalue⟩ := h.exists_references hc
    rw [← hvalue]
    exact Formula.value_congr fun r hr => number?_eq_some_iff.2 (hrefs r hr)
  · intro hvalue
    -- a value was computed, so each reference has a number
    have hrefs : ∀ r ∈ f.references, s.number? r = some ((s.number? r).getD 0) := by
      intro r hr
      obtain ⟨x, hx⟩ := Formula.exists_of_value hvalue hr
      rw [hx]
      rfl
    refine .formula hc (fun r hr => number?_eq_some_iff.1 (hrefs r hr)) ?_
    rw [← hvalue]
    exact Formula.value_congr fun r hr => (hrefs r hr).symm

/-- The number of a cell from those of the cells that it refers to. -/
theorem number?_eq (s : Sheet) (y : CellName) :
    s.number? y =
      match Content.read (s.content y) with
      | .literal v => v.number?
      | .broken _ => none
      | .formula f => (f.value s.number?).toOption := by
  refine Option.ext fun v => ?_
  rw [number?_eq_some_iff]
  rcases hc : Content.read (s.content y) with l | f | e
  · rw [hasNumber_literal_iff hc]
    cases l <;> simp [Value.number?]
  · rw [hasNumber_formula_iff hc]
    dsimp only
    cases f.value s.number? <;> simp [Except.toOption]
  · exact iff_of_false (not_hasNumber_of_broken hc) (by simp)

/-! ## The least numbering -/

theorem HasNumber.gives (h : s.HasNumber y v) {num : CellName → Option Float}
    (hnum : ∀ r w, s.HasNumber r w → num r = some w) : s.Gives num y v := by
  cases h with
  | literal hc => exact .inl ((Content.read_eq_literal_iff.1 hc).imp_right Value.shows_number_iff.1)
  | formula hc hrefs hvalue =>
    refine .inr ⟨_, Content.read_eq_formula_iff.1 hc, fun r hr => ⟨_, hnum r _ (hrefs r hr)⟩, ?_⟩
    rw [← hvalue]
    exact Formula.value_congr fun r hr => hnum r _ (hrefs r hr)

theorem isLeastNumbering_number? (s : Sheet) : s.IsLeastNumbering s.number? where
  exact y v := by
    rw [number?_eq_some_iff]
    constructor
    · exact fun h => h.gives fun r w => number?_eq_some_iff.2
    · rintro (hc | ⟨f, hf, -, hvalue⟩)
      · exact .literal (Content.read_eq_literal_iff.2 (hc.imp_right .number))
      · exact (hasNumber_formula_iff (Content.read_eq_formula_iff.2 hf)).2 hvalue
  least other hother y v h := by
    rw [number?_eq_some_iff] at h
    induction h with
    | literal hc =>
      exact (hother _ _).2 (.inl ((Content.read_eq_literal_iff.1 hc).imp_right Value.shows_number_iff.1))
    | formula hc _ hvalue ih =>
      refine (hother _ _).2 (.inr ⟨_, Content.read_eq_formula_iff.1 hc, fun r hr => ⟨_, ih r hr⟩, ?_⟩)
      rw [← hvalue]
      exact Formula.value_congr ih

/-! ## Cycles -/

theorem not_rel_of_acc {α : Type} {R : α → α → Prop} {x : α} (h : Acc R x) : ¬R x x := by
  induction h with
  | intro x _ ih => exact fun hx => ih x hx hx

/-- From a cell with a number no path of references goes on for ever. -/
theorem HasNumber.acc (h : s.HasNumber y v) : Acc (fun x y => s.RefersTo y x) y := by
  induction h with
  | literal hc =>
    refine ⟨_, ?_⟩
    rintro x ⟨f, hf, -⟩
    rw [Content.read_eq_formula_iff.2 hf] at hc
    cases hc
  | formula hc _ _ ih =>
    refine ⟨_, ?_⟩
    rintro x ⟨f, hf, hx⟩
    rw [Content.read_eq_formula_iff.2 hf] at hc
    cases hc
    exact ih x hx

theorem number?_of_onCycle (h : s.OnCycle y) : s.number? y = none := by
  refine Option.eq_none_iff_forall_ne_some.2 fun v hv => ?_
  exact not_rel_of_acc (number?_eq_some_iff.1 hv).acc.transGen (transGen_swap.1 h)

end Sheet

end SharedSheet
