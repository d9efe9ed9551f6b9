/-
Values are local. What a cell shows is settled by the contents of the cells that it reaches by references: sheets that
agree on these give the cell the same number (`AgreeFrom.number?_eq`) and the same value (`AgreeFrom.valueOf_eq`),
whatever cycles there are. A change gives one cell a new content, so it does not show in cells that did not reach this
cell before it (`value_unaffected`).
-/
import SharedSheet.Proofs.Sheet.Walk

namespace SharedSheet.Sheet

open Relation

variable {s s' : Sheet} {y : CellName} {v : Float}

/-! ## Cells that are reached -/

/-- A second sheet has the contents of the first one wherever references lead from a cell, the cell itself included. -/
def AgreeFrom (s s' : Sheet) (y : CellName) : Prop := ∀ x, ReflTransGen s.RefersTo y x → s'.content x = s.content x

theorem AgreeFrom.of_refersTo (h : AgreeFrom s s' y) {x : CellName} (hx : s.RefersTo y x) : AgreeFrom s s' x :=
  fun z hz => h z (.head hx hz)

/-- Where the contents are the same, references lead to the same cells. -/
theorem AgreeFrom.reaches (h : AgreeFrom s s' y) {x : CellName} (hx : ReflTransGen s'.RefersTo y x) :
    ReflTransGen s.RefersTo y x := by
  induction hx with
  | refl => exact .refl
  | tail _ hlast ih =>
    refine ih.tail ?_
    unfold RefersTo at hlast ⊢
    rwa [h _ ih] at hlast

/-- What is reached from some cells is among them if their formulas refer to none but them. -/
theorem mem_of_reached {cells : List CellName} {x : CellName}
    (hclosed : ∀ x ∈ cells, ∀ z ∈ (contentReferences (s.content x)).toOption.getD [], z ∈ cells) (hy : y ∈ cells)
    (h : TransGen s.RefersTo y x) : x ∈ cells := by
  induction h with
  | single hx => exact hclosed _ hy _ (mem_contentReferences.2 hx)
  | tail _ hlast ih => exact hclosed _ ih _ (mem_contentReferences.2 hlast)

theorem AgreeFrom.symm (h : AgreeFrom s s' y) : AgreeFrom s' s y := fun x hx => (h x (h.reaches hx)).symm

/-! ## Numbers and values -/

theorem HasNumber.of_agreeFrom (hv : s.HasNumber y v) (h : AgreeFrom s s' y) : s'.HasNumber y v := by
  induction hv with
  | literal hc =>
    refine .literal ?_
    rwa [h _ .refl]
  | formula hc _ hvalue ih =>
    refine .formula ?_ (fun r hr => ih r hr (h.of_refersTo ⟨_, Content.read_eq_formula_iff.1 hc, hr⟩)) hvalue
    rwa [h _ .refl]

theorem AgreeFrom.number?_eq (h : AgreeFrom s s' y) : s'.number? y = s.number? y := by
  refine Option.ext fun v => ?_
  rw [number?_eq_some_iff, number?_eq_some_iff]
  exact ⟨fun hv => hv.of_agreeFrom h.symm, fun hv => hv.of_agreeFrom h⟩

theorem AgreeFrom.valueOf_eq (h : AgreeFrom s s' y) : s'.valueOf y = s.valueOf y := by
  have hcontent : s'.content y = s.content y := h y .refl
  rcases hc : Content.read (s.content y) with l | f | e
  · unfold valueOf
    rw [hcontent, hc]
  · have hnumbers : f.value s'.number? = f.value s.number? := by
      refine Formula.value_congr fun r hr => ?_
      exact (h.of_refersTo ⟨f, Content.read_eq_formula_iff.1 hc, hr⟩).number?_eq
    rw [valueOf_formula hc, valueOf_formula (hcontent ▸ hc), hnumbers]
  · unfold valueOf
    rw [hcontent, hc]

/-! ## Changes -/

/-- After a change everything is as before for a cell that did not reach the changed one. -/
theorem Change.agreeFrom {u : CellUpdate} (hc : Change s u s') (hne : y ≠ u.cell)
    (hfar : ¬TransGen s.RefersTo y u.cell) : AgreeFrom s s' y := by
  intro x hx
  have hxu : x ≠ u.cell := by
    rintro rfl
    exact (reflTransGen_iff_eq_or_transGen.1 hx).elim (fun he => hne he.symm) hfar
  rw [hc.content, if_neg hxu]

/-- An accepted edit, revert or undo of one cell leaves the values of all other cells alone that did not reach this cell
by the references of formulas before, be they values or errors, and whatever cycles the sheet holds. -/
theorem value_unaffected (s : Sheet) (r : Request) (u : CellUpdate) (h : (s.apply r).1 = .updated u) (raw : String)
    (hname : CellName.parse? raw = some y) (hne : y ≠ u.cell) (hfar : ¬TransGen s.RefersTo y u.cell) :
    (s.apply r).2.value raw = s.value raw := by
  rw [value_of_parse? hname, value_of_parse? hname]
  exact ((write_of_apply h).change.agreeFrom hne hfar).valueOf_eq

/-- A cell that refers to a cycle goes on to show the same error when a cell that refers to it is undone and disappears
from the sheet. -/
theorem value_unaffected_cycle :
    let s := restore ⟨[⟨"A1", "=B1", []⟩, ⟨"B1", "=A1", []⟩, ⟨"C1", "=E1*B1", []⟩, ⟨"D1", "=C1", []⟩, ⟨"E1", "2", []⟩],
      [⟨"D1", ""⟩]⟩ ⟨some 0, none⟩
    let u : CellUpdate := ⟨⟨"D1", by decide⟩, ""⟩
    let y : CellName := ⟨"C1", by decide⟩
    (s.apply ⟨1, .undo⟩).1 = .updated u ∧ CellName.parse? " c1" = some y ∧ y ≠ u.cell ∧
      ¬TransGen s.RefersTo y u.cell ∧ (s.apply ⟨1, .undo⟩).2.cells.get? u.cell = none ∧
      (s.apply ⟨1, .undo⟩).2.value " c1" = s.value " c1" := by
  intro s u y
  have hundo : (s.apply ⟨1, .undo⟩).1 = .updated u := by
    dsimp only [s, u]
    cbv
  have hname : CellName.parse? " c1" = some y := by
    dsimp only [y]
    cbv
  have hne : y ≠ u.cell := by
    dsimp only [u, y]
    decide
  have hfar : ¬TransGen s.RefersTo y u.cell := by
    let cells : List CellName := [⟨"A1", by decide⟩, ⟨"B1", by decide⟩, ⟨"C1", by decide⟩, ⟨"E1", by decide⟩]
    have hclosed : (cells.all fun x => ((contentReferences (s.content x)).toOption.getD []).all cells.contains) = true := by
      dsimp only [s, cells]
      cbv
    intro hreached
    have hmem : u.cell ∈ cells := by
      refine mem_of_reached (fun x hx z hz => ?_) (y := y) (by simp [cells, y]) hreached
      exact List.contains_iff_mem.1 (List.all_eq_true.1 (List.all_eq_true.1 hclosed x hx) z hz)
    simp [cells, u] at hmem
  refine ⟨hundo, hname, hne, hfar, ?_, value_unaffected s ⟨1, .undo⟩ u hundo " c1" hname hne hfar⟩
  dsimp only [s, u]
  cbv

end SharedSheet.Sheet
