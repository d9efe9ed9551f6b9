/-
What the operations of a sheet do. A successful edit, revert or undo is a `Change`: one cell gets a
readable content, its references are replaced by those of that content, and nothing else changes but the
log. `perform_step` says of every action what it does; later modules argue from there only.
-/
import SharedSheet.Proofs.Content
import SharedSheet.Proofs.RefGraph
import SharedSheet.Proofs.Sheet.Write

namespace SharedSheet

/-! ## References of contents -/

/-- What is stored for an accepted content refers to the cells that the check was told of. -/
theorem contentReferences_normalize {content stored : String} {references : List CellName}
    (h : Sheet.normalize content = .ok (stored, references)) : contentReferences stored = .ok references := by
  unfold Sheet.normalize at h
  split at h
  · rcases hp : Formula.parse content with e | f
    · rw [hp] at h
      cases h
    · rw [hp] at h
      cases h
      have hf := Formula.parse_text hp
      unfold contentReferences
      rw [if_pos (isFormulaText_of_parse hf), hf]
      rfl
  · rename_i hn
    cases h
    exact if_neg hn

namespace Sheet

/-! ## Changes -/

/-- A cell refers to another one if its content names it. -/
def RefersTo (s : Sheet) (x y : CellName) : Prop := Names (s.content x) y

/-- What every successful change does: a cell with a readable content is put in place under its name, and
the search has found no way from its references back to the name. -/
inductive Change (s : Sheet) : CellUpdate → Sheet → Prop
  | intro (name : CellName) (cell : Cell) (references : List CellName) (log : EditLog Edit)
      (readable : contentReferences cell.content = .ok references)
      (acyclic : s.refs.wouldCycle name references = false)
      (named : s.Named → cell.name = name.text) :
      Change s ⟨name, cell.content⟩ { s.store name cell references with edits := log }

theorem isEmpty_of_isDead {cell : Cell} (h : cell.isDead = true) : cell.content = "" := by
  unfold Cell.isDead at h
  rw [Bool.and_eq_true] at h
  exact String.isEmpty_iff.1 h.1

/-- The cell at a name after a store: none if it was dead. -/
theorem get?_store (s : Sheet) (name : CellName) (cell : Cell) (references : List CellName) (x : CellName) :
    (s.store name cell references).cells.get? x =
      if x = name then (if cell.isDead then none else some cell) else s.cells.get? x := by
  unfold store
  dsimp only
  by_cases hdead : cell.isDead = true
  · rw [if_pos hdead, if_pos hdead, Table.get?_erase]
  · rw [if_neg hdead, if_neg hdead, Table.get?_insert]

theorem content_store (s : Sheet) (name : CellName) (cell : Cell) (references : List CellName) (x : CellName) :
    (s.store name cell references).content x = if x = name then cell.content else s.content x := by
  unfold content
  rw [get?_store]
  by_cases hx : x = name
  · rw [if_pos hx, if_pos hx]
    by_cases hdead : cell.isDead = true
    · rw [if_pos hdead, isEmpty_of_isDead hdead]
    · rw [if_neg hdead]
  · rw [if_neg hx, if_neg hx]

variable {s s' : Sheet} {u : CellUpdate}

/-- A change gives one cell its new content and leaves all others alone. -/
theorem Change.content (h : Change s u s') (x : CellName) :
    s'.content x = if x = u.cell then u.content else s.content x := by
  obtain ⟨name, cell, references, log, -, -, -⟩ := h
  exact content_store s name cell references x

/-- Every other cell stays as it is, with its history. -/
theorem Change.get?_of_ne (h : Change s u s') {x : CellName} (hx : x ≠ u.cell) :
    s'.cells.get? x = s.cells.get? x := by
  obtain ⟨name, cell, references, log, -, -, -⟩ := h
  show (s.store name cell references).cells.get? x = _
  rw [get?_store, if_neg hx]

/-- Every other cell depends on what it depended on before. -/
theorem Change.dependeesOf_of_ne (h : Change s u s') {x : CellName} (hx : x ≠ u.cell) :
    s'.refs.dependeesOf x = s.refs.dependeesOf x := by
  obtain ⟨name, cell, references, log, -, -, -⟩ := h
  apply RefGraph.dependeesOf_congr
  intro y
  show y ∈ (s.refs.replaceDependees name references).dependeesOf x ↔ _
  rw [RefGraph.mem_dependeesOf_replaceDependees, if_neg hx]

theorem Change.selections (h : Change s u s') : s'.selections = s.selections := by
  obtain ⟨name, cell, references, log, -, -, -⟩ := h
  rfl

theorem Change.policy (h : Change s u s') : s'.policy = s.policy := by
  obtain ⟨name, cell, references, log, -, -, -⟩ := h
  rfl

/-- After a change every other cell refers to what it referred to before. -/
theorem Change.refersTo (h : Change s u s') (x y : CellName) :
    s'.RefersTo x y ↔ if x = u.cell then Names u.content y else s.RefersTo x y := by
  unfold RefersTo
  rw [h.content]
  split <;> rfl

/-! ## What an action does -/

/-- The effect of a successful action, with the log it leaves. -/
inductive Step (s : Sheet) : Action → Outcome → Sheet → Prop
  | select (raw : String) (client : ClientId) (name : CellName) :
      Step s (.select raw) (.selected name) { s with selections := s.selections.insert client name }
  | edit {raw content : String} {u : CellUpdate} {s' : Sheet} (change : Change s u s')
      (log : s'.edits = s.edits.push ⟨u.cell, s.content u.cell⟩) : Step s (.edit raw content) (.updated u) s'
  | revert {raw : String} {u : CellUpdate} {s' : Sheet} (change : Change s u s')
      (log : s'.edits = s.edits.push ⟨u.cell, s.content u.cell⟩) : Step s (.revert raw) (.updated u) s'
  | undo {u : CellUpdate} {s' : Sheet} (change : Change s u s')
      (log : s.edits.pop? = some (⟨u.cell, u.content⟩, s'.edits)) : Step s .undo (.updated u) s'

/-- An accepted edit, revert or undo is a change. -/
theorem Write.change {r : Request} (h : Write s r u s') : Change s u s' := by
  rcases h with ⟨-, -, hnorm, hacyclic⟩ | ⟨-, hfound, hback, hreadable, hacyclic⟩ | ⟨-, hreadable, hacyclic⟩
  · rename_i stored name references
    have hc := Change.intro name (s.written name stored) references (s.edits.push ⟨name, s.content name⟩)
      (by rw [content_written]; exact contentReferences_normalize hnorm) hacyclic (·.written name stored)
    rwa [content_written] at hc
  · exact .intro _ _ _ _ hreadable hacyclic
      fun hn => (Cell.revert?_eq_some_iff.1 hback).1.trans (hn _ _ hfound)
  · rename_i e older references
    have hc := Change.intro e.cell (s.written e.cell e.prior) references older
      (by rw [content_written]; exact hreadable) hacyclic (·.written e.cell e.prior)
    rwa [content_written] at hc

theorem undo_spec (h : s.undo = .ok (u, s')) :
    Change s u s' ∧ s.edits.pop? = some (⟨u.cell, u.content⟩, s'.edits) := by
  have hw := undo_write 0 h
  refine ⟨hw.change, ?_⟩
  rcases hw with _ | _ | ⟨hnewest, -, -⟩
  exact hnewest

/-- Every successful action is one of the four steps. -/
theorem perform_step {r : Request} {o : Outcome} (h : s.perform r = .ok (o, s')) : Step s r.action o s' := by
  rcases perform_cases h with ⟨client, raw, name, rfl, -, rfl, rfl⟩ | ⟨u, rfl, hw⟩
  · exact .select raw client name
  · have hc := hw.change
    rcases hw with _ | _ | ⟨hnewest, -, -⟩
    · exact .edit hc rfl
    · exact .revert hc rfl
    · exact .undo hc hnewest

end Sheet

end SharedSheet
