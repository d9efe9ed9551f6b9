/-
Reverting twice. A revert swaps the content of a cell with the newest entry of its history, so a second one swaps them
back (`Cell.revert?_revert?`). Nothing can speak against it: the cell is live as it was before, its old content could be
read, and the sheet to which it leads back had no cycle. So two reverts in a row leave nothing behind but their entries
in the log (`revert_twice_run`).
-/
import SharedSheet.Proofs.Sheet.Undo

namespace SharedSheet

namespace Cell

variable {c reverted : Cell}

theorem revert?_revert? (h : c.revert? = some reverted) : reverted.revert? = some c := by
  rw [revert?_eq_some_iff] at h ⊢
  obtain ⟨hname, older, hold, hnew⟩ := h
  exact ⟨hname.symm, older, hnew, hold⟩

/-- The cell has the same texts before and after, so it is as dead as before. -/
theorem isDead_revert? (h : c.revert? = some reverted) : reverted.isDead = c.isDead := by
  obtain ⟨-, older, hold, hnew⟩ := revert?_eq_some_iff.1 h
  unfold isDead
  rw [hold, hnew, List.all_cons, List.all_cons, Bool.and_left_comm]

end Cell

namespace Sheet

variable {s s' : Sheet} {u : CellUpdate} {client : ClientId} {raw raw' : String}

/-- After a revert the cell is there with its content and the newest entry of its history swapped, as it cannot have
died of that. -/
theorem Write.swapped (hw : Write s ⟨client, .revert raw⟩ u s') (hs : s.Consistent) :
    CellName.parse? raw = some u.cell ∧ s'.edits = s.edits.push ⟨u.cell, s.content u.cell⟩ ∧
      ∃ cell reverted, s.cells.get? u.cell = some cell ∧ cell.revert? = some reverted ∧
        s'.cells.get? u.cell = some reverted := by
  rcases hw with _ | ⟨hraw, hcell, hback, -, -⟩
  rename_i name cell reverted references
  refine ⟨hraw, rfl, cell, reverted, hcell, hback, ?_⟩
  show (s.store name reverted references).cells.get? name = _
  simp [get?_store, Cell.isDead_revert? hback, hs.live name cell hcell]

/-- The content that a change has replaced could be put back: it was read before, and the sheet that it leads back to
has no cycle. -/
theorem Regular.exists_back (h : s.Regular) (hc : Change s u s') :
    ∃ references, contentReferences (s.content u.cell) = .ok references ∧
      s'.refs.wouldCycle u.cell references = false := by
  obtain ⟨references, hrefs⟩ := h.readable u.cell
  -- seen from the sheet after the change, the old one differs in this cell only
  have hcontents : ∀ x, s.content x = if x = u.cell then s.content u.cell else s'.content x := by
    intro x
    split
    · rw [‹x = _›]
    · rw [hc.content, if_neg ‹_›]
  exact ⟨references, hrefs, (h.change hc).consistent.wouldCycle_eq_false hrefs hcontents h.acyclic⟩

/-- Storing a cell again where it was undoes what a change has done to the cells. -/
theorem Consistent.cells_back (h : s.Consistent) (hc : Change s u s') {cell : Cell}
    (hcell : s.cells.get? u.cell = some cell) (references : List CellName) :
    (s'.store u.cell cell references).cells = s.cells := by
  refine Table.ext_get? fun x => ?_
  rw [get?_store]
  by_cases hx : x = u.cell
  · simp [hx, hcell, h.live _ _ hcell]
  · rw [if_neg hx, hc.get?_of_ne hx]

/-- A cell that has been reverted can be reverted again, and then all is as before but for the log. -/
theorem Regular.revert_back (h : s.Regular) (hw : Write s ⟨client, .revert raw⟩ u s')
    (hname : CellName.parse? raw' = CellName.parse? raw) :
    s'.revert raw' = .ok (⟨u.cell, s.content u.cell⟩,
      { s with edits := (s.edits.push ⟨u.cell, s.content u.cell⟩).push ⟨u.cell, u.content⟩ }) := by
  obtain ⟨hraw, hlog, cell, reverted, hcell, hback, hfound⟩ := hw.swapped h.consistent
  have hc := hw.change
  obtain ⟨references, hrefs, hacyclic⟩ := h.exists_back hc
  rw [content_of_get? hcell] at hrefs
  have hagain : Write s' ⟨client, .revert raw'⟩ ⟨u.cell, cell.content⟩ _ :=
    .revert (hname.trans hraw) hfound (Cell.revert?_revert? hback) hrefs hacyclic
  -- the sheet after both reverts has the cells of the first one, and so its graph
  have hlogged : { s with edits := (s.edits.push ⟨u.cell, s.content u.cell⟩).push ⟨u.cell, u.content⟩ }.Consistent :=
    h.consistent.congr rfl rfl
  have hedits : s'.edits.push ⟨u.cell, s'.content u.cell⟩ =
      (s.edits.push ⟨u.cell, s.content u.cell⟩).push ⟨u.cell, u.content⟩ := by
    rw [hlog, hc.content, if_pos rfl]
  have hsame := hlogged.ext ((h.change hc).consistent.change hagain.change)
    (h.consistent.cells_back hc hcell references) hc.selections hedits hc.policy
  rw [revert_of_write hagain, hsame, content_of_get? hcell]

/-- At any time in the life of a sheet that began empty, whoever reverts a cell can revert it once more, by whatever
spelling of its name, and finds all cells with their histories and all references as they were. Only the log has become
longer by both changes, as far as it has room for them. -/
theorem revert_twice_run (policy : Policy) (es : List Event)
    (h : ((new policy).run es).revert raw = .ok (u, s')) (hname : CellName.parse? raw' = CellName.parse? raw) :
    let s := (new policy).run es
    s'.revert raw' = .ok (⟨u.cell, s.content u.cell⟩,
      { s with edits := (s.edits.push ⟨u.cell, s.content u.cell⟩).push ⟨u.cell, u.content⟩ }) :=
  (regular_run policy es).revert_back (revert_write 0 h) hname

/-- A formula that was cleared comes back and goes again, and only its history keeps the cell in the sheet. -/
theorem revert_twice_formula :
    let s := (new ⟨some 1, some 1⟩).run [.request ⟨1, .select "a1"⟩, .request ⟨1, .edit "a1" "= b1 -cc3"⟩,
      .request ⟨1, .edit "a1" ""⟩]
    ∃ u s', s.revert "a1" = .ok (u, s') ∧ u.content = "=B1-CC3" ∧ CellName.parse? " A1 " = CellName.parse? "a1" ∧
      s'.revert " A1 " = .ok (⟨u.cell, s.content u.cell⟩,
        { s with edits := (s.edits.push ⟨u.cell, s.content u.cell⟩).push ⟨u.cell, u.content⟩ }) := by
  intro s
  have hcontent : (s.revert "a1").map (fun p => p.1.content) = .ok "=B1-CC3" := by
    dsimp only [s]
    cbv
  obtain ⟨⟨u, s'⟩, hrevert, hu⟩ := map_eq_ok hcontent
  have hname : CellName.parse? " A1 " = CellName.parse? "a1" := by cbv
  exact ⟨u, s', hrevert, hu, hname, revert_twice_run _ _ hrevert hname⟩

end Sheet

end SharedSheet
