/-
What the retention limits leave. The histories and the log of a sheet are within the limits of its policy at all times
(`retained_run`), so that keeping the newest entries of them keeps them all.
-/
import SharedSheet.Proofs.Sheet.Undo

namespace SharedSheet

theorem keep_nil {α : Type} (cap : Option ℕ) : keep cap ([] : List α) = [] := by
  rcases cap with _ | n
  · rfl
  · exact List.take_nil

/-- Whether all entries are kept is a matter of their number. -/
theorem keep_of_length_eq {α : Type} {cap : Option ℕ} {l m : List α} (hl : keep cap l = l)
    (hlen : m.length = l.length) : keep cap m = m := by
  rcases cap with _ | n
  · rfl
  · change l.take n = l at hl
    rw [List.take_eq_self_iff] at hl
    exact List.take_of_length_le (hlen.trans_le hl)

namespace Sheet

/-- All that is kept of the past is within the limits. -/
structure Retained (s : Sheet) : Prop where
  capped : s.edits.cap = s.policy.maxEdits
  edits : keep s.policy.maxEdits s.edits.entries = s.edits.entries
  histories : ∀ name cell, s.cells.get? name = some cell → keep s.policy.maxCellHistory cell.history = cell.history

variable {s s' : Sheet}

theorem retained_new (policy : Policy) : (new policy).Retained where
  capped := rfl
  edits := keep_nil _
  histories _ _ h := by cases h

theorem Retained.restoreCell (h : s.Retained) (r : CellRecord) : (s.restoreCell r).Retained := by
  unfold Sheet.restoreCell
  split
  · exact h
  · dsimp only
    split
    · exact h
    · refine ⟨h.capped, h.edits, fun other cell hother => ?_⟩
      rw [Table.get?_insert] at hother
      split at hother
      · cases hother
        exact keep_keep _ _
      · exact h.histories other cell hother

/-- A record may hold more than the limits allow, and it is cut down to them. -/
theorem retained_restore (r : SheetRecord) (policy : Policy) : (restore r policy).Retained := by
  have hcells : ∀ (rs : List CellRecord) (s : Sheet), s.Retained → (rs.foldl Sheet.restoreCell s).Retained := by
    intro rs
    induction rs with
    | nil => exact fun s h => h
    | cons r rs ih => exact fun s h => ih _ (h.restoreCell r)
  have hpolicy : (restore r policy).policy = policy := policy_restore r policy
  refine ⟨?_, ?_, (hcells r.cells (new policy) (retained_new policy)).histories⟩
  · rw [hpolicy]
    rfl
  · rw [hpolicy]
    exact keep_keep _ _

theorem Retained.push (h : s.Retained) (e : Edit) :
    keep s.policy.maxEdits (s.edits.push e).entries = (s.edits.push e).entries := by
  unfold EditLog.push
  rw [h.capped]
  exact keep_keep _ _

theorem Retained.store (h : s.Retained) {name : CellName} {cell : Cell} (references : List CellName)
    (hcell : keep s.policy.maxCellHistory cell.history = cell.history) :
    ∀ x c, (s.store name cell references).cells.get? x = some c →
      keep s.policy.maxCellHistory c.history = c.history := by
  intro x c hc
  rw [get?_store] at hc
  split at hc
  · split at hc
    · cases hc
    · cases hc
      exact hcell
  · exact h.histories x c hc

theorem keep_written (s : Sheet) (name : CellName) (content : String) :
    keep s.policy.maxCellHistory (s.written name content).history = (s.written name content).history := by
  unfold written
  split
  · exact keep_keep _ _
  · exact keep_nil _

theorem length_revert? {cell reverted : Cell} (h : cell.revert? = some reverted) :
    reverted.history.length = cell.history.length := by
  obtain ⟨-, older, hold, hnew⟩ := Cell.revert?_eq_some_iff.1 h
  rw [hold, hnew]
  rfl

/-- A new content pushes the old one onto the history, and a revert leaves the length of the history alone. -/
theorem Retained.write {r : Request} {u : CellUpdate} (h : s.Retained) (hw : Write s r u s') : s'.Retained := by
  rcases hw with _ | ⟨-, hfound, hback, -, -⟩ | ⟨hnewest, -, -⟩
  · exact ⟨h.capped, h.push _, h.store ‹_› (s.keep_written _ _)⟩
  · have hcell := keep_of_length_eq (h.histories _ _ hfound) (length_revert? hback)
    exact ⟨h.capped, h.push _, h.store ‹_› hcell⟩
  · obtain ⟨edits, hentries, rfl⟩ := pop?_eq_some hnewest
    have hedits := h.edits
    rw [hentries] at hedits
    exact ⟨h.capped, keep_tail hedits, h.store ‹_› (s.keep_written _ _)⟩

theorem retained_after (s : Sheet) (e : Event) (h : s.Retained) : (s.after e).Retained := by
  rcases e with r | client | _
  · show (s.apply r).2.Retained
    rcases s.outcome_cases r with ⟨e, hr⟩ | ⟨client, raw, name, -, -, hr⟩ | ⟨u, s', hr, hw⟩
    · rw [hr]
      exact h
    · rw [hr]
      exact ⟨h.capped, h.edits, h.histories⟩
    · rw [hr]
      exact h.write hw
  · exact ⟨h.capped, h.edits, h.histories⟩
  · exact retained_restore _ _

theorem retained_opened (policy : Policy) (record : Option SheetRecord) : (opened policy record).Retained := by
  rcases record with _ | r
  · exact retained_new policy
  · exact retained_restore r policy

/-- Nothing that happens to a sheet makes it keep more than the limits. -/
theorem retained_run (policy : Policy) (record : Option SheetRecord) (es : List Event) :
    ((opened policy record).run es).Retained :=
  run_keeps retained_after (retained_opened policy record) es

end Sheet

end SharedSheet
