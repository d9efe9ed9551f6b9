/-
Lengths of histories. A request makes a history longer by one entry at most (`Short.apply`), and storing a sheet and
restoring it makes none longer (`Short.record`, `Short.restore`), whatever the policy is.
-/
import SharedSheet.Proofs.Sheet.Limits

namespace SharedSheet

/-- No history in a record has more than `n` entries. -/
def SheetRecord.Short (n : ℕ) (r : SheetRecord) : Prop := ∀ c ∈ r.cells, c.history.length ≤ n

namespace Sheet

/-- No history in a sheet has more than `n` entries. -/
def Short (n : ℕ) (s : Sheet) : Prop := ∀ name cell, s.cells.get? name = some cell → cell.history.length ≤ n

variable {n : ℕ} {s s' : Sheet}

theorem length_keep_le {α : Type} (cap : Option ℕ) (l : List α) : (keep cap l).length ≤ l.length :=
  (prefix_keep cap l).length_le

theorem Short.succ (h : s.Short n) : s.Short (n + 1) := fun name cell hcell => (h name cell hcell).trans (Nat.le_succ n)

theorem Short.store (h : s.Short n) {name : CellName} {cell : Cell} (references : List CellName)
    (hcell : cell.history.length ≤ n) : (s.store name cell references).Short n := by
  intro x c hc
  rw [get?_store] at hc
  split at hc
  · split at hc
    · cases hc
    · cases hc
      exact hcell
  · exact h x c hc

theorem Short.written (h : s.Short n) (name : CellName) (content : String) :
    (s.written name content).history.length ≤ n + 1 := by
  unfold Sheet.written
  split
  · rename_i cell hcell
    refine (length_keep_le _ _).trans ?_
    rw [List.length_cons]
    exact Nat.succ_le_succ (h name cell hcell)
  · exact Nat.zero_le _

theorem Short.write {r : Request} {u : CellUpdate} (h : s.Short n) (hw : Write s r u s') : s'.Short (n + 1) := by
  rcases hw with _ | ⟨-, hfound, hback, -, -⟩ | _
  · exact h.succ.store ‹_› (h.written _ _)
  · refine h.succ.store ‹_› ?_
    rw [length_revert? hback]
    exact h.succ _ _ hfound
  · exact h.succ.store ‹_› (h.written _ _)

theorem Short.apply (h : s.Short n) (r : Request) : (s.apply r).2.Short (n + 1) := by
  rcases s.outcome_cases r with ⟨e, hr⟩ | ⟨client, raw, name, -, -, hr⟩ | ⟨u, s', hr, hw⟩
  · rw [hr]
    exact h.succ
  · rw [hr]
    exact h.succ
  · rw [hr]
    exact h.write hw

theorem Short.record (h : s.Short n) : s.record.Short n := by
  intro c hc
  change c ∈ s.populated at hc
  rw [populated_eq] at hc
  obtain ⟨e, he, rfl⟩ := List.mem_map.1 hc
  exact h e.1 e.2 (Table.get?_eq_some_iff.2 he)

theorem Short.restoreCell (h : s.Short n) {c : CellRecord} (hc : c.history.length ≤ n) : (s.restoreCell c).Short n := by
  unfold Sheet.restoreCell
  split
  · exact h
  · dsimp only
    split
    · exact h
    · intro x cell hcell
      rw [Table.get?_insert] at hcell
      split at hcell
      · cases hcell
        exact (length_keep_le _ _).trans hc
      · exact h x cell hcell

theorem Short.restore {r : SheetRecord} (h : r.Short n) (policy : Policy) : (restore r policy).Short n := by
  have hcells : ∀ (cs : List CellRecord) (s : Sheet), (∀ c ∈ cs, c.history.length ≤ n) → s.Short n →
      (cs.foldl Sheet.restoreCell s).Short n := by
    intro cs
    induction cs with
    | nil => exact fun s _ hs => hs
    | cons c cs ih =>
      exact fun s hcs hs => ih _ (fun d hd => hcs d (List.mem_cons_of_mem _ hd))
        (hs.restoreCell (hcs c List.mem_cons_self))
  exact hcells r.cells (new policy) h fun _ _ hcell => by cases hcell

end Sheet

end SharedSheet
