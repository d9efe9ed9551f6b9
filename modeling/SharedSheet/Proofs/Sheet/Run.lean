/-
Runs of a sheet: requests of clients, accepted or refused, clients that leave, and reopening, which builds
the sheet anew from its own record. Reopening keeps every content and the newest entries of the log
(`content_reopen`, `edits_reopen`).
-/
import SharedSheet.Proofs.Sheet.Change

namespace SharedSheet

/-- What happens to a sheet. -/
inductive Event where
  | request (r : Request)
  | deselect (client : ClientId)
  | reopen
  deriving DecidableEq, Repr

namespace Sheet

/-- The sheet that is restored from the record of this one. -/
def reopen (s : Sheet) : Sheet := restore s.record s.policy

/-- The sheet to begin with: an empty one, or one that is restored from a record. -/
def opened (policy : Policy) : Option SheetRecord → Sheet
  | none => new policy
  | some r => restore r policy

/-- The sheet after an event. -/
def after (s : Sheet) : Event → Sheet
  | .request r => (s.apply r).2
  | .deselect client => s.deselect client
  | .reopen => s.reopen

/-- The sheet after a sequence of events. -/
def run (s : Sheet) (es : List Event) : Sheet := es.foldl after s

theorem run_cons (s : Sheet) (e : Event) (es : List Event) : s.run (e :: es) = (s.after e).run es := rfl

/-- What every event keeps holds after a run. -/
theorem run_keeps {P : Sheet → Prop} (step : ∀ s e, P s → P (s.after e)) {s : Sheet} (h : P s) (es : List Event) :
    P (s.run es) := by
  induction es generalizing s with
  | nil => exact h
  | cons e es ih =>
    rw [run_cons]
    exact ih (step s e h)

/-- A request is refused and changes nothing, or it takes one of the four steps. -/
theorem apply_cases (s : Sheet) (r : Request) :
    (∃ o, s.apply r = (o, s)) ∨ ∃ o s', s.apply r = (o, s') ∧ s.perform r = .ok (o, s') ∧ Step s r.action o s' := by
  rcases hp : s.perform r with e | ⟨o, s'⟩
  · exact .inl ⟨_, apply_of_error hp⟩
  · exact .inr ⟨o, s', apply_of_ok hp, rfl, perform_step hp⟩

/-! ## Restoring -/

/-- The content that restoring a record leaves behind: the stored one, unless the name is malformed or the
cell dead. -/
theorem content_restoreCell_of_ne {s : Sheet} {r : CellRecord} {x : CellName} (h : CellName.parse? r.name ≠ some x) :
    (s.restoreCell r).content x = s.content x := by
  unfold restoreCell
  rcases hp : CellName.parse? r.name with _ | name
  · rfl
  · have hx : x ≠ name := by
      rintro rfl
      exact h hp
    dsimp only
    split
    · rfl
    · unfold content
      dsimp only
      rw [Table.get?_insert, if_neg hx]

/-- The record of the cell of an entry. -/
def recordOf (e : CellName × Cell) : CellRecord := e.2.record

theorem populated_eq (s : Sheet) : s.populated = s.cells.entries.map recordOf := List.map_map

theorem Named.of_mem {s : Sheet} (h : s.Named) {e : CellName × Cell} (he : e ∈ s.cells.entries) :
    e.2.name = e.1.text :=
  h e.1 e.2 (Table.get?_eq_some_iff.2 he)

theorem parse?_recordOf {e : CellName × Cell} (h : e.2.name = e.1.text) :
    CellName.parse? (recordOf e).name = some e.1 := by
  show CellName.parse? e.2.name = _
  rw [h, e.1.parse?_text]

/-- A recorded cell comes back with its content. -/
theorem content_restoreCell {s : Sheet} {e : CellName × Cell} (hn : e.2.name = e.1.text) (h : s.content e.1 = "") :
    (s.restoreCell (recordOf e)).content e.1 = e.2.content := by
  unfold restoreCell
  rw [parse?_recordOf hn]
  dsimp only
  split
  · rename_i hdead
    rw [h]
    exact (isEmpty_of_isDead hdead).symm
  · unfold content
    dsimp only
    rw [Table.get?_insert, if_pos rfl]
    rfl

theorem content_restoreCells {es : List (CellName × Cell)} (hn : ∀ e ∈ es, e.2.name = e.1.text)
    (hd : (es.map Prod.fst).Nodup) {s : Sheet} (hs : ∀ e ∈ es, s.content e.1 = "") :
    (∀ e ∈ es, ((es.map recordOf).foldl restoreCell s).content e.1 = e.2.content) ∧
      ∀ x, x ∉ es.map Prod.fst → ((es.map recordOf).foldl restoreCell s).content x = s.content x := by
  induction es generalizing s with
  | nil => exact ⟨by simp, fun _ _ => rfl⟩
  | cons d es ih =>
    rw [List.map_cons] at hd
    obtain ⟨hname, hd⟩ := List.nodup_cons.1 hd
    obtain ⟨hnd, hn⟩ := List.forall_mem_cons.1 hn
    -- restoring one record touches the cell of its name only
    have other : ∀ x, x ≠ d.1 → (s.restoreCell (recordOf d)).content x = s.content x := by
      intro x hx
      refine content_restoreCell_of_ne ?_
      rw [parse?_recordOf hnd]
      rintro ⟨⟩
      exact hx rfl
    have hrest : ∀ e ∈ es, (s.restoreCell (recordOf d)).content e.1 = "" := by
      intro e he
      have hne : e.1 ≠ d.1 := fun hn => hname (hn ▸ List.mem_map_of_mem he)
      rw [other e.1 hne]
      exact hs e (List.mem_cons_of_mem _ he)
    obtain ⟨hin, hout⟩ := ih hn hd hrest
    rw [List.map_cons, List.foldl_cons]
    constructor
    · intro e he
      rcases List.mem_cons.1 he with rfl | he
      · rw [hout e.1 hname]
        exact content_restoreCell hnd (hs e List.mem_cons_self)
      · exact hin e he
    · intro x hx
      rw [List.map_cons, List.mem_cons, not_or] at hx
      rw [hout x hx.2]
      exact other x hx.1

theorem content_new (policy : Policy) (x : CellName) : (new policy).content x = "" := rfl

/-- Reopening keeps every content. -/
theorem Named.content_reopen {s : Sheet} (h : s.Named) (x : CellName) : s.reopen.content x = s.content x := by
  obtain ⟨hin, hout⟩ := content_restoreCells (fun e => h.of_mem) s.cells.nodup_keys (s := new s.policy) fun _ _ => rfl
  show (s.populated.foldl restoreCell (new s.policy)).content x = _
  rw [populated_eq]
  rcases hx : s.cells.get? x with _ | cell
  · have hn : x ∉ s.cells.entries.map Prod.fst := by
      intro hmem
      obtain ⟨cell, hcell⟩ := Table.mem_keys_iff.1 hmem
      rw [hx] at hcell
      cases hcell
    rw [hout x hn, content_new]
    unfold content
    rw [hx]
  · rw [hin (x, cell) (Table.get?_eq_some_iff.1 hx), content_of_get? hx]

theorem restoreEdit?_history (s : Sheet) : s.history.filterMap restoreEdit? = s.edits.entries := by
  unfold history
  rw [List.filterMap_map]
  refine (List.filterMap_congr fun e _ => ?_).trans (List.filterMap_some)
  show (CellName.parse? e.cell.text).map _ = _
  rw [e.cell.parse?_text]
  rfl

/-- Reopening keeps the newest entries of the log. -/
theorem edits_reopen (s : Sheet) : s.reopen.edits = .ofEntries s.edits.entries s.policy.maxEdits :=
  congrArg (EditLog.ofEntries · s.policy.maxEdits) (restoreEdit?_history s)

/-! ## The policy -/

theorem policy_restoreCells (s : Sheet) (rs : List CellRecord) : (rs.foldl restoreCell s).policy = s.policy := by
  induction rs generalizing s with
  | nil => rfl
  | cons r rs ih =>
    rw [List.foldl_cons, ih]
    unfold restoreCell
    split
    · rfl
    · dsimp only
      split <;> rfl

theorem policy_restore (r : SheetRecord) (policy : Policy) : (restore r policy).policy = policy :=
  policy_restoreCells (new policy) r.cells

theorem policy_opened (policy : Policy) (record : Option SheetRecord) : (opened policy record).policy = policy := by
  rcases record with _ | r
  · rfl
  · exact policy_restore r policy

/-- No event changes the policy. -/
theorem policy_after (s : Sheet) (e : Event) : (s.after e).policy = s.policy := by
  rcases e with r | client | _
  · rcases s.apply_cases r with ⟨o, h⟩ | ⟨o, s', h, -, hstep⟩
    · exact congrArg (fun p => p.2.policy) h
    · refine (congrArg (fun p => p.2.policy) h).trans ?_
      generalize r.action = action at hstep
      rcases hstep with _ | ⟨hc, -⟩ | ⟨hc, -⟩ | ⟨hc, -⟩
      · rfl
      · exact hc.policy
      · exact hc.policy
      · exact hc.policy
  · rfl
  · exact policy_restore _ _

theorem policy_run (s : Sheet) (es : List Event) : (s.run es).policy = s.policy :=
  run_keeps (P := fun t => t.policy = s.policy) (fun t e h => (t.policy_after e).trans h) rfl es

end Sheet

end SharedSheet
