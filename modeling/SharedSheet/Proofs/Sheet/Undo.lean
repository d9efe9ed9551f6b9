/-
Undoing. The log is a faithful stack of whole sheets: beside each sheet we keep the sheets as they stood just
before its changes that have not been undone, and the log always says how to get back to the newest of them
(`Faithful`). So all the undos that the log has room for succeed, and they bring the past back step by step
(`undo_run`).
-/
import SharedSheet.Proofs.Sheet.Acyclic

namespace SharedSheet.Sheet

open Relation

/-- Undoing a number of times in a row. -/
def undoMany (s : Sheet) : ℕ → Except SheetError Sheet
  | 0 => .ok s
  | n + 1 =>
    match s.undo with
    | .ok (_, s') => s'.undoMany n
    | .error e => .error e

/-- A sheet, and the sheets just before its changes that have not been undone, newest first. -/
structure Tracked where
  sheet : Sheet
  past : List Sheet

namespace Tracked

/-- The past after a successful action: an edit or a revert is one more change, an undo takes one back. -/
def pastAfter (t : Tracked) : Action → List Sheet
  | .select _ => t.past
  | .edit _ _ | .revert _ => t.sheet :: t.past
  | .undo => t.past.tail

/-- The sheet after an event, with its past. A refused request, a selection that ends and reopening leave the
past alone. -/
def after (t : Tracked) (e : Event) : Tracked where
  sheet := t.sheet.after e
  past :=
    match e with
    | .request r =>
      match t.sheet.perform r with
      | .ok _ => t.pastAfter r.action
      | .error _ => t.past
    | .deselect _ | .reopen => t.past

end Tracked

/-- A run from the empty sheet, with its past. -/
def track (policy : Policy) (es : List Event) : Tracked := es.foldl Tracked.after ⟨new policy, []⟩

/-- Keeping the past does not change the run. -/
theorem sheet_track (policy : Policy) (es : List Event) : (track policy es).sheet = (new policy).run es := by
  have h : ∀ (es : List Event) (t : Tracked), (es.foldl Tracked.after t).sheet = t.sheet.run es := by
    intro es
    induction es with
    | nil => exact fun _ => rfl
    | cons e es ih => exact fun t => ih (t.after e)
  exact h es ⟨new policy, []⟩

/-! ## The invariant -/

/-- A sheet whose contents can all be stored again: it is consistent, has no cycles, and each of its formulas
parses. -/
structure Regular (s : Sheet) : Prop where
  consistent : s.Consistent
  acyclic : s.Acyclic
  readable : ∀ x, ∃ references, contentReferences (s.content x) = .ok references

/-- Every entry of the log leads from the contents after a change to those of the sheet before it, and that
sheet was regular. The past may go further back than the log. -/
def Faithful : (CellName → String) → List Edit → List Sheet → Prop
  | _, [], _ => True
  | _, _ :: _, [] => False
  | contents, e :: edits, p :: past =>
    (∀ x, p.content x = if x = e.cell then e.prior else contents x) ∧ p.Regular ∧ Faithful p.content edits past

theorem Faithful.take {contents : CellName → String} {edits : List Edit} {past : List Sheet}
    (h : Faithful contents edits past) (n : ℕ) : Faithful contents (edits.take n) past := by
  induction edits generalizing contents past n with
  | nil =>
    rw [List.take_nil]
    trivial
  | cons e edits ih =>
    rcases n with _ | n
    · trivial
    · rcases past with _ | ⟨p, past⟩
      · exact h.elim
      · obtain ⟨hp, hreg, hrest⟩ := h
        exact ⟨hp, hreg, ih hrest n⟩

theorem Faithful.keep {contents : CellName → String} {edits : List Edit} {past : List Sheet}
    (h : Faithful contents edits past) (cap : Option ℕ) : Faithful contents (keep cap edits) past := by
  rcases cap with _ | n
  · exact h
  · exact h.take n

/-- The log is a faithful account of the past, no longer than its cap. -/
structure Undoable (s : Sheet) (past : List Sheet) : Prop where
  regular : s.Regular
  faithful : Faithful s.content s.edits.entries past
  capped : s.edits.cap = s.policy.maxEdits
  fits : keep s.policy.maxEdits s.edits.entries = s.edits.entries

theorem keep_keep {α : Type} (cap : Option ℕ) (l : List α) : keep cap (keep cap l) = keep cap l := by
  rcases cap with _ | n
  · rfl
  · exact (List.take_take).trans (by rw [Nat.min_self]; rfl)

theorem keep_tail {α : Type} {cap : Option ℕ} {x : α} {l : List α} (h : keep cap (x :: l) = x :: l) :
    keep cap l = l := by
  rcases cap with _ | n
  · rfl
  · change (x :: l).take n = x :: l at h
    rw [List.take_eq_self_iff, List.length_cons] at h
    exact List.take_of_length_le (by omega)

theorem regular_new (policy : Policy) : (new policy).Regular where
  consistent := consistent_new policy
  acyclic := acyclic_new policy
  readable _ := ⟨[], rfl⟩

theorem undoable_new (policy : Policy) : Undoable (new policy) [] where
  regular := regular_new policy
  faithful := trivial
  capped := rfl
  fits := by
    show keep policy.maxEdits [] = []
    rcases policy.maxEdits with _ | n
    · rfl
    · exact List.take_nil

/-! ## What events do to it -/

variable {s s' : Sheet} {past : List Sheet} {u : CellUpdate}

theorem Regular.congr (h : s.Regular) (hcons : s'.Consistent) (hc : ∀ x, s'.content x = s.content x) : s'.Regular where
  consistent := hcons
  acyclic x hx := h.acyclic x ((onCycle_congr hc).1 hx)
  readable x := by
    rw [hc]
    exact h.readable x

theorem Regular.change (h : s.Regular) (hc : Change s u s') : s'.Regular where
  consistent := h.consistent.change hc
  acyclic x hx := h.acyclic x (h.consistent.onCycle_change hc hx)
  readable x := by
    rw [hc.content]
    split
    · obtain ⟨name, cell, references, log, readable, -, -⟩ := hc
      exact ⟨references, readable⟩
    · exact h.readable x

/-- An edit or a revert is one more change in the past. -/
theorem Undoable.push (h : Undoable s past) (hc : Change s u s')
    (hlog : s'.edits = s.edits.push ⟨u.cell, s.content u.cell⟩) : Undoable s' (s :: past) := by
  have hfaithful : Faithful s'.content (⟨u.cell, s.content u.cell⟩ :: s.edits.entries) (s :: past) := by
    refine ⟨fun x => ?_, h.regular, h.faithful⟩
    rw [hc.content]
    by_cases hx : x = u.cell
    · rw [if_pos hx, hx]
    · rw [if_neg hx, if_neg hx]
  refine ⟨h.regular.change hc, ?_, ?_, ?_⟩
  · rw [hlog]
    exact hfaithful.keep _
  · rw [hlog, hc.policy]
    exact h.capped
  · rw [hlog, hc.policy]
    show keep _ (keep s.edits.cap _) = keep s.edits.cap _
    rw [h.capped, keep_keep]

/-- The newest entry names the content that undoing brings back, and the sheet of the past with all of the
contents after that. -/
theorem Undoable.pop {e : Edit} {edits : List Edit} (h : Undoable s past) (hs : s.edits.entries = e :: edits) :
    ∃ p older, past = p :: older ∧ p.Regular ∧ (∀ x, p.content x = if x = e.cell then e.prior else s.content x) ∧
      Faithful p.content edits older := by
  have hf := h.faithful
  rw [hs] at hf
  rcases past with _ | ⟨p, older⟩
  · exact hf.elim
  · exact ⟨p, older, rfl, hf.2.1, hf.1, hf.2.2⟩

theorem pop?_eq_some {log log' : EditLog Edit} {e : Edit} (h : log.pop? = some (e, log')) :
    ∃ edits, log.entries = e :: edits ∧ log' = { log with entries := edits } := by
  unfold EditLog.pop? at h
  split at h
  · cases h
  · rename_i edits hentries
    cases h
    exact ⟨edits, hentries, rfl⟩

/-- Undoing brings the newest sheet of the past back, and what is left of the log tells of the rest. -/
theorem Undoable.undo (h : Undoable s past) (hc : Change s u s')
    (hlog : s.edits.pop? = some (⟨u.cell, u.content⟩, s'.edits)) :
    Undoable s' past.tail ∧ ∃ p ∈ past.head?, p.Regular ∧ ∀ x, s'.content x = p.content x := by
  obtain ⟨edits, hentries, hedits⟩ := pop?_eq_some hlog
  obtain ⟨p, older, rfl, hreg, hp, hrest⟩ := h.pop hentries
  have hcontent : ∀ x, s'.content x = p.content x := fun x => by rw [hc.content, hp]
  have hfits := h.fits
  rw [hentries] at hfits
  refine ⟨⟨hreg.congr (h.regular.change hc).consistent hcontent, ?_, ?_, ?_⟩, p, rfl, hreg, hcontent⟩
  · rw [hedits, funext hcontent]
    exact hrest
  · rw [hedits, hc.policy]
    exact h.capped
  · rw [hedits, hc.policy]
    exact keep_tail hfits

theorem Undoable.reopen (h : Undoable s past) : Undoable s.reopen past := by
  have hpolicy : s.reopen.policy = s.policy := policy_restore _ _
  have hentries : s.reopen.edits.entries = s.edits.entries := by
    rw [edits_reopen]
    exact h.fits
  have hcontent := h.regular.consistent.named.content_reopen
  refine ⟨h.regular.congr (consistent_restore _ _) hcontent, ?_, ?_, ?_⟩
  · rw [hentries, funext hcontent]
    exact h.faithful
  · rw [edits_reopen, hpolicy]
    rfl
  · rw [hentries, hpolicy]
    exact h.fits

/-- Every event keeps the log faithful. -/
theorem undoable_after (t : Tracked) (e : Event) (h : Undoable t.sheet t.past) :
    Undoable (t.after e).sheet (t.after e).past := by
  rcases e with r | client | _
  · show Undoable (t.sheet.apply r).2 (match t.sheet.perform r with
      | .ok _ => t.pastAfter r.action
      | .error _ => t.past)
    rcases hp : t.sheet.perform r with e | ⟨o, s'⟩
    · rw [apply_of_error hp]
      exact h
    · have hs := perform_step hp
      rw [apply_of_ok hp]
      dsimp only
      generalize r.action = action at hs ⊢
      rcases hs with _ | ⟨hc, hlog⟩ | ⟨hc, hlog⟩ | ⟨hc, hlog⟩
      · exact ⟨h.regular.congr (h.regular.consistent.step (.select ‹_› ‹_› ‹_›)) fun _ => rfl, h.faithful, h.capped,
          h.fits⟩
      · exact h.push hc hlog
      · exact h.push hc hlog
      · exact (h.undo hc hlog).1
  · exact ⟨h.regular.congr (consistent_after _ (.deselect client) h.regular.consistent) fun _ => rfl, h.faithful,
      h.capped, h.fits⟩
  · exact h.reopen

theorem undoable_track (policy : Policy) (es : List Event) :
    Undoable (track policy es).sheet (track policy es).past := by
  have keep : ∀ (es : List Event) (t : Tracked), Undoable t.sheet t.past →
      Undoable (es.foldl Tracked.after t).sheet (es.foldl Tracked.after t).past := by
    intro es
    induction es with
    | nil => exact fun _ h => h
    | cons e es ih => exact fun t h => ih _ (undoable_after t e h)
  exact keep es ⟨new policy, []⟩ (undoable_new policy)

/-- A sheet that began empty is regular at all times. -/
theorem regular_run (policy : Policy) (es : List Event) : ((new policy).run es).Regular := by
  rw [← sheet_track]
  exact (undoable_track policy es).regular

/-! ## Undoing all of it -/

/-- An undo with an entry on the log succeeds: the content to come back was read before, and the sheet that it
brings back had no cycle. -/
theorem Undoable.exists_undo {e : Edit} {edits : List Edit} (h : Undoable s past) (hs : s.edits.entries = e :: edits) :
    ∃ u s', s.undo = .ok (u, s') := by
  obtain ⟨p, older, -, hreg, hp, -⟩ := h.pop hs
  obtain ⟨references, hrefs⟩ := hreg.readable e.cell
  rw [hp, if_pos rfl] at hrefs
  have hacyclic := h.regular.consistent.wouldCycle_eq_false hrefs hp hreg.acyclic
  have hnewest : s.edits.pop? = some (e, { s.edits with entries := edits }) := by
    unfold EditLog.pop?
    rw [hs]
  have hw : Write s ⟨0, .undo⟩ _ _ := .undo hnewest hrefs hacyclic
  exact ⟨_, _, undo_of_write hw⟩

theorem undo_of_nil (hs : s.edits.entries = []) : s.undo = .error .noEditsToUndo := by
  unfold undo EditLog.pop?
  rw [hs]

/-- After all undos that the log has room for, each sheet of the past has come back, and there is nothing more
to undo. -/
theorem Undoable.undoMany (h : Undoable s past) :
    (∀ j < s.edits.size, ∃ s' p, s.undoMany (j + 1) = .ok s' ∧ past[j]? = some p ∧
      ∀ x, s'.content x = p.content x ∧ s'.refs.dependeesOf x = p.refs.dependeesOf x) ∧
    ∃ s', s.undoMany s.edits.size = .ok s' ∧ s'.undo = .error .noEditsToUndo := by
  unfold EditLog.size
  generalize hs : s.edits.entries = edits
  induction edits generalizing s past with
  | nil =>
    refine ⟨fun j hj => ?_, s, rfl, undo_of_nil hs⟩
    rw [List.length_nil] at hj
    exact absurd hj (Nat.not_lt_zero j)
  | cons e edits ih =>
    obtain ⟨u, s', hundo⟩ := h.exists_undo hs
    obtain ⟨hc, hlog⟩ := undo_spec hundo
    obtain ⟨hnext, p, hp, hreg, hcontent⟩ := h.undo hc hlog
    have hentries : s'.edits.entries = edits := by
      obtain ⟨_, h₁, h₂⟩ := pop?_eq_some hlog
      rw [hs] at h₁
      injection h₁ with _ h₃
      rw [h₂, h₃]
    have hmany : ∀ n, s.undoMany (n + 1) = s'.undoMany n := by
      intro n
      show (match s.undo with | .ok (_, s') => s'.undoMany n | .error e => .error e) = _
      rw [hundo]
    obtain ⟨hsteps, hlast⟩ := ih hnext hentries
    simp only [hmany, List.length_cons]
    refine ⟨fun j hj => ?_, hlast⟩
    rcases j with _ | j
    · have hrefs := hreg.consistent.refs_eq hnext.regular.consistent hcontent
      exact ⟨s', p, rfl, by rw [← List.head?_eq_getElem?]; exact hp, fun x => ⟨hcontent x, by rw [hrefs]⟩⟩
    · have hj := hsteps j (Nat.lt_of_succ_lt_succ hj)
      rwa [List.getElem?_tail] at hj

/-- If the log holds `k` entries, the next `k` undos succeed; the `j`-th of them brings back the contents and the
references of all cells as they were just before the `j`-th newest change that has not been undone, and the one
after the last finds nothing to undo. -/
theorem undo_run (policy : Policy) (es : List Event) :
    (track policy es).sheet = (new policy).run es ∧
    (∀ j < (track policy es).sheet.edits.size, ∃ s' p,
      (track policy es).sheet.undoMany (j + 1) = .ok s' ∧ (track policy es).past[j]? = some p ∧
        ∀ x, s'.content x = p.content x ∧ s'.refs.dependeesOf x = p.refs.dependeesOf x) ∧
    ∃ s', (track policy es).sheet.undoMany (track policy es).sheet.edits.size = .ok s' ∧
      s'.undo = .error .noEditsToUndo :=
  ⟨sheet_track policy es, (undoable_track policy es).undoMany⟩

end SharedSheet.Sheet
