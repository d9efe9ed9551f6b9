/-
Retention limits. How much of the past a sheet keeps decides what can be reverted and undone, and nothing else. A sheet
within limits and one without go through the same events side by side: `Within` says what they have in common, which is
all but the histories, and of the log the newest entries. Every event but a revert keeps it (`Within.after`), as long as
the limited log does not run out before the other. So until then nobody can tell them apart (`limits_unfelt`). Cells
that are dead in one of them may live on in the other.
-/
import SharedSheet.Proofs.Sheet.Restore

namespace SharedSheet

theorem prefix_keep {α : Type} (cap : Option ℕ) (l : List α) : keep cap l <+: l := by
  rcases cap with _ | n
  · exact List.prefix_rfl
  · exact List.take_prefix n l

theorem length_le_of_keep_eq {α : Type} {n : ℕ} {l : List α} (h : keep (some n) l = l) : l.length ≤ n :=
  List.take_eq_self_iff l |>.1 h

/-- A log within limits holds the newest entries of one without after a push if it did before. -/
theorem EditLog.prefix_push {ε : Type} {log log' : EditLog ε} (h : log.entries <+: log'.entries)
    (hcap : log'.cap = none) (e : ε) : (log.push e).entries <+: (log'.push e).entries := by
  unfold EditLog.push
  rw [hcap]
  exact (prefix_keep _ _).trans (List.cons_prefix_cons.2 ⟨rfl, h⟩)

namespace Sheet

/-! ## Side by side -/

/-- A sheet within limits and a sheet without, which cannot be told apart but by what they keep of the past. -/
structure Within (s t : Sheet) : Prop where
  content : ∀ x, s.content x = t.content x
  refs : s.refs = t.refs
  selections : s.selections = t.selections
  log : s.edits.entries <+: t.edits.entries
  unlimited : t.edits.cap = none

/-- Two attempts that end alike: refused for the same reason, or with the same result and two such sheets. -/
inductive EndAlike {α : Type} : Except SheetError (α × Sheet) → Except SheetError (α × Sheet) → Prop
  | refused (e : SheetError) : EndAlike (.error e) (.error e)
  | accepted (a : α) {s t : Sheet} (h : Within s t) : EndAlike (.ok (a, s)) (.ok (a, t))

namespace EndAlike

variable {α β : Type}

/-- What both check alike does not tell them apart. -/
theorem bind {e : Except SheetError β} {f g : β → Except SheetError (α × Sheet)}
    (h : ∀ b, e = .ok b → EndAlike (f b) (g b)) : EndAlike (e >>= f) (e >>= g) := by
  rcases e with e | b
  · exact .refused e
  · exact h b rfl

theorem map {x y : Except SheetError (α × Sheet)} (h : EndAlike x y) (f : α → β) :
    EndAlike (x.map fun (a, s) => (f a, s)) (y.map fun (a, s) => (f a, s)) := by
  rcases h with e | ⟨a, h⟩
  · exact .refused e
  · exact .accepted (f a) h

end EndAlike

variable {s t : Sheet}

theorem Within.checkAcyclic_eq (h : Within s t) (name : CellName) (references : List CellName) :
    s.checkAcyclic name references = t.checkAcyclic name references := by
  unfold checkAcyclic
  rw [h.refs]

theorem Within.isSelected_eq (h : Within s t) (client : ClientId) (name : CellName) :
    s.isSelected client name = t.isSelected client name := by
  unfold isSelected
  rw [h.selections]

theorem Within.select (h : Within s t) (client : ClientId) (raw : String) :
    EndAlike (s.select client raw) (t.select client raw) := by
  refine .bind fun name _ => .accepted name ⟨h.content, h.refs, ?_, h.log, h.unlimited⟩
  dsimp only
  rw [h.selections]

/-- A content that is committed is there in both, whether the cell is new to one of them or dead there. -/
theorem Within.commit (h : Within s t) (log log' : EditLog Edit) (hlog : log.entries <+: log'.entries)
    (hcap : log'.cap = none) (name : CellName) (content : String) (references : List CellName) :
    Within ({ s with edits := log }.commit name content references)
      ({ t with edits := log' }.commit name content references) where
  content x := by
    have hcontent : ∀ s : Sheet, (s.commit name content references).content x =
        if x = name then content else s.content x := by
      intro s
      show (s.store name (s.written name content) references).content x = _
      rw [content_store, content_written]
    rw [hcontent, hcontent]
    exact if_congr Iff.rfl rfl (h.content x)
  refs := congrArg (·.replaceDependees name references) h.refs
  selections := h.selections
  log := hlog
  unlimited := hcap

theorem Within.edit (h : Within s t) (client : ClientId) (raw content : String) :
    EndAlike (s.edit client raw content) (t.edit client raw content) := by
  unfold Sheet.edit
  refine .bind fun name _ => ?_
  rw [h.isSelected_eq, h.content]
  rcases t.isSelected client name with _ | _
  · exact .refused _
  · refine .bind fun ⟨stored, references⟩ _ => ?_
    dsimp only
    rw [h.checkAcyclic_eq]
    refine .bind fun _ _ => ?_
    exact .accepted _ (h.commit _ _ (EditLog.prefix_push h.log h.unlimited _) h.unlimited name stored references)

/-- The newest entry of both logs is the same one, unless the limited log has run out. -/
theorem Within.undo (h : Within s t) (hlog : s.undo = .error .noEditsToUndo → t.edits.entries = []) :
    EndAlike s.undo t.undo := by
  rcases hs : s.edits.entries with _ | ⟨e, older⟩
  · have hundo := undo_of_nil hs
    rw [hundo, undo_of_nil (hlog hundo)]
    exact .refused _
  · obtain ⟨rest, ht⟩ := h.log
    rw [hs, List.cons_append] at ht
    unfold Sheet.undo EditLog.pop?
    rw [hs, ← ht]
    refine .bind fun references _ => ?_
    rw [h.checkAcyclic_eq]
    refine .bind fun _ _ => ?_
    exact .accepted _ (h.commit { s.edits with entries := older } { t.edits with entries := older ++ rest }
      (List.prefix_append older rest) h.unlimited e.cell e.prior references)

/-! ## Events -/

/-- The answer to an event, if it is a request. -/
def answer (s : Sheet) : Event → Option (Except SheetError Outcome)
  | .request r => some ((s.perform r).map Prod.fst)
  | .deselect _ | .reopen => none

/-- The answers in the course of a run. -/
def answers (s : Sheet) : List Event → List (Option (Except SheetError Outcome))
  | [] => []
  | e :: es => s.answer e :: (s.after e).answers es

/-- The event is a revert. Reverts need the histories, so they are where limits can always be felt. -/
def IsRevert (e : Event) : Prop := ∃ client raw, e = .request ⟨client, .revert raw⟩

/-- Where the first sheet has nothing left to undo, the second one has nothing either. -/
def Suffices (s t : Sheet) (e : Event) : Prop :=
  ∀ client, e = .request ⟨client, .undo⟩ → s.undo = .error .noEditsToUndo → t.edits.entries = []

theorem Within.perform (h : Within s t) {r : Request} (hrevert : ¬IsRevert (.request r))
    (hundo : Suffices s t (.request r)) : EndAlike (s.perform r) (t.perform r) := by
  obtain ⟨client, action⟩ := r
  rcases action with raw | ⟨raw, content⟩ | raw | _
  · exact (h.select client raw).map _
  · exact (h.edit client raw content).map _
  · exact absurd ⟨client, raw, rfl⟩ hrevert
  · exact (h.undo (hundo client rfl)).map _

/-- An event is answered alike by both sheets, and leaves two such sheets. -/
theorem Within.after (h : Within s t) (hs : s.Consistent ∧ s.Retained) (ht : t.Consistent ∧ t.Retained) {e : Event}
    (hrevert : ¬IsRevert e) (hundo : Suffices s t e) :
    s.answer e = t.answer e ∧ Within (s.after e) (t.after e) := by
  rcases e with r | client | _
  · have hends := h.perform hrevert hundo
    unfold answer Sheet.after apply
    dsimp only
    generalize s.perform r = x at hends
    generalize t.perform r = y at hends
    rcases hends with e | ⟨o, hwithin⟩
    · exact ⟨rfl, h⟩
    · exact ⟨rfl, hwithin⟩
  · exact ⟨rfl, h.content, h.refs, congrArg (·.erase client) h.selections, h.log, h.unlimited⟩
  · refine ⟨rfl, ?_⟩
    show Within s.reopen t.reopen
    rw [reopen_eq hs.1 hs.2, reopen_eq ht.1 ht.2]
    exact ⟨h.content, h.refs, rfl, h.log, h.unlimited⟩

/-! ## Runs -/

/-- At every undo in the run of one sheet there is something left to undo, or the other sheet has nothing left
either. -/
def SufficesAlong (s t : Sheet) (es : List Event) : Prop :=
  ∀ i e, es[i]? = some e → Suffices (s.run (es.take i)) (t.run (es.take i)) e

theorem Within.run (h : Within s t) (hs : s.Consistent ∧ s.Retained) (ht : t.Consistent ∧ t.Retained)
    {es : List Event} (hrevert : ∀ e ∈ es, ¬IsRevert e) (hundo : SufficesAlong s t es) :
    s.answers es = t.answers es ∧ Within (s.run es) (t.run es) := by
  induction es generalizing s t with
  | nil => exact ⟨rfl, h⟩
  | cons e es ih =>
    obtain ⟨hanswer, hafter⟩ := h.after hs ht (hrevert e List.mem_cons_self) (hundo 0 e rfl)
    obtain ⟨hanswers, hrun⟩ := ih hafter
      ⟨consistent_after s e hs.1, retained_after s e hs.2⟩ ⟨consistent_after t e ht.1, retained_after t e ht.2⟩
      (fun d hd => hrevert d (List.mem_cons_of_mem e hd)) (fun i => hundo (i + 1))
    refine ⟨?_, hrun⟩
    unfold answers
    rw [hanswer, hanswers]

theorem within_new (policy : Policy) : Within (new policy) (new .unbounded) where
  content _ := rfl
  refs := rfl
  selections := rfl
  log := List.prefix_rfl
  unlimited := rfl

/-- What a sheet within limits has in common with the one without, and what it keeps of the past. -/
structure Limited (policy : Policy) (s t : Sheet) : Prop extends Within s t where
  dependents : ∀ raw, s.dependents raw = t.dependents raw
  dependees : ∀ raw, s.dependees raw = t.dependees raw
  edits : ∀ n, policy.maxEdits = some n → s.edits.size ≤ n
  histories : ∀ n, policy.maxCellHistory = some n →
    ∀ name cell, s.cells.get? name = some cell → cell.history.length ≤ n

theorem Within.limited (h : Within s t) (hs : s.Retained) : Limited s.policy s t where
  toWithin := h
  dependents raw := by
    unfold Sheet.dependents
    rw [h.refs]
  dependees raw := by
    unfold Sheet.dependees
    rw [h.refs]
  edits n hn := by
    have hkeep := hs.edits
    rw [hn] at hkeep
    exact length_le_of_keep_eq hkeep
  histories n hn name cell hcell := by
    have hkeep := hs.histories name cell hcell
    rw [hn] at hkeep
    exact length_le_of_keep_eq hkeep

/-- Limits change what can be reverted or undone, and never the sheet. In a run without reverts, up to the first undo
that finds the limited log empty and would not find the unlimited one so, all requests are answered as they would be
without limits. At all times in such a run the contents, the references and the selections are those of the sheet
without limits, the log holds the newest entries of the other one, and neither the log nor any history is longer than
it may be. -/
theorem limits_unfelt (policy : Policy) (es : List Event) (hrevert : ∀ e ∈ es, ¬IsRevert e)
    (hundo : SufficesAlong (new policy) (new .unbounded) es) :
    (new policy).answers es = (new .unbounded).answers es ∧
      ∀ i, Limited policy ((new policy).run (es.take i)) ((new .unbounded).run (es.take i)) := by
  have hs : ∀ policy, (new policy).Consistent ∧ (new policy).Retained := fun policy =>
    ⟨consistent_new policy, retained_new policy⟩
  refine ⟨((within_new policy).run (hs _) (hs _) hrevert hundo).1, fun i => ?_⟩
  have hfirst : SufficesAlong (new policy) (new .unbounded) (es.take i) := by
    intro j e he
    rw [List.getElem?_take] at he
    split at he
    · rename_i hj
      rw [List.take_take, Nat.min_eq_left hj.le]
      exact hundo j e he
    · cases he
  have hwithin := ((within_new policy).run (hs _) (hs _)
    (fun e he => hrevert e (List.mem_of_mem_take he)) hfirst).2
  have h := hwithin.limited (retained_run policy none (es.take i))
  rwa [policy_run] at h

/-- With no history and one entry in the log a cell that is emptied is gone at once, and the newest edit can still be
undone as if there were no limits. -/
theorem limits_unfelt_tight :
    let policy : Policy := ⟨some 0, some 1⟩
    let es : List Event := [.request ⟨1, .select "a1"⟩, .request ⟨1, .edit "a1" "5"⟩, .request ⟨1, .edit "a1" ""⟩,
      .deselect 2, .request ⟨1, .select "b1"⟩, .request ⟨1, .edit "b1" "=a1"⟩, .request ⟨3, .undo⟩]
    (∀ e ∈ es, ¬IsRevert e) ∧ SufficesAlong (new policy) (new .unbounded) es ∧
      ((new policy).run es).populated = [] ∧
      ((new .unbounded).run es).populated = [⟨"A1", "", ["5"]⟩, ⟨"B1", "", ["=A1"]⟩] ∧
      (new policy).answers es = (new .unbounded).answers es ∧
      ∀ i, Limited policy ((new policy).run (es.take i)) ((new .unbounded).run (es.take i)) := by
  intro policy es
  have hrevert : ∀ e ∈ es, ¬IsRevert e := by
    rintro e he ⟨client, raw, rfl⟩
    simp [es] at he
  have hundo : SufficesAlong (new policy) (new .unbounded) es := by
    rintro i e he client rfl hempty
    rcases i with _ | _ | _ | _ | _ | _ | _ | i <;> cases he
    -- the one undo finds the edit of the second cell
    have hfull : ((new policy).run (es.take 6)).undo.toOption.isSome = true := by
      dsimp only [policy, es]
      cbv
    rw [hempty] at hfull
    cases hfull
  refine ⟨hrevert, hundo, ?_, ?_, limits_unfelt policy es hrevert hundo⟩
  · dsimp only [policy, es]
    cbv
  · dsimp only [es]
    cbv

end Sheet

end SharedSheet
