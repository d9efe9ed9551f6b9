/-
What a request leaves alone. The procedures that change a sheet in place end as the operations do (`run_request`): no
refusal comes after a write, and the failure that a revert could meet after logging its change does not occur. From
there a refused request changes nothing, and an accepted change touches one cell, its references and the newest entry
of the log (`contained_run`).
-/
import SharedSheet.Proofs.Sheet.Retained
import SharedSheet.Sheet.Procedure

namespace SharedSheet

namespace Procedure

section

variable {ε σ α β : Type} {s s' : σ} {x : EStateM ε σ α} {f : α → EStateM ε σ β}

theorem run_get (f : σ → EStateM ε σ α) : (get >>= f).run s = (f s).run s := rfl

theorem run_bind {a : α} (h : x.run s = .ok a s') : (x >>= f).run s = (f a).run s' := by
  change x s = .ok a s' at h
  show EStateM.bind x f s = _
  unfold EStateM.bind
  rw [h]
  rfl

theorem run_bind_error {e : ε} (h : x.run s = .error e s') : (x >>= f).run s = .error e s' := by
  change x s = .error e s' at h
  show EStateM.bind x f s = _
  unfold EStateM.bind
  rw [h]

end

variable {α β : Type} {s s' : Sheet}

/-! ## Checks -/

/-- The end of a procedure that has written nothing if it is refused. -/
def ending (s : Sheet) : Except SheetError (α × Sheet) → EStateM.Result SheetError Sheet α
  | .ok (a, s') => .ok a s'
  | .error e => .error e s

/-- A check writes nothing, so what follows it decides how the procedure ends. -/
theorem run_check {e : Except SheetError α} {f : α → Procedure β} {g : α → Except SheetError (β × Sheet)}
    (h : ∀ a, e = .ok a → (f a).run s = ending s (g a)) : (ofExcept e >>= f).run s = ending s (e >>= g) := by
  rcases e with e | a
  · rfl
  · exact h a rfl

theorem run_requireAcyclic {name : CellName} {references : List CellName} {f : Unit → Procedure β}
    {g : Unit → Except SheetError (β × Sheet)} (h : (f ()).run s = ending s (g ())) :
    (requireAcyclic name references >>= f).run s = ending s (s.checkAcyclic name references >>= g) := by
  unfold requireAcyclic Sheet.checkAcyclic
  show ((if s.refs.wouldCycle name references = true then
    (throw (.circularDependency name) : Procedure Unit) else pure ()) >>= f).run s = _
  split
  · rfl
  · exact h

/-! ## Writes -/

/-- Putting a cell in its place and taking it out again if it is dead stores it. -/
theorem run_place (name : CellName) (cell : Cell) (references : List CellName) :
    (place name cell references).run s = .ok () (s.store name cell references) := by
  show EStateM.Result.ok () (if ((s.cells.insert name cell).get? name).any Cell.isDead then _ else _) = _
  rw [Table.get?_insert_self, Option.any_some]
  unfold Sheet.store
  split
  · dsimp only
    rw [Table.erase_insert]
  · rfl

theorem run_pushEdit (e : Edit) (f : Unit → Procedure α) :
    (pushEdit e >>= f).run s = (f ()).run { s with edits := s.edits.push e } := rfl

theorem run_placed (name : CellName) (cell : Cell) (references : List CellName) (u : CellUpdate) :
    (do place name cell references; return u : Procedure CellUpdate).run s =
      .ok u (s.store name cell references) :=
  run_bind (run_place name cell references)

theorem run_commit (name : CellName) (content : String) (references : List CellName) :
    (commit name content references).run s = .ok ⟨name, content⟩ (s.commit name content references) := by
  unfold commit Sheet.commit
  rw [run_get]
  rcases s.cells.get? name with _ | cell
  · exact run_placed name _ references _
  · exact run_placed name _ references _

/-! ## Operations -/

theorem run_select (client : ClientId) (raw : String) :
    (select client raw).run s = ending s (s.select client raw) := by
  unfold select Sheet.select
  exact run_check fun name _ => rfl

theorem run_edit (client : ClientId) (raw content : String) :
    (edit client raw content).run s = ending s (s.edit client raw content) := by
  unfold edit Sheet.edit
  refine run_check fun name _ => ?_
  show EStateM.run (if (!s.isSelected client name) = true then _ else _) s = _
  rcases s.isSelected client name with _ | _
  · rfl
  · refine run_check fun ⟨stored, references⟩ _ => ?_
    refine run_requireAcyclic ?_
    exact run_commit _ _ _

theorem run_revert (raw : String) : (revert raw).run s = ending s (s.revert raw) := by
  unfold revert Sheet.revert
  refine run_check fun name _ => ?_
  rw [run_get]
  dsimp only
  rcases hcell : s.cells.get? name with _ | cell
  · rfl
  · dsimp only
    unfold Cell.previous? Cell.revert?
    rcases cell with ⟨stored, content, _ | ⟨previous, older⟩⟩
    · rfl
    · refine run_check fun references _ => ?_
      refine run_requireAcyclic ?_
      -- the log has grown, and the cell is where it was
      rw [run_pushEdit, run_get]
      dsimp only
      rw [hcell]
      exact run_placed name _ references _

theorem run_undo : undo.run s = ending s s.undo := by
  unfold undo Sheet.undo
  rw [run_get]
  unfold EditLog.peek? EditLog.pop?
  rcases hentries : s.edits.entries with _ | ⟨e, older⟩
  · rfl
  · refine run_check fun references _ => ?_
    refine run_requireAcyclic ?_
    -- the entry that was looked at is the one that comes off
    rw [run_get, hentries]
    exact run_commit (s := { s with edits := { s.edits with entries := older } }) e.cell e.prior references

theorem run_map {x : Procedure α} {e : Except SheetError (α × Sheet)} (h : x.run s = ending s e) (f : α → β) :
    (do return f (← x) : Procedure β).run s = ending s (e.map fun (a, s') => (f a, s')) := by
  rcases e with e | ⟨a, s'⟩
  · exact run_bind_error h
  · exact run_bind h

/-- A procedure ends as the operation does, and if it is refused, the sheet is as it was. -/
theorem run_request (s : Sheet) (r : Request) : (request r).run s = ending s (s.perform r) := by
  obtain ⟨client, action⟩ := r
  unfold request Sheet.perform
  rcases action with raw | ⟨raw, content⟩ | raw | _
  · exact run_map (run_select client raw) _
  · exact run_map (run_edit client raw content) _
  · exact run_map (run_revert raw) _
  · exact run_map run_undo _

theorem run_request_eq_error_iff {r : Request} {e : SheetError} :
    (request r).run s = .error e s' ↔ s.perform r = .error e ∧ s' = s := by
  rw [run_request]
  rcases s.perform r with e' | ⟨o, t⟩
  · constructor
    · rintro ⟨⟩
      exact ⟨rfl, rfl⟩
    · rintro ⟨⟨⟩, rfl⟩
      rfl
  · constructor
    · rintro ⟨⟩
    · rintro ⟨⟨⟩, -⟩

end Procedure

namespace Sheet

/-- Requests carried out in place end as requests that are computed at once. -/
theorem applyInPlace_eq (s : Sheet) (r : Request) : s.applyInPlace r = s.apply r := by
  unfold applyInPlace apply
  rw [Procedure.run_request]
  rcases s.perform r with e | ⟨o, s'⟩
  · rfl
  · rfl

/-! ## What a change leaves alone -/

/-- A change of one cell: its content is the reported one, all other cells stay as they are with what they depend on,
nobody's selection moves, and the log has one entry more at its head, or one less after an undo. -/
structure Framed (policy : Policy) (s : Sheet) (a : Action) (u : CellUpdate) (s' : Sheet) : Prop where
  content : s'.content u.cell = u.content
  cells : ∀ y, y ≠ u.cell → s'.cells.get? y = s.cells.get? y
  dependees : ∀ y, y ≠ u.cell → s'.refs.dependeesOf y = s.refs.dependeesOf y
  selections : s'.selections = s.selections
  log : match a with
    | .undo => s.edits.entries = ⟨u.cell, u.content⟩ :: s'.edits.entries
    | _ => s'.edits.entries = keep policy.maxEdits (⟨u.cell, s.content u.cell⟩ :: s.edits.entries)

variable {s s' : Sheet} {u : CellUpdate}

theorem Write.framed {r : Request} (h : Write s r u s') (hs : s.Retained) : Framed s.policy s r.action u s' where
  content := by rw [h.change.content, if_pos rfl]
  cells _ hy := h.change.get?_of_ne hy
  dependees _ hy := h.change.dependeesOf_of_ne hy
  selections := h.change.selections
  log := by
    rcases h with _ | _ | ⟨hnewest, -, -⟩
    · exact congrArg (keep · _) hs.capped
    · exact congrArg (keep · _) hs.capped
    · obtain ⟨edits, hentries, rfl⟩ := pop?_eq_some hnewest
      exact hentries

/-! ## All requests -/

/-- How far a request to a sheet reaches, in place and computed at once. -/
structure Contained (policy : Policy) (s : Sheet) (r : Request) : Prop where
  inPlace : s.applyInPlace r = s.apply r
  fails : (s.apply r).1.success = false ↔ ∃ e s', (Procedure.request r).run s = .error e s'
  /-- A refusal in the middle of a procedure leaves nothing written. -/
  refused : ∀ e s', (Procedure.request r).run s = .error e s' → s' = s
  unchanged : (s.apply r).1.success = false → (s.apply r).2 = s
  changed : (s.apply r).1.success = true → (∀ raw, r.action ≠ .select raw) →
    ∃ u, (s.apply r).1 = .updated u ∧ Framed policy s r.action u (s.apply r).2

theorem Retained.contained (hs : s.Retained) (r : Request) : Contained s.policy s r where
  inPlace := s.applyInPlace_eq r
  fails := by
    rw [apply_success_eq_false_iff]
    constructor
    · rintro ⟨e, he⟩
      exact ⟨e, s, Procedure.run_request_eq_error_iff.2 ⟨he, rfl⟩⟩
    · rintro ⟨e, s', he⟩
      exact ⟨e, (Procedure.run_request_eq_error_iff.1 he).1⟩
  refused e s' h := (Procedure.run_request_eq_error_iff.1 h).2
  unchanged h := by
    obtain ⟨e, he⟩ := apply_success_eq_false_iff.1 h
    rw [apply_of_error he]
  changed hsuccess hselect := by
    obtain ⟨u, ho, hw⟩ := write_of_success hsuccess hselect
    exact ⟨u, ho, hw.framed hs⟩

/-- At any time in the life of a sheet, a refused request changes nothing, and an edit, a revert or an undo changes the
content of one cell, its references and the newest entry of the log. -/
theorem contained_run (policy : Policy) (record : Option SheetRecord) (es : List Event) (r : Request) :
    Contained policy ((opened policy record).run es) r := by
  have hpolicy : ((opened policy record).run es).policy = policy := by
    rw [policy_run, policy_opened]
  have h := (retained_run policy record es).contained r
  rwa [hpolicy] at h

end Sheet

end SharedSheet
