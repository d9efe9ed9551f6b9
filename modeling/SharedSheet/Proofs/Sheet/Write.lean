/-
Requests that a sheet accepts. `Write` lists the accepted edits, reverts and undos, each with the checks on its way
and the sheet that comes out; `perform_cases` takes an accepted request apart once and for all, and `outcome_cases` any
request by its answer. What else is said about the operations follows from there.
-/
import SharedSheet.Sheet.Request

namespace SharedSheet

universe u v w

/-! ## Results -/

theorem bind_eq_ok {ε : Type u} {α β : Type v} {e : Except ε α} {f : α → Except ε β} {b : β}
    (h : (e >>= f) = .ok b) : ∃ a, e = .ok a ∧ f a = .ok b := by
  rcases e with e | a
  · cases h
  · exact ⟨a, rfl, h⟩

theorem bind_eq_error {ε : Type u} {α β : Type v} {e : Except ε α} {f : α → Except ε β} {x : ε}
    (h : (e >>= f) = .error x) : e = .error x ∨ ∃ a, e = .ok a ∧ f a = .error x := by
  rcases e with e | a
  · cases h
    exact .inl rfl
  · exact .inr ⟨a, rfl, h⟩

theorem map_eq_ok {ε : Type u} {α : Type v} {β : Type w} {e : Except ε α} {f : α → β} {b : β}
    (h : e.map f = .ok b) : ∃ a, e = .ok a ∧ f a = b := by
  rcases e with e | a
  · cases h
  · cases h
    exact ⟨a, rfl, rfl⟩

theorem map_eq_error {ε : Type u} {α : Type v} {β : Type w} {e : Except ε α} {f : α → β} {x : ε}
    (h : e.map f = .error x) : e = .error x := by
  rcases e with e | a
  · cases h
    rfl
  · cases h

/-- A revert swaps the content with the newest entry of the history, so it is a revert in the other direction, too. -/
theorem Cell.revert?_eq_some_iff {c c' : Cell} :
    c.revert? = some c' ↔
      c'.name = c.name ∧ ∃ older, c.history = c'.content :: older ∧ c'.history = c.content :: older := by
  obtain ⟨name, content, history⟩ := c
  obtain ⟨name', content', history'⟩ := c'
  rcases history with _ | ⟨previous, older⟩
  · simp [revert?]
  · simp only [revert?, Option.some.injEq, Cell.mk.injEq, List.cons.injEq]
    constructor
    · rintro ⟨rfl, rfl, rfl⟩
      exact ⟨rfl, older, ⟨rfl, rfl⟩, rfl⟩
    · rintro ⟨rfl, _, ⟨rfl, rfl⟩, rfl⟩
      exact ⟨rfl, rfl, rfl⟩

namespace Sheet

variable {s s' : Sheet} {u : CellUpdate}

/-! ## Checks -/

theorem parse?_of_readName {raw : String} {name : CellName} (h : readName raw = .ok name) :
    CellName.parse? raw = some name := by
  unfold readName at h
  split at h
  · cases h
    assumption
  · cases h

theorem readName_of_parse? {raw : String} {name : CellName} (h : CellName.parse? raw = some name) :
    readName raw = .ok name := by
  unfold readName
  rw [h]

/-! What a check refuses says which check it was. -/

theorem error_of_readName {raw : String} {e : SheetError} (h : readName raw = .error e) : e = .invalidCellName raw := by
  unfold readName at h
  split at h
  · cases h
  · cases h
    rfl

theorem error_of_normalize {content : String} {e : SheetError} (h : normalize content = .error e) :
    ∃ f, e = .invalidContent f := by
  unfold normalize at h
  split at h
  · split at h
    · cases h
    · cases h
      exact ⟨_, rfl⟩
  · cases h

theorem error_of_checkAcyclic {name : CellName} {references : List CellName} {e : SheetError}
    (h : s.checkAcyclic name references = .error e) : e = .circularDependency name := by
  unfold checkAcyclic at h
  split at h
  · cases h
    rfl
  · cases h

theorem wouldCycle_of_checkAcyclic {name : CellName} {references : List CellName}
    (h : s.checkAcyclic name references = .ok ()) : s.refs.wouldCycle name references = false := by
  unfold checkAcyclic at h
  split at h
  · cases h
  · exact Bool.eq_false_iff.2 ‹_›

theorem checkAcyclic_of_wouldCycle {name : CellName} {references : List CellName}
    (h : s.refs.wouldCycle name references = false) : s.checkAcyclic name references = .ok () := by
  unfold checkAcyclic
  rw [h]
  rfl

theorem referencesOf_of_contentReferences {content : String} {references : List CellName}
    (h : contentReferences content = .ok references) : referencesOf content = .ok references := by
  unfold referencesOf
  rw [h]
  rfl

theorem contentReferences_of_referencesOf {content : String} {references : List CellName}
    (h : referencesOf content = .ok references) : contentReferences content = .ok references := by
  unfold referencesOf at h
  rcases hc : contentReferences content with e | l
  · rw [hc] at h
    cases h
  · rw [hc] at h
    cases h
    rfl

/-! ## Accepted changes -/

theorem content_of_get? {x : CellName} {cell : Cell} (h : s.cells.get? x = some cell) : s.content x = cell.content := by
  unfold content
  rw [h]

/-- The cell for a new content under a name: the one that is there keeps its old content in its history. -/
def written (s : Sheet) (name : CellName) (content : String) : Cell :=
  match s.cells.get? name with
  | some cell => cell.set content s.policy.maxCellHistory
  | none => Cell.new name.text content

theorem content_written (s : Sheet) (name : CellName) (content : String) :
    (s.written name content).content = content := by
  unfold written
  split <;> rfl

/-- Every cell bears the name that it stands under. -/
def Named (s : Sheet) : Prop := ∀ name cell, s.cells.get? name = some cell → cell.name = name.text

theorem Named.written (h : s.Named) (name : CellName) (content : String) :
    (s.written name content).name = name.text := by
  unfold Sheet.written
  split
  · rename_i cell hcell
    exact h name cell hcell
  · rfl

/-- An accepted change of content: what the request has passed, the change that it reports, and the sheet that it
leaves. -/
inductive Write (s : Sheet) : Request → CellUpdate → Sheet → Prop
  | edit {client : ClientId} {raw content stored : String} {name : CellName} {references : List CellName}
      (named : CellName.parse? raw = some name)
      (selected : s.isSelected client name = true)
      (normal : normalize content = .ok (stored, references))
      (acyclic : s.refs.wouldCycle name references = false) :
      Write s ⟨client, .edit raw content⟩ ⟨name, stored⟩
        { s.store name (s.written name stored) references with edits := s.edits.push ⟨name, s.content name⟩ }
  | revert {client : ClientId} {raw : String} {name : CellName} {cell reverted : Cell} {references : List CellName}
      (named : CellName.parse? raw = some name)
      (found : s.cells.get? name = some cell)
      (back : cell.revert? = some reverted)
      (readable : contentReferences reverted.content = .ok references)
      (acyclic : s.refs.wouldCycle name references = false) :
      Write s ⟨client, .revert raw⟩ ⟨name, reverted.content⟩
        { s.store name reverted references with edits := s.edits.push ⟨name, s.content name⟩ }
  | undo {client : ClientId} {e : Edit} {older : EditLog Edit} {references : List CellName}
      (newest : s.edits.pop? = some (e, older))
      (readable : contentReferences e.prior = .ok references)
      (acyclic : s.refs.wouldCycle e.cell references = false) :
      Write s ⟨client, .undo⟩ ⟨e.cell, e.prior⟩
        { s.store e.cell (s.written e.cell e.prior) references with edits := older }

theorem edit_write {client : ClientId} {raw content : String} (h : s.edit client raw content = .ok (u, s')) :
    Write s ⟨client, .edit raw content⟩ u s' := by
  unfold edit at h
  obtain ⟨name, hname, h⟩ := bind_eq_ok h
  split at h
  · obtain ⟨_, h₁, -⟩ := bind_eq_ok h
    cases h₁
  · rename_i hsel
    obtain ⟨⟨stored, references⟩, hnorm, h⟩ := bind_eq_ok h
    obtain ⟨_, hacyclic, h⟩ := bind_eq_ok h
    cases h
    rw [Bool.not_eq_true', Bool.not_eq_false] at hsel
    exact .edit (parse?_of_readName hname) hsel hnorm (wouldCycle_of_checkAcyclic hacyclic)

theorem revert_write (client : ClientId) {raw : String} (h : s.revert raw = .ok (u, s')) :
    Write s ⟨client, .revert raw⟩ u s' := by
  unfold revert at h
  obtain ⟨name, hname, h⟩ := bind_eq_ok h
  split at h
  · cases h
  · rename_i cell hcell
    split at h
    · cases h
    · rename_i reverted hreverted
      obtain ⟨references, hrefs, h⟩ := bind_eq_ok h
      obtain ⟨_, hacyclic, h⟩ := bind_eq_ok h
      cases h
      have hw : Write s ⟨client, .revert raw⟩ _ _ := .revert (parse?_of_readName hname) hcell hreverted
        (contentReferences_of_referencesOf hrefs) (wouldCycle_of_checkAcyclic hacyclic)
      rwa [content_of_get? hcell] at hw

theorem undo_write (client : ClientId) (h : s.undo = .ok (u, s')) : Write s ⟨client, .undo⟩ u s' := by
  unfold undo at h
  split at h
  · cases h
  · rename_i e older hpop
    obtain ⟨references, hrefs, h⟩ := bind_eq_ok h
    obtain ⟨_, hacyclic, h⟩ := bind_eq_ok h
    cases h
    exact .undo hpop (contentReferences_of_referencesOf hrefs) (wouldCycle_of_checkAcyclic hacyclic)

/-! What passes all checks is done. -/

theorem revert_of_write {client : ClientId} {raw : String} (h : Write s ⟨client, .revert raw⟩ u s') :
    s.revert raw = .ok (u, s') := by
  rcases h with _ | ⟨hname, hcell, hback, hrefs, hacyclic⟩
  unfold revert
  rw [readName_of_parse? hname, content_of_get? hcell]
  simp only [bind, Except.bind, hcell, hback, referencesOf_of_contentReferences hrefs,
    checkAcyclic_of_wouldCycle hacyclic]
  rfl

theorem undo_of_write {client : ClientId} (h : Write s ⟨client, .undo⟩ u s') : s.undo = .ok (u, s') := by
  rcases h with _ | _ | ⟨hnewest, hrefs, hacyclic⟩
  unfold undo
  simp only [bind, Except.bind, hnewest, referencesOf_of_contentReferences hrefs, checkAcyclic_of_wouldCycle hacyclic]
  rfl

theorem apply_of_ok {r : Request} {o : Outcome} (h : s.perform r = .ok (o, s')) : s.apply r = (o, s') := by
  unfold apply
  rw [h]

theorem apply_of_error {r : Request} {e : SheetError} (h : s.perform r = .error e) :
    s.apply r = (.rejected r.action.target? e, s) := by
  unfold apply
  rw [h]

/-- An accepted request is a selection or a change of content. -/
theorem perform_cases {r : Request} {o : Outcome} (h : s.perform r = .ok (o, s')) :
    (∃ client raw name, r = ⟨client, .select raw⟩ ∧ CellName.parse? raw = some name ∧ o = .selected name ∧
      s' = { s with selections := s.selections.insert client name }) ∨
    ∃ u, o = .updated u ∧ Write s r u s' := by
  obtain ⟨client, action⟩ := r
  unfold perform at h
  rcases action with raw | ⟨raw, content⟩ | raw | _
  · obtain ⟨⟨name, t⟩, hselect, hmap⟩ := map_eq_ok h
    cases hmap
    unfold select at hselect
    obtain ⟨name', hname, hselect⟩ := bind_eq_ok hselect
    cases hselect
    exact .inl ⟨client, raw, name, rfl, parse?_of_readName hname, rfl, rfl⟩
  · obtain ⟨⟨u, t⟩, hedit, hmap⟩ := map_eq_ok h
    cases hmap
    exact .inr ⟨u, rfl, edit_write hedit⟩
  · obtain ⟨⟨u, t⟩, hrevert, hmap⟩ := map_eq_ok h
    cases hmap
    exact .inr ⟨u, rfl, revert_write client hrevert⟩
  · obtain ⟨⟨u, t⟩, hundo, hmap⟩ := map_eq_ok h
    cases hmap
    exact .inr ⟨u, rfl, undo_write client hundo⟩

/-- An outcome says what was changed. -/
theorem eq_of_updated_eq {u u' : CellUpdate} (h : Outcome.updated u = .updated u') : u = u' := by
  obtain ⟨name, content⟩ := u
  obtain ⟨name', content'⟩ := u'
  have hname : some name.text = some name'.text := congrArg Outcome.affectedCell h
  have hcontent : some content = some content' := congrArg Outcome.newContent h
  rw [CellName.ext (Option.some.inj hname), Option.some.inj hcontent]

/-- How a request ends: it is refused, it is a selection, or it reports the change that it has made. -/
theorem outcome_cases (s : Sheet) (r : Request) :
    (∃ e, s.apply r = (.rejected r.action.target? e, s)) ∨
    (∃ client raw name, r = ⟨client, .select raw⟩ ∧ CellName.parse? raw = some name ∧
      s.apply r = (.selected name, { s with selections := s.selections.insert client name })) ∨
    ∃ u s', s.apply r = (.updated u, s') ∧ Write s r u s' := by
  rcases hp : s.perform r with e | ⟨o, s'⟩
  · exact .inl ⟨e, apply_of_error hp⟩
  · rcases perform_cases hp with ⟨client, raw, name, hr, hname, rfl, rfl⟩ | ⟨u, rfl, hw⟩
    · exact .inr (.inl ⟨client, raw, name, hr, hname, apply_of_ok hp⟩)
    · exact .inr (.inr ⟨u, s', apply_of_ok hp, hw⟩)

theorem write_of_success {r : Request} (h : (s.apply r).1.success = true) (hselect : ∀ raw, r.action ≠ .select raw) :
    ∃ u, (s.apply r).1 = .updated u ∧ Write s r u (s.apply r).2 := by
  rcases s.outcome_cases r with ⟨e, hr⟩ | ⟨client, raw, name, rfl, -, -⟩ | ⟨u, s', hr, hw⟩
  · rw [hr] at h
    cases h
  · exact absurd rfl (hselect raw)
  · rw [hr]
    exact ⟨u, rfl, hw⟩

/-- A request that reports a new content was an edit, a revert or an undo. -/
theorem write_of_apply {r : Request} (h : (s.apply r).1 = .updated u) : Write s r u (s.apply r).2 := by
  rcases s.outcome_cases r with ⟨e, hr⟩ | ⟨client, raw, name, -, -, hr⟩ | ⟨u', s', hr, hw⟩
  · rw [hr] at h
    cases h
  · rw [hr] at h
    exact absurd (congrArg Outcome.newContent h) (Option.some_ne_none _).symm
  · rw [hr] at h ⊢
    rwa [← eq_of_updated_eq h]

/-- A request fails if and only if the operation refuses it. -/
theorem apply_success_eq_false_iff {r : Request} : (s.apply r).1.success = false ↔ ∃ e, s.perform r = .error e := by
  rcases hp : s.perform r with e | ⟨o, s'⟩
  · rw [apply_of_error hp]
    exact ⟨fun _ => ⟨e, rfl⟩, fun _ => rfl⟩
  · rw [apply_of_ok hp]
    constructor
    · intro hfalse
      rcases perform_cases hp with ⟨_, _, _, _, _, rfl, _⟩ | ⟨_, rfl, _⟩
      · cases hfalse
      · cases hfalse
    · rintro ⟨e, ⟨⟩⟩

end Sheet

end SharedSheet
