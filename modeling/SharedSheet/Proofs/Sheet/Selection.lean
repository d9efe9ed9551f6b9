/-
The right to edit. Only the client who has a cell selected can edit it, and who has what selected is a matter of the
past of this client alone: of all that has made or ended his selection, the newest counts (`selection_run`).
Selections that were refused, edits, and whatever other clients did make no difference. So the content of a cell
changes only by a revert, an undo or an edit of the one who has selected it, and everybody else is told so
(`permits_run`).
-/
import SharedSheet.Proofs.Sheet.Restore

namespace SharedSheet.Sheet

/-! ## The past of a client -/

/-- The event makes or ends the selection of a client: he selects a cell and is not refused, he leaves, or the sheet is
opened anew. -/
def Chooses (s : Sheet) (client : ClientId) : Event → Prop
  | .request r => r.client = client ∧ (∃ raw, r.action = .select raw) ∧ (s.apply r).1.success = true
  | .deselect c => c = client
  | .reopen => True

/-- Of all events in the run that made or ended the selection of the client, the newest is the selection of this cell.
-/
def HasChosen (s : Sheet) (es : List Event) (client : ClientId) (name : CellName) : Prop :=
  ∃ before raw later, es = before ++ .request ⟨client, .select raw⟩ :: later ∧
    (s.run before).Chooses client (.request ⟨client, .select raw⟩) ∧ CellName.parse? raw = some name ∧
    ∀ first e, first ++ [e] <+: later →
      ¬(s.run (before ++ .request ⟨client, .select raw⟩ :: first)).Chooses client e

/-! ## What is selected after an event -/

section

variable {s : Sheet} {client : ClientId} {name : CellName}

theorem apply_select_success (s : Sheet) (client : ClientId) (raw : String) :
    (s.apply ⟨client, .select raw⟩).1.success = (CellName.parse? raw).isSome := by
  rw [apply_select]
  rcases CellName.parse? raw with _ | name
  · rfl
  · rfl

/-- After an event that made or ended the selection of a client, he has selected what the event says. -/
theorem selected_iff_of_chooses {e : Event} (h : s.Chooses client e) :
    (s.after e).selections.get? client = some name ↔
      ∃ raw, e = .request ⟨client, .select raw⟩ ∧ CellName.parse? raw = some name := by
  rcases e with ⟨c, action⟩ | c | _
  · obtain ⟨rfl, ⟨raw, rfl⟩, hsuccess⟩ := h
    rw [apply_select_success, Option.isSome_iff_exists] at hsuccess
    obtain ⟨chosen, hchosen⟩ := hsuccess
    show (s.apply ⟨c, .select raw⟩).2.selections.get? c = some name ↔ _
    rw [apply_select]
    unfold selectIn
    dsimp only
    rw [hchosen]
    dsimp only
    rw [Table.get?_insert_self]
    constructor
    · intro h
      exact ⟨raw, rfl, hchosen.trans h⟩
    · rintro ⟨_, ⟨⟩, h⟩
      exact hchosen.symm.trans h
  · cases h
    show (s.selections.erase client).get? client = some name ↔ _
    rw [Table.get?_erase, if_pos rfl]
    constructor
    · rintro ⟨⟩
    · rintro ⟨_, ⟨⟩, _⟩
  · show (restore s.record s.policy).selections.get? client = some name ↔ _
    rw [selections_restore]
    constructor
    · rintro ⟨⟩
    · rintro ⟨_, ⟨⟩, _⟩

/-- All other events leave the selection of the client alone. -/
theorem selected_of_not_chooses {e : Event} (h : ¬s.Chooses client e) :
    (s.after e).selections.get? client = s.selections.get? client := by
  rcases e with r | c | _
  · show (s.apply r).2.selections.get? client = _
    rcases s.outcome_cases r with ⟨error, hr⟩ | ⟨c, raw, chosen, rfl, -, hr⟩ | ⟨u, s', hr, hw⟩
    · rw [hr]
    · -- a selection that is accepted, so it is that of somebody else
      have hne : client ≠ c := by
        rintro rfl
        refine h ⟨rfl, ⟨raw, rfl⟩, ?_⟩
        rw [hr]
        rfl
      rw [hr]
      exact Table.get?_insert_of_ne _ hne chosen
    · rw [hr]
      exact congrArg (·.get? client) hw.change.selections
  · show (s.selections.erase c).get? client = _
    rw [Table.get?_erase, if_neg fun hc => h hc.symm]
  · exact absurd trivial h

/-! ## What is selected after a run -/

theorem run_concat (s : Sheet) (es : List Event) (e : Event) : s.run (es ++ [e]) = (s.run es).after e :=
  List.foldl_concat ..

/-- The last of some events is the one at a place among them, or comes after it. -/
theorem concat_eq_append_cons {α : Type} {l before later : List α} {x y : α}
    (h : l ++ [y] = before ++ x :: later) :
    (l = before ∧ y = x ∧ later = []) ∨ ∃ middle, later = middle ++ [y] ∧ l = before ++ x :: middle := by
  rcases later.eq_nil_or_concat' with rfl | ⟨middle, z, rfl⟩
  · obtain ⟨hl, hy⟩ := List.append_inj' h rfl
    exact .inl ⟨hl, (List.cons.inj hy).1, rfl⟩
  · rw [← List.cons_append, ← List.append_assoc] at h
    obtain ⟨hl, hy⟩ := List.append_inj' h rfl
    cases hy
    exact .inr ⟨middle, rfl, hl⟩

theorem hasChosen_of_chooses {es : List Event} {e : Event} (h : (s.run es).Chooses client e) :
    s.HasChosen (es ++ [e]) client name ↔
      ∃ raw, e = .request ⟨client, .select raw⟩ ∧ CellName.parse? raw = some name := by
  constructor
  · rintro ⟨before, raw, later, hes, -, hname, hlater⟩
    rcases concat_eq_append_cons hes with ⟨-, he, -⟩ | ⟨middle, rfl, rfl⟩
    · exact ⟨raw, he, hname⟩
    · exact absurd h (hlater middle e List.prefix_rfl)
  · rintro ⟨raw, rfl, hname⟩
    refine ⟨es, raw, [], rfl, h, hname, fun first e hfirst => ?_⟩
    exact absurd (List.prefix_nil.1 hfirst) (List.append_ne_nil_of_right_ne_nil _ (List.cons_ne_nil _ _))

theorem hasChosen_of_not_chooses {es : List Event} {e : Event} (h : ¬(s.run es).Chooses client e) :
    s.HasChosen (es ++ [e]) client name ↔ s.HasChosen es client name := by
  constructor
  · rintro ⟨before, raw, later, hes, hchoice, hname, hlater⟩
    rcases concat_eq_append_cons hes with ⟨rfl, rfl, -⟩ | ⟨middle, rfl, rfl⟩
    · exact absurd hchoice h
    · exact ⟨before, raw, middle, rfl, hchoice, hname,
        fun first d hfirst => hlater first d (hfirst.trans (List.prefix_append ..))⟩
  · rintro ⟨before, raw, later, rfl, hchoice, hname, hlater⟩
    refine ⟨before, raw, later ++ [e], by simp, hchoice, hname, fun first d hfirst => ?_⟩
    rcases List.prefix_concat_iff.1 hfirst with hlast | hearlier
    · obtain ⟨rfl, hd⟩ := List.append_inj' hlast rfl
      cases hd
      exact h
    · exact hlater first d hearlier

/-- Where nobody has a cell selected at first, a client has selected what he chose last. -/
theorem selection_run (hs : s.selections = Table.empty) (es : List Event) (client : ClientId) (name : CellName) :
    (s.run es).selections.get? client = some name ↔ s.HasChosen es client name := by
  induction es using List.reverseRecOn with
  | nil =>
    show s.selections.get? client = some name ↔ _
    rw [hs]
    constructor
    · rintro ⟨⟩
    · rintro ⟨before, raw, later, hnil, -⟩
      exact absurd hnil.symm (List.append_ne_nil_of_right_ne_nil _ (List.cons_ne_nil _ _))
  | append_singleton es e ih =>
    rw [run_concat]
    by_cases h : (s.run es).Chooses client e
    · rw [selected_iff_of_chooses h, hasChosen_of_chooses h]
    · rw [selected_of_not_chooses h, hasChosen_of_not_chooses h, ih]

theorem isSelected_iff : s.isSelected client name = true ↔ s.selections.get? client = some name := beq_iff_eq

/-! ## Edits -/

variable {raw content : String}

/-- The selection is asked for before anything is said about the content. -/
theorem edit_of_not_selected (hname : CellName.parse? raw = some name) (hsel : s.isSelected client name = false) :
    s.edit client raw content = .error (.notSelected client name) := by
  unfold edit
  rw [readName_of_parse? hname]
  show (if (!s.isSelected client name) = true then _ else _) = _
  rw [hsel]
  rfl

theorem edit_of_selected (hname : CellName.parse? raw = some name) (hsel : s.isSelected client name = true)
    {e : SheetError} (h : s.edit client raw content = .error e) : e.kind ≠ .notSelected := by
  unfold edit at h
  rw [readName_of_parse? hname] at h
  change (if (!s.isSelected client name) = true then _ else _) = _ at h
  rw [hsel] at h
  rcases bind_eq_error h with hnorm | ⟨⟨stored, references⟩, -, h⟩
  · obtain ⟨f, rfl⟩ := error_of_normalize hnorm
    exact ErrorKind.noConfusion
  · rcases bind_eq_error h with hcycle | ⟨_, -, h⟩
    · cases error_of_checkAcyclic hcycle
      exact ErrorKind.noConfusion
    · cases h

end

/-! ## All runs -/

/-- Who may change what after these events. -/
structure Permits (start : Sheet) (es : List Event) : Prop where
  /-- An edit that changes a content is one of the cell that the client chose last, and of no other cell. -/
  changed : ∀ e x, ((start.run es).after e).content x ≠ (start.run es).content x →
    (∃ client raw, e = .request ⟨client, .revert raw⟩) ∨ (∃ client, e = .request ⟨client, .undo⟩) ∨
    ∃ client raw content name, e = .request ⟨client, .edit raw content⟩ ∧ CellName.parse? raw = some name ∧
      start.HasChosen es client name ∧
      ∀ y, y ≠ name → ((start.run es).after e).content y = (start.run es).content y
  refused : ∀ client raw content name, CellName.parse? raw = some name → ¬start.HasChosen es client name →
    (start.run es).apply ⟨client, .edit raw content⟩ =
      (.rejected (some name.text) (.notSelected client name), start.run es)
  allowed : ∀ client raw content name, CellName.parse? raw = some name → start.HasChosen es client name →
    ((start.run es).apply ⟨client, .edit raw content⟩).1.errorKind ≠ some .notSelected

theorem Consistent.permits {s : Sheet} (h : s.Consistent) (hs : s.selections = Table.empty) (es : List Event) :
    s.Permits es where
  changed e x hx := by
    rcases e with r | c | _
    · change ((s.run es).apply r).2.content x ≠ _ at hx
      rcases (s.run es).outcome_cases r with ⟨error, hr⟩ | ⟨c, raw, chosen, -, -, hr⟩ | ⟨u, s', hr, hw⟩
      · rw [hr] at hx
        exact absurd rfl hx
      · rw [hr] at hx
        exact absurd rfl hx
      · have hchange := hw.change
        rcases hw with ⟨hname, hsel, -, -⟩ | _ | _
        · refine .inr (.inr ⟨_, _, _, _, rfl, hname, (selection_run hs es _ _).1 (isSelected_iff.1 hsel), ?_⟩)
          intro y hy
          show ((s.run es).apply _).2.content y = _
          rw [hr, hchange.content, if_neg hy]
        · exact .inl ⟨_, _, rfl⟩
        · exact .inr (.inl ⟨_, rfl⟩)
    · exact absurd rfl hx
    · exact absurd ((run_keeps consistent_after h es).named.content_reopen x) hx
  refused client raw content name hname hnot := by
    rw [← selection_run hs, ← isSelected_iff, Bool.not_eq_true] at hnot
    have hedit : (s.run es).perform ⟨client, .edit raw content⟩ = .error (.notSelected client name) := by
      unfold perform
      dsimp only
      rw [edit_of_not_selected hname hnot]
      rfl
    rw [apply_of_error hedit]
    unfold Action.target?
    dsimp only
    rw [hname]
    rfl
  allowed client raw content name hname hchosen := by
    rw [← selection_run hs, ← isSelected_iff] at hchosen
    unfold apply perform
    dsimp only
    rcases hedit : (s.run es).edit client raw content with e | ⟨u, s'⟩
    · exact fun h => edit_of_selected hname hchosen hedit (Option.some.inj h)
    · intro h
      cases h

/-- At any time in the life of a sheet, new or restored, a content changes only by a revert, an undo, or the edit of the
cell that the client chose last; and an edit is refused for want of a selection exactly if that is another cell or
none. -/
theorem permits_run (policy : Policy) (record : Option SheetRecord) (es : List Event) :
    (opened policy record).Permits es := by
  rcases record with _ | r
  · exact (consistent_new policy).permits rfl es
  · exact (consistent_restore r policy).permits (selections_restore r policy) es

end SharedSheet.Sheet
