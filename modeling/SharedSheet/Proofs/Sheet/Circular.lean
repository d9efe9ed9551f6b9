/-
The decision about cycles is exact. An edit, a revert or an undo that nothing else speaks against is refused if and
only if the cell would reach itself by references, its own replaced by those of the content to come and all others
left as they are (`circular_run`). The search goes over the graph as it is, in which the cell still has its old
references and other cells may lie on cycles; `Consistent.wouldCycle_iff` says that it decides about the graph to come
all the same.
-/
import SharedSheet.Proofs.Sheet.Acyclic

namespace SharedSheet

open Relation

/-- A content that can be stored: a formula has to parse, and everything else is taken as it is. -/
def Readable (content : String) : Prop :=
  Formula.isFormulaText content.toList = true → ∃ f, Formula.parse content = .ok f

theorem Readable.exists_references {content : String} (h : Readable content) :
    ∃ references, contentReferences content = .ok references := by
  unfold contentReferences
  split
  · rename_i hformula
    obtain ⟨f, hf⟩ := h hformula
    exact ⟨f.references, by rw [hf]; rfl⟩
  · exact ⟨[], rfl⟩

namespace Sheet

/-- With the references of this content in place of its own, the cell would reach itself. -/
def ClosesCycle (s : Sheet) (name : CellName) (content : String) : Prop :=
  TransGen (Rewired s.RefersTo name (Names content)) name name

/-- Whether a request that would give a cell this content is refused depends on the cycle only. -/
structure Decided (s : Sheet) (name : CellName) (content : String) (result : Except SheetError (Outcome × Sheet)) :
    Prop where
  refused_iff : result = .error (.circularDependency name) ↔ s.ClosesCycle name content
  accepted_iff : (∃ o s', result = .ok (o, s')) ↔ ¬s.ClosesCycle name content

/-- All changes of content that pass the other checks are decided by the cycle that they would close. -/
structure DecidesCycles (s : Sheet) : Prop where
  edit : ∀ client raw content name, CellName.parse? raw = some name → s.isSelected client name = true →
    Readable content → s.Decided name content (s.perform ⟨client, .edit raw content⟩)
  revert : ∀ client raw name cell previous, CellName.parse? raw = some name → s.cells.get? name = some cell →
    cell.previous? = some previous → Readable previous → s.Decided name previous (s.perform ⟨client, .revert raw⟩)
  undo : ∀ client e, s.edits.peek? = some e → Readable e.prior →
    s.Decided e.cell e.prior (s.perform ⟨client, .undo⟩)

/-! ## The check comes last -/

section

variable {s : Sheet} {client : ClientId} {raw content : String} {name : CellName} {references : List CellName}

/-- A content that can be read can be stored, with the references that it has. -/
theorem exists_normalize (h : contentReferences content = .ok references) :
    ∃ stored, normalize content = .ok (stored, references) := by
  unfold contentReferences at h
  unfold normalize
  split at h
  · rename_i hformula
    obtain ⟨f, hf, rfl⟩ := map_eq_ok h
    exact ⟨f.text, by rw [if_pos hformula, hf]⟩
  · rename_i hformula
    cases h
    exact ⟨content, if_neg hformula⟩

theorem edit_eq_check (hname : CellName.parse? raw = some name) (hsel : s.isSelected client name = true)
    (hrefs : contentReferences content = .ok references) :
    ∃ done, s.edit client raw content = (s.checkAcyclic name references).map fun _ => done := by
  obtain ⟨stored, hnorm⟩ := exists_normalize hrefs
  unfold edit
  rw [readName_of_parse? hname, hnorm]
  show ∃ done, (if (!s.isSelected client name) = true then _ else _) = _
  rw [hsel]
  exact ⟨_, rfl⟩

theorem revert_eq_check {cell : Cell} {previous : String} (hname : CellName.parse? raw = some name)
    (hcell : s.cells.get? name = some cell) (hprevious : cell.previous? = some previous)
    (hrefs : contentReferences previous = .ok references) :
    ∃ done, s.revert raw = (s.checkAcyclic name references).map fun _ => done := by
  obtain ⟨stored, current, _ | ⟨newest, older⟩⟩ := cell
  · cases hprevious
  · cases hprevious
    unfold revert
    rw [readName_of_parse? hname]
    simp only [bind, Except.bind, hcell, Cell.revert?]
    rw [referencesOf_of_contentReferences hrefs]
    exact ⟨_, rfl⟩

theorem undo_eq_check {e : Edit} (hnewest : s.edits.peek? = some e)
    (hrefs : contentReferences e.prior = .ok references) :
    ∃ done, s.undo = (s.checkAcyclic e.cell references).map fun _ => done := by
  obtain ⟨older, hentries⟩ := List.head?_eq_some_iff.1 hnewest
  unfold undo EditLog.pop?
  rw [hentries]
  dsimp only
  rw [referencesOf_of_contentReferences hrefs]
  exact ⟨_, rfl⟩

/-- Where only the check is left, it decides. -/
theorem Consistent.decided (h : s.Consistent) (hrefs : contentReferences content = .ok references)
    {attempt : Except SheetError (CellUpdate × Sheet)} {done : CellUpdate × Sheet}
    (hattempt : attempt = (s.checkAcyclic name references).map fun _ => done) :
    s.Decided name content (attempt.map fun (u, s) => (.updated u, s)) := by
  have hiff : s.refs.wouldCycle name references = true ↔ s.ClosesCycle name content := h.wouldCycle_iff hrefs
  rw [hattempt]
  unfold checkAcyclic
  by_cases hcycle : s.refs.wouldCycle name references = true
  · rw [if_pos hcycle]
    have hcloses := hiff.1 hcycle
    exact ⟨⟨fun _ => hcloses, fun _ => rfl⟩, ⟨fun ⟨_, _, hok⟩ => (nomatch hok), fun hnot => absurd hcloses hnot⟩⟩
  · rw [if_neg hcycle]
    have hopen := mt hiff.2 hcycle
    exact ⟨⟨fun herror => (nomatch herror), fun hcloses => absurd hcloses hopen⟩,
      ⟨fun _ => hopen, fun _ => ⟨_, _, rfl⟩⟩⟩

/-! ## All requests -/

theorem Consistent.decidesCycles (h : s.Consistent) : s.DecidesCycles where
  edit client raw content name hname hsel hread := by
    obtain ⟨references, hrefs⟩ := hread.exists_references
    obtain ⟨done, hdone⟩ := edit_eq_check hname hsel hrefs
    exact h.decided hrefs hdone
  revert client raw name cell previous hname hcell hprevious hread := by
    obtain ⟨references, hrefs⟩ := hread.exists_references
    obtain ⟨done, hdone⟩ := revert_eq_check hname hcell hprevious hrefs
    exact h.decided hrefs hdone
  undo client e hnewest hread := by
    obtain ⟨references, hrefs⟩ := hread.exists_references
    obtain ⟨done, hdone⟩ := undo_eq_check hnewest hrefs
    exact h.decided hrefs hdone

end

/-- At any time in the life of a sheet, restored from whatever record, an edit of a selected cell, a revert and an undo
whose contents can be read are refused for a cycle exactly if the cell would reach itself with the new references, and
else they succeed. -/
theorem circular_run (policy : Policy) (record : Option SheetRecord) (es : List Event) :
    ((opened policy record).run es).DecidesCycles :=
  (consistent_run policy record es).decidesCycles

end Sheet

end SharedSheet
