/-
Stored texts. Contents, histories and the log pass texts on to each other, and the only new text that ever comes in is
the normal form of an edit (`Write.stores`). So every formula that a sheet stores is its own canonical text, and nothing
that reads a stored text again finds it unreadable (`normal_run`).
-/
import SharedSheet.Proofs.Formula.Evaluation
import SharedSheet.Proofs.Sheet.Restore
import SharedSheet.Sheet.Value

namespace SharedSheet

/-! ## Normal contents -/

/-- A content in its stored form: no formula, or the canonical text of one. -/
def IsNormal (content : String) : Prop :=
  Formula.isFormulaText content.toList = true → ∃ f, Formula.parse content = .ok f ∧ f.text = content

theorem isNormal_empty : IsNormal "" := by
  intro h
  cases h

/-- What an edit stores is normal. -/
theorem isNormal_normalize {content stored : String} {references : List CellName}
    (h : Sheet.normalize content = .ok (stored, references)) : IsNormal stored := by
  unfold Sheet.normalize at h
  split at h
  · rcases hp : Formula.parse content with e | f
    · rw [hp] at h
      cases h
    · rw [hp] at h
      cases h
      exact fun _ => ⟨f, Formula.parse_text hp, rfl⟩
  · rename_i hn
    cases h
    exact fun hf => absurd hf hn

/-- The references of a normal content can be read. -/
theorem IsNormal.exists_references {content : String} (h : IsNormal content) :
    ∃ references, Sheet.referencesOf content = .ok references := by
  unfold Sheet.referencesOf contentReferences
  split
  · rename_i hf
    obtain ⟨f, hp, -⟩ := h hf
    rw [hp]
    exact ⟨_, rfl⟩
  · exact ⟨_, rfl⟩

/-- A normal content is a literal or a formula. -/
theorem IsNormal.read_ne_broken {content : String} (h : IsNormal content) (e : FormulaError) :
    Content.read content ≠ .broken e := by
  unfold Content.read
  split
  · rename_i hf
    obtain ⟨f, hp, -⟩ := h hf
    rw [hp]
    intro h
    cases h
  · intro h
    cases h

namespace Sheet

/-! ## Where texts are stored -/

/-- The texts that a sheet stores: the contents of its cells, their histories, and the contents in its log. -/
inductive Stores (s : Sheet) : String → Prop
  | content {name : CellName} {cell : Cell} (found : s.cells.get? name = some cell) : Stores s cell.content
  | history {name : CellName} {cell : Cell} {prior : String} (found : s.cells.get? name = some cell)
      (old : prior ∈ cell.history) : Stores s prior
  | edit {e : Edit} (logged : e ∈ s.edits.entries) : Stores s e.prior

variable {s s' : Sheet} {u : CellUpdate} {text : String}

theorem mem_of_mem_keep {α : Type} {cap : Option ℕ} {l : List α} {x : α} (h : x ∈ keep cap l) : x ∈ l := by
  rcases cap with _ | n
  · exact h
  · exact List.mem_of_mem_take h

/-- A content is stored, or there is no cell. -/
theorem stores_content_or_empty (s : Sheet) (name : CellName) :
    s.Stores (s.content name) ∨ s.content name = "" := by
  unfold Sheet.content
  split
  · rename_i cell hcell
    exact .inl (.content hcell)
  · exact .inr rfl

/-- Selections store nothing. -/
theorem Stores.of_selections {selections : Table ClientId CellName} (h : Stores { s with selections } text) :
    s.Stores text := by
  rcases h with hfound | ⟨hfound, hold⟩ | hlogged
  · exact .content hfound
  · exact .history hfound hold
  · exact .edit hlogged

/-- The history of a cell that is written consists of texts that were stored before. -/
theorem stores_of_mem_written {name : CellName} {content : String} (h : text ∈ (s.written name content).history) :
    s.Stores text := by
  unfold written at h
  split at h
  · rename_i cell hcell
    rcases List.mem_cons.1 (mem_of_mem_keep h) with rfl | hold
    · exact .content hcell
    · exact .history hcell hold
  · cases h

/-- What is stored after a cell and a log have been put in place. -/
theorem stores_store {name : CellName} {cell : Cell} {references : List CellName} {log : EditLog Edit}
    (h : Stores { s.store name cell references with edits := log } text) :
    s.Stores text ∨ text = cell.content ∨ text ∈ cell.history ∨ ∃ e ∈ log.entries, e.prior = text := by
  have hcells : ∀ x c, (s.store name cell references).cells.get? x = some c → c = cell ∨ s.cells.get? x = some c := by
    intro x c hx
    rw [get?_store] at hx
    split at hx
    · split at hx
      · cases hx
      · cases hx
        exact .inl rfl
    · exact .inr hx
  rcases h with hfound | ⟨hfound, hold⟩ | hlogged
  · rcases hcells _ _ hfound with rfl | hfound
    · exact .inr (.inl rfl)
    · exact .inl (.content hfound)
  · rcases hcells _ _ hfound with rfl | hfound
    · exact .inr (.inr (.inl hold))
    · exact .inl (.history hfound hold)
  · exact .inr (.inr (.inr ⟨_, hlogged, rfl⟩))

/-- A change is logged with the content before it, which was stored unless there was no cell. -/
theorem stores_push {name : CellName} {e : Edit} (h : e ∈ (s.edits.push ⟨name, s.content name⟩).entries) :
    s.Stores e.prior ∨ IsNormal e.prior := by
  rcases List.mem_cons.1 (mem_of_mem_keep h) with rfl | hlogged
  · refine (s.stores_content_or_empty name).imp_right fun hempty => ?_
    rw [hempty]
    exact isNormal_empty
  · exact .inl (.edit hlogged)

theorem of_revert? {cell reverted : Cell} (h : cell.revert? = some reverted) :
    reverted.content ∈ cell.history ∧ ∀ prior ∈ reverted.history, prior = cell.content ∨ prior ∈ cell.history := by
  obtain ⟨-, older, hold, hnew⟩ := Cell.revert?_eq_some_iff.1 h
  rw [hold, hnew]
  exact ⟨List.mem_cons_self, fun prior hp => (List.mem_cons.1 hp).imp_right (List.mem_cons_of_mem _)⟩

/-- An accepted change stores what was stored before, the empty text, or the normal form of what a client wrote. -/
theorem Write.stores {r : Request} (h : Write s r u s') (ht : s'.Stores text) : s.Stores text ∨ IsNormal text := by
  rcases h with ⟨-, -, hnorm, -⟩ | ⟨-, hfound, hback, -, -⟩ | ⟨hnewest, -, -⟩
  · rcases stores_store ht with hold | rfl | hhistory | ⟨e, he, rfl⟩
    · exact .inl hold
    · rw [content_written]
      exact .inr (isNormal_normalize hnorm)
    · exact .inl (stores_of_mem_written hhistory)
    · exact stores_push he
  · obtain ⟨hcontent, hhistory⟩ := of_revert? hback
    rcases stores_store ht with hold | rfl | hmem | ⟨e, he, rfl⟩
    · exact .inl hold
    · exact .inl (.history hfound hcontent)
    · rcases hhistory _ hmem with rfl | hmem
      · exact .inl (.content hfound)
      · exact .inl (.history hfound hmem)
    · exact stores_push he
  · obtain ⟨edits, hentries, rfl⟩ := pop?_eq_some hnewest
    have hlogged : ∀ e ∈ edits, e ∈ s.edits.entries := fun e he => hentries ▸ List.mem_cons_of_mem _ he
    rcases stores_store ht with hold | rfl | hhistory | ⟨e, he, rfl⟩
    · exact .inl hold
    · rw [content_written]
      exact .inl (.edit (hentries ▸ List.mem_cons_self))
    · exact .inl (stores_of_mem_written hhistory)
    · exact .inl (.edit (hlogged e he))

/-! ## Every stored text is normal -/

/-- A sheet of which all stored texts are normal, and that loses none of them when it is reopened. -/
structure Normal (s : Sheet) : Prop where
  consistent : s.Consistent
  retained : s.Retained
  texts : ∀ text, s.Stores text → IsNormal text

theorem normal_new (policy : Policy) : (new policy).Normal where
  consistent := consistent_new policy
  retained := retained_new policy
  texts text h := by
    rcases h with hfound | ⟨hfound, -⟩ | hlogged
    · cases hfound
    · cases hfound
    · cases hlogged

theorem normal_after (s : Sheet) (e : Event) (h : s.Normal) : (s.after e).Normal := by
  refine ⟨consistent_after s e h.consistent, retained_after s e h.retained, fun text ht => ?_⟩
  rcases e with r | client | _
  · change (s.apply r).2.Stores text at ht
    rcases s.outcome_cases r with ⟨e, hr⟩ | ⟨client, raw, name, -, -, hr⟩ | ⟨u, s', hr, hw⟩
    · rw [hr] at ht
      exact h.texts text ht
    · rw [hr] at ht
      exact h.texts text ht.of_selections
    · rw [hr] at ht
      exact (hw.stores ht).elim (h.texts text) id
  · exact h.texts text ht.of_selections
  · change s.reopen.Stores text at ht
    rw [reopen_eq h.consistent h.retained] at ht
    exact h.texts text ht.of_selections

/-! ## Reading stored texts -/

/-- A change to a content that is stored is not refused for this content. -/
theorem Normal.referencesOf_ne_error (h : s.Normal) {content : String} (hstored : s.Stores content) (e : SheetError) :
    referencesOf content ≠ .error e := by
  obtain ⟨references, hrefs⟩ := (h.texts content hstored).exists_references
  rw [hrefs]
  intro h
  cases h

theorem Normal.revert_ne_invalidContent (h : s.Normal) (raw : String) (e : FormulaError) :
    s.revert raw ≠ .error (.invalidContent e) := by
  intro hr
  unfold revert at hr
  rcases bind_eq_error hr with hname | ⟨name, -, hr⟩
  · cases error_of_readName hname
  · split at hr
    · cases hr
    · rename_i cell hcell
      split at hr
      · cases hr
      · rename_i reverted hback
        rcases bind_eq_error hr with hread | ⟨references, -, hr⟩
        · exact h.referencesOf_ne_error (.history hcell (of_revert? hback).1) _ hread
        · rcases bind_eq_error hr with hcycle | ⟨_, -, hr⟩
          · cases error_of_checkAcyclic hcycle
          · cases hr

theorem Normal.undo_ne_invalidContent (h : s.Normal) (e : FormulaError) : s.undo ≠ .error (.invalidContent e) := by
  intro hu
  unfold undo at hu
  split at hu
  · cases hu
  · rename_i newest older hpop
    obtain ⟨edits, hentries, -⟩ := pop?_eq_some hpop
    rcases bind_eq_error hu with hread | ⟨references, -, hu⟩
    · exact h.referencesOf_ne_error (.edit (hentries ▸ List.mem_cons_self)) _ hread
    · rcases bind_eq_error hu with hcycle | ⟨_, -, hu⟩
      · cases error_of_checkAcyclic hcycle
      · cases hu

theorem Normal.isNormal_content (h : s.Normal) (name : CellName) : IsNormal (s.content name) := by
  rcases s.stores_content_or_empty name with hstored | hempty
  · exact h.texts _ hstored
  · rw [hempty]
    exact isNormal_empty

theorem Normal.value_ne_parse (h : s.Normal) (raw : String) (e : Formula.ParseError) :
    s.value raw ≠ .error (.formula (.parse e)) := by
  intro hv
  unfold value at hv
  rcases bind_eq_error hv with hname | ⟨name, -, hv⟩
  · cases error_of_readName hname
  · unfold valueOf at hv
    split at hv
    · cases hv
    · rename_i broken hread
      exact (h.isNormal_content name).read_ne_broken broken hread
    · rename_i f hread
      dsimp only at hv
      rcases hvalue : f.value fun r => ((s.numericValues f.references).get? r).join with fault | x
      · rw [hvalue] at hv
        cases hv
        exact Formula.value_ne_parse hvalue
      · rw [hvalue] at hv
        cases hv

/-- In every sheet that began empty, whatever happened to it, each stored text that is a formula parses and is the
canonical text of what it says. So a revert or an undo is never refused for the content that it brings back, and the
value of a cell is never that it cannot be read. -/
theorem normal_run (policy : Policy) (es : List Event) :
    (∀ text, ((new policy).run es).Stores text → Formula.isFormulaText text.toList = true →
      ∃ f, Formula.parse text = .ok f ∧ f.text = text) ∧
    (∀ raw e, ((new policy).run es).revert raw ≠ .error (.invalidContent e)) ∧
    (∀ e, ((new policy).run es).undo ≠ .error (.invalidContent e)) ∧
    ∀ raw e, ((new policy).run es).value raw ≠ .error (.formula (.parse e)) := by
  have h : ((new policy).run es).Normal := run_keeps normal_after (normal_new policy) es
  exact ⟨h.texts, h.revert_ne_invalidContent, h.undo_ne_invalidContent, h.value_ne_parse⟩

-- a history that holds a formula brings it back, through a reopening and an undo
example : ((new .unbounded).run [.request ⟨1, .select "a1"⟩, .request ⟨1, .edit "A1" "= b2 -Cc3"⟩,
    .request ⟨1, .edit "A1" "=D4"⟩, .reopen, .request ⟨2, .undo⟩]).record =
      ⟨[⟨"A1", "=B2-CC3", ["=D4", "=B2-CC3"]⟩], [⟨"A1", ""⟩]⟩ := by cbv

end Sheet

end SharedSheet
