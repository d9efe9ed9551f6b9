/-
Spelling does not matter. The name of a cell may come in either case and with blanks around it, and a formula with
anything in it that the scanner passes over. All checks, the store, the log, the selections and the messages work with
the name and the formula that were read, so a request in another spelling has the same answer and leaves the same sheet
(`Respelled.respond_eq`), and two runs that differ in spelling only cannot be told apart at any point (`respelled_run`).
Every event has a canonical spelling, which stands for all of them (`course_canonical`).
-/
import SharedSheet.Proofs.Formula.Canonical
import SharedSheet.Proofs.Sheet.Run

namespace SharedSheet

/-! ## Spellings -/

/-- The same text, or the same name of a cell in two spellings. -/
def SameName (raw raw' : String) : Prop :=
  raw = raw' ∨ ∃ name, CellName.parse? raw = some name ∧ CellName.parse? raw' = some name

/-- The same text, or two formula texts with the same tokens. -/
def SameContent (content content' : String) : Prop :=
  content = content' ∨ ∃ body body', content.toList = '=' :: body ∧ content'.toList = '=' :: body' ∧
    Formula.tokenize body = Formula.tokenize body'

section

variable {raw raw' content content' : String}

theorem SameName.parse?_eq (h : SameName raw raw') : CellName.parse? raw = CellName.parse? raw' := by
  rcases h with rfl | ⟨name, h, h'⟩
  · rfl
  · rw [h, h']

theorem SameName.readName_eq (h : SameName raw raw') : Sheet.readName raw = Sheet.readName raw' := by
  rcases h with rfl | ⟨name, h, h'⟩
  · rfl
  · rw [Sheet.readName_of_parse? h, Sheet.readName_of_parse? h']

/-- A refusal names the cell that was meant, not the text that was given for it. -/
theorem SameName.target_eq (h : SameName raw raw') :
    ((CellName.parse? raw).map CellName.text).getD raw = ((CellName.parse? raw').map CellName.text).getD raw' := by
  rcases h with rfl | ⟨name, h, h'⟩
  · rfl
  · rw [h, h']
    rfl

theorem SameContent.parse_eq (h : SameContent content content') : Formula.parse content = Formula.parse content' := by
  rcases h with rfl | ⟨body, body', hbody, hbody', htokens⟩
  · rfl
  · unfold Formula.parse Formula.parseChars
    simp only [hbody, hbody', htokens]

theorem SameContent.normalize_eq (h : SameContent content content') :
    Sheet.normalize content = Sheet.normalize content' := by
  have hparse := h.parse_eq
  rcases h with rfl | ⟨body, body', hbody, hbody', -⟩
  · rfl
  · unfold Sheet.normalize
    rw [hbody, hbody', hparse]
    rfl

end

namespace Sheet

/-- The same event, but for the spelling of names and formulas. -/
inductive Respelled : Event → Event → Prop
  | select {client : ClientId} {raw raw' : String} (named : SameName raw raw') :
      Respelled (.request ⟨client, .select raw⟩) (.request ⟨client, .select raw'⟩)
  | edit {client : ClientId} {raw raw' content content' : String} (named : SameName raw raw')
      (written : SameContent content content') :
      Respelled (.request ⟨client, .edit raw content⟩) (.request ⟨client, .edit raw' content'⟩)
  | revert {client : ClientId} {raw raw' : String} (named : SameName raw raw') :
      Respelled (.request ⟨client, .revert raw⟩) (.request ⟨client, .revert raw'⟩)
  | undo {client : ClientId} : Respelled (.request ⟨client, .undo⟩) (.request ⟨client, .undo⟩)
  | deselect {client : ClientId} : Respelled (.deselect client) (.deselect client)
  | reopen : Respelled .reopen .reopen

/-! ## What is answered -/

/-- The answer to an event, if it is a request, and the sheet after it. -/
def respond (s : Sheet) : Event → Option Outcome × Sheet
  | .request r => (some (s.apply r).1, (s.apply r).2)
  | .deselect client => (none, s.deselect client)
  | .reopen => (none, s.reopen)

/-- The answers in the course of a run, each with the sheet at that time. -/
def course (s : Sheet) : List Event → List (Option Outcome × Sheet)
  | [] => []
  | e :: es => s.respond e :: (s.after e).course es

theorem snd_respond (s : Sheet) (e : Event) : (s.respond e).2 = s.after e := by
  rcases e with r | client | _
  · rfl
  · rfl
  · rfl

variable {e e' : Event} {es es' : List Event}

/-- The spelling of a request changes neither the answer nor what becomes of the sheet. -/
theorem Respelled.respond_eq (h : Respelled e e') (s : Sheet) : s.respond e = s.respond e' := by
  unfold respond Sheet.apply perform Action.target?
  -- the text of a name goes into its reading and into what a refusal is aimed at, and nowhere else
  rcases h with hname | ⟨hname, hcontent⟩ | hname | _ | _ | _
  · unfold Sheet.select
    dsimp only
    rw [hname.readName_eq, hname.target_eq]
  · unfold Sheet.edit
    dsimp only
    rw [hname.readName_eq, hname.target_eq, hcontent.normalize_eq]
  · unfold Sheet.revert
    dsimp only
    rw [hname.readName_eq, hname.target_eq]
  · rfl
  · rfl
  · rfl

theorem Respelled.after_eq (h : Respelled e e') (s : Sheet) : s.after e = s.after e' := by
  rw [← snd_respond, ← snd_respond, h.respond_eq]

theorem course_congr (h : List.Forall₂ Respelled es es') (s : Sheet) : s.course es = s.course es' := by
  induction h generalizing s with
  | nil => rfl
  | cons he _ ih =>
    unfold course
    rw [he.respond_eq, he.after_eq, ih]

theorem run_congr (h : List.Forall₂ Respelled es es') (s : Sheet) : s.run es = s.run es' := by
  induction h generalizing s with
  | nil => rfl
  | cons he _ ih => rw [run_cons, run_cons, he.after_eq, ih]

/-! ## Canonical spellings -/

/-- The normalised name, if the text is the name of a cell. -/
def canonicalName (raw : String) : String := ((CellName.parse? raw).map CellName.text).getD raw

/-- The canonical text of the formula, if the text is a formula that parses. -/
def canonicalContent (content : String) : String := ((Formula.parse content).toOption.map Formula.text).getD content

/-- The event in its canonical spelling. -/
def canonical : Event → Event
  | .request ⟨client, .select raw⟩ => .request ⟨client, .select (canonicalName raw)⟩
  | .request ⟨client, .edit raw content⟩ => .request ⟨client, .edit (canonicalName raw) (canonicalContent content)⟩
  | .request ⟨client, .revert raw⟩ => .request ⟨client, .revert (canonicalName raw)⟩
  | .request ⟨client, .undo⟩ => .request ⟨client, .undo⟩
  | .deselect client => .deselect client
  | .reopen => .reopen

theorem sameName_canonicalName (raw : String) : SameName raw (canonicalName raw) := by
  unfold canonicalName
  rcases h : CellName.parse? raw with _ | name
  · exact .inl rfl
  · exact .inr ⟨name, h, name.parse?_text⟩

theorem sameContent_canonicalContent (content : String) : SameContent content (canonicalContent content) := by
  unfold canonicalContent
  rcases h : Formula.parse content with e | f
  · exact .inl rfl
  · -- both texts parse to this formula, so both have its tokens
    obtain ⟨body, hbody, htokens⟩ := Formula.parseChars_eq_ok (Formula.parse_eq_ok h)
    obtain ⟨body', hbody', htokens'⟩ := Formula.parseChars_eq_ok (Formula.parse_eq_ok (Formula.parse_text h))
    exact .inr ⟨body, body', hbody, hbody', htokens.trans htokens'.symm⟩

theorem respelled_canonical (e : Event) : Respelled e (canonical e) := by
  rcases e with ⟨client, raw | ⟨raw, content⟩ | raw | _⟩ | client | _
  · exact .select (sameName_canonicalName raw)
  · exact .edit (sameName_canonicalName raw) (sameContent_canonicalContent content)
  · exact .revert (sameName_canonicalName raw)
  · exact .undo
  · exact .deselect
  · exact .reopen

/-- A run takes the course of the one in which everything is spelled canonically. -/
theorem course_canonical (s : Sheet) (es : List Event) : s.course (es.map canonical) = s.course es := by
  have h : List.Forall₂ Respelled es (es.map canonical) :=
    List.forall₂_map_right_iff.2 (List.forall₂_same.2 fun e _ => respelled_canonical e)
  exact (course_congr h s).symm

example : canonical (.request ⟨1, .edit "\ta1" "= b2 -? x Cc3"⟩) = .request ⟨1, .edit "A1" "=B2-CC3"⟩ := by cbv

/-! ## All runs -/

/-- Two runs from the same sheet that differ only in how names and formulas are spelled have the same answers, with the
same cells, contents and messages, and the same sheet after every single event. In the end the cells around a cell are
the same, too, by whatever spelling they are asked for. -/
theorem respelled_run (s : Sheet) (h : List.Forall₂ Respelled es es') :
    s.course es = s.course es' ∧ s.run es = s.run es' ∧
      ∀ raw raw', SameName raw raw' → (s.run es).dependents raw = (s.run es').dependents raw' ∧
        (s.run es).dependees raw = (s.run es').dependees raw' := by
  have hrun := run_congr h s
  refine ⟨course_congr h s, hrun, fun raw raw' hname => ?_⟩
  unfold dependents dependees
  rw [hrun, hname.parse?_eq]
  exact ⟨rfl, rfl⟩

/-- A cycle is found, whatever spelling hides it, and the second client is told of the same cell. -/
theorem respelled_run_cycle :
    let es : List Event := [.request ⟨1, .select "A1"⟩, .request ⟨1, .edit "A1" "=B2-CC3"⟩, .request ⟨2, .select "B2"⟩,
      .request ⟨2, .edit "B2" "=A1"⟩, .deselect 1, .request ⟨2, .undo⟩]
    let es' : List Event := [.request ⟨1, .select " a1"⟩, .request ⟨1, .edit "a1 " "= b2 -? x Cc3"⟩,
      .request ⟨2, .select "\tb2"⟩, .request ⟨2, .edit "B2" "=_a1 "⟩, .deselect 1, .request ⟨2, .undo⟩]
    List.Forall₂ Respelled es es' ∧ (new .unbounded).course es = (new .unbounded).course es' ∧
      (new .unbounded).run es = (new .unbounded).run es' ∧
      ∀ raw raw', SameName raw raw' →
        ((new .unbounded).run es).dependents raw = ((new .unbounded).run es').dependents raw' ∧
          ((new .unbounded).run es).dependees raw = ((new .unbounded).run es').dependees raw' := by
  intro es es'
  let a : CellName := ⟨"A1", by decide⟩
  let b : CellName := ⟨"B2", by decide⟩
  have hselect : SameName "A1" " a1" := .inr ⟨a, by dsimp only [a]; cbv, by dsimp only [a]; cbv⟩
  have hedit : SameName "A1" "a1 " := .inr ⟨a, by dsimp only [a]; cbv, by dsimp only [a]; cbv⟩
  have hother : SameName "B2" "\tb2" := .inr ⟨b, by dsimp only [b]; cbv, by dsimp only [b]; cbv⟩
  have hformula : SameContent "=B2-CC3" "= b2 -? x Cc3" :=
    .inr ⟨"B2-CC3".toList, " b2 -? x Cc3".toList, by cbv, by cbv, by cbv⟩
  have hcycle : SameContent "=A1" "=_a1 " := .inr ⟨"A1".toList, "_a1 ".toList, by cbv, by cbv, by cbv⟩
  have h : List.Forall₂ Respelled es es' :=
    .cons (.select hselect) (.cons (.edit hedit hformula) (.cons (.select hother)
      (.cons (.edit (.inl rfl) hcycle) (.cons .deselect (.cons .undo .nil)))))
  exact ⟨h, respelled_run _ h⟩

end Sheet

end SharedSheet
