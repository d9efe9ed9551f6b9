/-
What a sheet without a cap on histories never loses. The texts of a cell, its content and its history, are counted in a
bag that leaves out the empty ones. An edit or an undo adds one text to the bag of its cell, a revert swaps two of them
and changes no bag, and the cells that are taken away are those with empty bags (`Cell.isDead_iff`). So the bags keep
account of all that was ever written (`bag_run`), and no text leaves its cell again (`losesNothing_run`).
-/
import Mathlib.Data.Multiset.Filter
import SharedSheet.Proofs.Sheet.Restore

namespace SharedSheet

/-! ## Bags of texts -/

/-- The texts of a list that are not empty, each as often as it stands there. -/
def bag (texts : List String) : Multiset String := (texts : Multiset String).filter (· ≠ "")

theorem mem_bag {texts : List String} {text : String} : text ∈ bag texts ↔ text ∈ texts ∧ text ≠ "" := by simp [bag]

theorem bag_append (texts texts' : List String) : bag (texts ++ texts') = bag texts + bag texts' := by
  unfold bag
  rw [← Multiset.coe_add, Multiset.filter_add]

theorem bag_perm {texts texts' : List String} (h : texts.Perm texts') : bag texts = bag texts' :=
  congrArg (Multiset.filter _) (Multiset.coe_eq_coe.2 h)

theorem bag_eq_zero_iff {texts : List String} : bag texts = 0 ↔ ∀ text ∈ texts, text = "" := by
  simp [Multiset.eq_zero_iff_forall_notMem, mem_bag]

namespace Cell

/-- The content of a cell and what it was before. -/
def texts (c : Cell) : List String := c.content :: c.history

variable {c reverted : Cell}

/-- What is taken away with a dead cell are empty texts. -/
theorem isDead_iff : c.isDead = true ↔ bag c.texts = 0 := by
  rw [bag_eq_zero_iff]
  simp [isDead, texts]

/-- Without a cap, the old content goes into the history and nothing falls out of it. -/
theorem bag_set (c : Cell) (content : String) : bag (c.set content none).texts = bag c.texts + bag [content] := by
  show bag ([content] ++ c.texts) = _
  rw [bag_append, add_comm]

theorem bag_revert? (h : c.revert? = some reverted) : bag reverted.texts = bag c.texts := by
  obtain ⟨-, older, hold, hnew⟩ := revert?_eq_some_iff.1 h
  unfold texts
  rw [hold, hnew]
  exact bag_perm (.swap ..)

end Cell

/-- What an action adds to the texts of a cell when it gives the cell this content. A revert adds nothing, as the
content was in the history. -/
def Action.adds (content : String) : Action → List String
  | .revert _ => []
  | .select _ | .edit _ _ | .undo => [content]

namespace Sheet

/-- The texts that a sheet holds under a name. -/
def texts (s : Sheet) (x : CellName) : List String := ((s.cells.get? x).map Cell.texts).getD []

/-- What an event adds to the texts of a cell, by what is answered to it. -/
def added (s : Sheet) (x : CellName) : Event → List String
  | .request r =>
    if (s.apply r).1.affectedCell = some x.text then (s.apply r).1.newContent.elim [] r.action.adds else []
  | .deselect _ | .reopen => []

/-- What a sequence of events adds to the texts of a cell. -/
def addedBy (s : Sheet) (x : CellName) : List Event → List String
  | [] => []
  | e :: es => s.added x e ++ (s.after e).addedBy x es

variable {s s' : Sheet} {u : CellUpdate} {r : Request}

theorem texts_of_get? {x : CellName} {cell : Cell} (h : s.cells.get? x = some cell) : s.texts x = cell.texts := by
  unfold texts
  rw [h]
  rfl

theorem content_mem_texts {x : CellName} (h : s.content x ≠ "") : s.content x ∈ s.texts x := by
  unfold content texts at *
  rcases hx : s.cells.get? x with _ | cell
  · rw [hx] at h
    exact absurd rfl h
  · exact List.mem_cons_self

/-! ## Changes -/

/-- Whether the cell is put in place or found dead, the bag under its name is its own. -/
theorem bag_store {name : CellName} {cell : Cell} {new : Multiset String}
    (h : bag cell.texts = bag (s.texts name) + new) (references : List CellName) (x : CellName) :
    bag ((s.store name cell references).texts x) = bag (s.texts x) + if x = name then new else 0 := by
  by_cases hx : x = name
  · subst x
    rw [if_pos rfl, ← h]
    unfold texts
    rw [get?_store, if_pos rfl]
    split
    · -- a dead cell is gone, and its bag was empty
      rename_i hdead
      exact (Cell.isDead_iff.1 hdead).symm
    · rfl
  · unfold texts
    rw [get?_store, if_neg hx, if_neg hx, add_zero]

theorem bag_written (hcap : s.policy.maxCellHistory = none) (name : CellName) (content : String) :
    bag (s.written name content).texts = bag (s.texts name) + bag [content] := by
  unfold written texts
  rcases s.cells.get? name with _ | cell
  · exact (zero_add _).symm
  · dsimp only
    rw [hcap]
    exact cell.bag_set content

/-- An accepted change adds the content that it reports to the texts of its cell, unless it is a revert. -/
theorem Write.bag_eq (h : Write s r u s') (hcap : s.policy.maxCellHistory = none) (x : CellName) :
    bag (s'.texts x) = bag (s.texts x) + if x = u.cell then bag (r.action.adds u.content) else 0 := by
  rcases h with _ | ⟨-, hfound, hback, -, -⟩ | _
  · exact bag_store (bag_written hcap ..) ‹_› x
  · have hswap := Cell.bag_revert? hback
    rw [← texts_of_get? hfound] at hswap
    exact bag_store (hswap.trans (add_zero _).symm) ‹_› x
  · exact bag_store (bag_written hcap ..) ‹_› x

theorem added_of_updated (h : (s.apply r).1 = .updated u) (x : CellName) :
    s.added x (.request r) = if x = u.cell then r.action.adds u.content else [] := by
  have hcell : u.cell.text = x.text ↔ x = u.cell := ⟨fun ht => CellName.ext ht.symm, fun hx => hx ▸ rfl⟩
  simp [added, h, Outcome.updated, hcell]

theorem added_of_none (h : (s.apply r).1.newContent = none) (x : CellName) : s.added x (.request r) = [] := by
  simp [added, h]

/-! ## Events -/

/-- A sheet that keeps its histories for good, also when it is reopened. -/
structure Uncapped (s : Sheet) : Prop where
  consistent : s.Consistent
  retained : s.Retained
  uncapped : s.policy.maxCellHistory = none

theorem uncapped_after (s : Sheet) (e : Event) (h : s.Uncapped) : (s.after e).Uncapped where
  consistent := consistent_after s e h.consistent
  retained := retained_after s e h.retained
  uncapped := by
    rw [policy_after]
    exact h.uncapped

theorem uncapped_run (maxEdits : Option ℕ) (record : Option SheetRecord) (es : List Event) :
    ((opened ⟨none, maxEdits⟩ record).run es).Uncapped where
  consistent := consistent_run _ record es
  retained := retained_run _ record es
  uncapped := by rw [policy_run, policy_opened]

/-- An event adds to the texts of each cell what its answer says. -/
theorem bag_after (h : s.Uncapped) (e : Event) (x : CellName) :
    bag ((s.after e).texts x) = bag (s.texts x) + bag (s.added x e) := by
  rcases e with r | client | _
  · show bag ((s.apply r).2.texts x) = _
    rcases s.outcome_cases r with ⟨error, hr⟩ | ⟨client, raw, name, -, -, hr⟩ | ⟨u, s', hr, hw⟩
    · rw [added_of_none (by rw [hr]; rfl), hr]
      exact (add_zero _).symm
    · rw [added_of_none (by rw [hr]; rfl), hr]
      exact (add_zero _).symm
    · rw [added_of_updated (congrArg Prod.fst hr), hr, hw.bag_eq h.uncapped]
      split
      · rfl
      · rfl
  · exact (add_zero _).symm
  · -- the record holds all histories, as none is cut
    have hreopen : s.reopen.texts x = s.texts x := by
      unfold texts
      rw [cells_reopen h.consistent h.retained]
    show bag (s.reopen.texts x) = _
    rw [hreopen]
    exact (add_zero _).symm

/-- The account of a run: each cell holds what it held at first, and what the events have added to it. -/
theorem bag_run (h : s.Uncapped) (es : List Event) (x : CellName) :
    bag ((s.run es).texts x) = bag (s.texts x) + bag (s.addedBy x es) := by
  induction es generalizing s with
  | nil => exact (add_zero _).symm
  | cons e es ih =>
    calc
      bag ((s.run (e :: es)).texts x) = bag ((s.after e).texts x) + bag ((s.after e).addedBy x es) :=
        ih (uncapped_after s e h)
      _ = bag (s.texts x) + bag (s.addedBy x (e :: es)) := by
        rw [bag_after h, add_assoc, ← bag_append]
        rfl

/-! ## All runs -/

/-- Unless it is refused, the request gives a cell a content and adds this content to the texts of this cell alone. -/
def AddsText (s : Sheet) (r : Request) : Prop :=
  (s.apply r).1.success = true → ∃ u s', s.apply r = (.updated u, s') ∧ s'.content u.cell = u.content ∧
    bag (s'.texts u.cell) = bag (s.texts u.cell) + bag [u.content] ∧
    ∀ x, x ≠ u.cell → bag (s'.texts x) = bag (s.texts x)

/-- What becomes of the texts of all cells. Empty texts do not count. -/
structure LosesNothing (s : Sheet) : Prop where
  edit : ∀ client raw content, s.AddsText ⟨client, .edit raw content⟩
  undo : ∀ client, s.AddsText ⟨client, .undo⟩
  revert : ∀ client raw, (s.apply ⟨client, .revert raw⟩).1.success = true →
    ∃ u s', s.apply ⟨client, .revert raw⟩ = (.updated u, s') ∧ s'.content u.cell = u.content ∧
      ∀ x, bag (s'.texts x) = bag (s.texts x)
  /-- Selections, clients that leave, reopening and refused requests touch no text. -/
  others : ∀ e, (∀ r, e = .request r → (s.apply r).1.newContent = none) →
    ∀ x, bag ((s.after e).texts x) = bag (s.texts x)
  account : ∀ es x, bag ((s.run es).texts x) = bag (s.texts x) + bag (s.addedBy x es)
  /-- Whatever a cell shows stays its content or in its history. -/
  lasting : ∀ es x, s.content x ≠ "" → s.content x ∈ (s.run es).texts x

theorem Uncapped.addsText (h : s.Uncapped) (hselect : ∀ raw, r.action ≠ .select raw)
    (hadds : ∀ content, r.action.adds content = [content]) : s.AddsText r := by
  intro hsuccess
  obtain ⟨u, ho, hw⟩ := write_of_success hsuccess hselect
  refine ⟨u, (s.apply r).2, Prod.ext ho rfl, by simp [hw.change.content], ?_, fun x hx => ?_⟩
  · rw [hw.bag_eq h.uncapped, if_pos rfl, hadds]
  · rw [hw.bag_eq h.uncapped, if_neg hx, add_zero]

theorem Uncapped.losesNothing (h : s.Uncapped) : s.LosesNothing where
  edit client raw content := h.addsText nofun fun _ => rfl
  undo client := h.addsText nofun fun _ => rfl
  revert client raw hsuccess := by
    obtain ⟨u, ho, hw⟩ := write_of_success hsuccess nofun
    refine ⟨u, _, Prod.ext ho rfl, by simp [hw.change.content], fun x => ?_⟩
    rw [hw.bag_eq h.uncapped]
    split
    · exact add_zero _
    · exact add_zero _
  others e hnone x := by
    have hadded : s.added x e = [] := by
      rcases e with r | client | _
      · exact added_of_none (hnone r rfl) x
      · rfl
      · rfl
    rw [bag_after h, hadded]
    exact add_zero _
  account := bag_run h
  lasting es x hne := by
    have hmem : s.content x ∈ bag (s.texts x) := mem_bag.2 ⟨content_mem_texts hne, hne⟩
    have hlater : s.content x ∈ bag ((s.run es).texts x) := by
      rw [bag_run h]
      exact Multiset.mem_add.2 (.inl hmem)
    exact (mem_bag.1 hlater).1

/-- Without a cap on histories no content is lost at any time in the life of a sheet, new or restored: an accepted edit
or undo adds what it writes to the texts of its cell, a revert changes none of them, and nothing touches those of other
cells. -/
theorem losesNothing_run (maxEdits : Option ℕ) (record : Option SheetRecord) (es : List Event) :
    ((opened ⟨none, maxEdits⟩ record).run es).LosesNothing :=
  (uncapped_run maxEdits record es).losesNothing

-- a cell that is cleared, reopened and filled again has all that it ever showed
example : ((new .unbounded).run [.request ⟨1, .select "a1"⟩, .request ⟨1, .edit "a1" "7"⟩, .request ⟨1, .edit "a1" ""⟩,
    .reopen, .request ⟨2, .undo⟩, .request ⟨2, .revert "A1"⟩]).texts ⟨"A1", by decide⟩ = ["", "7", "7"] := by cbv

end Sheet

end SharedSheet
