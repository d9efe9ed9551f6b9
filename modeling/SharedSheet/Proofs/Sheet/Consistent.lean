/-
Consistency: the cells of a sheet, its graph and its names fit together. It holds of new sheets and of
sheets restored from any record at all, and every event keeps it (`consistent_after`), so it holds after
every run (`sound_run`).
-/
import SharedSheet.Proofs.Sheet.Run

namespace SharedSheet.Sheet

/-- Every cell bears its name and is live, the graph holds the references of the contents, and its two sides
hold the same edges without empty sets. -/
structure Consistent (s : Sheet) : Prop where
  named : s.Named
  live : ∀ name cell, s.cells.get? name = some cell → cell.isDead = false
  references : ∀ x y, y ∈ s.refs.dependeesOf x ↔ s.RefersTo x y
  mirrored : s.refs.Mirrored

theorem consistent_new (policy : Policy) : (new policy).Consistent where
  named _ _ h := by cases h
  live _ _ h := by cases h
  references x y := by
    constructor
    · intro h
      change y ∈ ([] : List CellName) at h
      cases h
    · exact fun h => absurd h (not_names_empty y)
  mirrored := RefGraph.mirrored_empty

/-! ## What keeps consistency -/

variable {s s' : Sheet}

/-- Selections, log and policy do not matter. -/
theorem Consistent.congr (h : s.Consistent) (hcells : s'.cells = s.cells) (hrefs : s'.refs = s.refs) :
    s'.Consistent := by
  have hcontent : s'.content = s.content := by
    funext x
    unfold content
    rw [hcells]
  refine ⟨?_, ?_, ?_, ?_⟩
  · intro name cell hcell
    rw [hcells] at hcell
    exact h.named name cell hcell
  · intro name cell hcell
    rw [hcells] at hcell
    exact h.live name cell hcell
  · intro x y
    unfold RefersTo
    rw [hrefs, hcontent]
    exact h.references x y
  · rw [hrefs]
    exact h.mirrored

theorem Consistent.change {u : CellUpdate} (h : s.Consistent) (hc : Change s u s') : s'.Consistent := by
  have hrefers := hc.refersTo
  obtain ⟨name, cell, references, log, readable, -, named⟩ := hc
  -- a cell that is dead after the change is taken out, so one that is found is the new one or was there before
  have hcells : ∀ other c, (s.store name cell references).cells.get? other = some c →
      (other = name ∧ c = cell ∧ cell.isDead = false) ∨ s.cells.get? other = some c := by
    intro other c hother
    rw [get?_store] at hother
    split at hother
    · split at hother
      · cases hother
      · rename_i hname hlive
        cases hother
        exact .inl ⟨hname, rfl, Bool.eq_false_iff.2 hlive⟩
    · exact .inr hother
  refine ⟨?_, ?_, ?_, h.mirrored.replaceDependees name references⟩
  · intro other c hother
    rcases hcells other c hother with ⟨rfl, rfl, -⟩ | hold
    · exact named h.named
    · exact h.named other c hold
  · intro other c hother
    rcases hcells other c hother with ⟨-, rfl, hlive⟩ | hold
    · exact hlive
    · exact h.live other c hold
  · intro x y
    rw [hrefers]
    show y ∈ (s.refs.replaceDependees name references).dependeesOf x ↔ _
    rw [RefGraph.mem_dependeesOf_replaceDependees]
    split
    · exact mem_of_contentReferences readable y
    · exact h.references x y

theorem Consistent.restoreCell (h : s.Consistent) (r : CellRecord) : (s.restoreCell r).Consistent := by
  unfold Sheet.restoreCell
  split
  · exact h
  · rename_i name hname
    dsimp only
    split
    · exact h
    · rename_i hlive
      refine ⟨?_, ?_, ?_, h.mirrored.replaceDependees name _⟩
      · intro other c hother
        rw [Table.get?_insert] at hother
        split at hother
        · cases hother
          subst other
          rfl
        · exact h.named other c hother
      · intro other c hother
        rw [Table.get?_insert] at hother
        split at hother
        · cases hother
          exact Bool.eq_false_iff.2 hlive
        · exact h.live other c hother
      · intro x y
        unfold RefersTo content
        dsimp only
        rw [RefGraph.mem_dependeesOf_replaceDependees, Table.get?_insert]
        by_cases hx : x = name
        · rw [if_pos hx, if_pos hx]
          exact mem_contentReferences
        · rw [if_neg hx, if_neg hx]
          exact h.references x y

theorem consistent_restore (r : SheetRecord) (policy : Policy) : (restore r policy).Consistent := by
  have hcells : ∀ (rs : List CellRecord) (s : Sheet), s.Consistent → (rs.foldl Sheet.restoreCell s).Consistent := by
    intro rs
    induction rs with
    | nil => exact fun s h => h
    | cons r rs ih => exact fun s h => ih _ (h.restoreCell r)
  exact (hcells r.cells (new policy) (consistent_new policy)).congr rfl rfl

theorem Consistent.step {a : Action} {o : Outcome} (h : s.Consistent) (hs : Step s a o s') : s'.Consistent := by
  rcases hs with _ | ⟨hc, -⟩ | ⟨hc, -⟩ | ⟨hc, -⟩
  · exact h.congr rfl rfl
  · exact h.change hc
  · exact h.change hc
  · exact h.change hc

/-- The contents determine the graph. -/
theorem Consistent.refs_eq (hs : s.Consistent) (hs' : s'.Consistent) (h : ∀ x, s'.content x = s.content x) :
    s'.refs = s.refs := by
  refine hs'.mirrored.ext hs.mirrored fun x y => ?_
  rw [hs'.references, hs.references]
  unfold RefersTo
  rw [h]

/-- Consistent sheets that have all but the graph in common are the same. -/
theorem Consistent.ext (hs : s.Consistent) (hs' : s'.Consistent) (hcells : s'.cells = s.cells)
    (hselections : s'.selections = s.selections) (hedits : s'.edits = s.edits) (hpolicy : s'.policy = s.policy) :
    s' = s := by
  have hrefs : s'.refs = s.refs := by
    refine hs.refs_eq hs' fun x => ?_
    unfold content
    rw [hcells]
  obtain ⟨_, _, _, _, _⟩ := s'
  cases hcells
  cases hrefs
  cases hselections
  cases hedits
  cases hpolicy
  rfl

/-- Every event keeps consistency. -/
theorem consistent_after (s : Sheet) (e : Event) (h : s.Consistent) : (s.after e).Consistent := by
  rcases e with r | client | _
  · show (s.apply r).2.Consistent
    rcases s.apply_cases r with ⟨o, hr⟩ | ⟨o, s', hr, -, hs⟩
    · rw [hr]
      exact h
    · rw [hr]
      exact h.step hs
  · exact h.congr rfl rfl
  · exact consistent_restore _ _

theorem consistent_run_new (policy : Policy) (es : List Event) : ((new policy).run es).Consistent :=
  run_keeps consistent_after (consistent_new policy) es

theorem consistent_run (policy : Policy) (record : Option SheetRecord) (es : List Event) :
    ((opened policy record).run es).Consistent := by
  rcases record with _ | r
  · exact consistent_run_new policy es
  · exact run_keeps consistent_after (consistent_restore r policy) es

/-! ## All of it -/

/-- The cells that a sheet knows by name: stored, on either side of the graph, selected, or logged. -/
def Mentions (s : Sheet) (name : CellName) : Prop :=
  name ∈ s.cells.keys ∨
  (name ∈ s.refs.dependents.keys ∨ ∃ set ∈ s.refs.dependents.values, name ∈ set.keys) ∨
  (name ∈ s.refs.dependees.keys ∨ ∃ set ∈ s.refs.dependees.values, name ∈ set.keys) ∨
  name ∈ s.selections.values ∨ ∃ e ∈ s.edits.entries, e.cell = name

/-- Everything that ties the parts of a sheet together. -/
structure Sound (s : Sheet) : Prop where
  /-- The name that a cell stands under is the name that it bears. -/
  keyed : ∀ name cell, s.cells.get? name = some cell → cell.name = name.text
  /-- What is listed are the cells that stand under a name, with this name. -/
  listed : ∀ r, r ∈ s.populated ↔
    ∃ name cell, s.cells.get? name = some cell ∧ r = ⟨name.text, cell.content, cell.history⟩
  /-- No two listed cells have one name. -/
  distinct : (s.populated.map CellRecord.name).Nodup
  wellNamed : ∀ name, s.Mentions name → MatchesPattern name.text
  live : ∀ name cell, s.cells.get? name = some cell → cell.isDead = false
  /-- The dependees of a stored cell are the references of its content, none if it is no formula or does
  not parse. -/
  stored : ∀ name cell, s.cells.get? name = some cell →
    ∀ y, y ∈ s.refs.dependeesOf name ↔ ∃ f, Formula.parse cell.content = .ok f ∧ y ∈ f.references
  absent : ∀ name, s.cells.get? name = none → s.refs.dependeesOf name = []
  inverse : ∀ x y, y ∈ s.refs.dependentsOf x ↔ x ∈ s.refs.dependeesOf y
  noEmptyDependents : ∀ x set, s.refs.dependents.get? x = some set → set.keys ≠ []
  noEmptyDependees : ∀ x set, s.refs.dependees.get? x = some set → set.keys ≠ []

theorem Named.mem_populated (h : s.Named) (r : CellRecord) : r ∈ s.populated ↔
    ∃ name cell, s.cells.get? name = some cell ∧ r = ⟨name.text, cell.content, cell.history⟩ := by
  rw [populated_eq, List.mem_map]
  constructor
  · rintro ⟨⟨name, cell⟩, he, rfl⟩
    refine ⟨name, cell, Table.get?_eq_some_iff.2 he, ?_⟩
    rw [← h.of_mem he]
    rfl
  · rintro ⟨name, cell, hcell, rfl⟩
    refine ⟨(name, cell), Table.get?_eq_some_iff.1 hcell, ?_⟩
    rw [← h name cell hcell]
    rfl

/-- The names in the listing are the names of the table. -/
theorem Named.names_populated (h : s.Named) : s.populated.map CellRecord.name = s.cells.keys.map CellName.text := by
  rw [populated_eq, List.map_map, Table.keys, List.map_map]
  exact List.map_congr_left fun _ => h.of_mem

theorem Consistent.sound (h : s.Consistent) : s.Sound where
  keyed := h.named
  listed := h.named.mem_populated
  distinct := by
    rw [h.named.names_populated]
    exact s.cells.nodup_keys.map fun _ _ => CellName.ext
  wellNamed name _ := name.matchesPattern
  live := h.live
  stored name cell hcell y := by
    rw [h.references]
    unfold RefersTo content
    rw [hcell]
    rfl
  absent name hname := by
    refine List.eq_nil_iff_forall_not_mem.2 fun y hy => ?_
    have hr := (h.references name y).1 hy
    unfold RefersTo content at hr
    rw [hname] at hr
    exact not_names_empty y hr
  inverse := h.mirrored.mirror
  noEmptyDependents := h.mirrored.dependents
  noEmptyDependees := h.mirrored.dependees

/-- A sheet is sound after every run, whether it began empty or from a record of whatever cells and edits. -/
theorem sound_run (policy : Policy) (es : List Event) :
    ((new policy).run es).Sound ∧ ∀ r : SheetRecord, ((restore r policy).run es).Sound := by
  constructor
  · exact (consistent_run_new policy es).sound
  · intro r
    exact (run_keeps consistent_after (consistent_restore r policy) es).sound

end SharedSheet.Sheet
