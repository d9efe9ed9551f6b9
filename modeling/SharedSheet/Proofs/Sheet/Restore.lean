/-
Restoring a sheet from its own record. The record of a sheet lists live cells with histories within the limits, so
restoring puts every cell back as it was; the graph follows from the contents, and only the selections are lost
(`restore_record`). Whoever selects again cannot tell the restored sheet from the old one (`restored_run`).
-/
import SharedSheet.Proofs.Sheet.Retained

namespace SharedSheet.Sheet

variable {s t : Sheet}

/-! ## The record -/

theorem lt_of_compare {a b : CellName} (h : compare a b = .lt) : a.text < b.text :=
  compareOfLessAndEq_eq_lt.1 h

theorem Named.ascending (h : s.Named) : (s.record.cells.map CellRecord.name).Pairwise (· < ·) := by
  show (s.populated.map CellRecord.name).Pairwise _
  rw [h.names_populated, Table.keys, List.map_map]
  exact List.pairwise_map.2 (s.cells.ascending.imp lt_of_compare)

/-! ## Restoring it -/

/-- A cell that bears its name, is live and within the limits is restored as it was. -/
theorem restoreCell_recordOf {e : CellName × Cell} (hname : e.2.name = e.1.text) (hlive : e.2.isDead = false)
    (hkeep : keep s.policy.maxCellHistory e.2.history = e.2.history) :
    (s.restoreCell (recordOf e)).cells = s.cells.insert e.1 e.2 := by
  unfold restoreCell
  rw [parse?_recordOf hname]
  dsimp only [recordOf, Cell.record]
  rw [hkeep, ← hname, if_neg (Bool.eq_false_iff.1 hlive)]

theorem cells_restoreCells {es : List (CellName × Cell)}
    (h : ∀ e ∈ es, e.2.name = e.1.text ∧ e.2.isDead = false ∧
      keep s.policy.maxCellHistory e.2.history = e.2.history) :
    ((es.map recordOf).foldl restoreCell s).cells = es.foldl (fun t e => t.insert e.1 e.2) s.cells := by
  induction es generalizing s with
  | nil => rfl
  | cons e es ih =>
    obtain ⟨hname, hlive, hkeep⟩ := h e List.mem_cons_self
    rw [List.map_cons, List.foldl_cons, List.foldl_cons, ih, restoreCell_recordOf hname hlive hkeep]
    intro d hd
    rw [show (s.restoreCell (recordOf e)).policy = s.policy from policy_restoreCells s [recordOf e]]
    exact h d (List.mem_cons_of_mem _ hd)

theorem cells_reopen (hs : s.Consistent) (hr : s.Retained) : s.reopen.cells = s.cells := by
  have hentries : ∀ e ∈ s.cells.entries, e.2.name = e.1.text ∧ e.2.isDead = false ∧
      keep (new s.policy).policy.maxCellHistory e.2.history = e.2.history := by
    intro e he
    have hget := Table.get?_eq_some_iff.2 he
    exact ⟨hs.named e.1 e.2 hget, hs.live e.1 e.2 hget, hr.histories e.1 e.2 hget⟩
  show (s.populated.foldl restoreCell (new s.policy)).cells = _
  rw [populated_eq, cells_restoreCells hentries]
  exact s.cells.ofList_entries

theorem selections_restore (r : SheetRecord) (policy : Policy) : (restore r policy).selections = Table.empty := by
  have hcells : ∀ (rs : List CellRecord) (s : Sheet), (rs.foldl restoreCell s).selections = s.selections := by
    intro rs
    induction rs with
    | nil => exact fun _ => rfl
    | cons r rs ih =>
      intro s
      rw [List.foldl_cons, ih]
      unfold restoreCell
      split
      · rfl
      · dsimp only
        split <;> rfl
  exact hcells r.cells (new policy)

/-- Reopening forgets the selections and nothing else. -/
theorem reopen_eq (hs : s.Consistent) (hr : s.Retained) : s.reopen = { s with selections := Table.empty } := by
  have hedits : s.reopen.edits = s.edits := by
    rw [edits_reopen]
    unfold EditLog.ofEntries
    rw [hr.edits, ← hr.capped]
  have hforgets : { s with selections := Table.empty }.Consistent := hs.congr rfl rfl
  exact hforgets.ext (consistent_restore _ _) (cells_reopen hs hr) (selections_restore _ _) hedits (policy_restore _ _)

/-! ## Selecting again -/

/-- The answers to requests, each with the record of the sheet after it. -/
def trace (s : Sheet) : List Request → List (Outcome × SheetRecord)
  | [] => []
  | r :: rs => ((s.apply r).1, (s.apply r).2.record) :: (s.apply r).2.trace rs

theorem trace_append (s : Sheet) (rs rs' : List Request) :
    s.trace (rs ++ rs') = s.trace rs ++ (s.run (rs.map .request)).trace rs' := by
  induction rs generalizing s with
  | nil => rfl
  | cons r rs ih => exact congrArg (List.cons _) (ih (s.apply r).2)

/-- Selections only, among them a good one of every client who has a cell selected. -/
structure Reselects (s : Sheet) (rs : List Request) : Prop where
  selects : ∀ r ∈ rs, ∃ raw, r.action = .select raw
  all : ∀ client name, s.selections.get? client = some name →
    ∃ raw name', ⟨client, .select raw⟩ ∈ rs ∧ CellName.parse? raw = some name'

/-- What a request makes of the selections if it is one. -/
def selectIn (selections : Table ClientId CellName) (r : Request) : Table ClientId CellName :=
  match r.action with
  | .select raw =>
    match CellName.parse? raw with
    | some name => selections.insert r.client name
    | none => selections
  | _ => selections

/-- A selection is answered alike by all sheets, and changes nothing but the selections. -/
theorem apply_select (s : Sheet) (client : ClientId) (raw : String) :
    s.apply ⟨client, .select raw⟩ =
      ((match CellName.parse? raw with
        | some name => .selected name
        | none => .rejected (some raw) (.invalidCellName raw)),
      { s with selections := selectIn s.selections ⟨client, .select raw⟩ }) := by
  unfold apply perform select readName Action.target? selectIn
  dsimp only
  rcases CellName.parse? raw with _ | name
  · rfl
  · rfl

theorem run_selects {rs : List Request} (h : ∀ r ∈ rs, ∃ raw, r.action = .select raw)
    (selections : Table ClientId CellName) :
    { s with selections := selections }.run (rs.map .request) =
      { s with selections := rs.foldl selectIn selections } := by
  induction rs generalizing selections with
  | nil => rfl
  | cons r rs ih =>
    obtain ⟨client, action⟩ := r
    obtain ⟨raw, rfl⟩ := h _ List.mem_cons_self
    rw [List.map_cons, run_cons]
    show Sheet.run (Sheet.apply _ _).2 _ = _
    rw [apply_select]
    exact ih (fun r hr => h r (List.mem_cons_of_mem _ hr)) _

theorem trace_selects {rs : List Request} (h : ∀ r ∈ rs, ∃ raw, r.action = .select raw)
    (selections selections' : Table ClientId CellName) :
    { s with selections := selections }.trace rs = { s with selections := selections' }.trace rs := by
  induction rs generalizing selections selections' with
  | nil => rfl
  | cons r rs ih =>
    obtain ⟨client, action⟩ := r
    obtain ⟨raw, rfl⟩ := h _ List.mem_cons_self
    unfold trace
    rw [apply_select, apply_select]
    exact congrArg (List.cons _) (ih (fun r hr => h r (List.mem_cons_of_mem _ hr)) _ _)

/-- A client who has made a good selection has the same one whatever the selections were before. -/
theorem get?_selectAll {rs : List Request} {selections selections' : Table ClientId CellName} {client : ClientId}
    (h : selections.get? client = selections'.get? client ∨
      ∃ raw name, ⟨client, .select raw⟩ ∈ rs ∧ CellName.parse? raw = some name) :
    (rs.foldl selectIn selections).get? client = (rs.foldl selectIn selections').get? client := by
  induction rs generalizing selections selections' with
  | nil =>
    rcases h with h | ⟨raw, name, hmem, -⟩
    · exact h
    · cases hmem
  | cons r rs ih =>
    rw [List.foldl_cons, List.foldl_cons]
    apply ih
    -- the two agree already, or from this request on, or a request to come will see to it
    rcases h with h | ⟨raw, name, hmem, hname⟩
    · left
      unfold selectIn
      split
      · split
        · rw [Table.get?_insert, Table.get?_insert, h]
        · exact h
      · exact h
    · rcases List.mem_cons.1 hmem with rfl | hmem
      · left
        unfold selectIn
        dsimp only
        rw [hname]
        dsimp only
        rw [Table.get?_insert, Table.get?_insert, if_pos rfl, if_pos rfl]
      · exact .inr ⟨raw, name, hmem, hname⟩

theorem Reselects.selectAll {rs : List Request} (h : s.Reselects rs) :
    rs.foldl selectIn s.selections = rs.foldl selectIn Table.empty := by
  refine Table.ext_get? fun client => get?_selectAll ?_
  rcases hclient : s.selections.get? client with _ | name
  · exact .inl rfl
  · exact .inr (h.all client name hclient)

/-- Once everybody has selected again, nobody can tell that the selections were forgotten. -/
theorem Reselects.trace_eq {rs : List Request} (h : s.Reselects rs) (rs' : List Request) :
    s.trace (rs ++ rs') = { s with selections := Table.empty }.trace (rs ++ rs') := by
  have hrun : s.run (rs.map .request) = { s with selections := Table.empty }.run (rs.map .request) :=
    calc
      s.run (rs.map .request) = { s with selections := rs.foldl selectIn s.selections } :=
        run_selects h.selects s.selections
      _ = { s with selections := rs.foldl selectIn Table.empty } := by rw [h.selectAll]
      _ = { s with selections := Table.empty }.run (rs.map .request) := (run_selects h.selects Table.empty).symm
  rw [trace_append, trace_append, hrun]
  exact congrArg (· ++ _) (trace_selects h.selects s.selections Table.empty)

/-- Everybody selects the cell again that he has selected. -/
def reselections (s : Sheet) : List Request := s.selections.entries.map fun e => ⟨e.1, .select e.2.text⟩

theorem reselects_reselections (s : Sheet) : s.Reselects s.reselections where
  selects r hr := by
    obtain ⟨e, -, rfl⟩ := List.mem_map.1 hr
    exact ⟨e.2.text, rfl⟩
  all client name h :=
    ⟨name.text, name, List.mem_map.2 ⟨(client, name), Table.get?_eq_some_iff.1 h, rfl⟩, name.parse?_text⟩

theorem run_reselections (s : Sheet) :
    { s with selections := Table.empty }.run (s.reselections.map .request) = s := by
  have hfold : s.reselections.foldl selectIn Table.empty = s.selections := by
    unfold reselections
    rw [List.foldl_map]
    refine Eq.trans ?_ s.selections.ofList_entries
    unfold Table.ofList
    congr 1
    funext selections e
    unfold selectIn
    dsimp only
    rw [e.2.parse?_text]
  rw [run_selects s.reselects_reselections.selects, hfold]

/-! ## All runs -/

/-- A sheet that its record tells all about except the selections. -/
structure Recorded (policy : Policy) (s : Sheet) : Prop where
  restored : restore s.record policy = { s with selections := Table.empty }
  ascending : (s.record.cells.map CellRecord.name).Pairwise (· < ·)
  alike : ∀ rs, s.Reselects rs → ∀ rs', s.trace (rs ++ rs') = (restore s.record policy).trace (rs ++ rs')
  /-- There is a way to select again, and it makes the sheet what it was. -/
  reselected : s.Reselects s.reselections ∧
    (restore s.record policy).run (s.reselections.map .request) = s

theorem Retained.recorded (hr : s.Retained) (hs : s.Consistent) : Recorded s.policy s := by
  have hrestored : restore s.record s.policy = { s with selections := Table.empty } := reopen_eq hs hr
  refine ⟨hrestored, hs.named.ascending, fun rs h rs' => ?_, s.reselects_reselections, ?_⟩
  · rw [hrestored]
    exact h.trace_eq rs'
  · rw [hrestored]
    exact s.run_reselections

/-- At any time in the life of a sheet, restoring it from its record gives it back without the selections, and those
who select again see no difference. -/
theorem recorded_run (policy : Policy) (record : Option SheetRecord) (es : List Event) :
    Recorded policy ((opened policy record).run es) := by
  have hpolicy : ((opened policy record).run es).policy = policy := by
    rw [policy_run, policy_opened]
  have h := (retained_run policy record es).recorded (consistent_run policy record es)
  rwa [hpolicy] at h

end SharedSheet.Sheet
