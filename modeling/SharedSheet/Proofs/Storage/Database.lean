/-
Sheets in tables. The rows of a sheet are those with its number, and they list it completely (`Lists`): the cells by
name, their histories and the edits by position. So loading collects the sheet that was saved (`load_of_lists`), and
saving one sheet leaves the rows of all others alone (`Holds.save?`). A database file keeps sheets, since no log is left
behind that could undo what was saved (`DatabaseFile.keeps`).
-/
import Mathlib.Data.List.Nodup
import SharedSheet.Proofs.Storage.Shelf

namespace SharedSheet

/-! ## Positions -/

section Positions

variable {α ρ : Type} {row : ℕ → α → ρ}

theorem map_position {key : ρ → ℕ} (h : ∀ i x, key (row i x) = i) (l : List α) :
    (l.mapIdx row).map key = List.range l.length := by
  rw [List.mapIdx_eq_zipIdx_map, List.map_map, List.range_eq_range', ← List.zipIdx_map_snd 0 l]
  exact List.map_congr_left fun p _ => h p.2 p.1

theorem map_value (value : ρ → α) (h : ∀ i x, value (row i x) = x) (l : List α) : (l.mapIdx row).map value = l := by
  rw [List.mapIdx_eq_zipIdx_map, List.map_map]
  refine (List.map_congr_left fun p _ => h p.2 p.1).trans ?_
  exact List.zipIdx_map_fst 0 l

end Positions

namespace Database

theorem orderBy_eq_self {α κ : Type} [Ord κ] {key : α → κ} {rows : List α}
    (h : (rows.map key).Pairwise fun a b => (compare a b).isLE = true) : orderBy key rows = rows :=
  List.mergeSort_of_pairwise (List.pairwise_map.1 h)

/-- Rows that are numbered in the order in which they stand are in order. -/
theorem orderBy_position {α ρ : Type} {row : ℕ → α → ρ} {key : ρ → ℕ} (h : ∀ i x, key (row i x) = i) (l : List α) :
    orderBy key (l.mapIdx row) = l.mapIdx row := by
  apply orderBy_eq_self
  rw [map_position h]
  refine List.pairwise_lt_range.imp fun {a b} hlt => ?_
  rw [Nat.compare_eq_lt.2 hlt]
  rfl

/-! ## The rows of a sheet -/

def cellRows (sheet : ℕ) (cells : List CellRecord) : List CellRow := cells.map fun c => ⟨sheet, c.name, c.content⟩

/-- The history of one cell. -/
def historyRowsOf (sheet : ℕ) (c : CellRecord) : List HistoryRow :=
  c.history.mapIdx fun position content => ⟨sheet, c.name, position, content⟩

def editRows (sheet : ℕ) (edits : List EditRecord) : List EditRow :=
  edits.mapIdx fun position e => ⟨sheet, position, e.cell, e.prior⟩

/-- The rows with this number are those of the sheet. -/
structure Lists (d : Database) (sheet : ℕ) (r : SheetRecord) : Prop where
  cells : (d.cells.filter fun row => row.sheet == sheet) = cellRows sheet r.cells
  histories : (d.histories.filter fun row => row.sheet == sheet) = r.cells.flatMap (historyRowsOf sheet)
  edits : (d.edits.filter fun row => row.sheet == sheet) = editRows sheet r.edits

variable {d : Database} {sheet : ℕ} {r : SheetRecord}

theorem sheet_of_mem_cellRows {cells : List CellRecord} {row : CellRow} (h : row ∈ cellRows sheet cells) :
    row.sheet = sheet := by
  obtain ⟨c, -, rfl⟩ := List.mem_map.1 h
  rfl

theorem of_mem_historyRowsOf {c : CellRecord} {row : HistoryRow} (h : row ∈ historyRowsOf sheet c) :
    row.sheet = sheet ∧ row.cell = c.name := by
  obtain ⟨i, hi, rfl⟩ := List.mem_mapIdx.1 h
  exact ⟨rfl, rfl⟩

theorem sheet_of_mem_editRows {edits : List EditRecord} {row : EditRow} (h : row ∈ editRows sheet edits) :
    row.sheet = sheet := by
  obtain ⟨i, hi, rfl⟩ := List.mem_mapIdx.1 h
  rfl

/-- Among the histories of cells with different names, that of one cell is found by the name. -/
theorem filter_historyRowsOf {cells : List CellRecord} (hd : (cells.map CellRecord.name).Nodup) {c : CellRecord}
    (hc : c ∈ cells) :
    (cells.flatMap (historyRowsOf sheet)).filter (fun row => row.cell == c.name) = historyRowsOf sheet c := by
  have hown : (historyRowsOf sheet c).filter (fun row => row.cell == c.name) = historyRowsOf sheet c :=
    List.filter_eq_self.2 fun row hrow => beq_iff_eq.2 (of_mem_historyRowsOf hrow).2
  have hother : ∀ b : CellRecord, b.name ≠ c.name →
      (historyRowsOf sheet b).filter (fun row => row.cell == c.name) = [] := by
    intro b hb
    rw [List.filter_eq_nil_iff]
    intro row hrow hcell
    exact hb ((of_mem_historyRowsOf hrow).2 ▸ beq_iff_eq.1 hcell)
  induction cells with
  | nil => cases hc
  | cons b cells ih =>
    rw [List.map_cons] at hd
    obtain ⟨hb, hd⟩ := List.nodup_cons.1 hd
    rw [List.flatMap_cons, List.filter_append]
    rcases List.mem_cons.1 hc with rfl | hc
    · -- the cells behind it have other names
      have hrest : (cells.flatMap (historyRowsOf sheet)).filter (fun row => row.cell == c.name) = [] := by
        rw [List.filter_flatMap, List.flatMap_eq_nil_iff]
        exact fun b hmem => hother b fun hn => hb (hn ▸ List.mem_map_of_mem hmem)
      rw [hown, hrest, List.append_nil]
    · rw [hother b fun hn => hb (hn ▸ List.mem_map_of_mem hc), ih hd hc, List.nil_append]

theorem historyOf_of_lists (h : d.Lists sheet r) (hd : (r.cells.map CellRecord.name).Nodup) {c : CellRecord}
    (hc : c ∈ r.cells) : d.historyOf sheet c.name = c.history := by
  unfold historyOf
  have hrows : (d.histories.filter fun row => row.sheet == sheet && row.cell == c.name) = historyRowsOf sheet c := by
    rw [← filter_historyRowsOf hd hc, ← h.histories, List.filter_filter]
    exact List.filter_congr fun row _ => Bool.and_comm _ _
  rw [hrows, historyRowsOf, orderBy_position fun _ _ => rfl, map_value HistoryRow.content fun _ _ => rfl]

theorem nodup_of_isOrdered (h : r.IsOrdered) : (r.cells.map CellRecord.name).Nodup :=
  List.Pairwise.imp (fun {a b} (hlt : a < b) (heq : a = b) => String.lt_irrefl b (heq ▸ hlt)) h

/-- A sheet is put together from its rows. -/
theorem load_of_lists {name : String} (hid : d.sheetId? name = some sheet) (h : d.Lists sheet r) (hr : r.IsOrdered) :
    d.load name = r := by
  have hcells : orderBy CellRow.name (cellRows sheet r.cells) = cellRows sheet r.cells := by
    apply orderBy_eq_self
    unfold cellRows
    rw [List.map_map]
    refine List.Pairwise.imp (fun {a b} hlt => ?_) hr
    rw [compare_eq_lt_iff.2 hlt]
    rfl
  unfold load
  rw [hid]
  dsimp only
  rw [h.cells, h.edits, hcells, editRows, orderBy_position fun _ _ => rfl]
  have hmap : (cellRows sheet r.cells).map
      (fun row => (⟨row.name, row.content, d.historyOf sheet row.name⟩ : CellRecord)) = r.cells := by
    unfold cellRows
    rw [List.map_map]
    refine (List.map_congr_left fun c hc => ?_).trans r.cells.map_id
    show CellRecord.mk c.name c.content (d.historyOf sheet c.name) = c
    rw [historyOf_of_lists h (nodup_of_isOrdered hr) hc]
  rw [hmap, map_value (fun row : EditRow => (⟨row.cell, row.prior⟩ : EditRecord)) fun _ _ => rfl]

/-! ## Replacing the rows of a sheet -/

section Rows

variable {ρ : Type} {key : ρ → ℕ} {rows : List ρ}

theorem filter_replaced (old : List ρ) (h : ∀ row ∈ rows, key row = sheet) :
    (old.filter (fun row => key row != sheet) ++ rows).filter (fun row => key row == sheet) = rows := by
  have hold : (old.filter fun row => key row != sheet).filter (fun row => key row == sheet) = [] := by
    rw [List.filter_filter, List.filter_eq_nil_iff]
    intro row _
    simp
  rw [List.filter_append, hold, List.nil_append, List.filter_eq_self]
  exact fun row hrow => beq_iff_eq.2 (h row hrow)

theorem filter_replaced_of_ne (old : List ρ) (h : ∀ row ∈ rows, key row = sheet) {other : ℕ} (hne : other ≠ sheet) :
    (old.filter (fun row => key row != sheet) ++ rows).filter (fun row => key row == other) =
      old.filter fun row => key row == other := by
  have hrows : rows.filter (fun row => key row == other) = [] := by
    rw [List.filter_eq_nil_iff]
    intro row hrow hkey
    exact hne ((beq_iff_eq.1 hkey).symm.trans (h row hrow))
  rw [List.filter_append, hrows, List.append_nil, List.filter_filter]
  refine List.filter_congr fun row _ => ?_
  rw [Bool.and_eq_left_iff_imp, beq_iff_eq, bne_iff_ne]
  exact fun hkey => hkey ▸ hne

end Rows

/-- The tables with the rows of a sheet in place of those it had. -/
def replaced (d : Database) (sheet : ℕ) (r : SheetRecord) : Database :=
  { d with
    cells := d.cells.filter (fun row => row.sheet != sheet) ++ cellRows sheet r.cells
    histories := d.histories.filter (fun row => row.sheet != sheet) ++ r.cells.flatMap (historyRowsOf sheet)
    edits := d.edits.filter (fun row => row.sheet != sheet) ++ editRows sheet r.edits }

theorem sheet_of_mem_histories {cells : List CellRecord} {row : HistoryRow}
    (h : row ∈ cells.flatMap (historyRowsOf sheet)) : row.sheet = sheet := by
  obtain ⟨c, -, hrow⟩ := List.mem_flatMap.1 h
  exact (of_mem_historyRowsOf hrow).1

theorem lists_replaced : (d.replaced sheet r).Lists sheet r where
  cells := filter_replaced d.cells fun _ => sheet_of_mem_cellRows
  histories := filter_replaced d.histories fun _ => sheet_of_mem_histories
  edits := filter_replaced d.edits fun _ => sheet_of_mem_editRows

/-- The rows of the other sheets stay. -/
theorem Lists.replaced {other : ℕ} {r' : SheetRecord} (h : d.Lists other r') (hne : other ≠ sheet) :
    (d.replaced sheet r).Lists other r' where
  cells := (filter_replaced_of_ne d.cells (fun _ => sheet_of_mem_cellRows) hne).trans h.cells
  histories := (filter_replaced_of_ne d.histories (fun _ => sheet_of_mem_histories) hne).trans h.histories
  edits := (filter_replaced_of_ne d.edits (fun _ => sheet_of_mem_editRows) hne).trans h.edits

/-- Cells with different names are inserted, one after the other, where no cell has their names. -/
theorem foldlM_insertCell? {cells : List CellRecord} (hd : (cells.map CellRecord.name).Nodup)
    (hfree : ∀ row ∈ d.cells, row.sheet = sheet → row.name ∉ cells.map CellRecord.name) :
    cells.foldlM (insertCell? sheet) d = some { d with
      cells := d.cells ++ cellRows sheet cells
      histories := d.histories ++ cells.flatMap (historyRowsOf sheet) } := by
  induction cells generalizing d with
  | nil => simp [cellRows]
  | cons c cells ih =>
    rw [List.map_cons] at hd hfree
    obtain ⟨hc, hd⟩ := List.nodup_cons.1 hd
    have hnew : insertCell? sheet d c = some { d with
        cells := d.cells ++ [⟨sheet, c.name, c.content⟩]
        histories := d.histories ++ historyRowsOf sheet c } := by
      refine if_neg fun hany => ?_
      obtain ⟨row, hrow, hkey⟩ := List.any_eq_true.1 hany
      rw [Bool.and_eq_true, beq_iff_eq, beq_iff_eq] at hkey
      exact hfree row hrow hkey.1 (hkey.2 ▸ List.mem_cons_self)
    rw [List.foldlM_cons, hnew]
    refine (ih hd fun row hrow hsheet => ?_).trans ?_
    · rcases List.mem_append.1 hrow with hrow | hrow
      · exact fun hmem => hfree row hrow hsheet (List.mem_cons_of_mem _ hmem)
      · rw [List.mem_singleton.1 hrow]
        exact hc
    · rw [List.flatMap_cons, ← List.append_assoc]
      show some (Database.mk _ (d.cells ++ [_] ++ cellRows sheet cells) _ _) = _
      rw [List.append_assoc]
      rfl

theorem save?_eq {name : String} (hd : (r.cells.map CellRecord.name).Nodup) :
    d.save? name r = some ((d.ensureSheet name).2.replaced (d.ensureSheet name).1 r) := by
  -- all rows of the sheet are gone before the new ones come
  have hfree : ∀ row ∈ ((d.ensureSheet name).2.clear (d.ensureSheet name).1).cells,
      row.sheet = (d.ensureSheet name).1 → row.name ∉ r.cells.map CellRecord.name := by
    intro row hrow hsheet
    have hkept := (List.mem_filter.1 hrow).2
    exact absurd hsheet (bne_iff_ne.1 hkept)
  unfold save?
  dsimp only
  rw [foldlM_insertCell? hd hfree]
  rfl

/-! ## The table of sheets -/

variable {name : String}

theorem name_of_find? {row : SheetRow} (h : (d.sheets.find? fun row => row.name == name) = some row) :
    row.name = name := by
  have hname := List.find?_some h
  exact beq_iff_eq.1 hname

theorem sheetId?_eq_some_iff (hnames : (d.sheets.map SheetRow.name).Nodup) {id : ℕ} :
    d.sheetId? name = some id ↔ ⟨id, name⟩ ∈ d.sheets := by
  unfold sheetId?
  rw [Option.map_eq_some_iff]
  constructor
  · rintro ⟨row, hfind, rfl⟩
    rw [← name_of_find? hfind]
    exact List.mem_of_find?_eq_some hfind
  · intro hmem
    rcases hfind : d.sheets.find? fun row => row.name == name with _ | row
    · exact absurd (beq_self_eq_true name) (List.find?_eq_none.1 hfind _ hmem)
    · have hrow := List.inj_on_of_nodup_map hnames (List.mem_of_find?_eq_some hfind) hmem (name_of_find? hfind)
      exact ⟨row, hfind, congrArg SheetRow.id hrow⟩

theorem sheetId?_eq_none_iff : d.sheetId? name = none ↔ name ∉ d.sheets.map SheetRow.name := by
  unfold sheetId?
  rw [Option.map_eq_none_iff, List.find?_eq_none, List.mem_map]
  simp

/-- The number for a new sheet is not in use. -/
theorem id_ne_nextId {row : SheetRow} (h : row ∈ d.sheets) : row.id ≠ d.nextId := by
  have hle : row.id ≤ (d.sheets.map SheetRow.id).max?.getD 0 :=
    List.le_max?_getD_of_mem (List.mem_map_of_mem h)
  have hnext : d.nextId = max 0 ((d.sheets.map SheetRow.id).max?.getD 0) + 1 :=
    congrArg (· + 1) List.foldl_max
  omega

/-! ## Keeping sheets -/

/-- What the tables hold: numbers and names are keys of the table of sheets, the names are those of the stored sheets,
and the rows with the number of a sheet are its rows. -/
structure Holds (d : Database) (m : Shelf) : Prop where
  ids : (d.sheets.map SheetRow.id).Nodup
  names : (d.sheets.map SheetRow.name).Nodup
  listed : ∀ name, name ∈ d.sheets.map SheetRow.name ↔ (m name).isSome = true
  rows : ∀ id name r, ⟨id, name⟩ ∈ d.sheets → m name = some r → r.IsOrdered ∧ d.Lists id r

variable {m : Shelf}

theorem holds_empty : Holds Database.empty Shelf.empty where
  ids := List.nodup_nil
  names := List.nodup_nil
  listed _ := by simp [Database.empty, Shelf.empty]
  rows _ _ _ h := by cases h

theorem Holds.isListing (h : d.Holds m) : m.IsListing d.names := by
  have hsort : d.names = (d.sheets.map SheetRow.name).mergeSort fun a b => (compare a b).isLE :=
    List.map_mergeSort fun _ _ _ _ => rfl
  refine ⟨?_, fun name => ?_⟩
  · rw [hsort]
    exact mergeSort_ascending h.names
  · rw [hsort, (List.mergeSort_perm _ _).mem_iff, h.listed]

theorem Holds.load (h : d.Holds m) (name : String) : d.load name = (m name).getD SheetRecord.empty := by
  rcases hid : d.sheetId? name with _ | id
  · have hnone : m name = none := by
      rw [← Option.not_isSome_iff_eq_none, ← h.listed]
      exact sheetId?_eq_none_iff.1 hid
    unfold Database.load
    rw [hid, hnone]
    rfl
  · have hrow := (sheetId?_eq_some_iff h.names).1 hid
    obtain ⟨r, hr⟩ := Option.isSome_iff_exists.1 ((h.listed name).1 (List.mem_map_of_mem (f := SheetRow.name) hrow))
    obtain ⟨hordered, hlists⟩ := h.rows id name r hrow hr
    rw [load_of_lists hid hlists hordered, hr]
    rfl

/-- A sheet that is saved has a number of its own, and so the rows of the others stay. -/
theorem holds_replaced (hids : (d.sheets.map SheetRow.id).Nodup) (hnames : (d.sheets.map SheetRow.name).Nodup)
    (hlisted : ∀ other, other ≠ name → (other ∈ d.sheets.map SheetRow.name ↔ (m other).isSome = true))
    (hrows : ∀ id other r', other ≠ name → ⟨id, other⟩ ∈ d.sheets → m other = some r' → r'.IsOrdered ∧ d.Lists id r')
    {id : ℕ} (hid : ⟨id, name⟩ ∈ d.sheets) (hordered : r.IsOrdered) :
    (d.replaced id r).Holds (Function.update m name (some r)) where
  ids := hids
  names := hnames
  listed other := by
    rw [Function.update_apply]
    split
    · rename_i hn
      rw [hn]
      exact iff_of_true (List.mem_map_of_mem (f := SheetRow.name) hid) rfl
    · rename_i hn
      exact hlisted other hn
  rows id' other r' hrow hr' := by
    rw [Function.update_apply] at hr'
    split at hr'
    · rename_i hn
      cases hr'
      cases List.inj_on_of_nodup_map hnames hrow hid hn
      exact ⟨hordered, lists_replaced⟩
    · rename_i hn
      obtain ⟨hordered', hlists⟩ := hrows id' other r' hn hrow hr'
      refine ⟨hordered', hlists.replaced fun hsame => hn ?_⟩
      exact congrArg SheetRow.name (List.inj_on_of_nodup_map hids hrow hid hsame)

/-- A sheet without a number gets one that is new, and a sheet that has one keeps it; either way it is saved. -/
theorem Holds.save? (h : d.Holds m) (hordered : r.IsOrdered) :
    ∃ d', d.save? name r = some d' ∧ d'.Holds (Function.update m name (some r)) := by
  refine ⟨_, save?_eq (nodup_of_isOrdered hordered), ?_⟩
  unfold ensureSheet
  rcases hid : d.sheetId? name with _ | id
  · -- the sheet gets a number that no other has
    have hnew : name ∉ d.sheets.map SheetRow.name := sheetId?_eq_none_iff.1 hid
    have hother : ∀ {id other}, other ≠ name → (⟨id, other⟩ : SheetRow) ∈ d.sheets ++ [⟨d.nextId, name⟩] →
        ⟨id, other⟩ ∈ d.sheets := by
      intro id other hne hrow
      rcases List.mem_append.1 hrow with hrow | hrow
      · exact hrow
      · exact absurd (congrArg SheetRow.name (List.mem_singleton.1 hrow)) hne
    refine holds_replaced ?_ ?_ ?_ ?_ (List.mem_append_right _ (List.mem_singleton.2 rfl)) hordered
    · rw [List.map_append]
      refine h.ids.append (List.nodup_singleton _) fun id hmem hid => ?_
      obtain ⟨row, hrow, rfl⟩ := List.mem_map.1 hmem
      exact id_ne_nextId hrow (List.mem_singleton.1 hid)
    · rw [List.map_append]
      refine h.names.append (List.nodup_singleton _) fun other hmem hother => ?_
      have hsame : other = name := List.mem_singleton.1 hother
      exact hnew (hsame ▸ hmem)
    · intro other hne
      rw [List.map_append, List.mem_append, ← h.listed other]
      exact or_iff_left fun hmem => hne (List.mem_singleton.1 hmem)
    · intro id other r' hne hrow hr'
      obtain ⟨hordered', hlists⟩ := h.rows id other r' (hother hne hrow) hr'
      exact ⟨hordered', hlists.cells, hlists.histories, hlists.edits⟩
  · exact holds_replaced h.ids h.names (fun other _ => h.listed other) (fun id other r' _ => h.rows id other r')
      ((sheetId?_eq_some_iff h.names).1 hid) hordered

end Database

/-! ## The file -/

namespace DatabaseFile

/-- What a directory holds: the file has the tables, and no log lies beside it. -/
structure Holds (d : Directory) (m : Shelf) : Prop where
  tables : ∃ t : Database, Table.get? d file = some (.database t) ∧ t.Holds m
  noJournal : Table.get? d journal = none
  noWriteAhead : Table.get? d writeAhead = none

/-- The operations on sheets in a database file. -/
def storage : Storage Directory := ⟨list, load, save⟩

variable {d : Directory} {m : Shelf}

theorem Holds.isBlocked (h : Holds d m) : isBlocked d = false := by
  unfold DatabaseFile.isBlocked
  rw [h.noJournal, h.noWriteAhead]
  rfl

theorem Holds.tables_eq (h : Holds d m) : ∃ t : Database, DatabaseFile.tables d = .ok t ∧ t.Holds m := by
  obtain ⟨t, hfile, ht⟩ := h.tables
  refine ⟨t, ?_, ht⟩
  unfold DatabaseFile.tables
  rw [hfile, h.isBlocked]
  rfl

/-- Without logs there is nothing to clean up. -/
theorem Holds.recovered (h : Holds d m) : recovered d = d := by
  obtain ⟨t, hfile, -⟩ := h.tables
  have hopened : opened d = d := by
    unfold opened
    rw [hfile]
    rfl
  have hstale : isStale d = false := by
    unfold isStale bytesOf
    rw [h.noJournal]
  have hlog : bytesOf d writeAhead = [] := by
    unfold bytesOf
    rw [h.noWriteAhead]
  unfold DatabaseFile.recovered
  rw [hfile, h.isBlocked, hstale]
  rw [if_neg Bool.false_ne_true, hopened]
  dsimp only
  rw [hlog]
  exact ite_self d

theorem Holds.save (h : Holds d m) {name : String} {r : SheetRecord} (hname : isSheetName name = true)
    (hordered : r.IsOrdered) :
    (save d name r).1 = .ok () ∧ Holds (save d name r).2 (Function.update m name (some r)) := by
  obtain ⟨t, htables, ht⟩ := h.tables_eq
  obtain ⟨t', hsave, ht'⟩ := ht.save? hordered
  have herase : Table.erase d journal = d := Table.erase_eq_self h.noJournal
  unfold DatabaseFile.save
  rw [checkSheetName_of_valid hname, htables, h.recovered]
  dsimp only
  rw [herase, ite_self, hsave]
  refine ⟨rfl, ⟨t', ?_, ht'⟩, ?_, ?_⟩ <;> dsimp only <;> rw [Table.get?_insert]
  · rw [if_pos rfl]
  · rw [if_neg (by decide), h.noJournal]
  · rw [if_neg (by decide), h.noWriteAhead]

theorem keeps : storage.Keeps Holds fun _ r => r.IsOrdered where
  list d m h := by
    obtain ⟨t, htables, ht⟩ := h.tables_eq
    refine ⟨t.names, ?_, ht.isListing⟩
    show (tables d).map Database.names = _
    rw [htables]
    rfl
  load d m name h hname := by
    obtain ⟨t, htables, ht⟩ := h.tables_eq
    show DatabaseFile.load d name = _
    unfold DatabaseFile.load
    rw [checkSheetName_of_valid hname, htables, ← ht.load name]
    rfl
  save _ _ _ _ h := h.save

/-- In an empty directory the file is made, with empty tables. -/
theorem prepare_empty : ∃ d, prepare Table.empty = .ok d ∧ Holds d Shelf.empty := by
  refine ⟨_, rfl, ⟨Database.empty, rfl, Database.holds_empty⟩, rfl, rfl⟩

end DatabaseFile

end SharedSheet
