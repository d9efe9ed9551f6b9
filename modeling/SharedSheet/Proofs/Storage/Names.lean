/-
The names that a storage knows. However it fares, a storage knows no name under which nothing was ever saved
(`Storage.Remembers`): it lists only names that it knows, and saving a sheet, even if it fails halfway, makes it know
that one name at most. This is less than what a shelf says of a storage, and it is asked of no sheet that it can be
saved.
-/
import SharedSheet.Proofs.Storage.Backends

namespace SharedSheet

/-- A storage lists names that it knows, and learns names by saving sheets under them, whatever comes of it. -/
structure Storage.Remembers {σ : Type} (ops : Storage σ) (Knows : σ → String → Prop) : Prop where
  list : ∀ s names, ops.list s = .ok names → ∀ name ∈ names, Knows s name
  save : ∀ s name r other, Knows (ops.save s name r).2 other → Knows s other ∨ other = name

/-! ## Text files -/

/-- The file that can be there after an operation without having been there before. -/
def FileOp.target : FileOp → String
  | .create file => file
  | .append file _ => file
  | .flush file => file
  | .rename _ target => target

namespace Directory

variable {d d' : Directory} {other : String}

theorem isSome_of_perform {op : FileOp} (h : d.perform? op = some d') (hother : (Table.get? d' other).isSome = true) :
    (Table.get? d other).isSome = true ∨ op.target = other := by
  have hinsert : ∀ {d : Directory} {file : String} {e : Entry},
      (Table.get? (Table.insert d file e) other).isSome = true →
      (Table.get? d other).isSome = true ∨ file = other := by
    intro d file e hmem
    rw [Table.get?_insert] at hmem
    split at hmem
    · exact .inr (Eq.symm ‹_›)
    · exact .inl hmem
  cases op with
  | create file =>
    simp only [perform?] at h
    split at h
    · cases h
      exact hinsert hother
    · cases h
  | append file bytes =>
    simp only [perform?] at h
    split at h
    · cases h
      exact hinsert hother
    · cases h
  | flush file =>
    cases h
    exact .inl hother
  | rename file target =>
    simp only [perform?] at h
    split at h
    · split at h
      · cases h
        rcases hinsert hother with hold | htarget
        · obtain ⟨e, he⟩ := Option.isSome_iff_exists.1 hold
          exact .inl (Option.isSome_iff_exists.2 ⟨e, (Table.get?_erase_eq_some.1 he).2⟩)
        · exact .inr htarget
      · cases h
    · cases h

/-- However far operations get, they leave no file behind that was not there and is the target of none of them. -/
theorem isSome_of_performAll {ops : List FileOp} (hother : (Table.get? (d.performAll ops).1 other).isSome = true) :
    (Table.get? d other).isSome = true ∨ ∃ op ∈ ops, op.target = other := by
  induction ops generalizing d with
  | nil => exact .inl hother
  | cons op ops ih =>
    rw [performAll] at hother
    rcases hop : d.perform? op with _ | d'
    · rw [hop] at hother
      exact .inl hother
    · rw [hop] at hother
      rcases ih hother with hd' | ⟨op', hmem, htarget⟩
      · rcases isSome_of_perform hop hd' with hd | htarget
        · exact .inl hd
        · exact .inr ⟨op, List.mem_cons_self, htarget⟩
      · exact .inr ⟨op', List.mem_cons_of_mem _ hmem, htarget⟩

end Directory

namespace TextFiles

theorem target_saveOps {name : String} {parts : List (List Text.Byte)} {op : FileOp} (h : op ∈ saveOps name parts) :
    op.target = draftOf name ∨ op.target = fileOf name := by
  simp only [saveOps, List.mem_cons, List.mem_append, List.mem_map, List.not_mem_nil, or_false] at h
  rcases h with (rfl | ⟨part, -, rfl⟩) | rfl | rfl
  · exact .inl rfl
  · exact .inl rfl
  · exact .inl rfl
  · exact .inr rfl

/-- A save leaves the directory as its operations leave it, however far they get. -/
theorem save_snd (d : Directory) {name : String} (hname : checkSheetName name = .ok ()) (r : SheetRecord) :
    (save d name r).2 = (d.performAll (saveOps name [Text.encode r.text])).1 := by
  unfold save
  rw [hname]
  rcases d.performAll (saveOps name [Text.encode r.text]) with ⟨d', _ | _⟩
  · rfl
  · rfl

/-- A draft that is left behind is no sheet. -/
theorem remembers : storage.Remembers fun d name => name ∈ list d where
  list d names h name hname := by
    cases h
    exact hname
  save d name r other h := by
    change other ∈ list (save d name r).2 at h
    rcases hname : checkSheetName name with e | ⟨⟩
    · rw [save, hname] at h
      exact .inl h
    · rw [save_snd d hname] at h
      obtain ⟨hvalid, hfile⟩ := mem_list.1 h
      rcases Directory.isSome_of_performAll hfile with hold | ⟨op, hop, htarget⟩
      · exact .inl (mem_list.2 ⟨hvalid, hold⟩)
      · -- the new file is the draft, whose name no sheet file has, or that of the sheet
        rcases target_saveOps hop with hdraft | hsheet
        · exact absurd (hdraft.symm.trans htarget) (draftOf_ne_fileOf name other)
        · exact .inr (fileOf_injective (htarget.symm.trans hsheet))

end TextFiles

/-! ## Database files -/

namespace Database

variable {d d' : Database}

theorem sheets_foldlM {sheet : ℕ} {cells : List CellRecord} (h : cells.foldlM (insertCell? sheet) d = some d') :
    d'.sheets = d.sheets := by
  induction cells generalizing d d' with
  | nil =>
    cases h
    rfl
  | cons c cells ih =>
    rw [List.foldlM_cons] at h
    obtain ⟨d₁, hinsert, hrest⟩ := Option.bind_eq_some_iff.1 h
    unfold insertCell? at hinsert
    split at hinsert
    · cases hinsert
    · cases hinsert
      exact (ih hrest :)

theorem name_of_mem_ensureSheet {name : String} {row : SheetRow} (h : row ∈ (d.ensureSheet name).2.sheets) :
    row ∈ d.sheets ∨ row.name = name := by
  unfold ensureSheet at h
  split at h
  · exact .inl h
  · rcases List.mem_append.1 h with h | h
    · exact .inl h
    · rw [List.mem_singleton.1 h]
      exact .inr rfl

theorem name_of_mem_save {name : String} {r : SheetRecord} (h : d.save? name r = some d') {row : SheetRow}
    (hrow : row ∈ d'.sheets) : row ∈ d.sheets ∨ row.name = name := by
  unfold save? at h
  obtain ⟨d₁, hcells, hd'⟩ := Option.bind_eq_some_iff.1 h
  cases hd'
  rw [sheets_foldlM hcells] at hrow
  exact name_of_mem_ensureSheet hrow

end Database

namespace DatabaseFile

/-- The tables know a name if it is that of a row in the table of sheets, even while the file cannot be used. -/
def Knows (d : Directory) (name : String) : Prop :=
  ∃ t : Database, Table.get? d file = some (.database t) ∧ name ∈ t.sheets.map SheetRow.name

theorem get?_opened {d : Directory} {t : Database} (h : Table.get? (opened d) file = some (.database t)) :
    Table.get? d file = some (.database t) := by
  unfold opened at h
  split at h
  · rw [Table.get?_insert, if_pos rfl] at h
    cases h
  · exact h

/-- The file stays when a log beside it is removed. -/
theorem get?_removed (d : Directory) {log : String} (hlog : file ≠ log) (removes : Bool) :
    Table.get? (if removes then Table.erase d log else d) file = Table.get? d file := by
  cases removes with
  | false => rfl
  | true => exact (Table.get?_erase ..).trans (if_neg hlog)

/-- Cleaning up beside the file does not touch the tables. -/
theorem get?_recovered {d : Directory} {t : Database} (h : Table.get? (recovered d) file = some (.database t)) :
    Table.get? d file = some (.database t) := by
  have hstale := get?_removed d (by decide : file ≠ journal) (isStale d)
  unfold recovered at h
  split at h
  · exact get?_opened h
  · dsimp only at h
    generalize (if isStale d then Table.erase d journal else d) = d' at h hstale
    rw [← hstale]
    apply get?_opened
    split at h
    · exact h
    · rwa [Table.get?_erase, if_neg (by decide)] at h

theorem tables_eq_ok {d : Directory} {t : Database} (h : tables d = .ok t) :
    Table.get? d file = some (.database t) := by
  unfold tables at h
  split at h
  · rename_i t' hfile
    split at h
    · cases h
    · cases h
      exact hfile
  · cases h

theorem remembers : storage.Remembers Knows where
  list d names h name hname := by
    change (tables d).map Database.names = .ok names at h
    rcases ht : tables d with e | t
    · rw [ht] at h
      cases h
    · rw [ht] at h
      cases h
      obtain ⟨row, hrow, rfl⟩ := List.mem_map.1 hname
      exact ⟨t, tables_eq_ok ht, List.mem_map_of_mem ((List.mergeSort_perm _ _).mem_iff.1 hrow)⟩
  save d name r other h := by
    change Knows (save d name r).2 other at h
    unfold save at h
    rcases hname : checkSheetName name with e | ⟨⟩
    · rw [hname] at h
      exact .inl h
    · rcases ht : tables d with e | t
      · -- the file cannot be used; at most it is cleaned up
        rw [hname, ht] at h
        obtain ⟨t, hfile, hother⟩ := h
        exact .inl ⟨t, get?_recovered hfile, hother⟩
      · rw [hname, ht] at h
        dsimp only at h
        rcases hsave : t.save? name r with _ | t'
        · -- the transaction is refused, and the tables stay
          rw [hsave] at h
          obtain ⟨t', hfile, hother⟩ := h
          dsimp only at hfile
          rw [get?_removed _ (by decide) (isChange t name r)] at hfile
          exact .inl ⟨t', get?_recovered hfile, hother⟩
        · rw [hsave] at h
          obtain ⟨t'', hfile, hother⟩ := h
          rw [Table.get?_insert, if_pos rfl] at hfile
          cases hfile
          obtain ⟨row, hrow, rfl⟩ := List.mem_map.1 hother
          rcases Database.name_of_mem_save hsave hrow with hold | hnew
          · exact .inl ⟨t, tables_eq_ok ht, List.mem_map_of_mem hold⟩
          · exact .inr hnew

end DatabaseFile

/-! ## Memory, and any of them -/

theorem Memory.remembers : Memory.storage.Remembers fun m name => name ∈ m.keys where
  list m names h name hname := by
    cases h
    exact hname
  save m name r other h := by
    change other ∈ (Memory.save m name r).2.keys at h
    unfold Memory.save at h
    split at h
    · exact .inl h
    · obtain ⟨r', hr'⟩ := Table.mem_keys_iff.1 h
      rw [Table.get?_insert] at hr'
      split at hr'
      · exact .inr ‹_›
      · exact .inl (Table.mem_keys_iff.2 ⟨r', hr'⟩)

namespace Store

/-- What a store knows, in its way of keeping sheets. -/
def Knows (s : Store) (name : String) : Prop :=
  match s.backend with
  | .text => name ∈ TextFiles.list s.directory
  | .database => DatabaseFile.Knows s.directory name
  | .memory => name ∈ s.memory.keys

theorem remembers : storage.Remembers Knows where
  list s names h := by
    obtain ⟨backend, directory, memory⟩ := s
    cases backend with
    | text => exact TextFiles.remembers.list directory names h
    | database => exact DatabaseFile.remembers.list directory names h
    | memory => exact Memory.remembers.list memory names h
  save s name r other h := by
    obtain ⟨backend, directory, memory⟩ := s
    cases backend with
    | text => exact TextFiles.remembers.save directory name r other h
    | database => exact DatabaseFile.remembers.save directory name r other h
    | memory => exact Memory.remembers.save memory name r other h

/-- A store that is opened in an empty directory knows no names. -/
theorem not_knows_attach {backend : Backend} {s : Store} (h : attach backend Table.empty = .ok s) (name : String) :
    ¬s.Knows name := by
  cases backend with
  | text =>
    cases h
    intro hname
    cases (TextFiles.mem_list.1 hname).2
  | database =>
    cases h
    rintro ⟨t, hfile, hname⟩
    cases hfile
    exact List.not_mem_nil hname
  | memory =>
    cases h
    exact List.not_mem_nil

end Store

end SharedSheet
