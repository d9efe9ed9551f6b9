/-
Sheets as text files. The files of different names are different files, and none of them is a draft
(`fileOf_injective`, `draftOf_ne_fileOf`), so saving one sheet changes the file of this sheet only. The directory keeps
sheets as long as the file system takes the names of the drafts (`keeps`).
-/
import SharedSheet.Proofs.Storage.RecordText
import SharedSheet.Proofs.Storage.Shelf
import SharedSheet.Proofs.Text.Utf8

namespace SharedSheet

namespace Directory

variable {d d' : Directory} {file target : String} {bytes old : List Text.Byte}

/-! ## Single operations -/

theorem perform?_create (hfits : fits file = true) (hfree : Table.get? d file ≠ some .folder) :
    d.perform? (.create file) = some (Table.insert d file (.file [])) := by
  show (if fits file && Table.get? d file != some .folder then _ else _) = _
  rw [if_pos]
  rw [hfits, Bool.true_and, bne_iff_ne]
  exact hfree

theorem perform?_append (h : Table.get? d file = some (.file old)) :
    d.perform? (.append file bytes) = some (Table.insert d file (.file (old ++ bytes))) := by
  unfold perform?
  dsimp only
  rw [h]

theorem perform?_rename (h : Table.get? d file = some (.file bytes)) (hfits : fits target = true)
    (hfree : Table.get? d target ≠ some .folder) :
    d.perform? (.rename file target) = some ((Table.erase d file).insert target (.file bytes)) := by
  unfold perform?
  dsimp only
  rw [h]
  dsimp only
  rw [if_pos]
  rw [hfits, Bool.true_and, bne_iff_ne]
  exact hfree

/-! ## Operations in a row -/

theorem performAll_cons {op : FileOp} (h : d.perform? op = some d') (ops : List FileOp) :
    d.performAll (op :: ops) = d'.performAll ops := by
  rw [performAll, h]

/-- Adding parts to a file one after the other adds them all. -/
theorem performAll_appends (h : Table.get? d file = some (.file old)) (parts : List (List Text.Byte))
    (ops : List FileOp) :
    ∃ d' : Directory, d.performAll (parts.map (.append file) ++ ops) = d'.performAll ops ∧
      ∀ other, Table.get? d' other =
        if other = file then some (.file (old ++ parts.flatten)) else Table.get? d other := by
  induction parts generalizing d old with
  | nil =>
    refine ⟨d, rfl, fun other => ?_⟩
    split
    · rename_i hother
      rw [hother, h, List.flatten_nil, List.append_nil]
    · rfl
  | cons part parts ih =>
    obtain ⟨d', hall, hget⟩ := ih (Table.get?_insert_self d file (.file (old ++ part)))
    refine ⟨d', ?_, fun other => ?_⟩
    · rw [List.map_cons, List.cons_append, performAll_cons (perform?_append h), hall]
    · rw [hget, Table.get?_insert, List.flatten_cons, List.append_assoc]
      split <;> rfl

end Directory

namespace TextFiles

/-! ## Names of files -/

theorem toList_fileOf (name : String) : (fileOf name).toList = name.toList ++ suffix := String.toList_ofList

theorem toList_draftOf (name : String) : (draftOf name).toList = '.' :: name.toList ++ suffix ++ ".tmp".toList :=
  String.toList_ofList

theorem fileOf_injective {a b : String} (h : fileOf a = fileOf b) : a = b := by
  have hchars := congrArg String.toList h
  rw [toList_fileOf, toList_fileOf] at hchars
  exact String.toList_inj.1 (List.append_cancel_right hchars)

/-- A draft ends in other letters than a sheet's file. -/
theorem draftOf_ne_fileOf (a b : String) : draftOf a ≠ fileOf b := by
  intro h
  have hdraft : (draftOf a).toList.getLast? = some 'p' := by
    rw [toList_draftOf, List.getLast?_append]
    rfl
  have hfile : (fileOf b).toList.getLast? = some 'd' := by
    rw [toList_fileOf, List.getLast?_append]
    rfl
  rw [h, hfile] at hdraft
  exact absurd hdraft (by decide)

/-- A file is listed under a name if it is the file of this name, and the name one that a sheet can have. -/
theorem sheetOf?_eq_some_iff {file name : String} :
    sheetOf? file = some name ↔ isSheetName name = true ∧ file = fileOf name := by
  constructor
  · intro h
    unfold sheetOf? at h
    dsimp only at h
    split at h
    · rename_i hsuffix
      split at h
      · rename_i hname
        cases h
        obtain ⟨front, hfront⟩ := List.isSuffixOf_iff_suffix.1 hsuffix
        refine ⟨hname, ?_⟩
        rw [← String.toList_inj, toList_fileOf, String.toList_ofList, ← hfront, List.length_append,
          Nat.add_sub_cancel, List.take_left']
        rfl
      · cases h
    · cases h
  · rintro ⟨hname, rfl⟩
    unfold sheetOf?
    dsimp only
    rw [toList_fileOf, if_pos (List.isSuffixOf_iff_suffix.2 (List.suffix_append _ _)), List.length_append,
      Nat.add_sub_cancel, List.take_left' rfl, String.ofList_toList, if_pos hname]

/-- The name of the sheet's file is shorter than that of the draft. -/
theorem fits_fileOf {name : String} (h : Directory.fits (draftOf name) = true) :
    Directory.fits (fileOf name) = true := by
  have hdraft : draftOf name = String.singleton '.' ++ fileOf name ++ ".tmp" := by
    rw [← String.toList_inj, String.toList_append, String.toList_append, toList_fileOf, toList_draftOf]
    simp
  unfold Directory.fits at h ⊢
  rw [decide_eq_true_eq] at h ⊢
  rw [hdraft, String.utf8ByteSize_append, String.utf8ByteSize_append] at h
  omega

/-! ## Saving -/

/-- Saving a text in parts leaves them all in the file of the sheet, and no draft. -/
theorem performAll_saveOps {d : Directory} {name : String} (hfits : Directory.fits (draftOf name) = true)
    (hdraft : Table.get? d (draftOf name) ≠ some .folder) (hfile : Table.get? d (fileOf name) ≠ some .folder)
    (parts : List (List Text.Byte)) :
    ∃ d' : Directory, d.performAll (saveOps name parts) = (d', true) ∧ ∀ other, Table.get? d' other =
      if other = fileOf name then some (.file parts.flatten)
      else if other = draftOf name then none
      else Table.get? d other := by
  have hne := draftOf_ne_fileOf name name
  obtain ⟨d₁, happend, hget₁⟩ := Directory.performAll_appends (Table.get?_insert_self d (draftOf name) (.file [])) parts
    [.flush (draftOf name), .rename (draftOf name) (fileOf name)]
  have hwritten : Table.get? d₁ (draftOf name) = some (.file parts.flatten) := by
    rw [hget₁, if_pos rfl, List.nil_append]
  have hfree : Table.get? d₁ (fileOf name) ≠ some .folder := by
    rw [hget₁, if_neg hne.symm, Table.get?_insert, if_neg hne.symm]
    exact hfile
  refine ⟨(Table.erase d₁ (draftOf name)).insert (fileOf name) (.file parts.flatten), ?_, fun other => ?_⟩
  · have hops : saveOps name parts = .create (draftOf name) ::
        (parts.map (.append (draftOf name)) ++ [.flush (draftOf name), .rename (draftOf name) (fileOf name)]) := rfl
    have hflush : d₁.perform? (.flush (draftOf name)) = some d₁ := rfl
    rw [hops, Directory.performAll_cons (Directory.perform?_create hfits hdraft), happend,
      Directory.performAll_cons hflush,
      Directory.performAll_cons (Directory.perform?_rename hwritten (fits_fileOf hfits) hfree), Directory.performAll]
  · rw [Table.get?_insert, Table.get?_erase, hget₁, Table.get?_insert]
    split
    · rfl
    · split <;> rfl

/-! ## Listing and loading -/

theorem list_ascending (d : Directory) : (list d).Pairwise (· < ·) := by
  refine mergeSort_ascending (d.nodup_keys.filterMap ?_)
  intro a b name ha hb
  rw [(sheetOf?_eq_some_iff.1 ha).2, (sheetOf?_eq_some_iff.1 hb).2]

/-- The names that are listed are those of sheets with a file. -/
theorem mem_list {d : Directory} {name : String} :
    name ∈ list d ↔ isSheetName name = true ∧ (Table.get? d (fileOf name)).isSome = true := by
  unfold list
  rw [(List.mergeSort_perm _ _).mem_iff, List.mem_filterMap, Option.isSome_iff_exists]
  constructor
  · rintro ⟨file, hkey, hfile⟩
    obtain ⟨hname, rfl⟩ := sheetOf?_eq_some_iff.1 hfile
    exact ⟨hname, Table.mem_keys_iff.1 hkey⟩
  · rintro ⟨hname, hentry⟩
    exact ⟨fileOf name, Table.mem_keys_iff.2 hentry, sheetOf?_eq_some_iff.2 ⟨hname, rfl⟩⟩

theorem load_of_file {d : Directory} {name : String} {r : SheetRecord} (hname : isSheetName name = true)
    (hfile : Table.get? d (fileOf name) = some (.file (Text.encode r.text))) (hr : SheetRecord.ofText r.text = .ok r) :
    load d name = .ok r := by
  unfold load
  rw [checkSheetName_of_valid hname, hfile]
  dsimp only
  rw [Text.decode?_encode]
  dsimp only
  rw [hr]
  rfl

/-! ## Keeping sheets -/

/-- What a directory holds: under the name of each sheet's file there is its text, and nothing if there is no sheet. -/
structure Holds (d : Directory) (m : Shelf) : Prop where
  file : ∀ name, isSheetName name = true →
    Table.get? d (fileOf name) = (m name).map fun r => .file (Text.encode r.text)
  draft : ∀ name, Table.get? d (draftOf name) ≠ some .folder
  named : ∀ name r, m name = some r → isSheetName name = true
  readable : ∀ name r, m name = some r → SheetRecord.ofText r.text = .ok r

/-- What can be saved: the file system takes the names of the files, and lengths are numbers of 64 bits. -/
def Accepts (name : String) (r : SheetRecord) : Prop :=
  Directory.fits (draftOf name) = true ∧ ∀ c ∈ r.cells, c.history.length < UInt64.size

/-- The operations on sheets in text files. -/
def storage : Storage Directory := ⟨fun d => .ok (list d), load, save⟩

variable {d : Directory} {m : Shelf}

theorem holds_empty : Holds Table.empty Shelf.empty where
  file _ _ := rfl
  draft _ h := by cases h
  named _ _ h := by cases h
  readable _ _ h := by cases h

theorem Holds.isListing (h : Holds d m) : m.IsListing (list d) where
  ascending := list_ascending d
  mem_iff name := by
    rw [mem_list]
    constructor
    · rintro ⟨hname, hsome⟩
      rw [h.file name hname, Option.isSome_map] at hsome
      exact hsome
    · intro hsome
      obtain ⟨r, hr⟩ := Option.isSome_iff_exists.1 hsome
      have hname := h.named name r hr
      rw [h.file name hname, Option.isSome_map]
      exact ⟨hname, hsome⟩

theorem Holds.load (h : Holds d m) {name : String} (hname : isSheetName name = true) :
    load d name = .ok ((m name).getD SheetRecord.empty) := by
  have hfile := h.file name hname
  rcases hr : m name with _ | r
  · rw [hr] at hfile
    unfold TextFiles.load
    rw [checkSheetName_of_valid hname, hfile]
    rfl
  · rw [hr] at hfile
    exact load_of_file hname hfile (h.readable name r hr)

theorem Holds.save (h : Holds d m) {name : String} {r : SheetRecord} (hname : isSheetName name = true)
    (haccepts : Accepts name r) :
    (save d name r).1 = .ok () ∧ Holds (save d name r).2 (Function.update m name (some r)) := by
  have hfile : Table.get? d (fileOf name) ≠ some .folder := by
    rw [h.file name hname]
    rcases m name with _ | r' <;> simp
  obtain ⟨d', hall, hget⟩ := performAll_saveOps haccepts.1 (h.draft name) hfile [Text.encode r.text]
  rw [List.flatten_singleton] at hget
  unfold TextFiles.save
  rw [checkSheetName_of_valid hname]
  dsimp only
  rw [hall]
  refine ⟨rfl, ?_, ?_, ?_, ?_⟩
  · intro other hother
    dsimp only
    rw [hget, Function.update_apply]
    by_cases hn : other = name
    · rw [if_pos (congrArg fileOf hn), if_pos hn]
      rfl
    · rw [if_neg fun he => hn (fileOf_injective he), if_neg (draftOf_ne_fileOf name other).symm, if_neg hn]
      exact h.file other hother
  · intro other
    dsimp only
    rw [hget, if_neg (draftOf_ne_fileOf other name)]
    split
    · simp
    · exact h.draft other
  · intro other r' hr'
    rw [Function.update_apply] at hr'
    split at hr'
    · rename_i hn
      rw [hn]
      exact hname
    · exact h.named other r' hr'
  · intro other r' hr'
    rw [Function.update_apply] at hr'
    split at hr'
    · cases hr'
      exact SheetRecord.ofText_text haccepts.2
    · exact h.readable other r' hr'

/-- A sheet whose file cannot have its name is not saved, and nothing is changed. -/
theorem save_of_unfit (d : Directory) {name : String} (hname : isSheetName name = true)
    (hfits : Directory.fits (draftOf name) = false) (r : SheetRecord) :
    save d name r = (.error (.io .nameTooLong), d) := by
  have hfault : saveFault name = .nameTooLong := by
    unfold saveFault
    rw [hfits]
    rfl
  have hcreate : d.perform? (.create (draftOf name)) = none := by
    show (if Directory.fits (draftOf name) && Table.get? d (draftOf name) != some .folder then _ else _) = none
    rw [hfits]
    rfl
  unfold save
  rw [checkSheetName_of_valid hname, saveOps, List.cons_append, Directory.performAll, hcreate]
  dsimp only
  rw [hfault]

/-- A directory of text files keeps sheets. -/
theorem keeps : storage.Keeps Holds Accepts where
  list _ _ h := ⟨_, rfl, h.isListing⟩
  load _ _ _ h := h.load
  save _ _ _ _ h := h.save

end TextFiles

end SharedSheet
