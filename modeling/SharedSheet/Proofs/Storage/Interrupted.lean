/-
Interrupted saves. A save is a row of file operations, and it can end behind any of them, because the next one fails or
because nothing is done any more. All but the last operation stay in the draft (`FileOp.StaysIn`), and neither lists nor
loads look at drafts, whatever the names of the sheets. The last one gives the draft the name of the sheet's file. So
until it is carried out the sheets are as they were, and then the new sheet is in place as a whole (`saves_atomic`). The
directory may hold anything at first, such as the drafts of earlier saves.
-/
import SharedSheet.Proofs.Storage.TextFiles

namespace SharedSheet

/-- An operation that makes or writes this file and no other one. -/
def FileOp.StaysIn (file : String) : FileOp → Prop
  | .create f | .append f _ | .flush f => f = file
  | .rename .. => False

namespace Directory

variable {d d' : Directory} {file other : String}

/-! ## Operations up to the first that fails -/

/-- The operations of a row that are carried out. -/
def carriedOut (d : Directory) : List FileOp → List FileOp
  | [] => []
  | op :: ops =>
    match d.perform? op with
    | some d => op :: carriedOut d ops
    | none => []

theorem mem_of_mem_carriedOut {op : FileOp} {ops : List FileOp} (h : op ∈ d.carriedOut ops) : op ∈ ops := by
  induction ops generalizing d with
  | nil => exact h
  | cons first ops ih =>
    unfold carriedOut at h
    split at h
    · rcases List.mem_cons.1 h with rfl | h
      · exact List.mem_cons_self
      · exact List.mem_cons_of_mem _ (ih h)
    · cases h

theorem performAll_append (d : Directory) (ops ops' : List FileOp) :
    d.performAll (ops ++ ops') =
      if (d.performAll ops).2 then (d.performAll ops).1.performAll ops' else d.performAll ops := by
  induction ops generalizing d with
  | nil => rfl
  | cons op ops ih =>
    rw [List.cons_append, performAll, performAll]
    rcases d.perform? op with _ | d'
    · rfl
    · exact ih d'

theorem carriedOut_append (d : Directory) (ops ops' : List FileOp) :
    d.carriedOut (ops ++ ops') =
      if (d.performAll ops).2 then ops ++ (d.performAll ops).1.carriedOut ops' else d.carriedOut ops := by
  induction ops generalizing d with
  | nil => rfl
  | cons op ops ih =>
    rw [List.cons_append, carriedOut, carriedOut, performAll]
    rcases d.perform? op with _ | d'
    · rfl
    · dsimp only
      rw [ih]
      split <;> rfl

theorem performAll_singleton {op : FileOp} :
    d.performAll [op] = ((d.perform? op).getD d, (d.perform? op).isSome) := by
  rw [performAll]
  rcases d.perform? op with _ | d'
  · rfl
  · rfl

theorem carriedOut_singleton {op : FileOp} : d.carriedOut [op] = if (d.perform? op).isSome then [op] else [] := by
  rw [carriedOut]
  rcases d.perform? op with _ | d'
  · rfl
  · rfl

theorem get?_perform {op : FileOp} (hop : op.StaysIn file) (hother : other ≠ file) (h : d.perform? op = some d') :
    Table.get? d' other = Table.get? d other := by
  cases op with
  | create f =>
    cases hop
    simp only [perform?] at h
    split at h
    · cases h
      rw [Table.get?_insert, if_neg hother]
    · cases h
  | append f bytes =>
    cases hop
    simp only [perform?] at h
    split at h
    · cases h
      rw [Table.get?_insert, if_neg hother]
    · cases h
  | flush f =>
    cases h
    rfl
  | rename f target => cases hop

/-- Operations that stay in one file leave all others as they are, however far they get. -/
theorem get?_performAll {ops : List FileOp} (hops : ∀ op ∈ ops, op.StaysIn file) (hother : other ≠ file) :
    Table.get? (d.performAll ops).1 other = Table.get? d other := by
  induction ops generalizing d with
  | nil => rfl
  | cons op ops ih =>
    rw [performAll]
    split
    · rename_i d' hop
      rw [ih fun op h => hops op (List.mem_cons_of_mem _ h), get?_perform (hops op List.mem_cons_self) hother hop]
    · rfl

/-- A renamed file has the other name then, and no other file is changed. -/
theorem get?_rename {target : String} {bytes : List Text.Byte} (hfile : Table.get? d file = some (.file bytes))
    (hother : other ≠ file) (h : d.perform? (.rename file target) = some d') :
    Table.get? d' other = if other = target then some (.file bytes) else Table.get? d other := by
  simp only [perform?, hfile] at h
  split at h
  · cases h
    rw [Table.get?_insert, Table.get?_erase, if_neg hother]
  · cases h

end Directory

namespace TextFiles

variable {d d' : Directory} {name x : String}

/-! ## Which files the answers depend on -/

theorem list_congr (h : ∀ x, Table.get? d' (fileOf x) = Table.get? d (fileOf x)) : list d' = list d := by
  refine (list_ascending d').eq_of_mem_iff (list_ascending d) fun x => ?_
  rw [mem_list, mem_list, h]

theorem load_congr (h : Table.get? d' (fileOf x) = Table.get? d (fileOf x)) : load d' x = load d x := by
  unfold load
  rw [h]

/-! ## Saves that stop -/

/-- What is written to a draft. -/
def draftOps (name : String) (parts : List (List Text.Byte)) : List FileOp :=
  .create (draftOf name) :: (parts.map (.append (draftOf name)) ++ [.flush (draftOf name)])

theorem saveOps_eq (name : String) (parts : List (List Text.Byte)) :
    saveOps name parts = draftOps name parts ++ [.rename (draftOf name) (fileOf name)] := by
  unfold saveOps draftOps
  rw [List.cons_append, List.cons_append, List.append_assoc]
  rfl

theorem staysIn_of_mem_draftOps (name : String) (parts : List (List Text.Byte)) :
    ∀ op ∈ draftOps name parts, op.StaysIn (draftOf name) := by
  intro op hop
  unfold draftOps at hop
  rw [List.mem_cons, List.mem_append, List.mem_map, List.mem_singleton] at hop
  rcases hop with rfl | ⟨part, -, rfl⟩ | rfl
  · exact rfl
  · exact rfl
  · exact rfl

/-- A draft that has been written without a failure holds all parts. -/
theorem get?_draft {parts : List (List Text.Byte)} (h : (d.performAll (draftOps name parts)).2 = true) :
    Table.get? (d.performAll (draftOps name parts)).1 (draftOf name) = some (.file parts.flatten) := by
  unfold draftOps at h ⊢
  rw [Directory.performAll] at h ⊢
  split at h
  · rename_i d₀ hcreate
    have hempty : Table.get? d₀ (draftOf name) = some (.file []) := by
      simp only [Directory.perform?] at hcreate
      split at hcreate
      · cases hcreate
        exact Table.get?_insert_self ..
      · cases hcreate
    obtain ⟨d₁, hall, hget⟩ := Directory.performAll_appends hempty parts [.flush (draftOf name)]
    rw [hall]
    show Table.get? d₁ (draftOf name) = _
    rw [hget, if_pos rfl, List.nil_append]
  · cases h

/-- A save that may stop: these parts are written, and at most `stop` operations are carried out. If it stops before
the renaming then it may have written anything. -/
structure Attempt where
  name : String
  record : SheetRecord
  parts : List (List Text.Byte)
  stop : ℕ
  valid : isSheetName name = true
  written : (saveOps name parts).length ≤ stop → parts.flatten = Text.encode record.text
  countable : ∀ c ∈ record.cells, c.history.length < UInt64.size

namespace Attempt

/-- The operations up to the point where the save stops. -/
def ops (a : Attempt) : List FileOp := (saveOps a.name a.parts).take a.stop

/-- What a save makes of a directory, whether it gets to its end or not. -/
def after (d : Directory) (a : Attempt) : Directory := (d.performAll a.ops).1

/-- The save has given the draft the name of the sheet's file. -/
def Renamed (a : Attempt) (d : Directory) : Prop :=
  .rename (draftOf a.name) (fileOf a.name) ∈ d.carriedOut a.ops

instance (a : Attempt) (d : Directory) : Decidable (a.Renamed d) := inferInstanceAs (Decidable (_ ∈ _))

/-- The files after a save, the draft apart: all as before, or the sheet's file has got its new text. A save that does
not stop by itself tells which. -/
theorem outcome (a : Attempt) (d : Directory) :
    (¬a.Renamed d ∧ ((saveOps a.name a.parts).length ≤ a.stop → (d.performAll a.ops).2 = false) ∧
      ∀ file, file ≠ draftOf a.name → Table.get? (after d a) file = Table.get? d file) ∨
    (a.Renamed d ∧ (d.performAll a.ops).2 = true ∧
      ∀ file, file ≠ draftOf a.name → Table.get? (after d a) file =
        if file = fileOf a.name then some (.file (Text.encode a.record.text)) else Table.get? d file) := by
  have hstays := staysIn_of_mem_draftOps a.name a.parts
  have hframe : ∀ file, file ≠ draftOf a.name →
      Table.get? (d.performAll (draftOps a.name a.parts)).1 file = Table.get? d file :=
    fun file hfile => Directory.get?_performAll hstays hfile
  by_cases hstop : a.stop ≤ (draftOps a.name a.parts).length
  · -- the save stops while the draft is written
    have hops : a.ops = (draftOps a.name a.parts).take a.stop := by
      rw [ops, saveOps_eq, List.take_append_of_le_length hstop]
    refine .inl ⟨fun hmem => ?_, fun hend => ?_, fun file hfile => ?_⟩
    · rw [Renamed, hops] at hmem
      exact hstays _ (List.mem_of_mem_take (Directory.mem_of_mem_carriedOut hmem))
    · rw [saveOps_eq, List.length_append, List.length_singleton] at hend
      omega
    · rw [after, hops]
      exact Directory.get?_performAll (fun op hop => hstays op (List.mem_of_mem_take hop)) hfile
  · have hops : a.ops = draftOps a.name a.parts ++ [.rename (draftOf a.name) (fileOf a.name)] := by
      rw [ops, saveOps_eq, List.take_of_length_le]
      rw [List.length_append, List.length_singleton]
      omega
    have hwritten : a.parts.flatten = Text.encode a.record.text := by
      refine a.written ?_
      rw [saveOps_eq, List.length_append, List.length_singleton]
      omega
    unfold Renamed after
    rw [hops, Directory.performAll_append, Directory.carriedOut_append]
    by_cases hdraft : (d.performAll (draftOps a.name a.parts)).2 = true
    · have hnew := get?_draft hdraft
      rw [if_pos hdraft, if_pos hdraft, Directory.performAll_singleton, Directory.carriedOut_singleton]
      generalize (d.performAll (draftOps a.name a.parts)).1 = d₁ at hnew hframe
      rcases hrename : d₁.perform? (.rename (draftOf a.name) (fileOf a.name)) with _ | d₂
      · -- the file system does not take the new name
        refine .inl ⟨fun hmem => ?_, fun _ => rfl, hframe⟩
        rw [Option.isSome_none, if_neg Bool.false_ne_true, List.append_nil] at hmem
        exact hstays _ hmem
      · refine .inr ⟨List.mem_append_right _ List.mem_cons_self, rfl, fun file hfile => ?_⟩
        rw [← hwritten, ← hframe file hfile]
        exact Directory.get?_rename hnew hfile hrename
    · rw [if_neg hdraft, if_neg hdraft]
      exact .inl ⟨fun hmem => hstays _ (Directory.mem_of_mem_carriedOut hmem), fun _ => Bool.eq_false_iff.2 hdraft,
        hframe⟩

end Attempt

/-! ## What can be seen of it -/

/-- Two directories hold the same sheets. Names that no sheet can have are refused alike. -/
structure SameSheets (d d' : Directory) : Prop where
  list : list d' = list d
  load : ∀ x, load d' x = load d x

/-- A directory holds a sheet under its name, and besides the same sheets as another one. -/
structure Replaces (name : String) (r : SheetRecord) (d d' : Directory) : Prop where
  load_self : load d' name = .ok r
  load_others : ∀ x, x ≠ name → load d' x = load d x
  ascending : (list d').Pairwise (· < ·)
  mem_list : ∀ x, x ∈ list d' ↔ x = name ∨ x ∈ list d

namespace Attempt

/-- A save that has not come to the renaming cannot be seen. -/
theorem sameSheets {a : Attempt} (h : ¬a.Renamed d) : SameSheets d (after d a) := by
  obtain ⟨-, -, hfiles⟩ := (a.outcome d).resolve_right fun hr => h hr.1
  have hsheets : ∀ x, Table.get? (after d a) (fileOf x) = Table.get? d (fileOf x) :=
    fun x => hfiles _ (draftOf_ne_fileOf a.name x).symm
  exact ⟨list_congr hsheets, fun x => load_congr (hsheets x)⟩

/-- A save that has come to the renaming is done. -/
theorem replaces {a : Attempt} (h : a.Renamed d) : Replaces a.name a.record d (after d a) := by
  obtain ⟨-, -, hfiles⟩ := (a.outcome d).resolve_left fun hr => hr.1 h
  have hself : Table.get? (after d a) (fileOf a.name) = some (.file (Text.encode a.record.text)) := by
    rw [hfiles _ (draftOf_ne_fileOf a.name a.name).symm, if_pos rfl]
  have hothers : ∀ x, x ≠ a.name → Table.get? (after d a) (fileOf x) = Table.get? d (fileOf x) := by
    intro x hx
    rw [hfiles _ (draftOf_ne_fileOf a.name x).symm, if_neg fun he => hx (fileOf_injective he)]
  refine ⟨load_of_file a.valid hself (SheetRecord.ofText_text a.countable), fun x hx => load_congr (hothers x hx),
    list_ascending _, fun x => ?_⟩
  rw [mem_list, mem_list]
  by_cases hx : x = a.name
  · rw [hx, hself]
    simp [a.valid]
  · rw [hothers x hx]
    simp [hx]

/-! ## Many saves -/

/-- The directory after some saves, each of which may have stopped. -/
def afterAll (d : Directory) (attempts : List Attempt) : Directory := attempts.foldl after d

/-- The sheets that saves have left: under each name the one of the last save that has come to the renaming. -/
def left (d : Directory) : List Attempt → Shelf
  | [] => Shelf.empty
  | a :: attempts => fun x =>
    (left (after d a) attempts x).or (if a.Renamed d ∧ x = a.name then some a.record else none)

/-- After any saves every sheet is found that one of them has left, and all else is found as it was at first. -/
theorem afterAll_spec (d : Directory) (attempts : List Attempt) :
    (∀ x, load (afterAll d attempts) x =
      match left d attempts x with
      | some r => .ok r
      | none => load d x) ∧
    ∀ x, x ∈ list (afterAll d attempts) ↔ (left d attempts x).isSome = true ∨ x ∈ list d := by
  induction attempts generalizing d with
  | nil => exact ⟨fun _ => rfl, fun _ => by simp [afterAll, left, Shelf.empty]⟩
  | cons a attempts ih =>
    obtain ⟨hload, hlist⟩ := ih (after d a)
    unfold left
    refine ⟨fun x => (hload x).trans ?_, fun x => (hlist x).trans ?_⟩
    · rcases left (after d a) attempts x with _ | r
      · dsimp only
        rw [Option.none_or]
        by_cases hr : a.Renamed d
        · by_cases hx : x = a.name
          · rw [if_pos ⟨hr, hx⟩, hx]
            exact (replaces hr).load_self
          · rw [if_neg fun h => hx h.2]
            exact (replaces hr).load_others x hx
        · rw [if_neg fun h => hr h.1]
          exact (sameSheets hr).load x
      · rfl
    · rw [Option.isSome_or, Bool.or_eq_true, or_assoc]
      refine or_congr_right ?_
      by_cases hr : a.Renamed d
      · rw [(replaces hr).mem_list]
        simp [hr]
      · rw [(sameSheets hr).list]
        simp [hr]

/-- Saving is such an attempt, which does not stop by itself; it succeeds if it comes to the renaming. -/
theorem save_eq {a : Attempt} (hparts : a.parts = [Text.encode a.record.text])
    (hstop : (saveOps a.name a.parts).length ≤ a.stop) (d : Directory) :
    save d a.name a.record = (if a.Renamed d then .ok () else .error (.io (saveFault a.name)), after d a) := by
  have hops : saveOps a.name [Text.encode a.record.text] = a.ops := by
    rw [ops, List.take_of_length_le hstop, hparts]
  unfold save after
  rw [checkSheetName_of_valid a.valid, hops]
  rcases a.outcome d with ⟨hr, hend, -⟩ | ⟨hr, hend, -⟩
  · rw [if_neg hr, ← Prod.eta (d.performAll a.ops), hend hstop]
  · rw [if_pos hr, ← Prod.eta (d.performAll a.ops), hend]

/-- A save that does not stop by itself comes to the renaming if the file system takes the names of the files. -/
theorem renamed_of_fits {a : Attempt} (hstop : (saveOps a.name a.parts).length ≤ a.stop)
    (hfits : Directory.fits (draftOf a.name) = true) (hdraft : Table.get? d (draftOf a.name) ≠ some .folder)
    (hfile : Table.get? d (fileOf a.name) ≠ some .folder) : a.Renamed d := by
  obtain ⟨d', hall, -⟩ := performAll_saveOps hfits hdraft hfile a.parts
  have hdone : (d.performAll a.ops).2 = true := by
    rw [ops, List.take_of_length_le hstop, hall]
  rcases a.outcome d with ⟨-, hend, -⟩ | ⟨hr, -, -⟩
  · rw [hend hstop] at hdone
    cases hdone
  · exact hr

/-- A save replaces a sheet as a whole or not at all. The saves of a store do not stop by themselves, and then they come
to the renaming if the file system takes the names of the files. -/
structure Atomic (a : Attempt) (d : Directory) : Prop where
  hidden : ¬a.Renamed d → SameSheets d (after d a)
  done : a.Renamed d → Replaces a.name a.record d (after d a)
  comes : (saveOps a.name a.parts).length ≤ a.stop → Directory.fits (draftOf a.name) = true →
    Table.get? d (draftOf a.name) ≠ some .folder → Table.get? d (fileOf a.name) ≠ some .folder → a.Renamed d
  saved : (saveOps a.name a.parts).length ≤ a.stop → a.parts = [Text.encode a.record.text] →
    save d a.name a.record = (if a.Renamed d then .ok () else .error (.io (saveFault a.name)), after d a)

theorem atomic (a : Attempt) (d : Directory) : a.Atomic d where
  hidden := sameSheets
  done := replaces
  comes hstop := renamed_of_fits hstop
  saved hstop hparts := save_eq hparts hstop d

end Attempt

/-- Saves are atomic. Let any saves stop anywhere in any directory. Under each name one finds the sheet of the last
save that came to the renaming, and otherwise what was there at first; the list has the names of these sheets besides
those that it had at first. The next save cannot be seen before its own renaming, and with the renaming the sheet is
there, the name is listed, and nothing else is different. -/
theorem saves_atomic (d : Directory) (earlier : List Attempt) :
    (∀ x, load (Attempt.afterAll d earlier) x =
      match Attempt.left d earlier x with
      | some r => .ok r
      | none => load d x) ∧
    (∀ x, x ∈ list (Attempt.afterAll d earlier) ↔ (Attempt.left d earlier x).isSome = true ∨ x ∈ list d) ∧
    ∀ a : Attempt, a.Atomic (Attempt.afterAll d earlier) := by
  obtain ⟨hload, hlist⟩ := Attempt.afterAll_spec d earlier
  exact ⟨hload, hlist, fun a => a.atomic _⟩

example :
    let stopped : Attempt :=
      ⟨"a", ⟨[], [⟨"A1", "5"⟩]⟩, [Text.encode "CELL_E".toList], 2, by decide, by simp [saveOps], by simp⟩
    let d := (save Table.empty ".a.sprd" SheetRecord.empty).2
    (stopped.after d).keys = [".a.sprd.sprd", ".a.sprd.tmp"] ∧
      load (stopped.after d) "a" = .ok SheetRecord.empty := by
  intro stopped d
  dsimp only [stopped, d]
  constructor
  · cbv
  · cbv

end TextFiles

end SharedSheet
