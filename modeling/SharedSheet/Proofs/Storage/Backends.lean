/-
The three ways of keeping sheets are one. Whatever is saved, loaded and listed, text files, a database file and memory
give the answers that one shelf gives, call by call (`backends_agree`): a sheet is found as it was saved last, the names
are listed in order, and a name that no sheet can have is refused and changes nothing. What one call does to a store
that holds a shelf is `Store.Holds.answer`, and the rest is an induction on the calls.
-/
import SharedSheet.Proofs.Storage.Database
import SharedSheet.Proofs.Storage.TextFiles

namespace SharedSheet

/-! ## Calls -/

/-- What a store is asked for. -/
inductive StoreCall where
  | save (name : String) (r : SheetRecord)
  | load (name : String)
  | list
  deriving DecidableEq, Repr

/-- What a store gives back. -/
inductive StoreReply where
  | saved
  | sheet (r : SheetRecord)
  | names (names : List String)
  deriving DecidableEq, Repr

abbrev StoreAnswer := Except StorageError StoreReply

/-- The name that a call is about. -/
def StoreCall.name? : StoreCall → Option String
  | .save name _ => some name
  | .load name => some name
  | .list => none

/-- The answer to a call, and the store then. -/
def Store.answer (s : Store) : StoreCall → StoreAnswer × Store
  | .save name r => ((s.save name r).1.map fun _ => .saved, (s.save name r).2)
  | .load name => ((s.load name).map .sheet, s.afterLoad name)
  | .list => (s.list.map .names, s.afterList)

/-- The answers to calls, one after the other. -/
def Store.answers (s : Store) : List StoreCall → List StoreAnswer
  | [] => []
  | call :: calls => (s.answer call).1 :: (s.answer call).2.answers calls

/-- What can be asked for: a sheet that is saved has its cells in order and lengths of 64 bits, and the file system
takes its name. -/
def StoreCall.Admissible : StoreCall → Prop
  | .save name r =>
    isSheetName name = true → Directory.fits (TextFiles.draftOf name) = true ∧ r.IsOrdered ∧
      ∀ c ∈ r.cells, c.history.length < UInt64.size
  | _ => True

instance (r : SheetRecord) : Decidable r.IsOrdered :=
  inferInstanceAs (Decidable ((r.cells.map CellRecord.name).Pairwise (· < ·)))

instance : DecidablePred StoreCall.Admissible
  | .save name r => inferInstanceAs (Decidable (isSheetName name = true →
      Directory.fits (TextFiles.draftOf name) = true ∧ r.IsOrdered ∧ ∀ c ∈ r.cells, c.history.length < UInt64.size))
  | .load _ => inferInstanceAs (Decidable True)
  | .list => inferInstanceAs (Decidable True)

namespace Shelf

/-! ## The answers of a shelf -/

/-- The shelf after a call. -/
def after (m : Shelf) : StoreCall → Shelf
  | .save name r => if isSheetName name then Function.update m name (some r) else m
  | _ => m

/-- The answer of a shelf to a call. -/
def Answers (m : Shelf) : StoreCall → StoreAnswer → Prop
  | .save name _, a => a = (checkSheetName name).map fun _ => .saved
  | .load name, a => a = (checkSheetName name).map fun _ => .sheet ((m name).getD SheetRecord.empty)
  | .list, a => ∃ names, a = .ok (.names names) ∧ m.IsListing names

/-- The answers of a shelf to calls, one after the other. -/
inductive Trace : Shelf → List StoreCall → List StoreAnswer → Prop where
  | nil (m : Shelf) : Trace m [] []
  | cons {m : Shelf} {call : StoreCall} {a : StoreAnswer} {calls : List StoreCall} {answers : List StoreAnswer} :
    m.Answers call a → Trace (m.after call) calls answers → Trace m (call :: calls) (a :: answers)

variable {m : Shelf}

/-- A shelf has one list of names. -/
theorem IsListing.unique {names names' : List String} (h : m.IsListing names) (h' : m.IsListing names') :
    names = names' := by
  refine h.ascending.eq_of_mem_iff h'.ascending fun name => ?_
  rw [h.mem_iff, h'.mem_iff]

theorem Answers.unique {call : StoreCall} {a b : StoreAnswer} (ha : m.Answers call a) (hb : m.Answers call b) :
    a = b := by
  cases call with
  | save name r => exact ha.trans hb.symm
  | load name => exact ha.trans hb.symm
  | list =>
    obtain ⟨names, rfl, hnames⟩ := ha
    obtain ⟨names', rfl, hnames'⟩ := hb
    rw [hnames.unique hnames']

theorem Trace.unique {calls : List StoreCall} {as bs : List StoreAnswer} (ha : m.Trace calls as)
    (hb : m.Trace calls bs) : as = bs := by
  induction ha generalizing bs with
  | nil m =>
    cases hb
    rfl
  | cons hcall _ ih =>
    cases hb with
    | cons hcall' hrest' => rw [hcall.unique hcall', ih hrest']

end Shelf

/-! ## Stores -/

namespace Store

/-- What a store holds. -/
def Holds (s : Store) (m : Shelf) : Prop :=
  match s.backend with
  | .text => TextFiles.Holds s.directory m
  | .database => DatabaseFile.Holds s.directory m
  | .memory => Memory.Holds s.memory m

/-- What a store of any backend can save. -/
def Accepts (name : String) (r : SheetRecord) : Prop := TextFiles.Accepts name r ∧ r.IsOrdered

theorem save_text (directory : Directory) (memory : Table String SheetRecord) (name : String) (r : SheetRecord) :
    (Store.mk .text directory memory).save name r =
      ((TextFiles.save directory name r).1, ⟨.text, (TextFiles.save directory name r).2, memory⟩) := by
  unfold Store.save
  generalize TextFiles.save directory name r = result
  rfl

theorem keeps : storage.Keeps Holds Accepts where
  list s m h := by
    obtain ⟨backend, directory, memory⟩ := s
    cases backend with
    | text => exact TextFiles.keeps.list directory m h
    | database => exact DatabaseFile.keeps.list directory m h
    | memory => exact Memory.keeps.list memory m h
  load s m name h := by
    obtain ⟨backend, directory, memory⟩ := s
    cases backend with
    | text => exact TextFiles.keeps.load directory m name h
    | database => exact DatabaseFile.keeps.load directory m name h
    | memory => exact Memory.keeps.load memory m name h
  save s m name r h hname haccepts := by
    obtain ⟨backend, directory, memory⟩ := s
    cases backend with
    | text =>
      show (Store.save _ name r).1 = _ ∧ Holds (Store.save _ name r).2 _
      rw [save_text]
      exact TextFiles.keeps.save directory m name r h hname haccepts.1
    | database => exact DatabaseFile.keeps.save directory m name r h hname haccepts.2
    | memory => exact Memory.keeps.save memory m name r h hname trivial

variable {s : Store} {m : Shelf}

/-- Whatever comes of saving a sheet with lengths of 64 bits, the store holds the sheet or what it held before. -/
theorem Holds.save (h : s.Holds m) {name : String} {r : SheetRecord} (hname : isSheetName name = true)
    (hordered : r.IsOrdered) (hlengths : ∀ c ∈ r.cells, c.history.length < UInt64.size) :
    (s.save name r).2.Holds (Function.update m name (some r)) ∨ (s.save name r).2.Holds m := by
  obtain ⟨backend, directory, memory⟩ := s
  cases backend with
  | text =>
    rw [save_text]
    rcases hfits : Directory.fits (TextFiles.draftOf name) with _ | _
    · rw [TextFiles.save_of_unfit directory hname hfits]
      exact .inr h
    · exact .inl (TextFiles.keeps.save directory m name r h hname ⟨hfits, hlengths⟩).2
  | database => exact .inl (DatabaseFile.keeps.save directory m name r h hname hordered).2
  | memory => exact .inl (Memory.keeps.save memory m name r h hname trivial).2

/-- A look at the sheets has nothing to clean up. -/
theorem Holds.afterList (h : s.Holds m) : s.afterList = s := by
  obtain ⟨backend, directory, memory⟩ := s
  cases backend with
  | database =>
    have hd : DatabaseFile.Holds directory m := h
    show Store.mk _ (DatabaseFile.recovered directory) _ = _
    rw [hd.recovered]
  | text => rfl
  | memory => rfl

theorem Holds.afterLoad (h : s.Holds m) (name : String) : s.afterLoad name = s := by
  unfold Store.afterLoad
  rw [h.afterList, ite_self]

theorem save_of_invalid {name : String} (hname : isSheetName name = false) (r : SheetRecord) :
    s.save name r = (.error (.invalidName name), s) := by
  obtain ⟨backend, directory, memory⟩ := s
  have hcheck := checkSheetName_of_invalid hname
  cases backend <;>
    simp only [Store.save, TextFiles.save, DatabaseFile.save, Memory.save, hcheck]

theorem load_of_invalid {name : String} (hname : isSheetName name = false) :
    s.load name = .error (.invalidName name) := by
  obtain ⟨backend, directory, memory⟩ := s
  have hcheck := checkSheetName_of_invalid hname
  cases backend <;>
    simp only [Store.load, TextFiles.load, DatabaseFile.load, Memory.load, hcheck] <;> rfl

theorem answer_of_invalid {call : StoreCall} {name : String} (hcall : call.name? = some name)
    (hname : isSheetName name = false) : s.answer call = (.error (.invalidName name), s) := by
  cases call with
  | save name' r =>
    cases hcall
    show ((s.save name r).1.map _, (s.save name r).2) = _
    rw [save_of_invalid hname]
    rfl
  | load name' =>
    cases hcall
    show ((s.load name).map _, s.afterLoad name) = _
    rw [load_of_invalid hname, Store.afterLoad, hname]
    rfl
  | list => cases hcall

/-- A call is answered as the shelf answers it, and what the store holds then is the shelf after it. -/
theorem Holds.answer (h : s.Holds m) {call : StoreCall} (hcall : call.Admissible) :
    m.Answers call (s.answer call).1 ∧ (s.answer call).2.Holds (m.after call) := by
  cases call with
  | save name r =>
    rcases hname : isSheetName name with _ | _
    · rw [answer_of_invalid rfl hname]
      refine ⟨?_, ?_⟩
      · show _ = (checkSheetName name).map _
        rw [checkSheetName_of_invalid hname]
        rfl
      · rw [Shelf.after, hname]
        exact h
    · obtain ⟨hfits, hordered, hlength⟩ := hcall hname
      obtain ⟨hsaved, hafter⟩ := keeps.save s m name r h hname ⟨⟨hfits, hlength⟩, hordered⟩
      refine ⟨?_, ?_⟩
      · show (s.save name r).1.map _ = (checkSheetName name).map _
        rw [checkSheetName_of_valid hname]
        exact congrArg (Except.map _) hsaved
      · rw [Shelf.after, hname]
        exact hafter
  | load name =>
    rcases hname : isSheetName name with _ | _
    · rw [answer_of_invalid rfl hname]
      refine ⟨?_, h⟩
      show _ = (checkSheetName name).map _
      rw [checkSheetName_of_invalid hname]
      rfl
    · refine ⟨?_, ?_⟩
      · show (s.load name).map _ = (checkSheetName name).map _
        rw [checkSheetName_of_valid hname]
        exact congrArg (Except.map _) (keeps.load s m name h hname)
      · show (s.afterLoad name).Holds m
        rw [h.afterLoad]
        exact h
  | list =>
    obtain ⟨names, hnames, hlisting⟩ := keeps.list s m h
    refine ⟨⟨names, congrArg (Except.map _) hnames, hlisting⟩, ?_⟩
    show s.afterList.Holds m
    rw [h.afterList]
    exact h

theorem Holds.trace (h : s.Holds m) {calls : List StoreCall} (hcalls : ∀ call ∈ calls, call.Admissible) :
    m.Trace calls (s.answers calls) := by
  induction calls generalizing s m with
  | nil => exact .nil m
  | cons call calls ih =>
    obtain ⟨hanswer, hafter⟩ := h.answer (hcalls call List.mem_cons_self)
    exact .cons hanswer (ih hafter fun call hmem => hcalls call (List.mem_cons_of_mem _ hmem))

/-- A new store in an empty directory holds no sheets. -/
theorem attach_empty (backend : Backend) : ∃ s, attach backend Table.empty = .ok s ∧ s.Holds Shelf.empty := by
  cases backend with
  | text => exact ⟨_, rfl, TextFiles.holds_empty⟩
  | database =>
    obtain ⟨d, hd, hholds⟩ := DatabaseFile.prepare_empty
    refine ⟨⟨.database, d, Table.empty⟩, ?_, hholds⟩
    unfold attach
    dsimp only
    rw [hd]
    rfl
  | memory => exact ⟨_, rfl, fun _ => rfl⟩

/-- Text files, a database file and memory answer calls alike, and they answer as a shelf does that is empty at first.
A call with a name that no sheet can have is refused and leaves any store as it was. -/
theorem backends_agree (calls : List StoreCall) (h : ∀ call ∈ calls, call.Admissible) :
    (∃ answers, Shelf.empty.Trace calls answers ∧
      ∀ backend, ∃ s, attach backend Table.empty = .ok s ∧ s.answers calls = answers) ∧
    ∀ (s : Store) (call : StoreCall) (name : String), call.name? = some name → isSheetName name = false →
      s.answer call = (.error (.invalidName name), s) := by
  refine ⟨?_, fun s call name => answer_of_invalid⟩
  obtain ⟨s₀, -, hs₀⟩ := attach_empty .memory
  refine ⟨s₀.answers calls, hs₀.trace h, fun backend => ?_⟩
  obtain ⟨s, hs, hholds⟩ := attach_empty backend
  exact ⟨s, hs, (hholds.trace h).unique (hs₀.trace h)⟩

/-- Names that look like those of files of a sheet are names like any other. -/
theorem backends_agree_suffixes :
    let calls : List StoreCall := [.save ".sprd" ⟨[⟨"A1", "=B2", ["1", ""]⟩, ⟨"B2", "\\\n", []⟩], [⟨"A1", "1"⟩]⟩,
      .save "a.tmp" SheetRecord.empty, .save ".." ⟨[⟨"B2", "", []⟩, ⟨"A1", "", []⟩], []⟩, .load ".sprd", .list]
    (∀ call ∈ calls, call.Admissible) ∧
      ∃ answers, Shelf.empty.Trace calls answers ∧
        ∀ backend, ∃ s, attach backend Table.empty = .ok s ∧ s.answers calls = answers := by
  intro calls
  have hadmissible : ∀ call ∈ calls, call.Admissible := by
    dsimp only [calls]
    decide
  exact ⟨hadmissible, (backends_agree calls hadmissible).1⟩

end Store

end SharedSheet
