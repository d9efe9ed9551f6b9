/-
The grammar of stored sheets. `Records` says which lines are a sheet, without a reader, and `ofText_grammar` that the
reader takes exactly these, and otherwise tells the first line with which they cannot be the beginning of any
(`Viable`).

The reader is always in the middle of one record: behind every line that it takes there are whole records, and behind
these the lines that have brought it to its place (`Reached`). From every place a record can be completed, so what has
been read is viable; and what is a sheet is read to its end, so a line that is refused has made the lines before it
unviable.
-/
import Mathlib
import SharedSheet.Proofs.Sheet.Write
import SharedSheet.Proofs.Text.Lines
import SharedSheet.Storage.RecordText

namespace SharedSheet

/-! ## Written values -/

namespace Text

/-- A value in one of its written forms: a backslash and a letter for a backslash or a line end, and everything else but
a backslash for itself. -/
inductive Written : List Char → List Char → Prop
  | nil : Written [] []
  | plain {c : Char} {raw value : List Char} (hc : c ≠ '\\') (h : Written raw value) : Written (c :: raw) (c :: value)
  | escaped {d c : Char} {raw value : List Char} (hd : (d, c) ∈ [('\\', '\\'), ('n', '\n'), ('r', '\r')])
      (h : Written raw value) : Written ('\\' :: d :: raw) (c :: value)

theorem escaped?_eq_some_iff {d c : Char} :
    escaped? d = some c ↔ (d, c) ∈ [('\\', '\\'), ('n', '\n'), ('r', '\r')] := by
  unfold escaped?
  split
  · simp [eq_comm]
  · simp [eq_comm]
  · simp [eq_comm]
  · simp_all

/-- What stands behind a written value is read on its own. -/
theorem Written.unescape_append {before value : List Char} (h : Written before value) (after : List Char) :
    unescape (before ++ after) = (unescape after).map (value ++ ·) := by
  induction h with
  | nil =>
    rw [List.nil_append]
    rcases unescape after with _ | _ <;> rfl
  | plain hc _ ih =>
    rw [List.cons_append, unescape_plain hc, ih]
    rcases unescape after with _ | _ <;> rfl
  | escaped hd _ ih =>
    rw [List.cons_append, List.cons_append, unescape, escaped?_eq_some_iff.2 hd]
    dsimp only
    rw [ih]
    rcases unescape after with _ | _ <;> rfl

/-- What is read back from a line are the values that are written so. -/
theorem unescape_eq_ok_iff {raw value : List Char} : unescape raw = .ok value ↔ Written raw value := by
  constructor
  · intro h
    induction raw using unescape.induct generalizing value with
    | case1 =>
      cases h
      exact .nil
    | case2 => cases h
    | case3 d raw c hd ih =>
      rw [unescape, hd] at h
      obtain ⟨rest, hrest, rfl⟩ := map_eq_ok h
      exact .escaped (escaped?_eq_some_iff.1 hd) (ih hrest)
    | case4 d raw hd =>
      rw [unescape, hd] at h
      cases h
    | case5 c raw hlast hpair ih =>
      have hc := ne_backslash hlast hpair
      rw [unescape_plain hc] at h
      obtain ⟨rest, hrest, rfl⟩ := map_eq_ok h
      exact .plain hc (ih hrest)
  · intro h
    have hread := h.unescape_append []
    rwa [List.append_nil, unescape, Except.map, List.append_nil] at hread

end Text

/-! ## Lines -/

theorem Text.parts_eq_splitOn (separator : Char) (s : List Char) : parts separator s = s.splitOn separator := by
  induction s with
  | nil => rfl
  | cons c s ih =>
    rw [parts, ih, List.splitOn_cons_eq_if_modifyHead]
    by_cases hc : c = separator
    · rw [if_pos hc, if_pos (beq_iff_eq.2 hc)]
    · rw [if_neg hc, if_neg (mt beq_iff_eq.1 hc)]
      obtain ⟨part, later, hparts⟩ := List.exists_cons_of_ne_nil (List.splitOn_ne_nil separator s)
      rw [hparts]
      rfl

namespace SheetRecord

/-- The lines of a text are what stands between its newlines, where one newline at the end does not count. -/
theorem linesOf_eq_splitOn (s : List Char) :
    linesOf s = (if s.getLast? = some '\n' then s.dropLast else s).splitOn '\n' :=
  Text.parts_eq_splitOn ..

/-! ## The grammar -/

/-- A line that holds a value. -/
def IsValue (line : List Char) (value : String) : Prop := Text.Written line value.toList

/-- The text of a length: digits, perhaps with a plus in front of them, that stand for a number of 64 bits. -/
def IsLength (s : List Char) (n : ℕ) : Prop :=
  ∃ digits, (s = digits ∨ s = '+' :: digits) ∧ digits ≠ [] ∧ (∀ c ∈ digits, c.isDigit = true) ∧
    Nat.ofDigitChars 10 digits 0 = n ∧ n < 2 ^ 64

/-- The lines of a cell: a marker, its name, its content, the length of its history, and the entries of the history. -/
inductive IsCell : List (List Char) → CellRecord → Prop
  | intro {name content count : List Char} {history : List (List Char)} {c : CellRecord} {length : String}
      (hname : IsValue name c.name) (hcontent : IsValue content c.content) (hcount : IsValue count length)
      (hlength : IsLength length.toList c.history.length) (hhistory : List.Forall₂ IsValue history c.history) :
      IsCell (CellRecord.marker :: name :: content :: count :: history) c

/-- The lines of an edit: a marker, the name of the cell, and its prior content. -/
inductive IsEdit : List (List Char) → EditRecord → Prop
  | intro {cell prior : List Char} {e : EditRecord} (hcell : IsValue cell e.cell) (hprior : IsValue prior e.prior) :
      IsEdit [EditRecord.marker, cell, prior] e

/-- The lines of a sheet: those of its cells and edits one record after the other, in any order of the two. -/
inductive Records : List (List Char) → SheetRecord → Prop
  | nil : Records [] empty
  | cell {lines more : List (List Char)} {c : CellRecord} {r : SheetRecord} (hc : IsCell lines c)
      (h : Records more r) : Records (lines ++ more) ⟨c :: r.cells, r.edits⟩
  | edit {lines more : List (List Char)} {e : EditRecord} {r : SheetRecord} (he : IsEdit lines e)
      (h : Records more r) : Records (lines ++ more) ⟨r.cells, e :: r.edits⟩

/-- Lines which more lines can make those of a sheet. -/
def Viable (lines : List (List Char)) : Prop :=
  ∃ more r, (∀ l ∈ more, '\n' ∉ l) ∧ Records (lines ++ more) r

theorem Records.append {lines more : List (List Char)} {r q : SheetRecord} (h : Records lines r)
    (hmore : Records more q) : Records (lines ++ more) ⟨r.cells ++ q.cells, r.edits ++ q.edits⟩ := by
  induction h with
  | nil => exact hmore
  | cell hc _ ih =>
    rw [List.append_assoc]
    exact .cell hc ih
  | edit he _ ih =>
    rw [List.append_assoc]
    exact .edit he ih

theorem Records.concat_cell {lines last : List (List Char)} {r : SheetRecord} {c : CellRecord} (h : Records lines r)
    (hc : IsCell last c) : Records (lines ++ last) ⟨r.cells ++ [c], r.edits⟩ := by
  have happend := h.append (.cell hc .nil)
  rwa [List.append_nil, empty, List.append_nil] at happend

theorem Records.concat_edit {lines last : List (List Char)} {r : SheetRecord} {e : EditRecord} (h : Records lines r)
    (he : IsEdit last e) : Records (lines ++ last) ⟨r.cells, r.edits ++ [e]⟩ := by
  have happend := h.append (.edit he .nil)
  rwa [List.append_nil, empty, List.append_nil] at happend

/-! ## Lengths -/

theorem isValue_iff {line : List Char} {value : String} :
    IsValue line value ↔ Text.unescape line = .ok value.toList :=
  Text.unescape_eq_ok_iff.symm

theorem readDigits?_eq_some_iff {s : List Char} {n : ℕ} :
    Number.readDigits? s = some n ↔ s ≠ [] ∧ (∀ c ∈ s, c.isDigit = true) ∧ Nat.ofDigitChars 10 s 0 = n := by
  unfold Number.readDigits?
  rw [← List.all_eq_true]
  rcases s with _ | ⟨c, s⟩
  · simp
  · rcases (c :: s).all Char.isDigit with _ | _
    · simp
    · simp

theorem readLength?_eq_some_iff {s : List Char} {n : ℕ} : readLength? s = some n ↔ IsLength s n := by
  have hread : ∀ digits, (Number.readDigits? digits).filter (fun n => decide (n < UInt64.size)) = some n ↔
      digits ≠ [] ∧ (∀ c ∈ digits, c.isDigit = true) ∧ Nat.ofDigitChars 10 digits 0 = n ∧ n < 2 ^ 64 := by
    intro digits
    rw [Option.filter_eq_some_iff, readDigits?_eq_some_iff, decide_eq_true_eq, and_assoc, and_assoc]
    rfl
  unfold readLength? IsLength
  dsimp only
  rw [hread]
  by_cases hplus : s.head? = some '+'
  · -- a plus is no digit, so it is not one of the digits
    obtain ⟨digits, rfl⟩ : ∃ digits, s = '+' :: digits := List.head?_eq_some_iff.1 hplus
    rw [if_pos hplus, List.tail_cons]
    refine ⟨fun h => ⟨digits, .inr rfl, h⟩, ?_⟩
    rintro ⟨other, rfl | hother, h⟩
    · exact absurd (h.2.1 '+' List.mem_cons_self) (by decide)
    · cases hother
      exact h
  · rw [if_neg hplus]
    refine ⟨fun h => ⟨s, .inl rfl, h⟩, ?_⟩
    rintro ⟨digits, rfl | rfl, h⟩
    · exact h
    · exact absurd rfl hplus

/-! ## A sheet is read to its end -/

namespace Reader

variable {line : ℕ} {cells : List CellRecord} {edits : List EditRecord} {lines : List (List Char)}

/-- A value is taken from any of its written forms, wherever one is wanted. -/
theorem step_isValue {p : Place} (hp : p ≠ .marker) {l : List Char} {value : String} (h : IsValue l value) :
    step ⟨line, cells, edits, p⟩ l =
      match takeValue ⟨line, cells, edits, p⟩ value with
      | .ok next => .ok { next with line := line + 1 }
      | .error fault => .error ⟨line + 1, fault⟩ := by
  have htake : takeLine ⟨line, cells, edits, p⟩ l = takeValue ⟨line, cells, edits, p⟩ value := by
    unfold takeLine
    rw [isValue_iff.1 h]
    dsimp only
    rw [String.ofList_toList]
    rcases p with _ | _ | _ | _ | _ | _ | _
    · exact absurd rfl hp
    all_goals rfl
  show (match takeLine (Reader.mk line cells edits p) l with
    | .ok next => Except.ok { next with line := line + 1 }
    | .error fault => Except.error (Corrupt.mk (line + 1) fault)) = _
  rw [htake]

/-- The entries that are still to come complete the history. -/
theorem foldlM_history {name content : String} {priors read : List String} {left : ℕ}
    (hlines : List.Forall₂ IsValue lines priors) (hlength : priors.length = left + 1) :
    lines.foldlM step ⟨line, cells, edits, .history name content left read⟩ =
      .ok ⟨line + priors.length, ⟨name, content, read.reverse ++ priors⟩ :: cells, edits, .marker⟩ := by
  induction hlines generalizing left line read with
  | nil => cases hlength
  | @cons l prior lines priors hl hlines ih =>
    rw [List.foldlM_cons, step_isValue (by simp) hl]
    rw [List.length_cons, Nat.add_right_cancel_iff] at hlength
    rcases left with _ | left
    · -- this is the last one
      cases List.eq_nil_of_length_eq_zero hlength
      cases hlines
      show Except.ok (Reader.mk _ (CellRecord.mk _ _ (prior :: read).reverse :: _) _ _) = _
      rw [List.reverse_cons]
      rfl
    · refine (ih hlength).trans ?_
      rw [List.reverse_cons, List.append_assoc, List.singleton_append, List.length_cons, Nat.add_right_comm,
        Nat.add_assoc]

theorem foldlM_isCell {c : CellRecord} (h : IsCell lines c) :
    lines.foldlM step ⟨line, cells, edits, .marker⟩ = .ok ⟨line + lines.length, c :: cells, edits, .marker⟩ := by
  rcases h with ⟨hname, hcontent, hcount, hlength, hhistory⟩
  rename_i name content count history length
  obtain ⟨cellName, cellContent, priors⟩ := c
  have hmarker : step ⟨line, cells, edits, .marker⟩ CellRecord.marker = .ok ⟨line + 1, cells, edits, .cellName⟩ := rfl
  rw [List.foldlM_cons, hmarker]
  show List.foldlM _ _ _ = _
  rw [List.foldlM_cons, step_isValue (by simp) hname]
  show List.foldlM _ _ _ = _
  rw [List.foldlM_cons, step_isValue (by simp) hcontent]
  show List.foldlM _ _ _ = _
  rw [List.foldlM_cons, step_isValue (by simp) hcount]
  unfold takeValue
  dsimp only
  rw [readLength?_eq_some_iff.2 hlength]
  dsimp only
  rcases priors with _ | ⟨prior, priors⟩
  · cases hhistory
    rfl
  · refine (foldlM_history hhistory rfl).trans ?_
    simp only [List.length_cons, hhistory.length_eq, List.reverse_nil, List.nil_append]
    congr 2
    omega

theorem foldlM_isEdit {e : EditRecord} (h : IsEdit lines e) :
    lines.foldlM step ⟨line, cells, edits, .marker⟩ = .ok ⟨line + lines.length, cells, e :: edits, .marker⟩ := by
  rcases h with ⟨hcell, hprior⟩
  have hmarker : step ⟨line, cells, edits, .marker⟩ EditRecord.marker = .ok ⟨line + 1, cells, edits, .editCell⟩ := rfl
  rw [List.foldlM_cons, hmarker]
  show List.foldlM _ _ _ = _
  rw [List.foldlM_cons, step_isValue (by simp) hcell]
  show List.foldlM _ _ _ = _
  rw [List.foldlM_cons, step_isValue (by simp) hprior]
  rfl

theorem foldlM_records {r : SheetRecord} (h : Records lines r) :
    lines.foldlM step ⟨line, cells, edits, .marker⟩ =
      .ok ⟨line + lines.length, r.cells.reverse ++ cells, r.edits.reverse ++ edits, .marker⟩ := by
  induction h generalizing line cells edits with
  | nil => rfl
  | cell hc _ ih =>
    rw [List.foldlM_append, foldlM_isCell hc]
    refine ih.trans ?_
    rw [List.length_append, Nat.add_assoc, List.reverse_cons, List.append_assoc, List.singleton_append]
  | edit he _ ih =>
    rw [List.foldlM_append, foldlM_isEdit he]
    refine ih.trans ?_
    rw [List.length_append, Nat.add_assoc, List.reverse_cons, List.append_assoc, List.singleton_append]

/-! ## In the middle of a record -/

/-- The lines of a record that bring the reader from its marker to a place. -/
inductive Pending : Place → List (List Char) → Prop
  | marker : Pending .marker []
  | cellName : Pending .cellName [CellRecord.marker]
  | cellContent {l : List Char} {name : String} (hname : IsValue l name) :
      Pending (.cellContent name) [CellRecord.marker, l]
  | historyLength {l₁ l₂ : List Char} {name content : String} (hname : IsValue l₁ name)
      (hcontent : IsValue l₂ content) : Pending (.historyLength name content) [CellRecord.marker, l₁, l₂]
  | history {l₁ l₂ l₃ : List Char} {lines : List (List Char)} {name content length : String} {left : ℕ}
      {read : List String} (hname : IsValue l₁ name) (hcontent : IsValue l₂ content) (hcount : IsValue l₃ length)
      (hlength : IsLength length.toList (read.length + left + 1)) (hlines : List.Forall₂ IsValue lines read.reverse) :
      Pending (.history name content left read) (CellRecord.marker :: l₁ :: l₂ :: l₃ :: lines)
  | editCell : Pending .editCell [EditRecord.marker]
  | editPrior {l : List Char} {cell : String} (hcell : IsValue l cell) : Pending (.editPrior cell) [EditRecord.marker, l]

theorem isValue_nil : IsValue [] "" := .nil

theorem forall₂_replicate (n : ℕ) : List.Forall₂ IsValue (List.replicate n []) (List.replicate n "") := by
  induction n with
  | zero => exact .nil
  | succ n ih => exact .cons isValue_nil ih

/-- A record can be completed wherever the reader is. -/
theorem Pending.complete {p : Place} (h : Pending p lines) :
    p = .marker ∧ lines = [] ∨ ∃ more, (∀ l ∈ more, '\n' ∉ l) ∧
      ((∃ c, IsCell (lines ++ more) c) ∨ ∃ e, IsEdit (lines ++ more) e) := by
  have hzero : IsValue ['0'] "0" := .plain (by decide) .nil
  have hlength : IsLength "0".toList 0 := ⟨['0'], .inl rfl, by simp, by simp, rfl, Nat.two_pow_pos 64⟩
  cases h with
  | marker => exact .inl ⟨rfl, rfl⟩
  | cellName =>
    refine .inr ⟨[[], [], ['0']], by decide, .inl ⟨⟨"", "", []⟩, ?_⟩⟩
    exact .intro isValue_nil isValue_nil hzero hlength .nil
  | @cellContent _ name hname =>
    refine .inr ⟨[[], ['0']], by decide, .inl ⟨⟨name, "", []⟩, ?_⟩⟩
    exact .intro hname isValue_nil hzero hlength .nil
  | @historyLength _ _ name content hname hcontent =>
    refine .inr ⟨[['0']], by decide, .inl ⟨⟨name, content, []⟩, ?_⟩⟩
    exact .intro hname hcontent hzero hlength .nil
  | @history _ _ _ lines name content length left read hname hcontent hcount hlength hlines =>
    refine .inr ⟨List.replicate (left + 1) [], fun l hl => ?_, .inl
      ⟨⟨name, content, read.reverse ++ List.replicate (left + 1) ""⟩, ?_⟩⟩
    · rw [List.eq_of_mem_replicate hl]
      exact List.not_mem_nil
    · refine .intro hname hcontent hcount ?_ (List.rel_append hlines (forall₂_replicate (left + 1)))
      dsimp only
      rw [List.length_append, List.length_reverse, List.length_replicate]
      exact hlength
  | editCell =>
    refine .inr ⟨[[], []], by decide, .inr ⟨⟨"", ""⟩, ?_⟩⟩
    exact .intro isValue_nil isValue_nil
  | @editPrior _ cell hcell =>
    refine .inr ⟨[[]], by decide, .inr ⟨⟨cell, ""⟩, ?_⟩⟩
    exact .intro hcell isValue_nil

/-- What a line does that is taken in the middle of a record: the reader comes to another place in the record, or the
record is complete. -/
theorem Pending.takeValue {rd next : Reader} {l : List Char} {value : String} (h : Pending rd.place lines)
    (hvalue : IsValue l value) (htake : rd.takeValue value = .ok next) :
    (Pending next.place (lines ++ [l]) ∧ next.cells = rd.cells ∧ next.edits = rd.edits) ∨
    (next.place = .marker ∧ ∃ c, IsCell (lines ++ [l]) c ∧ next.cells = c :: rd.cells ∧ next.edits = rd.edits) ∨
    (next.place = .marker ∧ ∃ e, IsEdit (lines ++ [l]) e ∧ next.cells = rd.cells ∧ next.edits = e :: rd.edits) := by
  obtain ⟨line, cells, edits, place⟩ := rd
  dsimp only at h
  cases h with
  | marker => cases htake
  | cellName =>
    cases htake
    exact .inl ⟨.cellContent hvalue, rfl, rfl⟩
  | cellContent hname =>
    cases htake
    exact .inl ⟨.historyLength hname hvalue, rfl, rfl⟩
  | @historyLength _ _ name content hname hcontent =>
    unfold Reader.takeValue at htake
    dsimp only at htake
    split at htake
    · rename_i hlength
      cases htake
      refine .inr (.inl ⟨rfl, _, .intro hname hcontent hvalue ?_ .nil, rfl, rfl⟩)
      exact readLength?_eq_some_iff.1 hlength
    · rename_i left hlength
      cases htake
      refine .inl ⟨.history hname hcontent hvalue ?_ .nil, rfl, rfl⟩
      rw [List.length_nil, Nat.zero_add]
      exact readLength?_eq_some_iff.1 hlength
    · cases htake
  | @history _ _ _ lines name content length left read hname hcontent hcount hlength hlines =>
    have hread : List.Forall₂ IsValue (lines ++ [l]) (value :: read).reverse := by
      rw [List.reverse_cons]
      exact List.rel_append hlines (.cons hvalue .nil)
    rcases left with _ | left
    · cases htake
      refine .inr (.inl ⟨rfl, _, .intro hname hcontent hcount ?_ hread, rfl, rfl⟩)
      dsimp only
      rw [List.length_reverse, List.length_cons]
      exact hlength
    · cases htake
      refine .inl ⟨.history hname hcontent hcount ?_ hread, rfl, rfl⟩
      rw [List.length_cons, Nat.add_right_comm _ 1 left]
      exact hlength
  | editCell =>
    cases htake
    exact .inl ⟨.editPrior hvalue, rfl, rfl⟩
  | editPrior hcell =>
    cases htake
    exact .inr (.inr ⟨rfl, _, .intro hcell hvalue, rfl, rfl⟩)

/-- Behind whole records the lines have brought the reader to its place in the next one. -/
structure Reached (lines : List (List Char)) (rd : Reader) : Prop where
  line : rd.line = lines.length
  records : ∃ done r pending, Records done r ∧ Pending rd.place pending ∧ lines = done ++ pending ∧
    rd.cells = r.cells.reverse ∧ rd.edits = r.edits.reverse

theorem reached_start : Reached [] start := ⟨rfl, [], empty, [], .nil, .marker, rfl, rfl, rfl⟩

theorem takeLine_eq_ok {rd next : Reader} {l : List Char} (h : rd.takeLine l = .ok next) :
    (rd.place = .marker ∧ l = CellRecord.marker ∧ next = { rd with place := .cellName }) ∨
    (rd.place = .marker ∧ l = EditRecord.marker ∧ next = { rd with place := .editCell }) ∨
    ∃ value, IsValue l value ∧ rd.takeValue value = .ok next := by
  unfold takeLine at h
  split at h
  · rename_i hplace
    split at h
    · rename_i hl
      cases h
      exact .inl ⟨hplace, hl, rfl⟩
    · split at h
      · rename_i hl
        cases h
        exact .inr (.inl ⟨hplace, hl, rfl⟩)
      · cases h
  · split at h
    · rename_i value hvalue
      refine .inr (.inr ⟨_, isValue_iff.2 ?_, h⟩)
      rw [hvalue, String.toList_ofList]
    · cases h

theorem Reached.takeLine {rd next : Reader} {l : List Char} (h : Reached lines rd) (htake : rd.takeLine l = .ok next) :
    Reached (lines ++ [l]) { next with line := rd.line + 1 } := by
  obtain ⟨hline, done, r, pending, hrecords, hpending, rfl, hcells, hedits⟩ := h
  have hcount : rd.line + 1 = (done ++ pending ++ [l]).length := by
    rw [List.length_append, List.length_singleton, hline]
  refine ⟨hcount, ?_⟩
  dsimp only
  rcases takeLine_eq_ok htake with ⟨hplace, rfl, rfl⟩ | ⟨hplace, rfl, rfl⟩ | ⟨value, hvalue, hvalue'⟩
  · rw [hplace] at hpending
    cases hpending
    exact ⟨done, r, _, hrecords, .cellName, by rw [List.append_nil], hcells, hedits⟩
  · rw [hplace] at hpending
    cases hpending
    exact ⟨done, r, _, hrecords, .editCell, by rw [List.append_nil], hcells, hedits⟩
  · rcases hpending.takeValue hvalue hvalue' with ⟨hnext, hc, he⟩ | ⟨hplace, c, hc, hcells', he⟩ |
      ⟨hplace, e, he, hc, hedits'⟩
    · refine ⟨done, r, _, hrecords, hnext, by rw [List.append_assoc], ?_, ?_⟩
      · rw [hc, hcells]
      · rw [he, hedits]
    · -- a cell is complete
      refine ⟨_, _, [], hrecords.concat_cell hc, hplace ▸ .marker, by rw [List.append_assoc, List.append_nil], ?_, ?_⟩
      · rw [hcells', hcells, List.reverse_append]
        rfl
      · rw [he, hedits]
    · refine ⟨_, _, [], hrecords.concat_edit he, hplace ▸ .marker, by rw [List.append_assoc, List.append_nil], ?_, ?_⟩
      · rw [hc, hcells]
      · rw [hedits', hedits, List.reverse_append]
        rfl

theorem step_eq_ok {rd next : Reader} {l : List Char} (h : rd.step l = .ok next) :
    ∃ taken, rd.takeLine l = .ok taken ∧ next = { taken with line := rd.line + 1 } := by
  unfold step at h
  split at h
  · rename_i taken htake
    cases h
    exact ⟨taken, htake, rfl⟩
  · cases h

theorem line_of_step_eq_error {rd : Reader} {l : List Char} {e : Corrupt} (h : rd.step l = .error e) :
    e.line = rd.line + 1 := by
  unfold step at h
  split at h
  · cases h
  · cases h
    rfl

/-- However far the reader comes, it is in the middle of a record. -/
theorem reached_of_foldlM {rd : Reader} (h : lines.foldlM step start = .ok rd) : Reached lines rd := by
  induction lines using List.reverseRecOn generalizing rd with
  | nil =>
    cases h
    exact reached_start
  | append_singleton lines l ih =>
    rw [List.foldlM_append] at h
    obtain ⟨before, hbefore, h⟩ := bind_eq_ok h
    rw [List.foldlM_cons] at h
    obtain ⟨next, hnext, h⟩ := bind_eq_ok h
    cases h
    obtain ⟨taken, htake, rfl⟩ := step_eq_ok hnext
    exact (ih hbefore).takeLine htake

theorem Reached.viable {rd : Reader} (h : Reached lines rd) : Viable lines := by
  obtain ⟨-, done, r, pending, hrecords, hpending, rfl, -, -⟩ := h
  rcases hpending.complete with ⟨-, rfl⟩ | ⟨more, hmore, ⟨c, hc⟩ | ⟨e, he⟩⟩
  · exact ⟨[], r, by simp, by rw [List.append_nil, List.append_nil]; exact hrecords⟩
  · exact ⟨more, _, hmore, by rw [List.append_assoc]; exact hrecords.concat_cell hc⟩
  · exact ⟨more, _, hmore, by rw [List.append_assoc]; exact hrecords.concat_edit he⟩

theorem missing?_eq_none_iff {p : Place} : p.missing? = none ↔ p = .marker := by
  cases p <;> simp [Place.missing?]

/-- Whole records are read to the end. -/
theorem Reached.finish_eq_ok {rd : Reader} {r : SheetRecord} (h : Reached lines rd) (hfinish : rd.finish = .ok r) :
    Records lines r := by
  obtain ⟨-, done, q, pending, hrecords, hpending, rfl, hcells, hedits⟩ := h
  unfold finish at hfinish
  split at hfinish
  · rename_i hmissing
    cases hfinish
    rw [missing?_eq_none_iff.1 hmissing] at hpending
    cases hpending
    rw [List.append_nil, hcells, hedits, List.reverse_reverse, List.reverse_reverse]
    exact hrecords
  · cases hfinish

theorem line_of_finish_eq_error {rd : Reader} {e : Corrupt} (h : rd.finish = .error e) : e.line = rd.line := by
  unfold finish at h
  split at h
  · cases h
  · cases h
    rfl

end Reader

/-! ## What the reader takes -/

/-- The reader takes lines if and only if they are the lines of a sheet, and it finds this sheet. -/
theorem read_eq_ok_iff {lines : List (List Char)} {r : SheetRecord} :
    lines.foldlM Reader.step Reader.start >>= Reader.finish = .ok r ↔ Records lines r := by
  constructor
  · intro h
    obtain ⟨rd, hread, hfinish⟩ := bind_eq_ok h
    exact (Reader.reached_of_foldlM hread).finish_eq_ok hfinish
  · intro h
    rw [Reader.start, Reader.foldlM_records h, List.append_nil, List.append_nil]
    show Except.ok (SheetRecord.mk r.cells.reverse.reverse r.edits.reverse.reverse) = _
    rw [List.reverse_reverse, List.reverse_reverse]

/-- Where reading fails, the first line that fails stands behind lines that do not. -/
theorem foldlM_eq_error {lines : List (List Char)} {rd : Reader} {e : Corrupt}
    (h : lines.foldlM Reader.step rd = .error e) :
    ∃ before l after rd', lines = before ++ l :: after ∧ before.foldlM Reader.step rd = .ok rd' ∧
      rd'.step l = .error e := by
  induction lines generalizing rd with
  | nil => cases h
  | cons l lines ih =>
    rw [List.foldlM_cons] at h
    rcases bind_eq_error h with hstep | ⟨next, hstep, hrest⟩
    · exact ⟨[], l, lines, rd, rfl, rfl, hstep⟩
    · obtain ⟨before, l', after, rd', rfl, hbefore, hfail⟩ := ih hrest
      refine ⟨l :: before, l', after, rd', rfl, ?_, hfail⟩
      rw [List.foldlM_cons, hstep]
      exact hbefore

theorem foldlM_of_append {lines more : List (List Char)} {rd rd' : Reader}
    (h : (lines ++ more).foldlM Reader.step rd = .ok rd') : ∃ mid, lines.foldlM Reader.step rd = .ok mid := by
  rw [List.foldlM_append] at h
  obtain ⟨mid, hmid, -⟩ := bind_eq_ok h
  exact ⟨mid, hmid⟩

/-- Lines are viable exactly if the reader gets through them. -/
theorem viable_iff {lines : List (List Char)} :
    Viable lines ↔ ∃ rd, lines.foldlM Reader.step Reader.start = .ok rd := by
  constructor
  · rintro ⟨more, r, -, h⟩
    obtain ⟨rd, hread, -⟩ := bind_eq_ok (read_eq_ok_iff.2 h)
    exact foldlM_of_append hread
  · rintro ⟨rd, h⟩
    exact (Reader.reached_of_foldlM h).viable

theorem Viable.take {lines : List (List Char)} (h : Viable lines) (n : ℕ) : Viable (lines.take n) := by
  obtain ⟨rd, hread⟩ := viable_iff.1 h
  rw [← List.take_append_drop n lines] at hread
  exact viable_iff.2 (foldlM_of_append hread)

/-- Where lines go wrong that are not the lines of a sheet: at the first line that makes them no beginning of one, or,
if there is no such line, at their end. -/
inductive FaultAt (lines : List (List Char)) : ℕ → Prop
  | line {n : ℕ} (h : IsLeast {m | ¬Viable (lines.take m)} n) : FaultAt lines n
  | cut (viable : Viable lines) (unfinished : ¬∃ r, Records lines r) : FaultAt lines lines.length

theorem faultAt_of_error {lines : List (List Char)} {e : Corrupt}
    (h : lines.foldlM Reader.step Reader.start >>= Reader.finish = .error e) : FaultAt lines e.line := by
  rcases bind_eq_error h with hread | ⟨rd, hread, hfinish⟩
  · obtain ⟨before, l, after, rd, rfl, hbefore, hfail⟩ := foldlM_eq_error hread
    have hreached := Reader.reached_of_foldlM hbefore
    rw [Reader.line_of_step_eq_error hfail, hreached.line]
    have hstuck : ¬Viable (before ++ [l]) := by
      rw [viable_iff, List.foldlM_append, hbefore]
      show ¬∃ next, [l].foldlM Reader.step rd = .ok next
      rw [List.foldlM_cons, hfail]
      rintro ⟨next, ⟨⟩⟩
    refine .line ⟨?_, fun m hm => ?_⟩
    · rw [Set.mem_ofPred_eq, List.take_append, List.take_of_length_le (Nat.le_succ _), Nat.add_sub_cancel_left]
      exact hstuck
    · -- fewer lines are lines before the one that is refused
      by_contra hlt
      refine hm ?_
      rw [List.take_append_of_le_length (by omega)]
      exact hreached.viable.take m
  · have hreached := Reader.reached_of_foldlM hread
    rw [Reader.line_of_finish_eq_error hfinish, hreached.line]
    refine .cut hreached.viable ?_
    rintro ⟨r, hr⟩
    rw [read_eq_ok_iff.2 hr] at h
    cases h

/-- Lines go wrong in one place. -/
theorem FaultAt.unique {lines : List (List Char)} {n m : ℕ} (hn : FaultAt lines n) (hm : FaultAt lines m) : n = m := by
  rcases hn with ⟨hn⟩ | ⟨hviable, -⟩
  · rcases hm with ⟨hm⟩ | ⟨hviable, -⟩
    · exact hn.unique hm
    · exact absurd (hviable.take n) hn.1
  · rcases hm with ⟨hm⟩ | _
    · exact absurd (hviable.take m) hm.1
    · rfl

/-- A text says of a sheet what it holds: the empty text of the empty sheet, and all others by their lines. -/
def IsText (s : List Char) (r : SheetRecord) : Prop := s = [] ∧ r = empty ∨ s ≠ [] ∧ Records (linesOf s) r

/-- The reader finds a sheet in a text if and only if the text is empty or its lines are those of this sheet. It tells
the number of a line if and only if the text is that of no sheet, and its lines go wrong there. The lines of a text
are what stands between its newlines, where one newline at the end does not count. -/
theorem ofText_grammar (s : List Char) :
    (∀ r, ofText s = .ok r ↔ IsText s r) ∧
    (∀ n, (∃ fault, ofText s = .error ⟨n, fault⟩) ↔ (¬∃ r, IsText s r) ∧ FaultAt (linesOf s) n) ∧
    linesOf s = (if s.getLast? = some '\n' then s.dropLast else s).splitOn '\n' := by
  have hok : ∀ r, ofText s = .ok r ↔ IsText s r := by
    intro r
    unfold ofText IsText
    rcases s with _ | ⟨c, s⟩
    · simp [eq_comm]
    · simp only [List.isEmpty_cons, Bool.false_eq_true, if_false, reduceCtorEq, false_and, ne_eq, not_false_eq_true,
        true_and, false_or]
      exact read_eq_ok_iff
  have hfault : ∀ e, ofText s = .error e → FaultAt (linesOf s) e.line := by
    intro e he
    unfold ofText at he
    split at he
    · cases he
    · exact faultAt_of_error he
  refine ⟨hok, fun n => ⟨?_, ?_⟩, linesOf_eq_splitOn s⟩
  · rintro ⟨fault, h⟩
    refine ⟨?_, hfault _ h⟩
    rintro ⟨r, hr⟩
    rw [(hok r).2 hr] at h
    cases h
  · rintro ⟨hnone, hn⟩
    rcases h : ofText s with ⟨line, fault⟩ | r
    · exact ⟨fault, by rw [hn.unique (hfault _ h)]⟩
    · exact absurd ⟨r, (hok r).1 h⟩ hnone

example : ofText "CELL\nA1\n=B2\n+1\n\nCELL".toList = .error ⟨6, .unexpectedEnd "cell name"⟩ := by decide

end SheetRecord

end SharedSheet
