/-
The text of a sheet and its reading. What a sheet writes are lines of its grammar (`records_lines`), if the lengths of
its histories are numbers that can be read; and the reader does not get past a length that is none
(`foldlM_cell_long`). So a sheet is found again in its text exactly if all lengths can be read (`ofText_text_iff`).
-/
import SharedSheet.Proofs.Number.Decimal
import SharedSheet.Proofs.Storage.RecordGrammar

namespace SharedSheet

open Text

/-! ## Lines -/

theorem CellRecord.newline_notMem {c : CellRecord} : ∀ l ∈ c.lines, '\n' ∉ l := by
  intro l hl
  simp only [CellRecord.lines, List.mem_cons, List.mem_map] at hl
  rcases hl with rfl | rfl | rfl | rfl | ⟨prior, -, rfl⟩
  · decide
  · exact (no_line_end_escape _).1
  · exact (no_line_end_escape _).1
  · intro hmem
    exact absurd (Number.isDigits_digitsOf _ _ hmem) (by decide)
  · exact (no_line_end_escape _).1

theorem EditRecord.newline_notMem {e : EditRecord} : ∀ l ∈ e.lines, '\n' ∉ l := by
  intro l hl
  simp only [EditRecord.lines, List.mem_cons, List.not_mem_nil, or_false] at hl
  rcases hl with rfl | rfl | rfl
  · decide
  · exact (no_line_end_escape _).1
  · exact (no_line_end_escape _).1

namespace SheetRecord

variable {r : SheetRecord}

theorem newline_notMem : ∀ l ∈ r.lines, '\n' ∉ l := by
  intro l hl
  rcases List.mem_append.1 hl with hl | hl
  · obtain ⟨c, -, hc⟩ := List.mem_flatMap.1 hl
    exact CellRecord.newline_notMem l hc
  · obtain ⟨e, -, he⟩ := List.mem_flatMap.1 hl
    exact EditRecord.newline_notMem l he

/-- Lines that are ended by newlines are found again, an empty last line as well. -/
theorem linesOf_flatMap {lines : List (List Char)} (hne : lines ≠ []) (h : ∀ l ∈ lines, '\n' ∉ l) :
    linesOf (lines.flatMap (· ++ ['\n'])) = lines := by
  obtain ⟨init, last, rfl⟩ := (List.eq_nil_or_concat' lines).resolve_left hne
  have htext : (init ++ [last]).flatMap (· ++ ['\n']) = init.flatMap (· ++ ['\n']) ++ last ++ ['\n'] := by
    rw [List.flatMap_append, List.flatMap_singleton, List.append_assoc]
  unfold linesOf
  rw [htext, List.getLast?_concat, if_pos rfl, List.dropLast_concat]
  exact parts_flatMap (fun l hl => h l (List.mem_append_left _ hl)) (h last (by simp))

theorem linesOf_text (hne : r.lines ≠ []) : linesOf r.text = r.lines := linesOf_flatMap hne newline_notMem

/-! ## Records and their lines -/

/-- The length of a history is read back if it is a number of 64 bits. -/
theorem readLength?_digitsOf (n : ℕ) :
    readLength? (Number.digitsOf n) = if n < UInt64.size then some n else none := by
  have hne := Number.digitsOf_ne_nil n
  have hdigits := Number.isDigits_digitsOf n
  have hplus : (Number.digitsOf n).head? ≠ some '+' := by
    intro h
    exact absurd (hdigits _ (List.mem_of_mem_head? h)) (by decide)
  have hread : Number.readDigits? (Number.digitsOf n) = some n := by
    unfold Number.readDigits?
    rw [if_neg, Number.digitsOf, Nat.ofDigitChars_ten_toDigits]
    simpa [hne] using List.all_eq_true.2 hdigits
  unfold readLength?
  rw [if_neg hplus]
  dsimp only
  rw [hread, Option.filter_some]
  simp only [decide_eq_true_eq]

theorem escape_digitsOf (n : ℕ) : escape (Number.digitsOf n) = Number.digitsOf n := by
  refine escape_eq_self fun c hc => ?_
  have hdigit := Number.isDigits_digitsOf n c hc
  refine ⟨?_, ?_, ?_⟩ <;> rintro rfl <;> exact absurd hdigit (by decide)

theorem isValue_escape (value : String) : IsValue (escape value.toList) value := isValue_iff.2 (unescape_escape _)

theorem isCell_lines {c : CellRecord} (h : c.history.length < UInt64.size) : IsCell c.lines c := by
  have hcount : IsValue (Number.digitsOf c.history.length) (String.ofList (Number.digitsOf c.history.length)) := by
    rw [isValue_iff, String.toList_ofList, ← escape_digitsOf, unescape_escape, escape_digitsOf]
  refine .intro (isValue_escape _) (isValue_escape _) hcount ?_ ?_
  · rw [String.toList_ofList, ← readLength?_eq_some_iff, readLength?_digitsOf, if_pos h]
  · exact List.forall₂_map_left_iff.2 (List.forall₂_same.2 fun prior _ => isValue_escape prior)

theorem isEdit_lines (e : EditRecord) : IsEdit e.lines e := .intro (isValue_escape _) (isValue_escape _)

/-- The lines of a sheet are those of its cells and its edits. -/
theorem records_lines (h : ∀ c ∈ r.cells, c.history.length < UInt64.size) : Records r.lines r := by
  obtain ⟨cells, edits⟩ := r
  induction cells with
  | nil =>
    induction edits with
    | nil => exact .nil
    | cons e edits ih => exact .edit (isEdit_lines e) (ih h)
  | cons c cells ih =>
    rw [lines, List.flatMap_cons, List.append_assoc]
    exact .cell (isCell_lines (h c List.mem_cons_self)) (ih fun d hd => h d (List.mem_cons_of_mem _ hd))

/-! ## Lengths that cannot be read -/

namespace Reader

variable {line : ℕ} {cells : List CellRecord} {edits : List EditRecord}

/-- Marker, name and content of a cell bring the reader to the length of its history. -/
theorem foldlM_cell_head (c : CellRecord) :
    c.lines.foldlM step ⟨line, cells, edits, .marker⟩ =
      (escape (Number.digitsOf c.history.length) :: c.history.map fun prior => escape prior.toList).foldlM step
        ⟨line + 3, cells, edits, .historyLength c.name c.content⟩ := by
  have hmarker : step ⟨line, cells, edits, .marker⟩ CellRecord.marker = .ok ⟨line + 1, cells, edits, .cellName⟩ := rfl
  rw [CellRecord.lines, List.foldlM_cons, hmarker, escape_digitsOf]
  show List.foldlM _ _ _ = _
  rw [List.foldlM_cons, step_isValue (by simp) (isValue_escape _)]
  show List.foldlM _ _ _ = _
  rw [List.foldlM_cons, step_isValue (by simp) (isValue_escape _)]
  rfl

/-- The length of a history says how many entries come. -/
theorem step_length (name content : String) (n : ℕ) :
    step ⟨line, cells, edits, .historyLength name content⟩ (escape (Number.digitsOf n)) =
      match if n < UInt64.size then some n else none with
      | some 0 => .ok ⟨line + 1, ⟨name, content, []⟩ :: cells, edits, .marker⟩
      | some (left + 1) => .ok ⟨line + 1, cells, edits, .history name content left []⟩
      | none => .error ⟨line + 1, .badHistoryLength (String.ofList (Number.digitsOf n))⟩ := by
  have hread := readLength?_digitsOf n
  rw [← String.toList_ofList (l := Number.digitsOf n)] at hread ⊢
  rw [step_isValue (by simp) (isValue_escape _), String.toList_ofList]
  unfold takeValue
  dsimp only
  rw [hread]
  rcases (if n < UInt64.size then some n else none) with _ | _ | left <;> rfl

/-- The length of a history that is too long cannot be read. -/
theorem foldlM_cell_long {c : CellRecord} (h : ¬c.history.length < UInt64.size) :
    ∃ e, c.lines.foldlM step ⟨line, cells, edits, .marker⟩ = .error e := by
  rw [foldlM_cell_head, List.foldlM_cons, step_length, if_neg h]
  exact ⟨_, rfl⟩

/-- Reading gets past the cells only if all lengths can be read. -/
theorem length_lt_of_foldlM {cs : List CellRecord} {rest : List (List Char)} {rd : Reader}
    (h : (cs.flatMap CellRecord.lines ++ rest).foldlM step ⟨line, cells, edits, .marker⟩ = .ok rd) :
    ∀ c ∈ cs, c.history.length < UInt64.size := by
  induction cs generalizing line cells with
  | nil => simp
  | cons c cs ih =>
    rw [List.flatMap_cons, List.append_assoc, List.foldlM_append] at h
    have hc : c.history.length < UInt64.size := by
      by_contra hlong
      obtain ⟨e, he⟩ := @foldlM_cell_long line cells edits c hlong
      rw [he] at h
      cases h
    rw [foldlM_isCell (isCell_lines hc)] at h
    rintro d (_ | ⟨_, hd⟩)
    · exact hc
    · exact ih h d hd

end Reader

/-! ## The text of a sheet -/

/-- Only the sheet without cells and edits has no lines. -/
theorem eq_empty_of_lines (h : r.lines = []) : r = empty := by
  obtain ⟨cells, edits⟩ := r
  obtain ⟨hcells, hedits⟩ := List.append_eq_nil_iff.1 h
  rcases cells with _ | ⟨c, cells⟩
  · rcases edits with _ | ⟨e, edits⟩
    · rfl
    · cases hedits
  · cases hcells

theorem text_isEmpty (hne : r.lines ≠ []) : r.text.isEmpty = false := by
  obtain ⟨l, lines, hlines⟩ := List.exists_cons_of_ne_nil hne
  unfold text
  rw [hlines, List.flatMap_cons, List.isEmpty_eq_false_iff]
  simp

theorem ofText_of_lines (hne : r.lines ≠ []) :
    ofText r.text = r.lines.foldlM Reader.step Reader.start >>= Reader.finish := by
  unfold ofText
  rw [text_isEmpty hne, linesOf_text hne]
  rfl

/-- A sheet is read back from its text if the lengths of its histories can be. -/
theorem ofText_text (h : ∀ c ∈ r.cells, c.history.length < UInt64.size) : ofText r.text = .ok r := by
  by_cases hne : r.lines = []
  · -- the empty text is no line, and not an empty line
    rw [eq_empty_of_lines hne]
    rfl
  · rw [ofText_of_lines hne]
    exact read_eq_ok_iff.2 (records_lines h)

/-- A sheet is read back from its text as it was, its cells, their histories and the edits in their order, whatever
texts they hold. The only limit is that the length of a history is read as a number of 64 bits, which it is on every
machine with words of that size. -/
theorem ofText_text_iff (r : SheetRecord) : ofText r.text = .ok r ↔ ∀ c ∈ r.cells, c.history.length < UInt64.size := by
  constructor
  · intro h
    by_cases hne : r.lines = []
    · rw [eq_empty_of_lines hne]
      exact fun _ hc => absurd hc List.not_mem_nil
    · rw [ofText_of_lines hne] at h
      obtain ⟨rd, hrd, -⟩ := bind_eq_ok h
      exact Reader.length_lt_of_foldlM hrd
  · exact ofText_text

example : String.ofList (text ⟨[⟨"CELL", "CELL_EDIT", ["\\", ""]⟩], [⟨"\n", ""⟩]⟩) =
    "CELL\nCELL\nCELL_EDIT\n2\n\\\\\n\nCELL_EDIT\n\\n\n\n" := by decide

end SheetRecord

end SharedSheet
