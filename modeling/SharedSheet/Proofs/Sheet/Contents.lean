/-
The contents of a sheet as a client sees them: the non-empty ones by name. A change of the sheet does to them
what its message says (`Change.contents`), so a client can follow the sheet message by message.
-/
import SharedSheet.Proofs.Sheet.Run
import SharedSheet.Wire.Message

namespace SharedSheet

namespace Sheet

/-- The non-empty contents by the names of their cells. -/
def contents (s : Sheet) : Table String String where
  entries := (s.cells.entries.filter fun e => !e.2.content.isEmpty).map fun e => (e.1.text, e.2.content)
  ascending := List.pairwise_map.2 (s.cells.ascending.filter _)

theorem get?_contents {s : Sheet} {n v : String} :
    s.contents.get? n = some v ↔ ∃ name : CellName, name.text = n ∧ s.content name = v ∧ v ≠ "" := by
  rw [Table.get?_eq_some_iff]
  unfold contents
  dsimp only
  rw [List.mem_map]
  constructor
  · rintro ⟨⟨name, cell⟩, he, heq⟩
    obtain ⟨he, hne⟩ := List.mem_filter.1 he
    cases heq
    refine ⟨name, rfl, ?_, ?_⟩
    · exact content_of_get? (Table.get?_eq_some_iff.2 he)
    · rintro hv
      rw [hv] at hne
      cases hne
  · rintro ⟨name, rfl, rfl, hne⟩
    unfold content at hne ⊢
    rcases hget : s.cells.get? name with _ | cell
    · rw [hget] at hne
      exact absurd rfl hne
    · rw [hget] at hne
      refine ⟨(name, cell), List.mem_filter.2 ⟨Table.get?_eq_some_iff.1 hget, ?_⟩, rfl⟩
      simpa using hne

end Sheet

/-- What a client makes of a message: an update puts a content in place, and an empty content takes the cell
away. -/
def Message.applyTo (t : Table String String) : Message → Table String String
  | .cellUpdated cell contents => if contents.isEmpty then t.erase cell else t.insert cell contents
  | _ => t

/-- What a client starts from: the non-empty cells among those that it was given. -/
def startOf (cells : List CellRecord) : Table String String :=
  .ofList ((cells.filter fun r => !r.content.isEmpty).map fun r => (r.name, r.content))

/-- The messages about contents that are not empty make what a client starts from. -/
theorem foldl_applyTo_startOf (cells : List CellRecord) :
    ((cells.filter fun cell => !cell.content.isEmpty).map fun cell =>
      Message.cellUpdated cell.name cell.content).foldl Message.applyTo Table.empty = startOf cells := by
  unfold startOf Table.ofList
  rw [List.foldl_map, List.foldl_map]
  refine List.foldl_ext _ _ _ fun t cell hcell => ?_
  have hne : cell.content.isEmpty = false := by simpa using (List.mem_filter.1 hcell).2
  simp [Message.applyTo, hne]

namespace Sheet

/-- The cells that a client is given on connecting are the contents of the sheet. -/
theorem Named.startOf_populated {s : Sheet} (h : s.Named) : startOf s.populated = s.contents := by
  have hentries : (s.populated.filter fun r => !r.content.isEmpty).map (fun r => (r.name, r.content)) =
      s.contents.entries := by
    rw [populated_eq, List.filter_map, List.map_map]
    refine List.map_congr_left fun e he => ?_
    show (e.2.name, e.2.content) = (e.1.text, e.2.content)
    rw [h.of_mem (List.mem_of_mem_filter he)]
  unfold startOf
  rw [hentries, Table.ofList_entries]

theorem contents_congr {s s' : Sheet} (h : ∀ x, s'.content x = s.content x) : s'.contents = s.contents := by
  refine Table.ext_get? fun n => Option.ext fun v => ?_
  simp only [get?_contents, h]

theorem get?_contents_text (s : Sheet) (name : CellName) :
    s.contents.get? name.text = if s.content name = "" then none else some (s.content name) := by
  refine Option.ext fun v => ?_
  rw [get?_contents]
  split
  · rename_i he
    constructor
    · rintro ⟨other, hother, rfl, hne⟩
      rw [CellName.ext hother] at hne
      exact absurd he hne
    · intro h
      cases h
  · rename_i hne
    constructor
    · rintro ⟨other, hother, rfl, -⟩
      rw [CellName.ext hother]
    · intro h
      cases h
      exact ⟨name, rfl, rfl, hne⟩

/-- What is read under a name, in any spelling, is the content that clients see there. -/
theorem get_eq_ok_iff {s : Sheet} {raw v : String} :
    s.get raw = .ok v ↔ ∃ name, CellName.parse? raw = some name ∧ s.contents.get? name.text = some v := by
  unfold get readName
  rcases CellName.parse? raw with _ | name
  · exact iff_of_false (fun h => nomatch h) fun ⟨_, h, _⟩ => nomatch h
  · show (if (s.content name).isEmpty then _ else _) = _ ↔ _
    simp only [Option.some.injEq, exists_eq_left', get?_contents_text, String.isEmpty_iff]
    split
    · exact iff_of_false (fun h => nomatch h) fun h => nomatch h
    · rw [Except.ok.injEq, Option.some.injEq]

theorem get?_contents_of_ne (s : Sheet) {n : String} (h : ∀ name : CellName, name.text ≠ n) :
    s.contents.get? n = none := by
  refine Option.eq_none_iff_forall_ne_some.2 fun v hv => ?_
  obtain ⟨name, hname, -⟩ := get?_contents.1 hv
  exact h name hname

theorem get?_applyTo (t : Table String String) (cell contents n : String) :
    ((Message.cellUpdated cell contents).applyTo t).get? n =
      if n = cell then (if contents = "" then none else some contents) else t.get? n := by
  dsimp only [Message.applyTo]
  by_cases hc : contents = ""
  · rw [if_pos (String.isEmpty_iff.2 hc), Table.get?_erase, if_pos hc]
  · rw [if_neg (mt String.isEmpty_iff.1 hc), Table.get?_insert, if_neg hc]

/-- The message about a change makes the new contents of the old ones. -/
theorem Change.contents {s s' : Sheet} {u : CellUpdate} (h : Change s u s') :
    s'.contents = (Message.cellUpdated u.cell.text u.content).applyTo s.contents := by
  refine Table.ext_get? fun n => ?_
  rw [get?_applyTo]
  -- a text that is no name of a cell is no key before or after
  by_cases hn : ∃ name : CellName, name.text = n
  · obtain ⟨name, rfl⟩ := hn
    rw [get?_contents_text, get?_contents_text, h.content]
    by_cases hu : name = u.cell
    · rw [if_pos hu, if_pos (congrArg _ hu)]
    · rw [if_neg hu, if_neg fun ht => hu (CellName.ext ht)]
  · have hne : ∀ name : CellName, name.text ≠ n := fun name hname => hn ⟨name, hname⟩
    rw [get?_contents_of_ne _ hne, get?_contents_of_ne _ hne, if_neg (hne u.cell).symm]

end Sheet

end SharedSheet
