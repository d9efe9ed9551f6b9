/-
Shelves, which say what a storage holds: at most one sheet under each name. `Storage.Keeps` are the laws of a storage
that answers as a shelf does. Its list is the ascending list of the names on the shelf, loading gives the sheet under a
name or the empty one, and saving puts a sheet under a name and leaves all other names alone.
-/
import SharedSheet.Proofs.Table
import SharedSheet.Storage.Store

namespace SharedSheet

/-- The stored sheets by name. -/
abbrev Shelf := String → Option SheetRecord

/-- The shelf without sheets. -/
def Shelf.empty : Shelf := fun _ => none

/-- The cells of a record are in ascending order of their names, and no two have one name. -/
def SheetRecord.IsOrdered (r : SheetRecord) : Prop := (r.cells.map CellRecord.name).Pairwise (· < ·)

/-- A list of names is that of a shelf: ascending, each name once, and all names under which there is a sheet. -/
structure Shelf.IsListing (m : Shelf) (names : List String) : Prop where
  ascending : names.Pairwise (· < ·)
  mem_iff : ∀ name, name ∈ names ↔ (m name).isSome = true

/-- A storage keeps sheets if the shelf that its state stands for is the one that its answers are about. `Accepts` says
what can be saved. -/
structure Storage.Keeps {σ : Type} (ops : Storage σ) (Holds : σ → Shelf → Prop)
    (Accepts : String → SheetRecord → Prop) : Prop where
  list : ∀ s m, Holds s m → ∃ names, ops.list s = .ok names ∧ m.IsListing names
  load : ∀ s m name, Holds s m → isSheetName name = true → ops.load s name = .ok ((m name).getD SheetRecord.empty)
  save : ∀ s m name r, Holds s m → isSheetName name = true → Accepts name r →
    (ops.save s name r).1 = .ok () ∧ Holds (ops.save s name r).2 (Function.update m name (some r))

theorem Storage.Keeps.mono {σ : Type} {ops : Storage σ} {Holds : σ → Shelf → Prop}
    {Accepts Accepts' : String → SheetRecord → Prop} (h : ops.Keeps Holds Accepts)
    (hle : ∀ name r, Accepts' name r → Accepts name r) : ops.Keeps Holds Accepts' where
  list := h.list
  load := h.load
  save s m name r hm hname haccepts := h.save s m name r hm hname (hle name r haccepts)

/-! ## Names -/

theorem checkSheetName_of_valid {name : String} (h : isSheetName name = true) : checkSheetName name = .ok () := if_pos h

theorem checkSheetName_of_invalid {name : String} (h : isSheetName name = false) :
    checkSheetName name = .error (.invalidName name) := if_neg (Bool.eq_false_iff.1 h)

theorem compare_eq_lt_iff {a b : String} : compare a b = .lt ↔ a < b := compareOfLessAndEq_eq_lt

theorem lt_of_isLE {a b : String} (h : (compare a b).isLE = true) (hne : a ≠ b) : a < b := by
  rcases Ordering.isLE_iff_eq_lt_or_eq_eq.1 h with hlt | heq
  · exact compare_eq_lt_iff.1 hlt
  · exact absurd (Std.LawfulEqOrd.eq_of_compare heq) hne

/-- Sorting names that are all different makes them strictly ascending. -/
theorem mergeSort_ascending {names : List String} (h : names.Nodup) :
    (names.mergeSort fun a b => (compare a b).isLE).Pairwise (· < ·) := by
  have htotal : ∀ a b : String, ((compare a b).isLE || (compare b a).isLE) = true := by
    intro a b
    rw [@Std.OrientedOrd.eq_swap _ _ _ b a]
    cases compare a b <;> rfl
  have hsorted := List.pairwise_mergeSort (fun _ _ _ => Std.TransCmp.isLE_trans) htotal names
  have hnodup := (List.mergeSort_perm names fun a b => (compare a b).isLE).nodup_iff.2 h
  exact hsorted.imp₂ (fun _ _ => lt_of_isLE) hnodup

/-! ## Sheets in memory -/

/-- What is held in memory. -/
def Memory.Holds (t : Table String SheetRecord) (m : Shelf) : Prop := ∀ name, t.get? name = m name

/-- The operations on sheets in memory. -/
def Memory.storage : Storage (Table String SheetRecord) := ⟨fun t => .ok (Memory.list t), Memory.load, Memory.save⟩

theorem Memory.keeps : Memory.storage.Keeps Memory.Holds fun _ _ => True where
  list t m h := by
    refine ⟨_, rfl, ?_, fun name => ?_⟩
    · exact List.pairwise_map.2 (t.ascending.imp compare_eq_lt_iff.1)
    · show name ∈ t.keys ↔ _
      rw [Table.mem_keys_iff, ← h name, Option.isSome_iff_exists]
  load t m name h hname := by
    show Memory.load t name = _
    unfold Memory.load
    rw [checkSheetName_of_valid hname, ← h name]
    rfl
  save t m name r h hname _ := by
    show (Memory.save t name r).1 = _ ∧ Memory.Holds (Memory.save t name r).2 _
    unfold Memory.save
    rw [checkSheetName_of_valid hname]
    refine ⟨rfl, fun other => ?_⟩
    dsimp only
    rw [Table.get?_insert, Function.update_apply, h other]

end SharedSheet
