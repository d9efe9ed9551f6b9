/-
Values of cells. The value of a formula needs the numbers of the cells that it refers to, and those of
the cells behind them; `numericValues` computes them with a list of tasks, each cell after the cells
that its formula refers to. A cell that waits for itself has no number.
-/
import SharedSheet.Content
import SharedSheet.Sheet.Basic
import SharedSheet.Sheet.Cycle

namespace SharedSheet

open Std

/-- What is left to do for a cell: look at it, or compute its formula, whose references have been dealt
with. -/
inductive Task where
  | visit (name : CellName)
  | finish (name : CellName) (f : Formula)

/-- The state of the computation: the numbers found so far (`none` for a cell without one), the cells
whose formulas wait for their references, and the tasks, the next one first. -/
structure Walk where
  values : Table CellName (Option Float)
  pending : KeySet CellName
  tasks : List Task

namespace Walk

/-- Records the number of a cell. -/
def settle (w : Walk) (name : CellName) (v : Option Float) : Walk :=
  { w with values := w.values.insert name v }

/-- The number recorded for a cell. -/
def lookup (w : Walk) (name : CellName) : Option Float := (w.values.get? name).join

/-- Sets a formula to be computed after those of its references that have no entry yet. -/
def expand (w : Walk) (name : CellName) (f : Formula) : Walk :=
  { w with
    pending := w.pending.add name
    tasks := (f.references.filter fun r => !w.values.contains r).reverse.map .visit ++ .finish name f :: w.tasks }

/-- Does one task. -/
def perform (s : Sheet) (w : Walk) : Task → Walk
  | .visit name =>
    if w.values.contains name then w
    else if w.pending.contains name then w.settle name none
    else
      match Content.read (s.content name) with
      | .literal v => w.settle name v.number?
      | .broken _ => w.settle name none
      | .formula f => w.expand name f
  | .finish name f =>
    let w := { w with pending := w.pending.erase name }
    if w.values.contains name then w else w.settle name (f.value w.lookup).toOption

/-! ## The computation ends -/

/-- Whether a cell has neither an entry nor a waiting formula. -/
def isFresh (w : Walk) (name : CellName) : Bool := !w.values.contains name && !w.pending.contains name

/-- How many cells of the sheet are fresh. -/
def fresh (s : Sheet) (w : Walk) : Nat := s.cells.keys.countP w.isFresh

theorem fresh_mono {s : Sheet} {v w : Walk} (h : ∀ name, v.isFresh name = true → w.isFresh name = true) :
    v.fresh s ≤ w.fresh s :=
  List.countP_mono_left fun name _ => h name

theorem isFresh_settle {w : Walk} {name other : CellName} {v : Option Float}
    (h : (w.settle name v).isFresh other = true) : w.isFresh other = true := by
  simp only [isFresh, settle, Table.contains_insert, Bool.not_or, Bool.and_eq_true] at h ⊢
  exact ⟨h.1.2, h.2⟩

theorem contains_erase_of_ne {s : KeySet CellName} {name other : CellName} (h : other ≠ name) :
    Table.contains (s.erase name) other = s.contains other := by
  simp only [Table.contains, Table.get?, Table.erase, Table.filter, List.find?_filter, Option.isSome_map]
  congr 2
  funext e
  by_cases he : e.1 = other
  · subst he
    have : compare e.1 name ≠ .eq := fun hc => h (LawfulEqOrd.eq_of_compare hc)
    simp [this]
  · have : compare e.1 other ≠ .eq := fun hc => he (LawfulEqOrd.eq_of_compare hc)
    simp [this]

/-- Finishing a cell makes no cell fresh, itself included: it has an entry then. -/
theorem fresh_perform_finish (s : Sheet) (w : Walk) (name : CellName) (f : Formula) :
    (w.perform s (.finish name f)).fresh s ≤ w.fresh s := by
  refine fresh_mono fun other h => ?_
  by_cases ho : other = name
  · subst ho
    simp only [perform] at h
    split at h
    · rename_i hc
      simp [isFresh, hc] at h
    · simp [isFresh, settle, Table.contains_insert] at h
  · simp only [perform] at h
    split at h
    · simpa [isFresh, contains_erase_of_ne ho] using h
    · have := isFresh_settle h
      simpa [isFresh, contains_erase_of_ne ho] using this

/-- Expanding a fresh cell of the sheet leaves fewer fresh ones. -/
theorem fresh_expand {s : Sheet} {w : Walk} {name : CellName} (f : Formula) (hn : name ∈ s.cells.keys)
    (hw : w.isFresh name = true) : (w.expand name f).fresh s < w.fresh s :=
  countP_lt_countP hn
    (fun other _ h => by
      simp only [isFresh, expand, KeySet.add, Table.contains_insert, Bool.not_or, Bool.and_eq_true] at h ⊢
      exact ⟨h.1, h.2.2⟩)
    (by simp [isFresh, expand, KeySet.add, Table.contains_insert]) hw

theorem mem_keys_of_read_eq_formula {s : Sheet} {name : CellName} {f : Formula}
    (h : Content.read (s.content name) = .formula f) : name ∈ s.cells.keys := by
  refine Decidable.byContradiction fun hn => ?_
  rw [Sheet.content, Table.get?_eq_none_of_not_mem hn] at h
  simp [Content.read_empty] at h

/-- Does all tasks. -/
def run (s : Sheet) (w : Walk) : Table CellName (Option Float) :=
  match _h : w.tasks with
  | [] => w.values
  | task :: tasks => run s (perform s { w with tasks } task)
termination_by (w.fresh s, w.tasks.length)
decreasing_by
  have hlen : tasks.length < w.tasks.length := by simp [_h]
  have key : ∀ v : Walk, v.tasks = tasks → v.fresh s ≤ w.fresh s →
      Prod.Lex (· < ·) (· < ·) (v.fresh s, v.tasks.length) (w.fresh s, w.tasks.length) := by
    intro v ht hv
    rcases Nat.lt_or_eq_of_le hv with hv | hv
    · exact Prod.Lex.left _ _ hv
    · rw [hv, ht]
      exact Prod.Lex.right _ hlen
  have same : ({ w with tasks } : Walk).fresh s = w.fresh s := rfl
  cases task with
  | finish name f =>
    refine key _ ?_ (same ▸ fresh_perform_finish s _ name f)
    simp only [perform]
    split <;> rfl
  | visit name =>
    have settled : ∀ v, ({ w with tasks }.settle name v).fresh s ≤ w.fresh s := fun v =>
      fresh_mono fun _ ho => isFresh_settle (w := { w with tasks }) ho
    simp only [perform]
    split
    · exact key _ rfl (Nat.le_refl _)
    · rename_i hv
      split
      · exact key _ rfl (settled _)
      · rename_i hp
        split
        · exact key _ rfl (settled _)
        · exact key _ rfl (settled _)
        · rename_i f hf
          refine Prod.Lex.left _ _ (fresh_expand (w := { w with tasks }) f (mem_keys_of_read_eq_formula hf) ?_)
          simp_all [isFresh]

end Walk

namespace Sheet

/-- The numbers of the given cells and of all cells that they depend on. -/
def numericValues (s : Sheet) (roots : List CellName) : Table CellName (Option Float) :=
  Walk.run s ⟨Table.empty, Table.empty, roots.reverse.map .visit⟩

/-- The value of a cell. -/
def valueOf (s : Sheet) (name : CellName) : Except SheetError Value :=
  match Content.read (s.content name) with
  | .literal v => .ok v
  | .broken e => .error (.formula e)
  | .formula f =>
    let values := s.numericValues f.references
    ((f.value fun r => (values.get? r).join).map .number).mapError .formula

/-- The value of the cell with this name. -/
def value (s : Sheet) (raw : String) : Except SheetError Value := do s.valueOf (← readName raw)

end Sheet

end SharedSheet
