/-
What the walk over the references costs. A task either settles its cell and is over, or it sets a fresh cell to wait for
its references (`next_cases`), and a cell that is not fresh never is again (`isFresh_of_after`). So whatever cycles the
sheet holds, each formula is set to wait and computed once at most, an entry is never written over, and the walk is over
after as many tasks as there are roots, cells and references in all (`thrifty`).
-/
import SharedSheet.Proofs.Sheet.Walk

namespace SharedSheet

/-- The task is to compute the formula of this cell. -/
def Task.finishes (name : CellName) : Task → Bool
  | .visit _ => false
  | .finish other _ => other = name

/-- The tasks that come of setting a cell to wait: one for each of its references, and one for itself. -/
def Sheet.weight (s : Sheet) (name : CellName) : ℕ := ((contentReferences (s.content name)).toOption.getD []).length + 1

namespace Walk

/-! ## Steps -/

/-- The walk for the numbers of some cells, before its first task. -/
def start (roots : List CellName) : Walk := ⟨Table.empty, Table.empty, roots.reverse.map .visit⟩

/-- The walk after its next task, if there is one. -/
def next (s : Sheet) (w : Walk) : Walk :=
  match w.tasks with
  | [] => w
  | t :: ts => perform s { w with tasks := ts } t

/-- The walk after a number of tasks. -/
def after (s : Sheet) (w : Walk) (n : ℕ) : Walk := (next s)^[n] w

/-- The next task puts the task to compute this formula on the list. -/
def Expands (s : Sheet) (w : Walk) (name : CellName) (f : Formula) : Prop :=
  ∃ pushed, (w.next s).tasks = pushed ++ w.tasks.tail ∧ .finish name f ∈ pushed

/-- The next task is to compute this formula, the only kind of task that computes one. -/
def Computes (w : Walk) (name : CellName) (f : Formula) : Prop := w.tasks.head? = some (.finish name f)

/-- A task is over: its cell has an entry, written now if it had none, and all other cells are left alone. -/
structure Settled (w w' : Walk) (t : Task) : Prop where
  tasks : w'.tasks = w.tasks.tail
  entry : w'.values.contains t.name = true
  values : w'.values = w.values ∨ w.values.contains t.name = false ∧ ∃ v, w'.values = w.values.insert t.name v
  pending : ∀ y, y ≠ t.name → w'.pending.contains y = w.pending.contains y

variable {s : Sheet} {roots : List CellName} {w : Walk} {name : CellName} {f : Formula}

theorem next_eq {t : Task} {ts : List Task} (ht : w.tasks = t :: ts) :
    w.next s = perform s { w with tasks := ts } t := by
  unfold next
  rw [ht]

theorem after_succ (s : Sheet) (w : Walk) (n : ℕ) : w.after s (n + 1) = (w.after s n).next s :=
  Function.iterate_succ_apply' ..

theorem settled_settle {t : Task} {ts : List Task} {pending : KeySet CellName} (ht : w.tasks = t :: ts)
    (hnew : ¬w.values.contains t.name = true)
    (hpending : ∀ y, y ≠ t.name → pending.contains y = w.pending.contains y) (v : Option Float) :
    Settled w (settle ⟨w.values, pending, ts⟩ t.name v) t where
  tasks := by simp [settle, ht]
  entry := contains_settle.2 (.inl rfl)
  values := .inr ⟨Bool.eq_false_iff.2 hnew, v, rfl⟩
  pending := hpending

/-- What the next task does: there is none, it settles its cell, or it sets a fresh cell to wait for its references. -/
theorem next_cases (s : Sheet) (w : Walk) :
    (w.tasks = [] ∧ w.next s = w) ∨
    (∃ t ts, w.tasks = t :: ts ∧ Settled w (w.next s) t) ∨
    ∃ name f ts, w.tasks = .visit name :: ts ∧ w.isFresh name = true ∧ Content.read (s.content name) = .formula f ∧
      w.next s = { w with tasks := ts }.expand name f := by
  rcases ht : w.tasks with _ | ⟨t, ts⟩
  · left
    simp [next, ht]
  · right
    rw [next_eq ht]
    rcases t with name | ⟨name, f⟩
    · unfold perform
      dsimp only
      split
      · rename_i hc
        exact .inl ⟨_, ts, rfl, by simp [ht], hc, .inl rfl, fun _ _ => rfl⟩
      · rename_i hnew
        split
        · exact .inl ⟨_, ts, rfl, settled_settle ht hnew (fun _ _ => rfl) none⟩
        · rename_i hpending
          split
          · exact .inl ⟨_, ts, rfl, settled_settle ht hnew (fun _ _ => rfl) _⟩
          · exact .inl ⟨_, ts, rfl, settled_settle ht hnew (fun _ _ => rfl) none⟩
          · rename_i f hread
            exact .inr ⟨name, f, ts, rfl, by simp [isFresh, hnew, hpending], hread, rfl⟩
    · -- the formula no longer waits, and its cell has an entry from now on
      left
      have herase : ∀ y, y ≠ name → Table.contains (w.pending.erase name) y = w.pending.contains y :=
        fun y hy => contains_erase_of_ne hy
      refine ⟨_, ts, rfl, ?_⟩
      unfold perform
      dsimp only
      split
      · rename_i hc
        exact ⟨by simp [ht], hc, .inl rfl, herase⟩
      · rename_i hnew
        exact settled_settle ht hnew herase _

/-! ## Fresh cells -/

theorem Settled.isFresh {w' : Walk} {t : Task} (h : Settled w w' t) {y : CellName} (hy : w'.isFresh y = true) :
    w.isFresh y = true := by
  simp only [Walk.isFresh, Bool.and_eq_true, Bool.not_eq_true'] at hy ⊢
  have hne : y ≠ t.name := by
    rintro rfl
    simp [h.entry] at hy
  refine ⟨?_, h.pending y hne ▸ hy.2⟩
  rcases h.values with hsame | ⟨-, v, hinsert⟩
  · rw [← hsame]
    exact hy.1
  · have hvalues := hy.1
    rw [hinsert, Table.contains_insert, Bool.or_eq_false_iff] at hvalues
    exact hvalues.2

theorem isFresh_expand {y : CellName} (h : (w.expand name f).isFresh y = true) : y ≠ name ∧ w.isFresh y = true := by
  simp only [isFresh, expand, KeySet.add, Table.contains_insert, Bool.not_or, Bool.and_eq_true] at h ⊢
  refine ⟨?_, h.1, h.2.2⟩
  rintro rfl
  simp at h

/-- No task makes a cell fresh. -/
theorem isFresh_of_next {y : CellName} (h : (w.next s).isFresh y = true) : w.isFresh y = true := by
  rcases next_cases s w with ⟨-, hnext⟩ | ⟨t, ts, -, hsettled⟩ | ⟨name, f, ts, -, -, -, hnext⟩
  · rwa [hnext] at h
  · exact hsettled.isFresh h
  · rw [hnext] at h
    exact (isFresh_expand h).2

theorem isFresh_of_after {y : CellName} {i j : ℕ} (hij : i ≤ j) (h : (w.after s j).isFresh y = true) :
    (w.after s i).isFresh y = true := by
  induction j, hij using Nat.le_induction with
  | base => exact h
  | succ j _ ih =>
    rw [after_succ] at h
    exact ih (isFresh_of_next h)

/-! ## Every formula once -/

theorem Expands.spec (h : Expands s w name f) :
    w.isFresh name = true ∧ Content.read (s.content name) = .formula f ∧
      w.next s = { w with tasks := w.tasks.tail }.expand name f := by
  obtain ⟨pushed, htasks, hmem⟩ := h
  rcases next_cases s w with ⟨hnil, hnext⟩ | ⟨t, ts, -, hsettled⟩ | ⟨other, g, ts, ht, hfresh, hread, hnext⟩
  · rw [hnext, hnil] at htasks
    simp_all
  · rw [hsettled.tasks] at htasks
    simp_all
  · -- what was pushed are visits and the task for this one formula
    rw [hnext, ht, List.tail_cons] at htasks
    have hpushed :
        pushed = (g.references.filter fun r => !w.values.contains r).reverse.map .visit ++ [.finish other g] := by
      refine List.append_cancel_right (htasks.symm.trans ?_)
      simp [expand]
    rw [hpushed] at hmem
    obtain ⟨rfl, rfl⟩ : name = other ∧ f = g := by simpa using hmem
    rw [ht]
    exact ⟨hfresh, hread, hnext⟩

/-- A cell that waits is not fresh any more. -/
theorem Expands.not_isFresh (h : Expands s w name f) : ¬(w.next s).isFresh name = true := by
  rw [h.spec.2.2]
  exact fun hfresh => (isFresh_expand hfresh).1 rfl

theorem eq_of_not_later {P : ℕ → Prop} (h : ∀ i j, i < j → P i → ¬P j) {i j : ℕ} (hi : P i) (hj : P j) : i = j := by
  rcases Nat.lt_trichotomy i j with hlt | heq | hgt
  · exact absurd hj (h i j hlt hi)
  · exact heq
  · exact absurd hi (h j i hgt hj)

theorem Expands.unique {g : Formula} {i j : ℕ} (hi : Expands s (w.after s i) name f)
    (hj : Expands s (w.after s j) name g) : i = j := by
  refine eq_of_not_later (P := fun i => ∃ f, Expands s (w.after s i) name f) ?_ ⟨f, hi⟩ ⟨g, hj⟩
  rintro i j hlt ⟨f, hi⟩ ⟨g, hj⟩
  refine hi.not_isFresh ?_
  rw [← after_succ]
  exact isFresh_of_after hlt hj.spec.1

/-- How often the formula of a cell can still be computed: once for each of its tasks, and once more as long as the cell
is fresh. -/
def allowance (w : Walk) (name : CellName) : ℕ :=
  w.tasks.countP (Task.finishes name) + if w.isFresh name = true then 1 else 0

theorem allowance_start (roots : List CellName) (name : CellName) : (start roots).allowance name ≤ 1 := by
  have hcount : (start roots).tasks.countP (Task.finishes name) = 0 := by
    simp [start, Task.finishes, List.countP_map, Function.comp_def]
  unfold allowance
  rw [hcount]
  split <;> omega

/-- Settling a cell takes nothing from what is left, except the one time that a task to compute the formula is for. -/
theorem Settled.allowance {w' : Walk} {t : Task} {ts : List Task} (h : Settled w w' t) (ht : w.tasks = t :: ts)
    (name : CellName) : w'.allowance name + (if t.finishes name then 1 else 0) ≤ w.allowance name := by
  have hfresh : w'.isFresh name = true → w.isFresh name = true := h.isFresh
  unfold Walk.allowance
  rw [h.tasks, ht, List.tail_cons, List.countP_cons]
  by_cases hname : t.finishes name = true
  · -- the cell has an entry once its formula is computed
    have hentry : ¬w'.isFresh name = true := by
      rcases t with _ | ⟨other, g⟩
      · cases hname
      · obtain rfl : other = name := by simpa [Task.finishes] using hname
        simp [Walk.isFresh, show w'.values.contains other = true from h.entry]
    simp only [hname, if_true, if_neg hentry]
    omega
  · simp only [hname]
    split <;> simp_all

/-- A cell that is set to wait has a task for its formula, and is fresh no longer. -/
theorem allowance_expand {other : CellName} {ts : List Task} (hfresh : w.isFresh other = true)
    (ht : w.tasks = .visit other :: ts) :
    ({ w with tasks := ts }.expand other f).allowance name ≤ w.allowance name := by
  have hcount : ({ w with tasks := ts }.expand other f).tasks.countP (Task.finishes name) =
      (if other = name then 1 else 0) + ts.countP (Task.finishes name) := by
    simp [expand, Task.finishes, List.countP_map, Function.comp_def, List.countP_cons, Nat.add_comm]
  have hexpand : ({ w with tasks := ts }.expand other f).isFresh name = true → name ≠ other ∧ w.isFresh name = true :=
    isFresh_expand
  unfold allowance
  rw [hcount, ht, List.countP_cons]
  by_cases hother : other = name
  · subst hother
    have hwaits : ¬({ w with tasks := ts }.expand other f).isFresh other = true := fun h => (hexpand h).1 rfl
    simp only [if_neg hwaits, if_pos hfresh, if_true]
    omega
  · simp only [if_neg hother, Task.finishes]
    split <;> simp_all

/-- No task adds to what is left. -/
theorem allowance_next_le (s : Sheet) (w : Walk) (name : CellName) : (w.next s).allowance name ≤ w.allowance name := by
  rcases next_cases s w with ⟨-, hnext⟩ | ⟨t, ts, ht, hsettled⟩ | ⟨other, g, ts, ht, hfresh, -, hnext⟩
  · rw [hnext]
  · have := hsettled.allowance ht name
    omega
  · rw [hnext]
    exact allowance_expand hfresh ht

theorem Computes.allowance_lt (h : w.Computes name f) : (w.next s).allowance name < w.allowance name := by
  obtain ⟨ts, ht⟩ := List.head?_eq_some_iff.1 h
  rcases next_cases s w with ⟨hnil, -⟩ | ⟨t, us, hu, hsettled⟩ | ⟨other, g, us, hu, -, -, -⟩
  · rw [hnil] at ht
    cases ht
  · obtain ⟨rfl, rfl⟩ := List.cons.inj (ht.symm.trans hu)
    have := hsettled.allowance hu name
    simp only [Task.finishes, decide_true, if_true] at this
    omega
  · cases ht.symm.trans hu

theorem antitone_allowance (s : Sheet) (w : Walk) (name : CellName) :
    Antitone fun n => (w.after s n).allowance name := by
  refine antitone_nat_of_succ_le fun n => ?_
  rw [after_succ]
  exact allowance_next_le s _ name

theorem Computes.allowance_pos (h : w.Computes name f) : 0 < w.allowance name := by
  obtain ⟨ts, ht⟩ := List.head?_eq_some_iff.1 h
  simp [allowance, ht, Task.finishes]

/-- There is one task at most to compute the formula of a cell. -/
theorem Computes.unique {g : Formula} {i j : ℕ} (hi : ((start roots).after s i).Computes name f)
    (hj : ((start roots).after s j).Computes name g) : i = j := by
  refine eq_of_not_later (P := fun i => ∃ f, ((start roots).after s i).Computes name f) ?_ ⟨f, hi⟩ ⟨g, hj⟩
  rintro i j hlt ⟨f, hi⟩ ⟨g, hj⟩
  -- the first of the two would have used up what there was for both
  have hstart : ((start roots).after s i).allowance name ≤ (start roots).allowance name :=
    antitone_allowance s (start roots) name (Nat.zero_le i)
  have hone := allowance_start roots name
  have hused := hi.allowance_lt (s := s)
  have hlater : ((start roots).after s j).allowance name ≤ ((start roots).after s (i + 1)).allowance name :=
    antitone_allowance s (start roots) name hlt
  have hpos := hj.allowance_pos
  rw [after_succ] at hlater
  omega

/-! ## Entries -/

/-- The next task writes one entry at most, and only for a cell that has none. -/
theorem values_next (s : Sheet) (w : Walk) :
    (w.next s).values = w.values ∨
      ∃ name v, w.values.contains name = false ∧ (w.next s).values = w.values.insert name v := by
  rcases next_cases s w with ⟨-, hnext⟩ | ⟨t, ts, -, hsettled⟩ | ⟨name, f, ts, -, -, -, hnext⟩
  · rw [hnext]
    exact .inl rfl
  · rcases hsettled.values with hsame | ⟨hnew, v, hinsert⟩
    · exact .inl hsame
    · exact .inr ⟨t.name, v, hnew, hinsert⟩
  · rw [hnext]
    exact .inl rfl

theorem get?_next {o : Option Float} (h : w.values.get? name = some o) : (w.next s).values.get? name = some o := by
  rcases values_next s w with hsame | ⟨other, v, hnew, hinsert⟩
  · rwa [hsame]
  · have hne : name ≠ other := by
      rintro rfl
      simp [Table.contains, h] at hnew
    rw [hinsert, Table.get?_insert, if_neg hne, h]

/-- An entry stays as it was written. -/
theorem get?_after {o : Option Float} {i j : ℕ} (hij : i ≤ j) (h : (w.after s i).values.get? name = some o) :
    (w.after s j).values.get? name = some o := by
  induction j, hij using Nat.le_induction with
  | base => exact h
  | succ j _ ih =>
    rw [after_succ]
    exact get?_next ih

/-- A cell that has an entry or a task goes on to have one of them. -/
theorem covered_next {r : CellName} (h : w.Covered w.tasks r) : (w.next s).Covered (w.next s).tasks r := by
  rcases next_cases s w with ⟨-, hnext⟩ | ⟨t, ts, ht, hsettled⟩ | ⟨name, f, ts, ht, -, -, hnext⟩
  · rwa [hnext]
  · rcases h with hr | ⟨u, hu, rfl⟩
    · obtain ⟨o, ho⟩ := contains_iff.1 hr
      exact .inl (contains_iff.2 ⟨o, get?_next ho⟩)
    · rw [ht] at hu
      rcases List.mem_cons.1 hu with rfl | hu
      · exact .inl hsettled.entry
      · exact .inr ⟨u, by rwa [hsettled.tasks, ht], rfl⟩
  · rw [hnext]
    rcases h with hr | ⟨u, hu, rfl⟩
    · exact .inl hr
    · rw [ht] at hu
      -- the visit has become the task to compute the formula
      rcases List.mem_cons.1 hu with rfl | hu
      · exact .inr ⟨.finish name f, by simp [expand], rfl⟩
      · exact .inr ⟨u, by simp [expand, hu], rfl⟩

theorem covered_after {r : CellName} {i j : ℕ} (hij : i ≤ j)
    (h : (w.after s i).Covered (w.after s i).tasks r) : (w.after s j).Covered (w.after s j).tasks r := by
  induction j, hij using Nat.le_induction with
  | base => exact h
  | succ j _ ih =>
    rw [after_succ]
    exact covered_next ih

theorem covered_start {r : CellName} (hr : r ∈ roots) : (start roots).Covered (start roots).tasks r :=
  .inr ⟨.visit r, by simpa [start] using hr, rfl⟩

/-- Each reference of a cell that is set to wait has an entry already or a task from then on. -/
theorem Expands.covered (h : Expands s w name f) {r : CellName} (hr : r ∈ f.references) :
    (w.next s).Covered (w.next s).tasks r := by
  rw [h.spec.2.2]
  by_cases hc : w.values.contains r = true
  · exact .inl hc
  · exact .inr ⟨.visit r, by simp [expand, hr, hc], rfl⟩

theorem contains_of_covered {r : CellName} (h : w.Covered w.tasks r) (ht : w.tasks = []) :
    w.values.contains r = true := by
  rcases h with hr | ⟨u, hu, -⟩
  · exact hr
  · rw [ht] at hu
    cases hu

/-! ## The number of tasks -/

/-- The tasks on the list, and those that can still come of fresh cells of the sheet. -/
def load (s : Sheet) (w : Walk) : ℕ := w.tasks.length + ((s.cells.keys.filter w.isFresh).map s.weight).sum

theorem load_start (s : Sheet) (roots : List CellName) :
    (start roots).load s = roots.length + (s.cells.keys.map s.weight).sum := by
  have hfresh : s.cells.keys.filter (start roots).isFresh = s.cells.keys := List.filter_eq_self.2 fun _ _ => rfl
  rw [load, hfresh]
  simp [start]

theorem sum_filter_le {α : Type} (p q : α → Bool) (l : List α) (weight : α → ℕ) (h : ∀ x, p x = true → q x = true) :
    ((l.filter p).map weight).sum ≤ ((l.filter q).map weight).sum :=
  ((l.monotone_filter_right h).map weight).sum_le_sum fun _ _ => Nat.zero_le _

theorem sum_filter_add_le {α : Type} [DecidableEq α] (p q : α → Bool) {l : List α} (weight : α → ℕ) {x : α}
    (hx : x ∈ l) (hq : q x = true) (h : ∀ y, p y = true → y ≠ x ∧ q y = true) :
    ((l.filter p).map weight).sum + weight x ≤ ((l.filter q).map weight).sum := by
  have hmem : x ∈ l.filter q := List.mem_filter.2 ⟨hx, hq⟩
  have hsub : (l.filter p).Sublist ((l.filter q).erase x) := by
    have hnot : x ∉ l.filter p := fun hp => (h x (List.mem_filter.1 hp).2).1 rfl
    rw [← List.erase_of_not_mem hnot]
    exact (l.monotone_filter_right fun y hy => (h y hy).2).erase x
  have hsum := (hsub.map weight).sum_le_sum fun _ _ => Nat.zero_le _
  rw [← List.sum_map_erase weight hmem]
  omega

theorem weight_of_read (h : Content.read (s.content name) = .formula f) : s.weight name = f.references.length + 1 := by
  have hparse := Content.read_eq_formula_iff.1 h
  simp [Sheet.weight, contentReferences, isFormulaText_of_parse hparse, hparse, Except.map, Except.toOption]

/-- Every task makes the load smaller. -/
theorem load_next_lt (h : w.tasks ≠ []) : (w.next s).load s < w.load s := by
  rcases next_cases s w with ⟨hnil, -⟩ | ⟨t, ts, ht, hsettled⟩ | ⟨name, f, ts, ht, hfresh, hread, hnext⟩
  · exact absurd hnil h
  · have hsum := sum_filter_le (w.next s).isFresh w.isFresh s.cells.keys s.weight fun _ => hsettled.isFresh
    simp only [load, hsettled.tasks, ht, List.tail_cons, List.length_cons]
    omega
  · -- the tasks that come in are paid for by the cell, which is fresh no longer
    have hsum := sum_filter_add_le ({ w with tasks := ts }.expand name f).isFresh w.isFresh s.weight
      (mem_keys_of_read_eq_formula hread) hfresh fun _ => isFresh_expand
    have htasks : ({ w with tasks := ts }.expand name f).tasks.length ≤ f.references.length + 1 + ts.length := by
      have hvisits := List.length_filter_le (fun r => !w.values.contains r) f.references
      simp only [expand, List.length_append, List.length_map, List.length_reverse, List.length_cons]
      omega
    rw [weight_of_read hread] at hsum
    simp only [hnext, load, ht, List.length_cons]
    omega

/-- The walk is over after a number of tasks that the load bounds, and has found what it was to find. -/
theorem exists_after (s : Sheet) (w : Walk) :
    ∃ n ≤ w.load s, (w.after s n).tasks = [] ∧ (w.after s n).values = w.run s := by
  fun_induction Walk.run s w with
  | case1 w ht => exact ⟨0, Nat.zero_le _, ht, rfl⟩
  | case2 w t ts ht ih =>
    rw [← next_eq ht] at ih ⊢
    obtain ⟨n, hn, hdone, hvalues⟩ := ih
    have hlt := load_next_lt (s := s) (w := w) (by simp [ht])
    exact ⟨n + 1, by omega, hdone, hvalues⟩

/-- When the walk is over nothing changes any more. -/
theorem after_eq {n m : ℕ} (hdone : (w.after s n).tasks = []) (h : n ≤ m) : w.after s m = w.after s n := by
  induction m, h using Nat.le_induction with
  | base => rfl
  | succ m _ ih =>
    rw [after_succ, ih]
    unfold next
    rw [hdone]

/-! ## All walks -/

/-- How the walk for the numbers of some cells goes. -/
structure Thrifty (s : Sheet) (roots : List CellName) : Prop where
  terminates : ∃ n ≤ roots.length + (s.cells.keys.map s.weight).sum,
    ((start roots).after s n).tasks = [] ∧ ((start roots).after s n).values = s.numericValues roots
  /-- A cell is set to wait for its references once at most. -/
  expandedOnce : ∀ i j name f g, Expands s ((start roots).after s i) name f →
    Expands s ((start roots).after s j) name g → i = j
  /-- The formula of a cell is computed once at most. -/
  computedOnce : ∀ i j name f g, ((start roots).after s i).Computes name f →
    ((start roots).after s j).Computes name g → i = j
  /-- An entry is written only where there is none. -/
  writtenOnce : ∀ i, ((start roots).after s (i + 1)).values = ((start roots).after s i).values ∨
    ∃ name v, ((start roots).after s i).values.contains name = false ∧
      ((start roots).after s (i + 1)).values = ((start roots).after s i).values.insert name v
  kept : ∀ i j name o, i ≤ j → ((start roots).after s i).values.get? name = some o →
    ((start roots).after s j).values.get? name = some o
  rootsFound : ∀ r ∈ roots, (s.numericValues roots).contains r = true
  /-- The formula that makes a cell wait is its own, and all references of it get entries. -/
  referencesFound : ∀ i name f, Expands s ((start roots).after s i) name f →
    Formula.parse (s.content name) = .ok f ∧ ∀ r ∈ f.references, (s.numericValues roots).contains r = true

/-- For every sheet, whatever cycles its references form, and every list of roots the walk comes to an end, within as
many tasks as there are roots, cells and references. On the way it sets each cell to wait once at most, computes each
formula once at most and writes no entry over, and in the end all roots and all references of cells that were set to
wait have their entries. -/
theorem thrifty (s : Sheet) (roots : List CellName) : Thrifty s roots := by
  obtain ⟨n, hn, hdone, hvalues⟩ := exists_after s (start roots)
  rw [load_start] at hn
  -- what is covered at any time has an entry in the end, when there are no tasks
  have hentry : ∀ r i, ((start roots).after s i).Covered ((start roots).after s i).tasks r →
      (s.numericValues roots).contains r = true := by
    intro r i hr
    have hend := after_eq hdone (Nat.le_max_right i n)
    have hlast := covered_after (Nat.le_max_left i n) hr
    rw [hend] at hlast
    have hcontains := contains_of_covered hlast hdone
    rwa [hvalues] at hcontains
  refine ⟨⟨n, hn, hdone, hvalues⟩, fun i j name f g => Expands.unique, fun i j name f g => Computes.unique, fun i => ?_,
    fun i j name o => get?_after, fun r hr => hentry r 0 (covered_start hr), fun i name f h => ?_⟩
  · rw [after_succ]
    exact values_next s _
  · refine ⟨Content.read_eq_formula_iff.1 h.spec.2.1, fun r hr => hentry r (i + 1) ?_⟩
    rw [after_succ]
    exact h.covered hr

end Walk

end SharedSheet
