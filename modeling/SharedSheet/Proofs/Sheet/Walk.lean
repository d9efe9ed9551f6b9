/-
The walk over the references finds the numbers of the cells. Its tasks are a path from the cells that were asked
for down to the cell at hand: what stands above the task to finish a formula has to do with references of that
formula, directly or not. So a cell that comes up while its own formula waits is on a cycle, and when the task to
finish a formula comes up all its references have their entries (`Sound`). Every task keeps this, whatever the
graph (`Sound.perform`), and when no task is left every cell that was asked for has its number
(`get?_numericValues`).

`value_least` puts it together: values of cells are those that the least numbering gives.
-/
import SharedSheet.Proofs.Sheet.Numbers

namespace SharedSheet

open Relation

/-- The cell that a task is about. -/
def Task.name : Task → CellName
  | .visit name => name
  | .finish name _ => name

namespace Walk

/-- A cell has an entry, or one of the tasks is about it. -/
def Covered (w : Walk) (ts : List Task) (r : CellName) : Prop := w.values.contains r = true ∨ ∃ t ∈ ts, t.name = r

/-- What holds between tasks, when the numbers of `roots` were asked for. -/
structure Sound (s : Sheet) (roots : List CellName) (w : Walk) : Prop where
  /-- Entries are right. -/
  correct : ∀ y o, w.values.get? y = some o → o = s.number? y
  /-- Whatever waits will be finished. -/
  waiting : ∀ y, w.pending.contains y = true → ∃ f, .finish y f ∈ w.tasks
  formulas : ∀ y f, .finish y f ∈ w.tasks → Content.read (s.content y) = .formula f
  /-- A task above a waiting formula is about a cell that the formula depends on. -/
  ordered : w.tasks.Pairwise fun t u => ∀ y f, u = .finish y f → TransGen s.RefersTo y t.name
  /-- Every reference of a waiting formula has an entry or a task above. -/
  demanded : ∀ above y f below, w.tasks = above ++ .finish y f :: below → ∀ r ∈ f.references, w.Covered above r
  roots : ∀ r ∈ roots, w.Covered w.tasks r

variable {s : Sheet} {roots : List CellName} {w : Walk}

theorem contains_iff {y : CellName} : w.values.contains y = true ↔ ∃ o, w.values.get? y = some o :=
  Option.isSome_iff_exists

theorem contains_settle {name r : CellName} {v : Option Float} :
    (w.settle name v).values.contains r = true ↔ r = name ∨ w.values.contains r = true := by
  rw [contains_iff, contains_iff, settle]
  simp only [Table.get?_insert]
  split <;> simp [*]

theorem finish_notMem_visits (rs : List CellName) (y : CellName) (f : Formula) : .finish y f ∉ rs.map Task.visit := by
  simp

/-- Tasks to visit cells stand above no waiting formula among themselves. -/
theorem pairwise_visits (rs : List CellName) (P : Task → CellName → Prop) :
    (rs.map Task.visit).Pairwise fun t u => ∀ y f, u = .finish y f → P t y := by
  refine List.pairwise_map.2 (List.pairwise_of_forall fun _ _ => ?_)
  rintro _ _ ⟨⟩

theorem sound_start (s : Sheet) (roots : List CellName) :
    Sound s roots ⟨Table.empty, Table.empty, roots.reverse.map .visit⟩ where
  correct y o h := by cases h
  waiting y h := by cases h
  formulas y f h := absurd h (finish_notMem_visits _ y f)
  ordered := pairwise_visits _ fun t y => TransGen s.RefersTo y t.name
  demanded above y f below h := by
    have hmem : Task.finish y f ∈ above ++ .finish y f :: below := by simp
    rw [← h] at hmem
    exact absurd hmem (finish_notMem_visits _ y f)
  roots r hr := .inr ⟨.visit r, by simpa using hr, rfl⟩

/-! ## A task that is done -/

/-- Taking a task off keeps soundness if its cell has an entry then. -/
theorem Sound.pop {t : Task} {ts : List Task} (h : Sound s roots w) (ht : w.tasks = t :: ts) {w' : Walk}
    (hts : w'.tasks = ts) (hcorrect : ∀ y o, w'.values.get? y = some o → o = s.number? y)
    (hmono : ∀ r, w.values.contains r = true → w'.values.contains r = true)
    (hname : w'.values.contains t.name = true)
    (hwaiting : ∀ y, w'.pending.contains y = true → ∃ f, .finish y f ∈ ts) : Sound s roots w' := by
  have hcovered : ∀ us r, w.Covered (t :: us) r → w'.Covered us r := by
    rintro us r (hr | ⟨u, hu, rfl⟩)
    · exact .inl (hmono r hr)
    · rcases List.mem_cons.1 hu with rfl | hu
      · exact .inl hname
      · exact .inr ⟨u, hu, rfl⟩
  have hordered := h.ordered
  rw [ht] at hordered
  refine ⟨hcorrect, ?_, ?_, ?_, ?_, ?_⟩
  · rw [hts]
    exact hwaiting
  · intro y f hf
    rw [hts] at hf
    exact h.formulas y f (ht ▸ List.mem_cons_of_mem t hf)
  · rw [hts]
    exact hordered.of_cons
  · intro above y f below hsplit r hr
    rw [hts] at hsplit
    exact hcovered _ _ (h.demanded (t :: above) y f below (by rw [ht, hsplit]; rfl) r hr)
  · intro r hr
    rw [hts]
    exact hcovered _ _ (ht ▸ h.roots r hr)

theorem correct_settle {name : CellName} {v : Option Float} (h : ∀ y o, w.values.get? y = some o → o = s.number? y)
    (hv : v = s.number? name) : ∀ y o, (w.settle name v).values.get? y = some o → o = s.number? y := by
  intro y o hy
  unfold settle at hy
  dsimp only at hy
  rw [Table.get?_insert] at hy
  split at hy
  · rename_i hyn
    cases hy
    rw [hyn]
    exact hv
  · exact h y o hy

/-- A visited cell gets an entry. -/
theorem Sound.settle {name : CellName} {ts : List Task} {v : Option Float} (h : Sound s roots w)
    (ht : w.tasks = .visit name :: ts) (hv : v = s.number? name) :
    Sound s roots ({ w with tasks := ts }.settle name v) := by
  refine h.pop ht rfl (correct_settle h.correct hv) (fun r hr => contains_settle.2 (.inr hr))
    (contains_settle.2 (.inl rfl)) fun y hy => ?_
  obtain ⟨f, hf⟩ := h.waiting y hy
  rw [ht] at hf
  exact ⟨f, by simpa using hf⟩

/-- A cell that is visited while its formula waits has no number. -/
theorem Sound.number?_of_pending {name : CellName} {ts : List Task} (h : Sound s roots w)
    (ht : w.tasks = .visit name :: ts) (hp : w.pending.contains name = true) : s.number? name = none := by
  obtain ⟨f, hf⟩ := h.waiting name hp
  have hordered := h.ordered
  rw [ht] at hf hordered
  have hts : Task.finish name f ∈ ts := by simpa using hf
  exact Sheet.number?_of_onCycle (List.rel_of_pairwise_cons hordered hts name f rfl)

/-- When the task to finish a formula comes up, its references have their numbers. -/
theorem Sound.lookup_eq {name : CellName} {f : Formula} {ts : List Task} (h : Sound s roots w)
    (ht : w.tasks = .finish name f :: ts) {r : CellName} (hr : r ∈ f.references) : w.lookup r = s.number? r := by
  rcases h.demanded [] name f ts ht r hr with hc | ⟨u, hu, -⟩
  · obtain ⟨o, ho⟩ := contains_iff.1 hc
    unfold lookup
    rw [ho]
    exact h.correct r o ho
  · cases hu

theorem Sound.finish {name : CellName} {f : Formula} {ts : List Task} (h : Sound s roots w)
    (ht : w.tasks = .finish name f :: ts) : Sound s roots (perform s { w with tasks := ts } (.finish name f)) := by
  -- only the formula of this cell stops waiting
  have hwaiting : ∀ y, Table.contains (w.pending.erase name) y = true → ∃ g, Task.finish y g ∈ ts := by
    intro y hy
    rw [← Table.mem_keys_iff_contains, KeySet.mem_keys_erase, Table.mem_keys_iff_contains] at hy
    obtain ⟨g, hg⟩ := h.waiting y hy.2
    rw [ht] at hg
    rcases List.mem_cons.1 hg with hg | hg
    · cases hg
      exact absurd rfl hy.1
    · exact ⟨g, hg⟩
  unfold perform
  dsimp only
  split
  · rename_i hc
    exact h.pop ht rfl h.correct (fun _ hr => hr) hc hwaiting
  · refine h.pop ht rfl (correct_settle h.correct ?_) (fun r hr => contains_settle.2 (.inr hr))
      (contains_settle.2 (.inl rfl)) hwaiting
    rw [Sheet.number?_eq, h.formulas name f (by rw [ht]; exact List.mem_cons_self)]
    dsimp only
    rw [← Formula.value_congr fun r hr => h.lookup_eq ht hr]
    rfl

/-! ## A formula that is set to wait -/

/-- Where a task stands, when some that differ from it are put in front. -/
theorem split_append {us ts above below : List Task} {t u : Task} (hu : u ∉ us)
    (h : us ++ t :: ts = above ++ u :: below) :
    (above = us ∧ t = u) ∨ ∃ vs, above = us ++ t :: vs ∧ ts = vs ++ u :: below := by
  rcases List.append_eq_append_iff.1 h with ⟨vs, rfl, hvs⟩ | ⟨vs, rfl, hvs⟩
  · rcases vs with _ | ⟨v, vs⟩
    · exact .inl ⟨List.append_nil us, (List.cons.inj hvs).1⟩
    · obtain ⟨rfl, rfl⟩ := List.cons.inj hvs
      exact .inr ⟨vs, rfl, rfl⟩
  · rcases vs with _ | ⟨v, vs⟩
    · exact .inl ⟨(List.append_nil above).symm, (List.cons.inj hvs).1.symm⟩
    · obtain ⟨rfl, -⟩ := List.cons.inj hvs
      simp at hu

/-- A formula may wait below visits to its references, if those that are not visited have entries. -/
theorem Sound.suspend {name : CellName} {f : Formula} {ts : List Task} (h : Sound s roots w)
    (ht : w.tasks = .visit name :: ts) (hc : Content.read (s.content name) = .formula f) {rs : List CellName}
    (hrs : ∀ r ∈ rs, r ∈ f.references) (hall : ∀ r ∈ f.references, w.values.contains r = true ∨ r ∈ rs) :
    Sound s roots ⟨w.values, w.pending.add name, rs.map .visit ++ .finish name f :: ts⟩ := by
  have hordered := h.ordered
  rw [ht] at hordered
  obtain ⟨habove, hts⟩ := List.pairwise_cons.1 hordered
  have hrefers : ∀ r ∈ f.references, s.RefersTo name r := fun r hr => ⟨f, Content.read_eq_formula_iff.1 hc, hr⟩
  have hfinish : ∀ y g, Task.finish y g ∈ w.tasks → Task.finish y g ∈ ts := by
    intro y g hg
    rw [ht] at hg
    simpa using hg
  -- the waiting formula deals with the visited cell from now on
  have hcovered : ∀ us r, w.Covered (.visit name :: us) r →
      Covered ⟨w.values, w.pending.add name, rs.map .visit ++ .finish name f :: ts⟩
        (rs.map .visit ++ .finish name f :: us) r := by
    rintro us r (hr | ⟨t, hm, rfl⟩)
    · exact .inl hr
    · rcases List.mem_cons.1 hm with rfl | hm
      · exact .inr ⟨.finish name f, by simp, rfl⟩
      · exact .inr ⟨t, by simp [hm], rfl⟩
  refine ⟨h.correct, ?_, ?_, ?_, ?_, ?_⟩
  · intro y hy
    rw [← Table.mem_keys_iff_contains, KeySet.mem_keys_add, Table.mem_keys_iff_contains] at hy
    rcases hy with rfl | hy
    · exact ⟨f, by simp⟩
    · obtain ⟨g, hg⟩ := h.waiting y hy
      exact ⟨g, by simp [hfinish y g hg]⟩
  · intro y g hg
    rcases List.mem_append.1 hg with hg | hg
    · exact absurd hg (finish_notMem_visits rs y g)
    · rcases List.mem_cons.1 hg with hg | hg
      · cases hg
        exact hc
      · exact h.formulas y g (ht ▸ List.mem_cons_of_mem _ hg)
  · refine List.pairwise_append.2 ⟨pairwise_visits rs _, List.pairwise_cons.2 ⟨habove, hts⟩, ?_⟩
    intro t hv u hu y g hy
    obtain ⟨r, hr, rfl⟩ := List.mem_map.1 hv
    rcases List.mem_cons.1 hu with rfl | hu
    · cases hy
      exact .single (hrefers r (hrs r hr))
    · exact (habove u hu y g hy).tail (hrefers r (hrs r hr))
  · intro above y g below hsplit r hr
    rcases split_append (finish_notMem_visits rs y g) hsplit with ⟨rfl, heq⟩ | ⟨us, rfl, hus⟩
    · cases heq
      exact (hall r hr).imp_right fun hr => ⟨.visit r, List.mem_map_of_mem hr, rfl⟩
    · exact hcovered us r (h.demanded (.visit name :: us) y g below (by rw [ht, hus]; rfl) r hr)
  · intro r hr
    have hroots := h.roots r hr
    rw [ht] at hroots
    exact hcovered ts r hroots

theorem Sound.expand {name : CellName} {f : Formula} {ts : List Task} (h : Sound s roots w)
    (ht : w.tasks = .visit name :: ts) (hc : Content.read (s.content name) = .formula f) :
    Sound s roots ({ w with tasks := ts }.expand name f) := by
  refine h.suspend ht hc (fun r hr => (List.mem_filter.1 (List.mem_reverse.1 hr)).1) fun r hr => ?_
  by_cases hv : w.values.contains r = true
  · exact .inl hv
  · exact .inr (by simp [hr, hv])

/-! ## All tasks -/

theorem Sound.perform {t : Task} {ts : List Task} (h : Sound s roots w) (ht : w.tasks = t :: ts) :
    Sound s roots (perform s { w with tasks := ts } t) := by
  rcases t with name | ⟨name, f⟩
  · unfold Walk.perform
    dsimp only
    split
    · rename_i hc
      refine h.pop ht rfl h.correct (fun _ hr => hr) hc fun y hy => ?_
      obtain ⟨f, hf⟩ := h.waiting y hy
      rw [ht] at hf
      exact ⟨f, by simpa using hf⟩
    · split
      · rename_i hp
        exact h.settle ht (h.number?_of_pending ht hp).symm
      · split
        · rename_i v hc
          exact h.settle ht (by rw [Sheet.number?_eq, hc])
        · rename_i hc
          exact h.settle ht (by rw [Sheet.number?_eq, hc])
        · rename_i f hc
          exact h.expand ht hc
  · exact h.finish ht

/-- Every cell that was asked for has its number in the end. -/
theorem Sound.run (h : Sound s roots w) : ∀ r ∈ roots, (w.run s).get? r = some (s.number? r) := by
  fun_induction Walk.run s w with
  | case1 w ht =>
    intro r hr
    rcases h.roots r hr with hc | ⟨t, hm, -⟩
    · obtain ⟨o, ho⟩ := contains_iff.1 hc
      rw [ho, h.correct r o ho]
    · rw [ht] at hm
      cases hm
  | case2 w t ts ht ih => exact ih (h.perform ht)

end Walk

namespace Sheet

theorem get?_numericValues (s : Sheet) {roots : List CellName} {r : CellName} (hr : r ∈ roots) :
    (s.numericValues roots).get? r = some (s.number? r) :=
  (Walk.sound_start s roots).run r hr

/-- A formula in a cell has the value that the numbers of its references give. -/
theorem valueOf_formula {s : Sheet} {name : CellName} {f : Formula} (hc : Content.read (s.content name) = .formula f) :
    s.valueOf name = ((f.value s.number?).map .number).mapError .formula := by
  have hvalue : f.value (fun r => ((s.numericValues f.references).get? r).join) = f.value s.number? := by
    refine Formula.value_congr fun r hr => ?_
    rw [s.get?_numericValues hr]
    rfl
  unfold valueOf
  rw [hc]
  dsimp only
  rw [hvalue]

theorem value_of_parse? {s : Sheet} {raw : String} {name : CellName} (h : CellName.parse? raw = some name) :
    s.value raw = s.valueOf name := by
  unfold value readName
  rw [h]
  rfl

/-- Values of cells, for every sheet. There is a least numbering, under which the text of a number has this number and a
formula with numbers for all its references has its value. A cell whose content is no formula shows the one thing that
such a content shows; a cell with a formula shows why it does not parse, or else the value that it has where the
references have those numbers. A cell on a cycle has no number, and the first reference without a number, if nothing
failed before it, is the error. -/
theorem value_least (s : Sheet) : ∃ num : CellName → Option Float, s.IsLeastNumbering num ∧
    (∀ num', s.IsLeastNumbering num' → num' = num) ∧
    (∀ raw name, CellName.parse? raw = some name →
      (Formula.isFormulaText (s.content name).toList = false →
        ∃ v, s.value raw = .ok v ∧ ∀ v', Value.Shows (s.content name) v' ↔ v' = v) ∧
      (∀ e, Formula.isFormulaText (s.content name).toList = true → Formula.parseChars (s.content name).toList = .error e →
        s.value raw = .error (.formula (.parse e))) ∧
      ∀ f, Formula.parse (s.content name) = .ok f → s.value raw = ((f.value num).map .number).mapError .formula) ∧
    (∀ y, s.OnCycle y → num y = none) ∧
    ∀ (f : Formula) (ts us : List (Formula.Token Float)) (y : CellName) (st : Formula.Stacks Float),
      f.tokens = ts ++ .cell y :: us → ts.foldlM (Formula.Stacks.step .double num) .empty = .ok st → num y = none →
      f.value num = .error (.undefinedVariable y) := by
  refine ⟨s.number?, s.isLeastNumbering_number?, fun num' h => h.unique s.isLeastNumbering_number?, ?_,
    fun y => number?_of_onCycle, ?_⟩
  · intro raw name hname
    rw [value_of_parse? hname]
    refine ⟨fun hc => ?_, fun e hc he => ?_, fun f hf => valueOf_formula (Content.read_eq_formula_iff.2 hf)⟩
    · have hshows := Value.shows_ofLiteral (s.content name)
      refine ⟨_, ?_, fun v' => ⟨fun h => h.unique hshows, fun h => h ▸ hshows⟩⟩
      unfold valueOf
      rw [Content.read_eq_literal_iff.2 ⟨hc, hshows⟩]
    · have hparse : Formula.parse (s.content name) = .error (.parse e) := by
        unfold Formula.parse
        rw [he]
        rfl
      unfold valueOf
      rw [Content.read_of_parse_error hc hparse]
  · intro f ts us y st htokens hread hy
    unfold Formula.value
    rw [htokens, Formula.evaluate_undefined hread hy]
    rfl

end Sheet

end SharedSheet
