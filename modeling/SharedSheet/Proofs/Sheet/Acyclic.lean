/-
Cycles. No event puts a cell on a cycle of references that was not on one before
(`Consistent.onCycle_after`), whatever cycles a restored sheet may hold; so a sheet that began empty has
none (`acyclic_run`).
-/
import SharedSheet.Proofs.Cycle
import SharedSheet.Proofs.Sheet.Consistent

namespace SharedSheet.Sheet

open Relation

/-- The cell reaches itself by references. -/
def OnCycle (s : Sheet) (x : CellName) : Prop := TransGen s.RefersTo x x

variable {s s' : Sheet}

theorem Consistent.dependsOn_eq (h : s.Consistent) : s.refs.DependsOn = s.RefersTo := by
  funext x y
  exact propext (h.references x y)

theorem onCycle_congr (h : ∀ x, s'.content x = s.content x) {x : CellName} : s'.OnCycle x ↔ s.OnCycle x := by
  have hr : s'.RefersTo = s.RefersTo := by
    funext x y
    unfold RefersTo
    rw [h]
  unfold OnCycle
  rw [hr]

/-- Where the contents are the same but for one cell, so are the references. -/
theorem refersTo_eq_rewired {name : CellName} {content : String}
    (h : ∀ x, s'.content x = if x = name then content else s.content x) :
    s'.RefersTo = Rewired s.RefersTo name (Names content) := by
  funext x y
  apply propext
  unfold RefersTo Rewired
  rw [h]
  split <;> tauto

/-- The references after a change are the old ones, with those of one cell replaced. -/
theorem Change.refersTo_eq {u : CellUpdate} (hc : Change s u s') :
    s'.RefersTo = Rewired s.RefersTo u.cell (Names u.content) :=
  refersTo_eq_rewired hc.content

/-- The search over the old graph decides about the new references: it succeeds if and only if the cell would reach
itself by them. -/
theorem Consistent.wouldCycle_iff (h : s.Consistent) {name : CellName} {content : String} {references : List CellName}
    (hrefs : contentReferences content = .ok references) :
    s.refs.wouldCycle name references = true ↔ TransGen (Rewired s.RefersTo name (Names content)) name name := by
  rw [RefGraph.wouldCycle_iff, h.dependsOn_eq, rewired_cycle_iff]
  exact exists_congr fun y => and_congr_left' (mem_of_contentReferences hrefs y)

/-- The search over the old graph rules out a cycle through the changed cell in the new one. -/
theorem Consistent.not_onCycle_change {u : CellUpdate} (h : s.Consistent) (hc : Change s u s') :
    ¬s'.OnCycle u.cell := by
  unfold OnCycle
  rw [hc.refersTo_eq]
  obtain ⟨name, cell, references, log, readable, acyclic, -⟩ := hc
  rw [← h.wouldCycle_iff readable, acyclic]
  exact Bool.false_ne_true

theorem Consistent.onCycle_change {u : CellUpdate} (h : s.Consistent) (hc : Change s u s') {x : CellName}
    (hx : s'.OnCycle x) : s.OnCycle x := by
  have hn := h.not_onCycle_change hc
  unfold OnCycle at hn hx
  rw [hc.refersTo_eq] at hn hx
  exact cycle_of_rewired hn hx

theorem Consistent.onCycle_step {a : Action} {o : Outcome} (h : s.Consistent) (hs : Step s a o s') {x : CellName}
    (hx : s'.OnCycle x) : s.OnCycle x := by
  rcases hs with _ | ⟨hc, -⟩ | ⟨hc, -⟩ | ⟨hc, -⟩
  · exact hx
  · exact h.onCycle_change hc hx
  · exact h.onCycle_change hc hx
  · exact h.onCycle_change hc hx

/-- Whatever lies on a cycle after an event lay on one before. -/
theorem Consistent.onCycle_after (h : s.Consistent) (e : Event) {x : CellName} (hx : (s.after e).OnCycle x) :
    s.OnCycle x := by
  rcases e with r | client | _
  · change (s.apply r).2.OnCycle x at hx
    rcases s.apply_cases r with ⟨o, hr⟩ | ⟨o, s', hr, -, hs⟩
    · rw [hr] at hx
      exact hx
    · rw [hr] at hx
      exact h.onCycle_step hs hx
  · exact hx
  · exact (onCycle_congr h.named.content_reopen).1 hx

/-- No cell reaches itself. -/
def Acyclic (s : Sheet) : Prop := ∀ x, ¬s.OnCycle x

theorem acyclic_new (policy : Policy) : (new policy).Acyclic := by
  intro x hx
  obtain ⟨y, hy, -⟩ := TransGen.head'_iff.1 hx
  exact not_names_empty y hy

/-- No cycle is found on the way to a sheet that has none. -/
theorem Consistent.wouldCycle_eq_false (h : s.Consistent) {name : CellName} {content : String}
    {references : List CellName} (hrefs : contentReferences content = .ok references)
    (hnext : ∀ x, s'.content x = if x = name then content else s.content x) (hacyclic : s'.Acyclic) :
    s.refs.wouldCycle name references = false := by
  rw [Bool.eq_false_iff, ne_eq, h.wouldCycle_iff hrefs, ← refersTo_eq_rewired hnext]
  exact hacyclic name

theorem Consistent.acyclic_after (h : s.Consistent) (ha : s.Acyclic) (e : Event) : (s.after e).Acyclic :=
  fun x hx => ha x (h.onCycle_after e hx)

/-- A sheet that began empty has no cycles after any run. A sheet restored from any record may have some, but
at no point of a run does an event put a cell on a cycle that was on none before. -/
theorem acyclic_run (policy : Policy) (es : List Event) :
    (∀ x, ¬((new policy).run es).OnCycle x) ∧
      ∀ (r : SheetRecord) (e : Event) (x : CellName),
        (((restore r policy).run es).after e).OnCycle x → ((restore r policy).run es).OnCycle x := by
  constructor
  · have keep : ∀ s e, Consistent s ∧ s.Acyclic → (s.after e).Consistent ∧ (s.after e).Acyclic :=
      fun s e h => ⟨consistent_after s e h.1, h.1.acyclic_after h.2 e⟩
    exact (run_keeps keep ⟨consistent_new policy, acyclic_new policy⟩ es).2
  · intro r e x hx
    have hcons : ((restore r policy).run es).Consistent := run_keeps consistent_after (consistent_restore r policy) es
    exact hcons.onCycle_after e hx

end SharedSheet.Sheet
