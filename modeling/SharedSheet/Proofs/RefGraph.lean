/-
Laws of the graph of references: after replacing the dependees of a node they are exactly the given
ones, the dependees of all other nodes are as before, and the two maps of the graph still mirror each
other without an empty set.
-/
import SharedSheet.Proofs.Table
import SharedSheet.RefGraph

namespace SharedSheet.RefGraph

open Std

universe u

variable {α : Type u} [Ord α]

/-! ## The members of one side -/

/-- The members of the set at a key; no set counts as the empty one. -/
def neighbours (m : Table α (KeySet α)) (k : α) : List α := ((m.get? k).getD Table.empty).keys

/-- No key has the empty set. -/
def NoEmptySet (m : Table α (KeySet α)) : Prop := ∀ k set, m.get? k = some set → set.keys ≠ []

theorem noEmptySet_empty : NoEmptySet (Table.empty : Table α (KeySet α)) := by
  intro k set h; cases h

variable [LawfulEqOrd α] [DecidableEq α]

theorem mem_neighbours_erase (m : Table α (KeySet α)) (k l x : α) :
    x ∈ neighbours (m.erase k) l ↔ l ≠ k ∧ x ∈ neighbours m l := by
  unfold neighbours
  rw [Table.get?_erase]
  split <;> simp [*, Table.keys_empty]

theorem noEmptySet_erase {m : Table α (KeySet α)} (h : NoEmptySet m) (k : α) : NoEmptySet (m.erase k) := by
  intro l set hl
  exact h l set (Table.get?_erase_eq_some.1 hl).2

variable [TransOrd α]

theorem mem_neighbours_link (m : Table α (KeySet α)) (k v l x : α) :
    x ∈ neighbours (link m k v) l ↔ (l = k ∧ x = v) ∨ x ∈ neighbours m l := by
  unfold neighbours link
  rw [Table.get?_insert]
  split
  · rename_i h; subst h
    simp only [Option.getD_some, KeySet.mem_keys_add, true_and]
  · simp [*]

theorem noEmptySet_link {m : Table α (KeySet α)} (h : NoEmptySet m) (k v : α) : NoEmptySet (link m k v) := by
  intro l set hl
  unfold link at hl
  rw [Table.get?_insert] at hl
  split at hl
  · cases hl
    intro hn
    have : v ∈ (((m.get? k).getD Table.empty).add v).keys := (KeySet.mem_keys_add ..).2 (.inl rfl)
    rw [hn] at this
    cases this
  · exact h l set hl

theorem mem_neighbours_unlink (m : Table α (KeySet α)) (k v l x : α) :
    x ∈ neighbours (unlink m k v) l ↔ ¬(l = k ∧ x = v) ∧ x ∈ neighbours m l := by
  unfold unlink
  rcases hk : m.get? k with _ | set
  · refine ⟨fun h => ⟨?_, h⟩, And.right⟩
    rintro ⟨rfl, rfl⟩
    simp [neighbours, hk, Table.keys_empty] at h
  · have hset : neighbours m k = set.keys := by simp [neighbours, hk]
    dsimp only
    split
    · -- the set was `{v}` at most, so erasing the key takes the members away that are asked for
      rename_i he
      rw [KeySet.isEmpty_iff_keys] at he
      have hv : ∀ y ∈ set.keys, y = v := fun y hy => by
        by_contra hne
        have := (KeySet.mem_keys_erase set v y).2 ⟨hne, hy⟩
        rw [he] at this
        cases this
      rw [mem_neighbours_erase]
      constructor
      · rintro ⟨hl, hx⟩; exact ⟨fun h => hl h.1, hx⟩
      · rintro ⟨hn, hx⟩
        refine ⟨?_, hx⟩
        rintro rfl
        exact hn ⟨rfl, hv x (hset ▸ hx)⟩
    · unfold neighbours
      rw [Table.get?_insert]
      split
      · rename_i h; subst h
        simp only [Option.getD_some, KeySet.mem_keys_erase, true_and, hk]
      · simp [*]

theorem noEmptySet_unlink {m : Table α (KeySet α)} (h : NoEmptySet m) (k v : α) : NoEmptySet (unlink m k v) := by
  unfold unlink
  rcases hk : m.get? k with _ | set
  · exact h
  · dsimp only
    split
    · exact noEmptySet_erase h k
    · rename_i he
      intro l set' hl
      rw [Table.get?_insert] at hl
      split at hl
      · cases hl
        intro hn
        exact he (KeySet.isEmpty_iff_keys.2 hn)
      · exact h l set' hl

/-! ## Several changes of one side -/

theorem mem_neighbours_unlinkAll (ks : List α) (m : Table α (KeySet α)) (v l x : α) :
    x ∈ neighbours (ks.foldl (fun m k => unlink m k v) m) l ↔ ¬(l ∈ ks ∧ x = v) ∧ x ∈ neighbours m l := by
  induction ks generalizing m with
  | nil => simp
  | cons k ks ih =>
    rw [List.foldl_cons, ih, mem_neighbours_unlink, List.mem_cons]
    tauto

theorem noEmptySet_unlinkAll (ks : List α) {m : Table α (KeySet α)} (h : NoEmptySet m) (v : α) :
    NoEmptySet (ks.foldl (fun m k => unlink m k v) m) := by
  induction ks generalizing m with
  | nil => exact h
  | cons k ks ih => exact ih (noEmptySet_unlink h k v)

/-! ## Extensionality -/

omit [LawfulEqOrd α] [DecidableEq α] [TransOrd α] in
theorem get?_eq_none_iff_neighbours {m : Table α (KeySet α)} (h : NoEmptySet m) (k : α) :
    m.get? k = none ↔ neighbours m k = [] := by
  unfold neighbours
  rcases hk : m.get? k with _ | set
  · exact ⟨fun _ => rfl, fun _ => rfl⟩
  · constructor
    · rintro ⟨⟩
    · exact fun hset => absurd hset (h k set hk)

omit [DecidableEq α] in
/-- Without empty sets a map is determined by the members of its sets. -/
theorem ext_neighbours {m n : Table α (KeySet α)} (hm : NoEmptySet m) (hn : NoEmptySet n)
    (h : ∀ k x, x ∈ neighbours m k ↔ x ∈ neighbours n k) : m = n := by
  refine Table.ext_get? fun k => ?_
  have hsets : (m.get? k).getD Table.empty = (n.get? k).getD Table.empty := KeySet.ext_keys (h k)
  have hnone : m.get? k = none ↔ n.get? k = none := by
    rw [get?_eq_none_iff_neighbours hm, get?_eq_none_iff_neighbours hn]
    unfold neighbours
    rw [hsets]
  rcases hk : m.get? k with _ | set
  · exact (hnone.1 hk).symm
  · rcases hl : n.get? k with _ | set'
    · rw [hnone.2 hl] at hk
      cases hk
    · rw [hk, hl] at hsets
      exact congrArg some hsets

/-! ## The graph -/

omit [LawfulEqOrd α] [DecidableEq α] [TransOrd α] in
theorem dependeesOf_eq (g : RefGraph α) (t : α) : g.dependeesOf t = neighbours g.dependees t := rfl

omit [LawfulEqOrd α] [DecidableEq α] [TransOrd α] in
theorem dependentsOf_eq (g : RefGraph α) (s : α) : g.dependentsOf s = neighbours g.dependents s := rfl

/-- The two maps hold the same edges, and no empty set. -/
structure Mirrored (g : RefGraph α) : Prop where
  mirror : ∀ s t, t ∈ g.dependentsOf s ↔ s ∈ g.dependeesOf t
  dependents : NoEmptySet g.dependents
  dependees : NoEmptySet g.dependees

omit [LawfulEqOrd α] [DecidableEq α] [TransOrd α] in
theorem mirrored_empty : (RefGraph.empty : RefGraph α).Mirrored where
  mirror s t := by simp [dependentsOf, dependeesOf, RefGraph.empty, Table.get?_empty, Table.keys_empty]
  dependents := noEmptySet_empty
  dependees := noEmptySet_empty

omit [DecidableEq α] in
/-- A graph is determined by its edges. -/
theorem Mirrored.ext {g h : RefGraph α} (hg : g.Mirrored) (hh : h.Mirrored)
    (hedges : ∀ t s, s ∈ g.dependeesOf t ↔ s ∈ h.dependeesOf t) : g = h := by
  have hdependents : g.dependents = h.dependents := by
    refine ext_neighbours hg.dependents hh.dependents fun s t => ?_
    rw [← dependentsOf_eq, ← dependentsOf_eq, hg.mirror, hh.mirror, hedges]
  have hdependees : g.dependees = h.dependees := ext_neighbours hg.dependees hh.dependees hedges
  obtain ⟨_, _⟩ := g
  obtain ⟨_, _⟩ := h
  cases hdependents
  cases hdependees
  rfl

theorem Mirrored.add {g : RefGraph α} (h : g.Mirrored) (s t : α) : (g.add s t).Mirrored where
  mirror x y := by
    simp only [RefGraph.add, dependentsOf_eq, dependeesOf_eq, mem_neighbours_link]
    rw [← dependentsOf_eq, ← dependeesOf_eq, h.mirror]
    tauto
  dependents := noEmptySet_link h.dependents s t
  dependees := noEmptySet_link h.dependees t s

theorem Mirrored.addAll {g : RefGraph α} (h : g.Mirrored) (t : α) (sources : List α) :
    (sources.foldl (fun g s => g.add s t) g).Mirrored := by
  induction sources generalizing g with
  | nil => exact h
  | cons s sources ih => exact ih (h.add s t)

theorem mem_dependeesOf_addAll (g : RefGraph α) (t : α) (sources : List α) (x y : α) :
    y ∈ (sources.foldl (fun g s => g.add s t) g).dependeesOf x ↔ (x = t ∧ y ∈ sources) ∨ y ∈ g.dependeesOf x := by
  induction sources generalizing g with
  | nil => simp
  | cons s sources ih =>
    rw [List.foldl_cons, ih, dependeesOf_eq, RefGraph.add, mem_neighbours_link, List.mem_cons, ← dependeesOf_eq]
    tauto

/-- The graph without the edges to `t`. -/
def clearDependees (g : RefGraph α) (t : α) : RefGraph α :=
  ⟨(g.dependeesOf t).foldl (fun m s => unlink m s t) g.dependents, g.dependees.erase t⟩

omit [LawfulEqOrd α] [DecidableEq α] in
theorem replaceDependees_eq (g : RefGraph α) (t : α) (sources : List α) :
    g.replaceDependees t sources = sources.foldl (fun g s => g.add s t) (g.clearDependees t) := rfl

theorem Mirrored.clearDependees {g : RefGraph α} (h : g.Mirrored) (t : α) : (g.clearDependees t).Mirrored where
  mirror x y := by
    simp only [RefGraph.clearDependees, dependentsOf_eq, dependeesOf_eq, mem_neighbours_unlinkAll,
      mem_neighbours_erase]
    have hm := h.mirror x y
    simp only [dependentsOf_eq, dependeesOf_eq] at hm
    rw [hm]
    constructor
    · rintro ⟨hn, hx⟩
      refine ⟨?_, hx⟩
      rintro rfl
      exact hn ⟨hx, rfl⟩
    · rintro ⟨hy, hx⟩; exact ⟨fun hn => hy hn.2, hx⟩
  dependents := noEmptySet_unlinkAll _ h.dependents t
  dependees := noEmptySet_erase h.dependees t

/-- Replacing the dependees of a node keeps the two maps mirrored. -/
theorem Mirrored.replaceDependees {g : RefGraph α} (h : g.Mirrored) (t : α) (sources : List α) :
    (g.replaceDependees t sources).Mirrored := by
  rw [replaceDependees_eq]
  exact (h.clearDependees t).addAll t sources

/-- The dependees of the node are the given ones, those of every other node as before. -/
theorem mem_dependeesOf_replaceDependees (g : RefGraph α) (t : α) (sources : List α) (x y : α) :
    y ∈ (g.replaceDependees t sources).dependeesOf x ↔ if x = t then y ∈ sources else y ∈ g.dependeesOf x := by
  rw [replaceDependees_eq, mem_dependeesOf_addAll, dependeesOf_eq, clearDependees, mem_neighbours_erase,
    ← dependeesOf_eq]
  split <;> simp [*]

omit [DecidableEq α] in
/-- Two nodes' dependees are listed alike if they have the same members. -/
theorem dependeesOf_congr {g h : RefGraph α} {x y : α} (hm : ∀ z, z ∈ g.dependeesOf x ↔ z ∈ h.dependeesOf y) :
    g.dependeesOf x = h.dependeesOf y :=
  congrArg Table.keys (KeySet.ext_keys hm)

end SharedSheet.RefGraph
