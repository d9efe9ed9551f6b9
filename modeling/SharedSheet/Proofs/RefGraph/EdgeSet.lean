/-
The graph of references as a set of edges. After any sequence of changes to the empty graph it stands for the finite
set of pairs that the same changes make of the empty set, and every query answers about that set (`answers_run`).

The two maps of the graph are mirror images. Replacing the dependents of a node is replacing its dependees in the graph
with all edges turned round (`flip_replaceDependents`), so one of the two replacements is taken from the other.
-/
import Mathlib.Data.Finset.Card
import Mathlib.Data.Finset.Image
import SharedSheet.Proofs.RefGraph

namespace SharedSheet.RefGraph

open Std

universe u

variable {α : Type u} [Ord α]

/-! ## Edges turned round -/

/-- The graph with every edge turned round. -/
def flip (g : RefGraph α) : RefGraph α := ⟨g.dependees, g.dependents⟩

@[simp]
theorem dependeesOf_flip (g : RefGraph α) (x : α) : g.flip.dependeesOf x = g.dependentsOf x := rfl

@[simp]
theorem dependentsOf_flip (g : RefGraph α) (x : α) : g.flip.dependentsOf x = g.dependeesOf x := rfl

theorem Mirrored.flip {g : RefGraph α} (h : g.Mirrored) : g.flip.Mirrored where
  mirror s t := (h.mirror t s).symm
  dependents := h.dependees
  dependees := h.dependents

/-- A replacement of dependents is a replacement of dependees the other way round. -/
theorem flip_replaceDependents [TransOrd α] (g : RefGraph α) (s : α) (targets : List α) :
    (g.replaceDependents s targets).flip = g.flip.replaceDependees s targets :=
  (List.foldl_hom RefGraph.flip fun _ _ => rfl).symm

/-! ## Changes -/

/-- A change of a graph. -/
inductive Rewiring (α : Type u) where
  | add (s t : α)
  | remove (s t : α)
  | replaceDependents (s : α) (targets : List α)
  | replaceDependees (t : α) (sources : List α)
  deriving DecidableEq, Repr

/-- The change of the graph. -/
def Rewiring.perform [TransOrd α] (g : RefGraph α) : Rewiring α → RefGraph α
  | .add s t => g.add s t
  | .remove s t => g.remove s t
  | .replaceDependents s targets => g.replaceDependents s targets
  | .replaceDependees t sources => g.replaceDependees t sources

/-- The same change of a set of edges. A replacement takes all edges away on one side of the node and puts the given
ones in their place, however often they are given. -/
def Rewiring.onEdges [DecidableEq α] (E : Finset (α × α)) : Rewiring α → Finset (α × α)
  | .add s t => insert (s, t) E
  | .remove s t => E.erase (s, t)
  | .replaceDependents s targets => (E.filter fun e => e.1 ≠ s) ∪ (targets.map fun t => (s, t)).toFinset
  | .replaceDependees t sources => (E.filter fun e => e.2 ≠ t) ∪ (sources.map fun s => (s, t)).toFinset

/-- The graph after changes of the empty graph. -/
def run [TransOrd α] (changes : List (Rewiring α)) : RefGraph α := changes.foldl Rewiring.perform .empty

/-- The set of edges after the same changes of the empty set. -/
def edgesAfter [DecidableEq α] (changes : List (Rewiring α)) : Finset (α × α) := changes.foldl Rewiring.onEdges ∅

variable [LawfulEqOrd α] [DecidableEq α] [TransOrd α]

/-- The graph stands for a set of edges. -/
structure Represents (g : RefGraph α) (E : Finset (α × α)) : Prop where
  mirrored : g.Mirrored
  mem_dependeesOf : ∀ s t, s ∈ g.dependeesOf t ↔ (s, t) ∈ E

omit [Ord α] [LawfulEqOrd α] [TransOrd α] in
theorem mem_onEdges_replaceDependents (E : Finset (α × α)) (s : α) (targets : List α) (x y : α) :
    (x, y) ∈ (Rewiring.replaceDependents s targets).onEdges E ↔ if x = s then y ∈ targets else (x, y) ∈ E := by
  simp only [Rewiring.onEdges, Finset.mem_union, Finset.mem_filter, List.mem_toFinset, List.mem_map, Prod.mk_inj]
  by_cases hx : x = s
  · simp [hx]
  · simp [hx, Ne.symm hx]

omit [Ord α] [LawfulEqOrd α] [TransOrd α] in
theorem mem_onEdges_replaceDependees (E : Finset (α × α)) (t : α) (sources : List α) (x y : α) :
    (x, y) ∈ (Rewiring.replaceDependees t sources).onEdges E ↔ if y = t then x ∈ sources else (x, y) ∈ E := by
  simp only [Rewiring.onEdges, Finset.mem_union, Finset.mem_filter, List.mem_toFinset, List.mem_map, Prod.mk_inj]
  by_cases hy : y = t
  · simp [hy]
  · simp [hy, Ne.symm hy]

theorem Mirrored.remove {g : RefGraph α} (h : g.Mirrored) (s t : α) : (g.remove s t).Mirrored where
  mirror x y := by
    simp only [RefGraph.remove, dependentsOf_eq, dependeesOf_eq, mem_neighbours_unlink]
    rw [← dependentsOf_eq, ← dependeesOf_eq, h.mirror]
    tauto
  dependents := noEmptySet_unlink h.dependents s t
  dependees := noEmptySet_unlink h.dependees t s

theorem Mirrored.replaceDependents {g : RefGraph α} (h : g.Mirrored) (s : α) (targets : List α) :
    (g.replaceDependents s targets).Mirrored := by
  have hflip := (h.flip.replaceDependees s targets).flip
  rw [← flip_replaceDependents] at hflip
  exact hflip

omit [LawfulEqOrd α] [DecidableEq α] [TransOrd α] in
theorem represents_empty : (RefGraph.empty : RefGraph α).Represents ∅ where
  mirrored := mirrored_empty
  mem_dependeesOf s t := by simp [dependeesOf, RefGraph.empty, Table.get?_empty, Table.keys_empty]

namespace Represents

variable {g : RefGraph α} {E : Finset (α × α)}

omit [LawfulEqOrd α] [DecidableEq α] [TransOrd α] in
theorem mem_dependentsOf (h : g.Represents E) (s t : α) : t ∈ g.dependentsOf s ↔ (s, t) ∈ E := by
  rw [h.mirrored.mirror, h.mem_dependeesOf]

/-- A change of the graph is the same change of its edges. -/
theorem perform (h : g.Represents E) (c : Rewiring α) : (c.perform g).Represents (c.onEdges E) := by
  cases c with
  | add s t =>
    refine ⟨h.mirrored.add s t, fun x y => ?_⟩
    show x ∈ neighbours (link g.dependees t s) y ↔ (x, y) ∈ insert (s, t) E
    rw [mem_neighbours_link, ← dependeesOf_eq, h.mem_dependeesOf, Finset.mem_insert, Prod.mk_inj, and_comm]
  | remove s t =>
    refine ⟨h.mirrored.remove s t, fun x y => ?_⟩
    show x ∈ neighbours (unlink g.dependees t s) y ↔ (x, y) ∈ E.erase (s, t)
    rw [mem_neighbours_unlink, ← dependeesOf_eq, h.mem_dependeesOf, Finset.mem_erase, ne_eq, Prod.mk_inj,
      and_comm (a := y = t)]
  | replaceDependents s targets =>
    have hm := h.mirrored.replaceDependents s targets
    refine ⟨hm, fun x y => ?_⟩
    show x ∈ (g.replaceDependents s targets).dependeesOf y ↔ _
    rw [← hm.mirror, ← dependeesOf_flip, flip_replaceDependents, mem_dependeesOf_replaceDependees, dependeesOf_flip,
      h.mem_dependentsOf, mem_onEdges_replaceDependents]
  | replaceDependees t sources =>
    refine ⟨h.mirrored.replaceDependees t sources, fun x y => ?_⟩
    show x ∈ (g.replaceDependees t sources).dependeesOf y ↔ _
    rw [mem_dependeesOf_replaceDependees, h.mem_dependeesOf, mem_onEdges_replaceDependees]

theorem after (h : g.Represents E) (changes : List (Rewiring α)) :
    (changes.foldl Rewiring.perform g).Represents (changes.foldl Rewiring.onEdges E) := by
  induction changes generalizing g E with
  | nil => exact h
  | cons c changes ih => exact ih (h.perform c)

end Represents

theorem represents_run (changes : List (Rewiring α)) : (run changes).Represents (edgesAfter changes) :=
  represents_empty.after changes

/-! ## Queries -/

/-- The edges as pairs, by ascending source and target. -/
def edgeList (g : RefGraph α) : List (α × α) := g.dependents.entries.flatMap fun e => e.2.keys.map fun t => (e.1, t)

omit [LawfulEqOrd α] [DecidableEq α] [TransOrd α] in
theorem length_edgeList (g : RefGraph α) : g.edgeList.length = g.size := by
  unfold edgeList size Table.values
  rw [List.length_flatMap, List.map_map, ← List.sum_eq_foldl]
  simp [Function.comp_def, Table.keys, Table.size]

omit [DecidableEq α] [TransOrd α] in
theorem nodup_edgeList (g : RefGraph α) : g.edgeList.Nodup := by
  unfold edgeList
  refine List.nodup_flatMap.2 ⟨fun e _ => e.2.nodup_keys.map fun _ _ h => (Prod.mk.inj h).2, ?_⟩
  refine g.dependents.ascending.imp fun {d e} hlt => ?_
  -- pairs from different entries have different sources
  rintro ⟨s, t⟩ hd he
  obtain ⟨_, -, hd⟩ := List.mem_map.1 hd
  obtain ⟨_, -, he⟩ := List.mem_map.1 he
  rw [(Prod.mk.inj hd).1, (Prod.mk.inj he).1] at hlt
  exact Table.compare_self_ne_lt s hlt

omit [DecidableEq α] [TransOrd α] in
theorem mem_edgeList (g : RefGraph α) (s t : α) : (s, t) ∈ g.edgeList ↔ t ∈ g.dependentsOf s := by
  unfold edgeList
  simp only [List.mem_flatMap, List.mem_map, Prod.mk_inj, dependentsOf]
  constructor
  · rintro ⟨⟨_, set⟩, he, _, ht, rfl, rfl⟩
    rw [Table.get?_eq_some_iff.2 he]
    exact ht
  · intro ht
    rcases hs : g.dependents.get? s with _ | set
    · rw [hs] at ht
      cases ht
    · rw [hs] at ht
      exact ⟨(s, set), Table.get?_eq_some_iff.1 hs, t, ht, rfl, rfl⟩

omit [LawfulEqOrd α] [DecidableEq α] [TransOrd α] in
/-- Without empty sets a key is there if and only if its set has a member. -/
theorem contains_iff_neighbours {m : Table α (KeySet α)} (h : NoEmptySet m) (k : α) :
    m.contains k = true ↔ ∃ x, x ∈ neighbours m k := by
  rw [Table.contains, Option.isSome_iff_ne_none, ne_eq, get?_eq_none_iff_neighbours h]
  constructor
  · exact List.exists_mem_of_ne_nil _
  · rintro ⟨x, hx⟩
    exact List.ne_nil_of_mem hx

/-- All queries of the graph answer about a set of edges. -/
structure Answers (g : RefGraph α) (E : Finset (α × α)) : Prop where
  dependents : ∀ s, (g.dependentsOf s).Nodup ∧ ∀ t, t ∈ g.dependentsOf s ↔ (s, t) ∈ E
  dependees : ∀ t, (g.dependeesOf t).Nodup ∧ ∀ s, s ∈ g.dependeesOf t ↔ (s, t) ∈ E
  hasDependents : ∀ s, g.hasDependents s = true ↔ ∃ t, (s, t) ∈ E
  hasDependees : ∀ t, g.hasDependees t = true ↔ ∃ s, (s, t) ∈ E
  isEmpty : g.isEmpty = true ↔ E = ∅
  size : g.size = E.card

namespace Represents

variable {g : RefGraph α} {E : Finset (α × α)}

omit [TransOrd α] in
theorem toFinset_edgeList (h : g.Represents E) : g.edgeList.toFinset = E := by
  ext ⟨s, t⟩
  rw [List.mem_toFinset, mem_edgeList, h.mem_dependentsOf]

omit [TransOrd α] in
theorem isEmpty_iff (h : g.Represents E) : g.isEmpty = true ↔ E = ∅ := by
  rw [RefGraph.isEmpty, Table.isEmpty_iff, ← h.toFinset_edgeList, List.toFinset_eq_empty_iff, edgeList,
    List.flatMap_eq_nil_iff]
  constructor
  · intro he
    simp [he]
  · intro hnone
    refine List.eq_nil_iff_forall_not_mem.2 fun e he => ?_
    exact h.mirrored.dependents e.1 e.2 (Table.get?_eq_some_iff.2 he) (List.map_eq_nil_iff.1 (hnone e he))

omit [TransOrd α] in
theorem answers (h : g.Represents E) : g.Answers E where
  dependents s := ⟨Table.nodup_keys _, h.mem_dependentsOf s⟩
  dependees t := ⟨Table.nodup_keys _, fun s => h.mem_dependeesOf s t⟩
  hasDependents s := by
    rw [hasDependents, contains_iff_neighbours h.mirrored.dependents]
    exact exists_congr fun t => h.mem_dependentsOf s t
  hasDependees t := by
    rw [hasDependees, contains_iff_neighbours h.mirrored.dependees]
    exact exists_congr fun s => h.mem_dependeesOf s t
  isEmpty := h.isEmpty_iff
  size := by rw [← length_edgeList, ← h.toFinset_edgeList, List.toFinset_card_of_nodup g.nodup_edgeList]

end Represents

/-- Whatever changes are made to the empty graph, it answers every query about the set of edges that the same changes
make of the empty set: the neighbours of a node without repetition, whether there are any, and the number of edges. -/
theorem answers_run (changes : List (Rewiring α)) : (run changes).Answers (edgesAfter changes) :=
  (represents_run changes).answers

/-- A node that refers to itself, and is then given its dependents anew with one of them named twice. -/
theorem answers_run_loop :
    edgesAfter [.add "A1" "A1", .replaceDependees "B1" ["A1", "C1", "A1"], .replaceDependents "A1" ["A1", "D1", "A1"],
      .remove "C1" "D1"] = ({("A1", "A1"), ("A1", "D1"), ("C1", "B1")} : Finset (String × String)) ∧
    (run [.add "A1" "A1", .replaceDependees "B1" ["A1", "C1", "A1"], .replaceDependents "A1" ["A1", "D1", "A1"],
      .remove "C1" "D1"]).Answers ({("A1", "A1"), ("A1", "D1"), ("C1", "B1")} : Finset (String × String)) := by
  have hedges : edgesAfter [.add "A1" "A1", .replaceDependees "B1" ["A1", "C1", "A1"],
      .replaceDependents "A1" ["A1", "D1", "A1"], .remove "C1" "D1"] =
        ({("A1", "A1"), ("A1", "D1"), ("C1", "B1")} : Finset (String × String)) := by decide
  exact ⟨hedges, hedges ▸ answers_run _⟩

end SharedSheet.RefGraph
