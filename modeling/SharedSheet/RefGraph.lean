/-
The graph of references between nodes. An edge from `s` to `t` says that `t` depends on `s`. The graph
keeps for every node with edges the set of its dependents and the set of its dependees; the two maps
hold the same edges, and no empty set.
-/
import SharedSheet.Table

namespace SharedSheet

open Std

universe u

/-- Edges stored by their source and by their target. -/
structure RefGraph (α : Type u) [Ord α] where
  dependents : Table α (KeySet α)
  dependees : Table α (KeySet α)

namespace RefGraph

variable {α : Type u} [Ord α]

instance [DecidableEq α] : DecidableEq (RefGraph α) := fun g h =>
  decidable_of_iff (g.dependents = h.dependents ∧ g.dependees = h.dependees) (by
    cases g; cases h; simp)

def empty : RefGraph α := ⟨Table.empty, Table.empty⟩

/-- Adds `v` to the set at `k`. -/
def link [TransOrd α] (m : Table α (KeySet α)) (k v : α) : Table α (KeySet α) :=
  m.insert k (((m.get? k).getD Table.empty).add v)

/-- Takes `v` out of the set at `k`, and the set out of the map if it is empty then. -/
def unlink [TransOrd α] (m : Table α (KeySet α)) (k v : α) : Table α (KeySet α) :=
  match m.get? k with
  | none => m
  | some set => if (set.erase v).isEmpty then m.erase k else m.insert k (set.erase v)

/-! ## Queries -/

/-- The nodes that depend on `s`, ascending. -/
def dependentsOf (g : RefGraph α) (s : α) : List α := ((g.dependents.get? s).getD Table.empty).keys

/-- The nodes that `t` depends on, ascending. -/
def dependeesOf (g : RefGraph α) (t : α) : List α := ((g.dependees.get? t).getD Table.empty).keys

def hasDependents (g : RefGraph α) (s : α) : Bool := g.dependents.contains s

def hasDependees (g : RefGraph α) (t : α) : Bool := g.dependees.contains t

/-- The number of edges. -/
def size (g : RefGraph α) : Nat := (g.dependents.values.map Table.size).foldl (· + ·) 0

def isEmpty (g : RefGraph α) : Bool := g.dependents.isEmpty

/-! ## Changes -/

variable [TransOrd α]

/-- Adds the edge from `s` to `t`. -/
def add (g : RefGraph α) (s t : α) : RefGraph α := ⟨link g.dependents s t, link g.dependees t s⟩

/-- Removes the edge from `s` to `t`. -/
def remove (g : RefGraph α) (s t : α) : RefGraph α := ⟨unlink g.dependents s t, unlink g.dependees t s⟩

/-- Replaces all edges from `s` by edges to `targets`. -/
def replaceDependents (g : RefGraph α) (s : α) (targets : List α) : RefGraph α :=
  let cleared : RefGraph α :=
    ⟨g.dependents.erase s, (g.dependentsOf s).foldl (fun m t => unlink m t s) g.dependees⟩
  targets.foldl (fun g t => g.add s t) cleared

/-- Replaces all edges to `t` by edges from `sources`. -/
def replaceDependees (g : RefGraph α) (t : α) (sources : List α) : RefGraph α :=
  let cleared : RefGraph α :=
    ⟨(g.dependeesOf t).foldl (fun m s => unlink m s t) g.dependents, g.dependees.erase t⟩
  sources.foldl (fun g s => g.add s t) cleared

end RefGraph

end SharedSheet
