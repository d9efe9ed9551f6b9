/-
The search for cycles: whether a node can be reached by going from nodes to their dependees. It works
through a list of nodes and keeps the visited ones. It ends because every step either visits a node
that has dependees and was not visited before, or takes a node off the list for good.
-/
import SharedSheet.RefGraph

namespace SharedSheet

open Std

universe u

theorem countP_lt_countP {α : Type u} {p q : α → Bool} {l : List α} {x : α} (hx : x ∈ l)
    (h : ∀ y ∈ l, p y = true → q y = true) (hp : p x = false) (hq : q x = true) :
    l.countP p < l.countP q := by
  induction l with
  | nil => simp at hx
  | cons y l ih =>
    have hle : l.countP p ≤ l.countP q := List.countP_mono_left fun z hz => h z (List.mem_cons_of_mem _ hz)
    rcases List.mem_cons.1 hx with rfl | hx
    · simp only [List.countP_cons, hp, hq]
      simpa using Nat.lt_succ_of_le hle
    · have := ih hx fun z hz => h z (List.mem_cons_of_mem _ hz)
      have hy := h y List.mem_cons_self
      simp only [List.countP_cons]
      cases hpy : p y
      · simp; omega
      · simp [hy hpy]; omega

namespace RefGraph

variable {α : Type u} [Ord α]

/-- How many nodes with dependees have not been visited. -/
def unvisited (g : RefGraph α) (visited : KeySet α) : Nat :=
  g.dependees.keys.countP fun x => !visited.contains x

theorem dependeesOf_eq_nil [LawfulEqOrd α] {g : RefGraph α} {x : α} (h : x ∉ g.dependees.keys) :
    g.dependeesOf x = [] := by
  simp [dependeesOf, Table.get?_eq_none_of_not_mem h, Table.empty, Table.keys]

variable [TransOrd α]

theorem unvisited_add_le [LawfulEqOrd α] (g : RefGraph α) (visited : KeySet α) (x : α) :
    g.unvisited (visited.add x) ≤ g.unvisited visited :=
  List.countP_mono_left fun y _ hy => by
    simp only [KeySet.add, Table.contains_insert, Bool.not_or, Bool.and_eq_true] at hy
    exact hy.2

/-- Visiting a new node that has dependees leaves fewer such nodes to visit. -/
theorem unvisited_add_lt [LawfulEqOrd α] {g : RefGraph α} {visited : KeySet α} {x : α} (hx : x ∈ g.dependees.keys)
    (hv : visited.contains x = false) : g.unvisited (visited.add x) < g.unvisited visited :=
  countP_lt_countP hx
    (fun y _ hy => by
      simp only [KeySet.add, Table.contains_insert, Bool.not_or, Bool.and_eq_true] at hy
      exact hy.2)
    (by simp [KeySet.add, Table.contains_insert]) (by simp [hv])

/-- Whether `target` is on the list or can be reached from a node on it by going from nodes to their
dependees, without passing a visited node. -/
def reaches [LawfulEqOrd α] [DecidableEq α] (g : RefGraph α) (target : α) (visited : KeySet α) : List α → Bool
  | [] => false
  | x :: todo =>
    if x = target then true
    else if visited.contains x = true then g.reaches target visited todo
    else g.reaches target (visited.add x) (g.dependeesOf x ++ todo)
termination_by todo => (g.unvisited visited, todo.length)
decreasing_by
  · exact Prod.Lex.right _ (by simp)
  · rename_i hv
    by_cases hx : x ∈ g.dependees.keys
    · exact Prod.Lex.left _ _ (unvisited_add_lt hx (by simpa using hv))
    · rw [dependeesOf_eq_nil hx]
      rcases Nat.lt_or_eq_of_le (g.unvisited_add_le visited x) with h | h
      · exact Prod.Lex.left _ _ h
      · rw [h]
        exact Prod.Lex.right _ (by simp)

/-- Whether a node would reach itself if its dependees were `candidates`. -/
def wouldCycle [LawfulEqOrd α] [DecidableEq α] (g : RefGraph α) (node : α) (candidates : List α) : Bool :=
  g.reaches node Table.empty candidates

end RefGraph

end SharedSheet
