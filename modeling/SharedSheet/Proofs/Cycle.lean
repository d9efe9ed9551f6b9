/-
The search for cycles is exact: it succeeds if and only if one of the candidates leads to the node by
references (`wouldCycle_iff`). And the search over the old graph decides the new one: once the references
of a node are replaced by the candidates, the node lies on a cycle if and only if the search succeeds
(`rewired_cycle_iff`), and a cycle that does not touch the node was there before (`cycle_of_rewired`).

The search keeps that every visited node differs from the target and that its dependees have been visited
or wait on the list; when the list is empty, the visited nodes are closed and the target is not one of them.
-/
import Mathlib.Logic.Relation
import SharedSheet.Proofs.RefGraph
import SharedSheet.Sheet.Cycle

namespace SharedSheet

open Std Relation

universe u

namespace RefGraph

variable {α : Type u} [Ord α]

/-- The first node refers to the second. -/
def DependsOn (g : RefGraph α) (x y : α) : Prop := y ∈ g.dependeesOf x

variable [TransOrd α] [LawfulEqOrd α] [DecidableEq α]

/-! ## The search -/

/-- What a successful search has found. -/
theorem reaches_sound (g : RefGraph α) (target : α) (visited : KeySet α) (todo : List α)
    (h : g.reaches target visited todo = true) : ∃ x ∈ todo, ReflTransGen g.DependsOn x target := by
  fun_induction g.reaches target visited todo with
  | case1 => cases h
  | case2 => exact ⟨target, List.mem_cons_self, .refl⟩
  | case3 visited x todo hx hv ih =>
    obtain ⟨y, hy, hr⟩ := ih h
    exact ⟨y, List.mem_cons_of_mem _ hy, hr⟩
  | case4 visited x todo hx hv ih =>
    obtain ⟨y, hy, hr⟩ := ih h
    rcases List.mem_append.1 hy with hy | hy
    · exact ⟨x, List.mem_cons_self, .head hy hr⟩
    · exact ⟨y, List.mem_cons_of_mem _ hy, hr⟩

/-- Visited nodes are not the target, and their dependees are visited or on the list. -/
def Explored (g : RefGraph α) (target : α) (visited : KeySet α) (todo : List α) : Prop :=
  ∀ v, visited.contains v = true → v ≠ target ∧ ∀ w ∈ g.dependeesOf v, visited.contains w = true ∨ w ∈ todo

omit [TransOrd α] [DecidableEq α] [LawfulEqOrd α] in
theorem explored_empty (g : RefGraph α) (target : α) (todo : List α) : g.Explored target Table.empty todo := by
  intro v hv
  rw [Table.contains_empty] at hv
  cases hv

/-- A search that fails has seen everything that can be reached. -/
theorem reaches_complete (g : RefGraph α) (target : α) (visited : KeySet α) (todo : List α)
    (he : g.Explored target visited todo) (h : g.reaches target visited todo = false) :
    ∀ x, visited.contains x = true ∨ x ∈ todo → ¬ ReflTransGen g.DependsOn x target := by
  fun_induction g.reaches target visited todo with
  | case1 visited =>
    intro x hx hr
    have hx : visited.contains x = true := by simpa using hx
    -- nothing waits any more, so the visited nodes are closed under references
    have closed : ∀ y, ReflTransGen g.DependsOn x y → visited.contains y = true := by
      intro y hy
      induction hy with
      | refl => exact hx
      | tail _ hyz ih => simpa using (he _ ih).2 _ hyz
    exact (he target (closed target hr)).1 rfl
  | case2 => cases h
  | case3 visited x todo hx hv ih =>
    intro y hy
    refine ih (fun v hc => ⟨(he v hc).1, fun w hw => ?_⟩) h y ?_
    · rcases (he v hc).2 w hw with h₁ | h₁
      · exact .inl h₁
      · rcases List.mem_cons.1 h₁ with rfl | h₁
        · exact .inl hv
        · exact .inr h₁
    · rcases hy with hy | hy
      · exact .inl hy
      · rcases List.mem_cons.1 hy with rfl | hy
        · exact .inl hv
        · exact .inr hy
  | case4 visited x todo hx hv ih =>
    have hadd : ∀ w, (visited.add x).contains w = true ↔ w = x ∨ visited.contains w = true := fun w => by
      rw [← Table.mem_keys_iff_contains, KeySet.mem_keys_add, Table.mem_keys_iff_contains]
    intro y hy
    refine ih (fun v hc => ?_) h y ?_
    · rcases (hadd v).1 hc with rfl | hc
      · exact ⟨hx, fun w hw => .inr (List.mem_append_left _ hw)⟩
      · refine ⟨(he v hc).1, fun w hw => ?_⟩
        rw [hadd]
        rcases (he v hc).2 w hw with h₁ | h₁
        · exact .inl (.inr h₁)
        · rcases List.mem_cons.1 h₁ with rfl | h₁
          · exact .inl (.inl rfl)
          · exact .inr (List.mem_append_right _ h₁)
    · rw [hadd]
      rcases hy with hy | hy
      · exact .inl (.inr hy)
      · rcases List.mem_cons.1 hy with rfl | hy
        · exact .inl (.inl rfl)
        · exact .inr (List.mem_append_right _ hy)

/-- The check succeeds if and only if a candidate leads to the node. -/
theorem wouldCycle_iff (g : RefGraph α) (node : α) (candidates : List α) :
    g.wouldCycle node candidates = true ↔ ∃ x ∈ candidates, ReflTransGen g.DependsOn x node := by
  unfold wouldCycle
  constructor
  · exact reaches_sound g node Table.empty candidates
  · rintro ⟨x, hx, hr⟩
    by_contra hf
    exact reaches_complete g node Table.empty candidates (explored_empty g node candidates)
      (by simpa using hf) x (.inr hx) hr

end RefGraph

/-! ## Replacing the references of one node -/

section Rewired

variable {α : Type u}

/-- The relation `R` with the successors of `n` replaced by the members of `S`. -/
def Rewired (R : α → α → Prop) (n : α) (S : α → Prop) (x y : α) : Prop := (x = n ∧ S y) ∨ (x ≠ n ∧ R x y)

variable {R : α → α → Prop} {n : α} {S : α → Prop}

/-- Paths to the node need no step from it, so they are the same before and after. -/
theorem rewired_path_iff {x : α} : ReflTransGen (Rewired R n S) x n ↔ ReflTransGen R x n := by
  constructor
  · intro h
    induction h using ReflTransGen.head_induction_on with
    | refl => exact .refl
    | head hxy _ ih =>
      rcases hxy with ⟨rfl, -⟩ | ⟨-, hxy⟩
      · exact .refl
      · exact .head hxy ih
  · intro h
    induction h using ReflTransGen.head_induction_on with
    | refl => exact .refl
    | @head x y hxy _ ih =>
      by_cases hx : x = n
      · subst hx; exact .refl
      · exact .head (.inr ⟨hx, hxy⟩) ih

/-- The node lies on a cycle of the new relation if and only if one of its new successors led to it. -/
theorem rewired_cycle_iff : TransGen (Rewired R n S) n n ↔ ∃ y, S y ∧ ReflTransGen R y n := by
  rw [TransGen.head'_iff]
  constructor
  · rintro ⟨y, ⟨-, hy⟩ | ⟨hn, -⟩, hr⟩
    · exact ⟨y, hy, rewired_path_iff.1 hr⟩
    · exact absurd rfl hn
  · rintro ⟨y, hy, hr⟩; exact ⟨y, .inl ⟨rfl, hy⟩, rewired_path_iff.2 hr⟩

/-- A path of the new relation runs along the old one unless it passes the node. -/
theorem path_of_rewired {x y : α} (h : TransGen (Rewired R n S) x y) :
    TransGen R x y ∨ (ReflTransGen (Rewired R n S) x n ∧ TransGen (Rewired R n S) n y) := by
  induction h with
  | @single y hxy =>
    rcases hxy with ⟨rfl, hy⟩ | ⟨-, hxy⟩
    · exact .inr ⟨.refl, .single (.inl ⟨rfl, hy⟩)⟩
    · exact .inl (.single hxy)
  | @tail y z hxy hyz ih =>
    rcases ih with ih | ⟨h₁, h₂⟩
    · rcases hyz with ⟨rfl, hz⟩ | ⟨-, hyz⟩
      · exact .inr ⟨hxy.to_reflTransGen, .single (.inl ⟨rfl, hz⟩)⟩
      · exact .inl (ih.tail hyz)
    · exact .inr ⟨h₁, h₂.tail hyz⟩

/-- If the node is on no cycle of the new relation, every new cycle is an old one. -/
theorem cycle_of_rewired (hn : ¬ TransGen (Rewired R n S) n n) {x : α} (h : TransGen (Rewired R n S) x x) :
    TransGen R x x := by
  rcases path_of_rewired h with h | ⟨h₁, h₂⟩
  · exact h
  · exact absurd (h₂.trans_left h₁) hn

end Rewired

end SharedSheet
