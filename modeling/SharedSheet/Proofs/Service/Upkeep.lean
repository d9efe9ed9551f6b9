/-
Upkeep. What all open sheets have in common, and what the storage has, is kept by every step of a server if it is kept
by the few things that a controller does with a sheet: a request, a client that leaves, loading, saving (`Upkeep`).
The steps are taken apart here once and for all (`Upholds.operate`). Requests may make sheets worse step by step, so a
property may have a number in it that counts the steps (`Upholds.run`). That open sheets are consistent is the first use
of it.
-/
import SharedSheet.Proofs.Service.Steps

namespace SharedSheet

variable {σ : Type} {ops : Storage σ} {Said : String → Prop}

/-- Clients join sheets whose names have `Said`, and if the storage changes by itself it has `Q` then. -/
def ServerStep.Within (Said : String → Prop) (Q : σ → Prop) : ServerStep σ → Prop
  | .serve (.connect _ _ sheetName) => Said sheetName
  | .stored s => Q s
  | _ => True

/-- Sheets that have `P` under their names, and a storage that has `Q`, have `P'` and `Q'` after one step. -/
structure Upkeep (ops : Storage σ) (Said : String → Prop) (P P' : String → Sheet → Prop) (Q Q' : σ → Prop) : Prop where
  sheet : ∀ name s, P name s → P' name s
  storage : ∀ stored, Q stored → Q' stored
  apply : ∀ name s r, P name s → P' name (s.apply r).2
  deselect : ∀ name s c, P name s → P name (s.deselect c)
  load : ∀ stored name r policy, Q stored → isSheetName name = true → Said name → ops.load stored name = .ok r →
    P' name (Sheet.restore r policy)
  save : ∀ stored name s, Q stored → P name s → Q (ops.save stored name s.record).2

namespace Controller

variable {P P' : String → Sheet → Prop} {Q Q' : σ → Prop} {k : Controller σ}

/-- All open sheets have `P`, and the storage has `Q`. -/
structure Upholds (P : String → Sheet → Prop) (Q : σ → Prop) (k : Controller σ) : Prop where
  opened : ∀ name o, k.sheets.get? name = some o → P name o.sheet
  stored : Q k.stored

theorem upholds_new {stored : σ} (h : Q stored) (registry : Registry) (policy : Policy) :
    (new stored registry policy).Upholds P Q where
  opened _ _ ho := by cases ho
  stored := h

section Step

variable (hup : Upkeep ops Said P P' Q Q') (h : k.Upholds P Q)
include hup h

/-- Sheets that stay need nothing. -/
theorem Upholds.frame {k' : Controller σ} (hsheets : k'.sheets = k.sheets) (hstored : k'.stored = k.stored) :
    k'.Upholds P' Q' where
  opened name o ho := hup.sheet name o.sheet (h.opened name o (hsheets ▸ ho))
  stored := by
    rw [hstored]
    exact hup.storage _ h.stored

theorem Upholds.get?_insert {name : String} {o : OpenSheet} (ho : P' name o.sheet) {x : String} {o' : OpenSheet}
    (hx : (k.sheets.insert name o).get? x = some o') : P' x o'.sheet := by
  rw [Table.get?_insert] at hx
  split at hx
  · rename_i hsame
    cases hx
    rw [hsame]
    exact ho
  · exact hup.sheet x o'.sheet (h.opened x o' hx)

theorem Upholds.handle (c : ClientId) (a : Action) : (k.handle c a).Upholds P' Q' := by
  rcases hinfo : k.clients.get? c with _ | info
  · rw [handle_of_detached hinfo]
    exact h.frame hup rfl rfl
  · rcases ho : k.sheets.get? info.sheetName with _ | o
    · rw [handle_of_closed hinfo ho]
      exact h.frame hup rfl rfl
    · rw [handle_eq hinfo ho]
      exact ⟨fun _ _ => h.get?_insert hup (hup.apply _ _ _ (h.opened _ o ho)), hup.storage _ h.stored⟩

theorem Upholds.connect {sheetName : String} (hsaid : Said sheetName) (c : ClientId) (username : String) :
    (k.connectInPlace ops c username sheetName).2.Upholds P' Q' := by
  rcases hname : isSheetName sheetName with _ | _
  · rw [connectInPlace_of_invalid ops k hname]
    exact h.frame hup rfl rfl
  · rcases hopen : k.openSheet ops sheetName with e | o
    · rw [connectInPlace_of_refused hname hopen]
      exact h.frame hup rfl rfl
    · rw [connectInPlace_of_openSheet hname hopen]
      have ho : P' sheetName o.sheet := by
        unfold openSheet at hopen
        split at hopen
        · rename_i o' ho'
          cases hopen
          exact hup.sheet _ _ (h.opened _ o ho')
        · rcases hload : ops.load k.stored sheetName with e | r
          · rw [hload] at hopen
            cases hopen
          · rw [hload] at hopen
            cases hopen
            exact hup.load _ _ r _ h.stored hname hsaid hload
      exact ⟨fun _ _ => h.get?_insert hup (o := { o with members := o.members.add c }) ho, hup.storage _ h.stored⟩

theorem Upholds.disconnect (c : ClientId) : (k.disconnect ops c).Upholds P' Q' := by
  rcases hinfo : k.clients.get? c with _ | info
  · rw [disconnect_of_detached ops hinfo]
    exact h.frame hup rfl rfl
  · rcases ho : k.sheets.get? info.sheetName with _ | o
    · rw [disconnect_of_closed ops hinfo ho]
      exact h.frame hup rfl rfl
    · have hleft : P info.sheetName (o.leave c).sheet := hup.deselect _ _ c (h.opened _ o ho)
      rw [disconnect_eq ops hinfo ho]
      split
      · refine ⟨fun name o' ho' => ?_, hup.storage _ (hup.save _ _ _ h.stored hleft)⟩
        exact hup.sheet name o'.sheet (h.opened name o' (Table.get?_erase_eq_some.1 ho').2)
      · exact ⟨fun _ _ => h.get?_insert hup (hup.sheet _ _ hleft), hup.storage _ h.stored⟩

omit h in
theorem stored_saveAll {es : List (String × OpenSheet)} (hes : ∀ e ∈ es, P e.1 e.2.sheet) (k : Controller σ)
    (hk : Q k.stored) : Q (es.foldl (fun k e => save ops k e.1 e.2.sheet) k).stored := by
  induction es generalizing k with
  | nil => exact hk
  | cons e es ih =>
    exact ih (fun e' he' => hes e' (List.mem_cons_of_mem _ he')) _ (hup.save _ _ _ hk (hes e List.mem_cons_self))

theorem Upholds.shutdown : (k.shutdown ops).Upholds P' Q' where
  opened _ _ ho := by cases ho
  stored := hup.storage _ (stored_saveAll hup (fun e he => h.opened e.1 e.2 (Table.get?_eq_some_iff.2 he)) k h.stored)

theorem Upholds.operate {e : ServerStep σ} (he : e.Within Said Q') : (k.operate ops e).Upholds P' Q' := by
  cases e with
  | serve e =>
    cases e with
    | register => exact h.frame hup rfl rfl
    | connect c username sheetName => exact h.connect hup he c username
    | handle c a => exact h.handle hup c a
    | disconnect c => exact h.disconnect hup c
    | dequeue c => exact h.frame hup rfl rfl
  | queues e => exact h.frame hup rfl rfl
  | drain c => exact h.frame hup rfl rfl
  | hangUp c => exact h.frame hup rfl rfl
  | shutdown => exact h.shutdown hup
  | stored stored => exact ⟨fun name o ho => hup.sheet name o.sheet (h.opened name o ho), he⟩

end Step

/-- Every step may add one to the number in the properties, as long as it is below a bound. -/
theorem Upholds.run {P : ℕ → String → Sheet → Prop} {Q : ℕ → σ → Prop} {bound : ℕ}
    (hup : ∀ n < bound, Upkeep ops Said (P n) (P (n + 1)) (Q n) (Q (n + 1))) {n : ℕ} (h : k.Upholds (P n) (Q n))
    {steps : List (ServerStep σ)} (hsteps : ∀ n, ∀ e ∈ steps, e.Within Said (Q n)) (hbound : n + steps.length ≤ bound) :
    (k.operateAll ops steps).Upholds (P (n + steps.length)) (Q (n + steps.length)) := by
  induction steps generalizing n k with
  | nil => exact h
  | cons e steps ih =>
    rw [List.length_cons] at hbound ⊢
    have hstep := h.operate (hup n (by omega)) (hsteps _ e List.mem_cons_self)
    have hrest := ih hstep (fun i e' he' => hsteps i e' (List.mem_cons_of_mem _ he')) (by omega)
    rwa [Nat.add_right_comm, Nat.add_assoc] at hrest

/-! ## Consistent sheets -/

/-- All open sheets are consistent. -/
def AllConsistent (k : Controller σ) : Prop := ∀ name o, k.sheets.get? name = some o → o.sheet.Consistent

theorem upkeep_consistent (ops : Storage σ) : Upkeep ops (fun _ => True) (fun _ s => s.Consistent)
    (fun _ s => s.Consistent) (fun _ => True) (fun _ => True) where
  sheet _ _ h := h
  storage _ h := h
  apply _ s r h := Sheet.consistent_after s (.request r) h
  deselect _ s c h := Sheet.consistent_after s (.deselect c) h
  load _ _ r policy _ _ _ _ := Sheet.consistent_restore r policy
  save _ _ _ _ _ := trivial

/-- Whatever clients do, and whatever is loaded, the open sheets stay consistent. -/
theorem AllConsistent.serve (h : k.AllConsistent) (ops : Storage σ) (e : ServiceStep) : (k.serve ops e).AllConsistent := by
  have hk : k.Upholds (fun _ s => s.Consistent) fun _ => True := ⟨h, trivial⟩
  have hwithin : (ServerStep.serve e : ServerStep σ).Within (fun _ => True) fun _ => True := by
    cases e <;> trivial
  exact (hk.operate (upkeep_consistent ops) hwithin).opened

end Controller

end SharedSheet
