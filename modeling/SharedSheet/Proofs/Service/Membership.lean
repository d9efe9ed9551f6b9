/-
Members. Who shares a sheet is kept three times: in the table of clients, in the members of the sheet, and in its
selections. In every run, over any storage, the three agree (`membership_run`): the invariant (`Membership`) is that
clients are attached properly, that open sheets are proper, and that each of them has a member. Nothing is asked of the
storage, which may even change by itself.
-/
import SharedSheet.Proofs.Service.Steps

namespace SharedSheet.Controller

open OpenSheet

variable {σ : Type} {ops : Storage σ} {policy : Policy} {k : Controller σ}

/-- A client is refused because of the name, or because a sheet that is not open cannot be loaded. -/
theorem connect_eq_error_iff (ops : Storage σ) (k : Controller σ) (c : ClientId) (username sheetName : String)
    (e : StorageError) :
    k.connect ops c username sheetName = .error e ↔
      isSheetName sheetName = false ∧ e = .invalidName sheetName ∨
        isSheetName sheetName = true ∧ k.sheets.get? sheetName = none ∧ ops.load k.stored sheetName = .error e := by
  rcases hname : isSheetName sheetName with _ | _
  · rw [connect_of_invalid hname]
    simp [eq_comm]
  · unfold connect openSheet
    rw [checkSheetName_of_valid hname]
    rcases k.sheets.get? sheetName with _ | o
    · rcases ops.load k.stored sheetName with e' | r
      · simp [bind, Except.bind, Except.map]
      · simp [bind, Except.bind, Except.map, pure, Except.pure]
    · simp [bind, Except.bind, pure, Except.pure]

/-! ## Runs -/

/-- One step of a server. Only clients that are not attached connect, whether they succeed or not. -/
def step (ops : Storage σ) (k : Controller σ) : ServerStep σ → Controller σ
  | .serve e => if k.admits e then k.serve ops e else k
  | e => k.operate ops e

def run (ops : Storage σ) (k : Controller σ) (steps : List (ServerStep σ)) : Controller σ := steps.foldl (step ops) k

/-! ## The invariant -/

/-- Clients are attached properly, and every open sheet is proper and has a member. -/
structure Membership (policy : Policy) (k : Controller σ) : Prop where
  attached : k.WellAttached
  proper : AllProper policy k.sheets
  policy_eq : k.policy = policy
  occupied : ∀ name o, k.sheets.get? name = some o → o.members.isEmpty = false

theorem membership_new (stored : σ) (registry : Registry) (policy : Policy) :
    (new stored registry policy).Membership policy where
  attached := wellAttached_new ..
  proper _ _ h := by cases h
  policy_eq := rfl
  occupied _ _ h := by cases h

/-- Neither queues nor the storage play a part in it. -/
theorem Membership.aside (h : k.Membership policy) (registry : Registry) (stored : σ) :
    Membership policy { k with registry, stored } :=
  ⟨⟨h.attached.attached, h.attached.member⟩, h.proper, h.policy_eq, h.occupied⟩

theorem Membership.put (h : k.Membership policy) {name : String} {o : OpenSheet} (hname : isSheetName name = true)
    (ho : o.Proper policy) (hoccupied : o.members.isEmpty = false) {registry : Registry}
    {clients : Table ClientId Attachment}
    (hattached : WellAttached { k with registry, clients, sheets := k.sheets.insert name o }) :
    Membership policy { k with registry, clients, sheets := k.sheets.insert name o } where
  attached := hattached
  proper := h.proper.insert hname ho
  policy_eq := h.policy_eq
  occupied x o' hx := by
    dsimp only at hx
    rw [Table.get?_insert] at hx
    split at hx
    · cases hx
      exact hoccupied
    · exact h.occupied x o' hx

/-! ## The steps keep it -/

theorem Membership.openSheet (h : k.Membership policy) {name : String} {o : OpenSheet}
    (ho : k.openSheet ops name = .ok o) : o.Proper policy := by
  unfold Controller.openSheet at ho
  split at ho
  · rename_i hopen
    cases ho
    exact (h.proper name o hopen).2
  · obtain ⟨r, -, rfl⟩ := map_eq_ok ho
    rw [h.policy_eq]
    exact proper_restore r policy

theorem Membership.connect (h : k.Membership policy) {c : ClientId} (hfree : k.clients.get? c = none)
    (username sheetName : String) : (k.connectInPlace ops c username sheetName).2.Membership policy := by
  rcases hname : isSheetName sheetName with _ | _
  · rw [connectInPlace_of_invalid ops k hname]
    exact h
  · rcases ho : k.openSheet ops sheetName with e | o
    · rw [connectInPlace_of_refused hname ho]
      exact h
    · have hmember : c ∈ (o.members.add c).keys := (KeySet.mem_keys_add ..).2 (.inl rfl)
      have hattached := h.attached.connect hfree (connect_of_openSheet hname ho c username)
      rw [connectInPlace_of_openSheet hname ho]
      exact h.put hname ((h.openSheet ho).join c) (Bool.eq_false_iff.2 (KeySet.not_isEmpty_of_mem hmember)) hattached

theorem Membership.handle (h : k.Membership policy) (c : ClientId) (a : Action) :
    (k.handle c a).Membership policy := by
  rcases hinfo : k.clients.get? c with _ | info
  · rw [handle_of_detached hinfo]
    exact h
  · obtain ⟨o, ho, hmem⟩ := h.attached.attached c info hinfo
    obtain ⟨hname, hproper⟩ := h.proper _ o ho
    have hattached := h.attached.handle c a
    rw [handle_eq hinfo ho] at hattached ⊢
    exact h.put hname (hproper.apply hmem a) (h.occupied _ o ho) hattached

theorem Membership.disconnect (h : k.Membership policy) (ops : Storage σ) (c : ClientId) :
    (k.disconnect ops c).Membership policy := by
  rcases hinfo : k.clients.get? c with _ | info
  · rw [disconnect_of_detached ops hinfo]
    exact h
  · obtain ⟨o, ho, -⟩ := h.attached.attached c info hinfo
    obtain ⟨hname, hproper⟩ := h.proper _ o ho
    have hattached := h.attached.disconnect ops c
    rw [disconnect_eq ops hinfo ho] at hattached ⊢
    by_cases hempty : (o.leave c).members.isEmpty = true
    · -- the sheet is closed, and no other sheet is touched
      rw [if_pos hempty] at hattached ⊢
      exact ⟨hattached, fun x o' hx => h.proper x o' (Table.get?_erase_eq_some.1 hx).2, h.policy_eq,
        fun x o' hx => h.occupied x o' (Table.get?_erase_eq_some.1 hx).2⟩
    · rw [if_neg hempty] at hattached ⊢
      exact h.put hname (hproper.leave c) (Bool.eq_false_iff.2 hempty) hattached

theorem Membership.shutdown (h : k.Membership policy) (ops : Storage σ) : (k.shutdown ops).Membership policy where
  attached :=
    { attached := fun _ _ h => by cases h
      member := fun _ _ h => by cases h }
  proper _ _ ho := by cases ho
  policy_eq := by
    obtain ⟨stored, hframe⟩ := saveAll_frame ops k.sheets.entries k
    unfold Controller.shutdown
    dsimp only
    rw [hframe]
    exact h.policy_eq
  occupied _ _ ho := by cases ho

theorem Membership.serve (h : k.Membership policy) (ops : Storage σ) {e : ServiceStep} (hadmits : k.admits e = true) :
    (k.serve ops e).Membership policy := by
  cases e with
  | register => exact h.aside _ k.stored
  | connect c username sheetName => exact h.connect (Option.isNone_iff_eq_none.1 hadmits) username sheetName
  | handle c a => exact h.handle c a
  | disconnect c => exact h.disconnect ops c
  | dequeue c => exact h.aside _ k.stored

theorem Membership.step (h : k.Membership policy) (ops : Storage σ) (e : ServerStep σ) :
    (k.step ops e).Membership policy := by
  cases e with
  | serve e =>
    show (if k.admits e = true then k.serve ops e else k).Membership policy
    split
    · rename_i hadmits
      exact h.serve ops hadmits
    · exact h
  | queues e => exact h.aside _ k.stored
  | drain c => exact h.aside _ k.stored
  | hangUp c => exact h.aside _ k.stored
  | shutdown => exact h.shutdown ops
  | stored stored => exact h.aside k.registry stored

/-! ## All runs -/

theorem Membership.run (h : k.Membership policy) (ops : Storage σ) (steps : List (ServerStep σ)) :
    (k.run ops steps).Membership policy := by
  induction steps generalizing k with
  | nil => exact h
  | cons e steps ih => exact ih (h.step ops e)

/-- The three records of who shares a sheet agree, whoever is let in is in them, and whoever is refused leaves no trace
there. -/
structure Agree (ops : Storage σ) (k : Controller σ) : Prop where
  attached_iff : ∀ c name, (∃ info, k.clients.get? c = some info ∧ info.sheetName = name) ↔
    ∃ o, k.sheets.get? name = some o ∧ c ∈ o.members.keys
  disjoint : ∀ name o name' o', k.sheets.get? name = some o → k.sheets.get? name' = some o' → name ≠ name' →
    o.members.keys.Disjoint o'.members.keys
  occupied : ∀ name o, k.sheets.get? name = some o → ∃ c, c ∈ o.members.keys
  selecting : ∀ name o c cell, k.sheets.get? name = some o → o.sheet.selections.get? c = some cell →
    c ∈ o.members.keys
  joined : ∀ c username sheetName cells, (k.connectInPlace ops c username sheetName).1 = .ok cells →
    (k.connectInPlace ops c username sheetName).2.clients.get? c = some ⟨username, sheetName⟩
  refused_iff : ∀ c username sheetName e, (k.connectInPlace ops c username sheetName).1 = .error e ↔
    isSheetName sheetName = false ∧ e = .invalidName sheetName ∨
      isSheetName sheetName = true ∧ k.sheets.get? sheetName = none ∧ ops.load k.stored sheetName = .error e
  /-- No client that is refused has been written to any of them. -/
  refused : ∀ c username sheetName e, (k.connectInPlace ops c username sheetName).1 = .error e →
    (k.connectInPlace ops c username sheetName).2 = k

theorem Membership.agree (h : k.Membership policy) (ops : Storage σ) : k.Agree ops where
  attached_iff c name := by
    constructor
    · rintro ⟨info, hinfo, rfl⟩
      exact h.attached.attached c info hinfo
    · rintro ⟨o, ho, hmem⟩
      exact h.attached.member name o ho c hmem
  disjoint name o name' o' ho ho' hne c hmem hmem' := by
    obtain ⟨info, hinfo, hname⟩ := h.attached.member name o ho c hmem
    exact hne (hname.symm.trans (h.attached.sheetName_eq hinfo ho' hmem'))
  occupied name o ho := by
    refine List.exists_mem_of_ne_nil _ fun hnil => ?_
    exact Bool.eq_false_iff.1 (h.occupied name o ho) (KeySet.isEmpty_iff_keys.2 hnil)
  selecting name o c cell ho hselected := (h.proper name o ho).2.selecting c cell hselected
  joined c username sheetName cells hcells := by
    rw [connectInPlace_eq] at hcells ⊢
    rcases hk : k.connect ops c username sheetName with e | ⟨cells', k'⟩
    · rw [hk] at hcells
      cases hcells
    · obtain ⟨o, -, -, rfl⟩ := connect_eq_ok hk
      exact Table.get?_insert_self ..
  refused_iff c username sheetName e := by
    rw [← connect_eq_error_iff ops k c, connectInPlace_eq]
    rcases k.connect ops c username sheetName with e' | ⟨cells, k'⟩
    · simp
    · simp
  refused c username sheetName e he := by
    rw [connectInPlace_eq] at he ⊢
    rcases hk : k.connect ops c username sheetName with e' | ⟨cells, k'⟩
    · rfl
    · rw [hk] at he
      cases he

/-- In every run of a controller, whatever the storage does, a client is attached to a sheet exactly if the sheet is
open and the client is among its members; no client is a member of two sheets; every open sheet has a member; only
members have a cell selected. A client is refused if the name is no name of a sheet or if the sheet cannot be loaded,
and then the controller stays as it was; else the client is attached. -/
theorem membership_run (ops : Storage σ) (stored : σ) (registry : Registry) (policy : Policy)
    (steps : List (ServerStep σ)) : ((new stored registry policy).run ops steps).Agree ops :=
  ((membership_new stored registry policy).run ops steps).agree ops

end SharedSheet.Controller
