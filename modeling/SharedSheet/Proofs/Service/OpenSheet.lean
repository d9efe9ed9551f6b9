/-
Open sheets, as a controller keeps them. Only members of a sheet have a cell selected, so a sheet that nobody shares is
the one that its record restores (`OpenSheet.Proper.restore_record`). With every open sheet put in place of the stored
one, the storage becomes the shelf of all sheets as they are now (`Controller.current`): whoever joins a sheet finds the
one on this shelf, and a shutdown stores it.
-/
import SharedSheet.Proofs.Service.Attachment
import SharedSheet.Proofs.Sheet.Restore
import SharedSheet.Proofs.Storage.Shelf

namespace SharedSheet

open Sheet

namespace OpenSheet

/-! ## Proper sheets -/

/-- What holds of every open sheet: it is in order and within the limits of the controller, and only members have a cell
selected. -/
structure Proper (policy : Policy) (o : OpenSheet) : Prop where
  consistent : o.sheet.Consistent
  retained : o.sheet.Retained
  policy_eq : o.sheet.policy = policy
  selecting : ∀ c name, o.sheet.selections.get? c = some name → c ∈ o.members.keys

variable {policy : Policy} {o : OpenSheet} {c : ClientId}

theorem proper_restore (r : SheetRecord) (policy : Policy) : Proper policy ⟨restore r policy, Table.empty⟩ where
  consistent := consistent_restore r policy
  retained := retained_restore r policy
  policy_eq := policy_restore r policy
  selecting c name h := by
    dsimp only at h
    rw [selections_restore] at h
    cases h

theorem Proper.join (h : o.Proper policy) (c : ClientId) : Proper policy { o with members := o.members.add c } where
  consistent := h.consistent
  retained := h.retained
  policy_eq := h.policy_eq
  selecting d name hd := (KeySet.mem_keys_add ..).2 (.inr (h.selecting d name hd))

theorem Proper.apply (h : o.Proper policy) (hc : c ∈ o.members.keys) (a : Action) :
    Proper policy { o with sheet := (o.sheet.apply ⟨c, a⟩).2 } where
  consistent := consistent_after o.sheet (.request ⟨c, a⟩) h.consistent
  retained := retained_after o.sheet (.request ⟨c, a⟩) h.retained
  policy_eq := (policy_after o.sheet (.request ⟨c, a⟩)).trans h.policy_eq
  selecting d name hd := by
    dsimp only at hd ⊢
    rcases o.sheet.outcome_cases ⟨c, a⟩ with ⟨e, happly⟩ | ⟨client, raw, cell, hr, -, happly⟩ | ⟨u, s', happly, hw⟩
    · rw [happly] at hd
      exact h.selecting d name hd
    · cases hr
      rw [happly] at hd
      dsimp only at hd
      rw [Table.get?_insert] at hd
      split at hd
      · rename_i hdc
        rw [hdc]
        exact hc
      · exact h.selecting d name hd
    · rw [happly] at hd
      dsimp only at hd
      rw [hw.change.selections] at hd
      exact h.selecting d name hd

/-- What is left of a sheet when a client has left it. -/
def leave (o : OpenSheet) (c : ClientId) : OpenSheet := ⟨o.sheet.deselect c, o.members.erase c⟩

theorem Proper.leave (h : o.Proper policy) (c : ClientId) : (o.leave c).Proper policy where
  consistent := consistent_after o.sheet (.deselect c) h.consistent
  retained := retained_after o.sheet (.deselect c) h.retained
  policy_eq := h.policy_eq
  selecting d name hd := by
    obtain ⟨hdc, hd⟩ := Table.get?_erase_eq_some.1 hd
    exact (KeySet.mem_keys_erase ..).2 ⟨hdc, h.selecting d name hd⟩

/-- The record of a sheet restores the sheet, except that nothing is selected. -/
theorem Proper.restore_record (h : o.Proper policy) :
    restore o.sheet.record policy = { o.sheet with selections := Table.empty } := by
  rw [← h.policy_eq]
  exact reopen_eq h.consistent h.retained

/-- In a sheet without members nothing is selected, so its record tells all about it. -/
theorem Proper.eq_restore (h : o.Proper policy) (hempty : o.members.isEmpty = true) :
    (⟨restore o.sheet.record policy, Table.empty⟩ : OpenSheet) = o := by
  have hmembers : o.members = Table.empty := Table.ext (Table.isEmpty_iff.1 hempty)
  have hselections : o.sheet.selections = Table.empty := by
    refine Table.ext_get? fun c => ?_
    rw [Table.get?_empty]
    rcases hc : o.sheet.selections.get? c with _ | name
    · rfl
    · exact absurd hempty (KeySet.not_isEmpty_of_mem (h.selecting c name hc))
  rw [h.restore_record, ← hselections, ← hmembers]

/-- All open sheets are proper and have names that a storage takes. -/
def AllProper (policy : Policy) (sheets : Table String OpenSheet) : Prop :=
  ∀ name o, sheets.get? name = some o → isSheetName name = true ∧ o.Proper policy

theorem AllProper.insert {sheets : Table String OpenSheet} (h : AllProper policy sheets) {name : String}
    (hname : isSheetName name = true) (ho : o.Proper policy) : AllProper policy (sheets.insert name o) := by
  intro x o' hx
  rw [Table.get?_insert] at hx
  split at hx
  · rename_i hn
    cases hx
    rw [hn]
    exact ⟨hname, ho⟩
  · exact h x o' hx

end OpenSheet

namespace Controller

variable {σ : Type} {k : Controller σ} {c : ClientId} {info : Attachment} {o : OpenSheet}

/-! ## What is done to the sheet of a client -/

/-- The queues after a client of this sheet has asked for an action. -/
def tell (registry : Registry) (o : OpenSheet) (c : ClientId) (username : String) (a : Action) : Registry :=
  match Message.ofRejection? (o.sheet.apply ⟨c, a⟩).1 with
  | some refusal => registry.send c refusal
  | none => registry.broadcast o.members.keys (announcement c username a (o.sheet.apply ⟨c, a⟩).1)

theorem handle_of_detached (h : k.clients.get? c = none) (a : Action) : k.handle c a = k := by
  unfold handle
  rw [h]

theorem handle_of_closed (hinfo : k.clients.get? c = some info) (h : k.sheets.get? info.sheetName = none) (a : Action) :
    k.handle c a = k := by
  unfold handle
  rw [hinfo]
  dsimp only
  rw [h]

theorem handle_eq (hinfo : k.clients.get? c = some info) (ho : k.sheets.get? info.sheetName = some o) (a : Action) :
    k.handle c a = { k with
      sheets := k.sheets.insert info.sheetName { o with sheet := (o.sheet.apply ⟨c, a⟩).2 }
      registry := tell k.registry o c info.username a } := by
  unfold handle tell
  rw [hinfo]
  dsimp only
  rw [ho]
  dsimp only
  rcases hp : o.sheet.perform ⟨c, a⟩ with e | ⟨outcome, s'⟩
  · -- the sheet stays as it was
    rw [apply_of_error hp]
    dsimp only
    rw [Table.insert_eq_self ho]
    rfl
  · rw [apply_of_ok hp]
    dsimp only
    rw [(announcement_contents (c := c) (perform_step hp) info.username).1]

theorem disconnect_of_detached (ops : Storage σ) (h : k.clients.get? c = none) : k.disconnect ops c = k := by
  unfold disconnect
  rw [h]

theorem disconnect_of_closed (ops : Storage σ) (hinfo : k.clients.get? c = some info)
    (h : k.sheets.get? info.sheetName = none) : k.disconnect ops c = { k with clients := k.clients.erase c } := by
  unfold disconnect
  rw [hinfo]
  dsimp only
  rw [h]

theorem disconnect_eq (ops : Storage σ) (hinfo : k.clients.get? c = some info)
    (ho : k.sheets.get? info.sheetName = some o) :
    k.disconnect ops c =
      if (o.leave c).members.isEmpty then
        { k with
          stored := (ops.save k.stored info.sheetName (o.leave c).sheet.record).2
          sheets := k.sheets.erase info.sheetName
          clients := k.clients.erase c
          registry := k.registry.broadcast (o.leave c).members.keys (.disconnected c) }
      else
        { k with
          sheets := k.sheets.insert info.sheetName (o.leave c)
          clients := k.clients.erase c
          registry := k.registry.broadcast (o.leave c).members.keys (.disconnected c) } := by
  unfold disconnect
  rw [hinfo]
  dsimp only
  rw [ho]
  rfl

theorem get?_clients_disconnect (ops : Storage σ) (k : Controller σ) (c : ClientId) :
    (k.disconnect ops c).clients.get? c = none := by
  rcases hinfo : k.clients.get? c with _ | info
  · rw [disconnect_of_detached ops hinfo, hinfo]
  · have herased : (k.clients.erase c).get? c = none := by rw [Table.get?_erase, if_pos rfl]
    rcases ho : k.sheets.get? info.sheetName with _ | o
    · rw [disconnect_of_closed ops hinfo ho]
      exact herased
    · rw [disconnect_eq ops hinfo ho]
      split
      · exact herased
      · exact herased

theorem connect_of_invalid {ops : Storage σ} {sheetName : String} (h : isSheetName sheetName = false) (c : ClientId)
    (username : String) : k.connect ops c username sheetName = .error (.invalidName sheetName) := by
  unfold connect
  rw [checkSheetName_of_invalid h]
  rfl

theorem connect_of_refused {ops : Storage σ} {sheetName : String} (hname : isSheetName sheetName = true) {e : StorageError}
    (h : k.openSheet ops sheetName = .error e) (c : ClientId) (username : String) :
    k.connect ops c username sheetName = .error e := by
  unfold connect
  rw [checkSheetName_of_valid hname, h]
  rfl

theorem connect_of_openSheet {ops : Storage σ} {sheetName : String} (hname : isSheetName sheetName = true)
    (ho : k.openSheet ops sheetName = .ok o) (c : ClientId) (username : String) :
    k.connect ops c username sheetName = .ok (o.sheet.populated, { k with
      sheets := k.sheets.insert sheetName { o with members := o.members.add c }
      clients := k.clients.insert c ⟨username, sheetName⟩ }) := by
  unfold connect
  rw [checkSheetName_of_valid hname, ho]
  rfl

/-! ## The sheets as they are now -/

/-- All sheets as they are now: the open ones, and the stored ones that are not open. -/
def current (k : Controller σ) (m : Shelf) : Shelf := fun name =>
  match k.sheets.get? name with
  | some o => some o.sheet.record
  | none => m name

variable {m : Shelf} {name : String}

theorem current_of_open (ho : k.sheets.get? name = some o) : k.current m name = some o.sheet.record := by
  unfold current
  rw [ho]

theorem current_of_closed (h : k.sheets.get? name = none) : k.current m name = m name := by
  unfold current
  rw [h]

/-- A sheet that is put in place is the one with this name from now on, and the others stay. -/
theorem current_insert (registry : Registry) (clients : Table ClientId Attachment) :
    ({ k with registry, clients, sheets := k.sheets.insert name o } : Controller σ).current m =
      Function.update (k.current m) name (some o.sheet.record) := by
  funext x
  unfold current
  dsimp only
  rw [Table.get?_insert, Function.update_apply]
  by_cases hx : x = name
  · rw [if_pos hx, if_pos hx]
  · rw [if_neg hx, if_neg hx]

/-- A sheet may be closed if it is stored as it is now. -/
theorem current_erase (stored : σ) (registry : Registry) (clients : Table ClientId Attachment) (r : SheetRecord) :
    ({ k with stored, registry, clients, sheets := k.sheets.erase name } : Controller σ).current
      (Function.update m name (some r)) = Function.update (k.current m) name (some r) := by
  funext x
  unfold current
  dsimp only
  rw [Table.get?_erase, Function.update_apply, Function.update_apply]
  by_cases hx : x = name
  · rw [if_pos hx, if_pos hx, if_pos hx]
  · rw [if_neg hx, if_neg hx, if_neg hx]

/-! ## Shutdown -/

/-- Saving sheets changes the storage only. -/
theorem saveAll_frame (ops : Storage σ) (es : List (String × OpenSheet)) (k : Controller σ) :
    ∃ stored, es.foldl (fun k e => save ops k e.1 e.2.sheet) k = { k with stored } := by
  induction es generalizing k with
  | nil => exact ⟨_, rfl⟩
  | cons e es ih => exact ih _

variable {ops : Storage σ} {Holds : σ → Shelf → Prop} (hops : ops.Keeps Holds fun _ r => r.IsOrdered)
include hops

/-- Saving sheets with different names, one after the other, stores all of them and nothing else. -/
theorem holds_saveAll {policy : Policy} {es : List (String × OpenSheet)}
    (hproper : ∀ e ∈ es, isSheetName e.1 = true ∧ e.2.Proper policy) (hd : (es.map Prod.fst).Nodup)
    (h : Holds k.stored m) :
    ∃ m', Holds (es.foldl (fun k e => save ops k e.1 e.2.sheet) k).stored m' ∧
      (∀ e ∈ es, m' e.1 = some e.2.sheet.record) ∧ ∀ name, name ∉ es.map Prod.fst → m' name = m name := by
  induction es generalizing k m with
  | nil => exact ⟨m, h, by simp, fun _ _ => rfl⟩
  | cons e es ih =>
    rw [List.map_cons] at hd
    obtain ⟨hnew, hd⟩ := List.nodup_cons.1 hd
    obtain ⟨⟨hname, he⟩, hproper⟩ := List.forall_mem_cons.1 hproper
    have hsaved := (hops.save k.stored m e.1 _ h hname he.consistent.named.ascending).2
    obtain ⟨m', h', hin, hout⟩ := ih hproper hd
      (show Holds (save ops k e.1 e.2.sheet).stored _ from hsaved)
    refine ⟨m', h', fun d hmem => ?_, fun name hname => ?_⟩
    · rcases List.mem_cons.1 hmem with rfl | hmem
      · rw [hout _ hnew, Function.update_self]
      · exact hin d hmem
    · rw [List.map_cons, List.mem_cons, not_or] at hname
      rw [hout name hname.2, Function.update_of_ne hname.1]

/-- After a shutdown all sheets are stored as they were. -/
theorem holds_shutdown {policy : Policy} (hproper : OpenSheet.AllProper policy k.sheets) (h : Holds k.stored m) :
    Holds (k.shutdown ops).stored (k.current m) := by
  obtain ⟨m', h', hin, hout⟩ := holds_saveAll hops
    (fun e he => hproper e.1 e.2 (Table.get?_eq_some_iff.2 he)) k.sheets.nodup_keys h
  have hm' : m' = k.current m := by
    funext name
    rcases ho : k.sheets.get? name with _ | o
    · rw [current_of_closed ho]
      refine hout name fun hmem => ?_
      obtain ⟨o, hopen⟩ := Table.mem_keys_iff.1 hmem
      rw [ho] at hopen
      cases hopen
    · rw [current_of_open ho]
      exact hin (name, o) (Table.get?_eq_some_iff.1 ho)
  rw [← hm']
  exact h'

/-- The names of the stored and the open sheets are the names of the sheets as they are now. -/
theorem mem_sheetNames (h : Holds k.stored m) (name : String) :
    name ∈ k.sheetNames ops ↔ (k.current m name).isSome = true := by
  obtain ⟨names, hlist, hlisting⟩ := hops.list k.stored m h
  unfold sheetNames
  rw [KeySet.mem_keys_ofList, hlist, List.mem_append, Table.mem_keys_iff]
  show name ∈ names ∨ _ ↔ _
  rw [hlisting.mem_iff]
  rcases ho : k.sheets.get? name with _ | o
  · rw [current_of_closed ho]
    simp
  · rw [current_of_open ho]
    simp

end Controller

end SharedSheet
