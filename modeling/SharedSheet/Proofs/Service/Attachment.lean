/-
Attached clients. What each operation of the controller does to sheets, members and outboxes is said once
(`handle_cases`, `connect_eq_ok`, `disconnect_cases`), and with it that clients are attached to open sheets and
that the members of a sheet are the clients attached to it (`WellAttached`).
-/
import SharedSheet.Proofs.Service.Delivery
import SharedSheet.Proofs.Sheet.Contents
import SharedSheet.Service.Controller

namespace SharedSheet.Controller

open Sheet

variable {σ : Type} {k k' : Controller σ} {c : ClientId}

/-! ## What the operations do -/

/-- An accepted action is announced with the message that tells of its effect on the contents. -/
theorem announcement_contents {s s' : Sheet} {a : Action} {o : Outcome} (h : Step s a o s') (username : String) :
    Message.ofRejection? o = none ∧ s'.contents = (announcement c username a o).applyTo s.contents := by
  rcases h with _ | ⟨hc, -⟩ | ⟨hc, -⟩ | ⟨hc, -⟩
  · exact ⟨rfl, contents_congr fun _ => rfl⟩
  · exact ⟨rfl, hc.contents⟩
  · exact ⟨rfl, hc.contents⟩
  · exact ⟨rfl, hc.contents⟩

/-- A request has no effect at all, or it is refused to the client alone, or all members of its sheet are sent the
message about its effect. -/
theorem handle_cases (k : Controller σ) (c : ClientId) (a : Action) :
    k.handle c a = k ∨
    (∃ m : Message, (∀ t, m.applyTo t = t) ∧ k.handle c a = { k with registry := k.registry.broadcast [c] m }) ∨
    ∃ info o s' m, k.clients.get? c = some info ∧ k.sheets.get? info.sheetName = some o ∧
      s'.contents = Message.applyTo o.sheet.contents m ∧
      k.handle c a =
        { k with
          sheets := k.sheets.insert info.sheetName { o with sheet := s' }
          registry := k.registry.broadcast o.members.keys m } := by
  unfold handle
  rcases hinfo : k.clients.get? c with _ | info
  · exact .inl rfl
  · dsimp only
    rcases ho : k.sheets.get? info.sheetName with _ | o
    · exact .inl rfl
    · right
      dsimp only
      unfold apply
      rcases hp : o.sheet.perform ⟨c, a⟩ with e | ⟨out, s'⟩
      · -- a rejection has no effect on contents
        exact .inl ⟨_, fun _ => rfl, rfl⟩
      · obtain ⟨hnone, hcontents⟩ := announcement_contents (c := c) (perform_step hp) info.username
        right
        refine ⟨info, o, s', _, rfl, ho, hcontents, ?_⟩
        dsimp only
        rw [hnone]

theorem connect_eq_ok {ops : Storage σ} {username sheetName : String} {cells : List CellRecord}
    (h : k.connect ops c username sheetName = .ok (cells, k')) :
    ∃ o : OpenSheet, cells = o.sheet.populated ∧
      (k.sheets.get? sheetName = some o ∨ k.sheets.get? sheetName = none ∧ o.members = Table.empty) ∧
      k' = { k with
        sheets := k.sheets.insert sheetName { o with members := o.members.add c }
        clients := k.clients.insert c ⟨username, sheetName⟩ } := by
  unfold connect at h
  obtain ⟨_, -, h⟩ := bind_eq_ok h
  obtain ⟨o, ho, h⟩ := bind_eq_ok h
  cases h
  refine ⟨o, rfl, ?_, rfl⟩
  unfold openSheet at ho
  split at ho
  · rename_i o' ho'
    cases ho
    exact .inl ho'
  · rename_i hnone
    obtain ⟨r, -, ho⟩ := map_eq_ok ho
    cases ho
    exact .inr ⟨hnone, rfl⟩

/-! ## Who is attached -/

/-- The sheet that a client is attached to. -/
def sheetOf (k : Controller σ) (c : ClientId) : Option Sheet :=
  (k.clients.get? c).bind fun info => (k.sheets.get? info.sheetName).map (·.sheet)

/-- Clients are attached to open sheets, and the members of a sheet are the clients attached to it. -/
structure WellAttached (k : Controller σ) : Prop where
  attached : ∀ c info, k.clients.get? c = some info →
    ∃ o, k.sheets.get? info.sheetName = some o ∧ c ∈ o.members.keys
  member : ∀ name o, k.sheets.get? name = some o → ∀ c ∈ o.members.keys,
    ∃ info, k.clients.get? c = some info ∧ info.sheetName = name

theorem wellAttached_new (stored : σ) (registry : Registry) (policy : Policy) :
    (new stored registry policy).WellAttached where
  attached _ _ h := by cases h
  member _ _ h := by cases h

/-- A client is a member of the sheet it is attached to. -/
theorem WellAttached.mem_members (h : k.WellAttached) {info : Attachment} {o : OpenSheet}
    (hinfo : k.clients.get? c = some info) (ho : k.sheets.get? info.sheetName = some o) : c ∈ o.members.keys := by
  obtain ⟨o', ho', hmem⟩ := h.attached c info hinfo
  rw [ho] at ho'
  cases ho'
  exact hmem

/-- A client is a member of no other sheet. -/
theorem WellAttached.sheetName_eq (h : k.WellAttached) {info : Attachment} {name : String} {o : OpenSheet}
    (hinfo : k.clients.get? c = some info) (ho : k.sheets.get? name = some o) (hmem : c ∈ o.members.keys) :
    info.sheetName = name := by
  obtain ⟨info', hinfo', hname⟩ := h.member name o ho c hmem
  rw [hinfo] at hinfo'
  cases hinfo'
  exact hname

/-- A client that leaves is taken off the members of its sheet, and these are told; a sheet without members is
closed. -/
theorem disconnect_cases (ops : Storage σ) (h : k.WellAttached) (c : ClientId) :
    k.clients.get? c = none ∧ k.disconnect ops c = k ∨
    ∃ info o stored sheets, k.clients.get? c = some info ∧ k.sheets.get? info.sheetName = some o ∧
      k.disconnect ops c =
        { k with
          stored
          sheets
          clients := k.clients.erase c
          registry := k.registry.broadcast (Table.keys (o.members.erase c)) (.disconnected c) } ∧
      ∀ name, sheets.get? name =
        if name = info.sheetName then
          if Table.isEmpty (o.members.erase c) then none else some ⟨o.sheet.deselect c, o.members.erase c⟩
        else k.sheets.get? name := by
  unfold disconnect
  rcases hinfo : k.clients.get? c with _ | info
  · exact .inl ⟨rfl, rfl⟩
  · right
    obtain ⟨o, ho, -⟩ := h.attached c info hinfo
    dsimp only
    rw [ho]
    dsimp only
    by_cases hempty : Table.isEmpty (o.members.erase c) = true
    · refine ⟨info, o, (ops.save k.stored info.sheetName (o.sheet.deselect c).record).2, k.sheets.erase info.sheetName,
        rfl, ho, ?_, fun name => ?_⟩
      · rw [if_pos hempty]
        rfl
      · rw [Table.get?_erase, if_pos hempty]
    · refine ⟨info, o, k.stored, k.sheets.insert info.sheetName ⟨o.sheet.deselect c, o.members.erase c⟩,
        rfl, ho, ?_, fun name => ?_⟩
      · rw [if_neg hempty]
      · rw [Table.get?_insert, if_neg hempty]

/-- New contents and new messages attach nobody. -/
theorem WellAttached.setSheet (h : k.WellAttached) {name : String} {o : OpenSheet} (ho : k.sheets.get? name = some o)
    (s : Sheet) (registry : Registry) :
    ({ k with sheets := k.sheets.insert name { o with sheet := s }, registry } : Controller σ).WellAttached where
  attached d info hd := by
    obtain ⟨o', ho', hmem⟩ := h.attached d info hd
    dsimp only
    rw [Table.get?_insert]
    by_cases hname : info.sheetName = name
    · rw [hname, ho] at ho'
      cases ho'
      exact ⟨_, if_pos hname, hmem⟩
    · exact ⟨o', by rw [if_neg hname]; exact ho', hmem⟩
  member name' o' ho' d hd := by
    dsimp only at ho'
    rw [Table.get?_insert] at ho'
    split at ho'
    · rename_i hname
      cases ho'
      rw [hname]
      exact h.member name o ho d hd
    · exact h.member name' o' ho' d hd

theorem WellAttached.handle (h : k.WellAttached) (c : ClientId) (a : Action) : (k.handle c a).WellAttached := by
  rcases handle_cases k c a with he | ⟨m, -, he⟩ | ⟨info, o, s', m, -, ho, -, he⟩
  · rw [he]
    exact h
  · rw [he]
    exact ⟨h.attached, h.member⟩
  · rw [he]
    exact h.setSheet ho s' _

theorem WellAttached.connect (h : k.WellAttached) {ops : Storage σ} {username sheetName : String}
    {cells : List CellRecord} (hfree : k.clients.get? c = none)
    (hk : k.connect ops c username sheetName = .ok (cells, k')) : k'.WellAttached := by
  obtain ⟨o, -, ho, rfl⟩ := connect_eq_ok hk
  constructor
  · intro d info hd
    dsimp only at hd ⊢
    rw [Table.get?_insert] at hd ⊢
    by_cases hdc : d = c
    · rw [if_pos hdc] at hd
      cases hd
      exact ⟨_, if_pos rfl, by rw [hdc, KeySet.mem_keys_add]; exact .inl rfl⟩
    · rw [if_neg hdc] at hd
      obtain ⟨o', ho', hmem⟩ := h.attached d info hd
      by_cases hname : info.sheetName = sheetName
      · rw [hname] at ho'
        rcases ho with ho | ⟨hnone, -⟩
        · rw [ho] at ho'
          cases ho'
          exact ⟨_, if_pos hname, by rw [KeySet.mem_keys_add]; exact .inr hmem⟩
        · rw [hnone] at ho'
          cases ho'
      · exact ⟨o', by rw [if_neg hname]; exact ho', hmem⟩
  · intro name o' ho' d hd
    dsimp only at ho' ⊢
    rw [Table.get?_insert] at ho' ⊢
    -- members are attached already, so none of them is the new client
    have old : ∀ name o', k.sheets.get? name = some o' → d ∈ o'.members.keys →
        ∃ info, (if d = c then some ⟨username, sheetName⟩ else k.clients.get? d) = some info ∧
          info.sheetName = name := by
      intro name o' ho' hd
      obtain ⟨info, hinfo, hname⟩ := h.member name o' ho' d hd
      have hdc : d ≠ c := by
        rintro rfl
        rw [hfree] at hinfo
        cases hinfo
      exact ⟨info, by rw [if_neg hdc]; exact hinfo, hname⟩
    split at ho'
    · rename_i hname
      cases ho'
      rw [KeySet.mem_keys_add] at hd
      rcases hd with hd | hd
      · exact ⟨_, if_pos hd, hname.symm⟩
      · rw [hname]
        rcases ho with ho | ⟨-, hempty⟩
        · exact old sheetName o ho hd
        · rw [hempty] at hd
          cases hd
    · exact old name o' ho' hd

theorem WellAttached.disconnect (h : k.WellAttached) (ops : Storage σ) (c : ClientId) :
    (k.disconnect ops c).WellAttached := by
  rcases disconnect_cases ops h c with ⟨-, he⟩ | ⟨info, o, stored, sheets, hinfo, ho, he, hsheets⟩
  · rw [he]
    exact h
  · rw [he]
    constructor
    · intro d dinfo hd
      obtain ⟨hdc, hd⟩ := Table.get?_erase_eq_some.1 hd
      obtain ⟨o', ho', hmem⟩ := h.attached d dinfo hd
      dsimp only
      rw [hsheets]
      by_cases hname : dinfo.sheetName = info.sheetName
      · -- the client is still a member, so the sheet is not closed
        rw [hname, ho] at ho'
        cases ho'
        have hrest : d ∈ Table.keys (o.members.erase c) := (KeySet.mem_keys_erase ..).2 ⟨hdc, hmem⟩
        rw [if_pos hname, if_neg (KeySet.not_isEmpty_of_mem hrest)]
        exact ⟨_, rfl, hrest⟩
      · rw [if_neg hname]
        exact ⟨o', ho', hmem⟩
    · intro name o' ho' d hd
      dsimp only at ho' ⊢
      rw [hsheets] at ho'
      rw [Table.get?_erase]
      split at ho'
      · rename_i hname
        split at ho'
        · cases ho'
        · cases ho'
          obtain ⟨hdc, hmem⟩ := (KeySet.mem_keys_erase ..).1 hd
          rw [if_neg hdc, hname]
          exact h.member info.sheetName o ho d hmem
      · rename_i hname
        obtain ⟨dinfo, hd', hdname⟩ := h.member name o' ho' d hd
        have hdc : d ≠ c := by
          rintro rfl
          exact hname (h.sheetName_eq hinfo ho' hd).symm
        rw [if_neg hdc]
        exact ⟨dinfo, hd', hdname⟩

end SharedSheet.Controller
