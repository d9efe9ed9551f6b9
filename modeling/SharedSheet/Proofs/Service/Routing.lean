/-
Routing. A request has one of two effects (`handle_routed`). If the sheet carries it out, one message about it goes to
all members of the sheet; if the sheet refuses it, the client alone is told why, and the sheet stays as it was. Apart
from that sheet and the queues nothing changes. Whom a message reaches is said once, for all that is ever sent
(`Delivers`): a recipient without room does not keep it from the others.

Nothing is asked of the controller for this. Of a controller in a run we also know that only clients who have hung up
leave a queue that nobody attends to (`attends_run`).
-/
import SharedSheet.Proofs.Service.Steps

namespace SharedSheet

open Sheet

/-! ## Whom a message reaches -/

namespace Outbox

variable {depth : ℕ} {box : Outbox}

theorem deliver_of_room (m : Message) (hregistered : box.registered = true) (hattended : box.attended = true)
    (hroom : box.waiting.length < depth) : box.deliver depth m = { box with waiting := box.waiting ++ [m] } := by
  unfold deliver Registry.Outbox.offer?
  simp [hregistered, hattended, hroom]

theorem deliver_of_full (m : Message) (hregistered : box.registered = true) (hattended : box.attended = true)
    (hfull : depth ≤ box.waiting.length) : box.deliver depth m = { box with registered := false } := by
  unfold deliver
  rw [Registry.offer?_eq_none_iff.2 ⟨hregistered, hattended, hfull⟩]

theorem deliver_of_gone (m : Message) (hgone : box.registered = false ∨ box.attended = false) :
    box.deliver depth m = box := by
  unfold deliver Registry.Outbox.offer?
  rcases hgone with h | h
  · simp [h]
  · simp [h]

end Outbox

namespace Registry

/-- In `r'` a message stands once behind all others in the queue of every recipient who is registered and has room, and
the recipients without room are not registered any more; all other outboxes are as they were in `r`. A client who has
hung up has no queue in which a message could wait. -/
structure Delivers (r : Registry) (recipients : List ClientId) (m : Message) (r' : Registry) : Prop where
  queued : ∀ c ∈ recipients, ∀ box, r.outboxes.get? c = some box → box.registered = true → box.attended = true →
    box.waiting.length < r.depth → r'.outboxes.get? c = some { box with waiting := box.waiting ++ [m] }
  dropped : ∀ c ∈ recipients, ∀ box, r.outboxes.get? c = some box → box.registered = true → box.attended = true →
    r.depth ≤ box.waiting.length → r'.outboxes.get? c = some { box with registered := false }
  gone : ∀ c box, r.outboxes.get? c = some box → box.registered = false ∨ box.attended = false →
    r'.outboxes.get? c = some box
  unknown : ∀ c, r.outboxes.get? c = none → r'.outboxes.get? c = none
  others : ∀ c, c ∉ recipients → r'.outboxes.get? c = r.outboxes.get? c
  depth : r'.depth = r.depth
  next : r'.next = r.next

theorem delivers_broadcast (r : Registry) {recipients : List ClientId} (hd : recipients.Nodup) (m : Message) :
    r.Delivers recipients m (r.broadcast recipients m) where
  queued c hc box hbox hregistered hattended hroom := by
    rw [get?_broadcast r hd, if_pos hc, hbox, Option.map_some, Outbox.deliver_of_room m hregistered hattended hroom]
  dropped c hc box hbox hregistered hattended hfull := by
    rw [get?_broadcast r hd, if_pos hc, hbox, Option.map_some, Outbox.deliver_of_full m hregistered hattended hfull]
  gone c box hbox hgone := by
    rw [get?_broadcast r hd, hbox, Option.map_some, Outbox.deliver_of_gone m hgone, ite_self]
  unknown c hnone := by
    rw [get?_broadcast r hd, hnone, Option.map_none, ite_self]
  others c hc := by
    rw [get?_broadcast r hd, if_neg hc]
  depth := depth_broadcast ..
  next := next_broadcast ..

end Registry

namespace Controller

variable {σ : Type} {k k' : Controller σ} {c : ClientId} {info : Attachment} {o : OpenSheet} {a : Action}

/-! ## The two effects -/

/-- What the members of a sheet are told when it has carried out an action: of a selection, who made it; of a change,
which cell it was about, and what this cell holds now. Nothing else has happened to the sheet. -/
inductive Tells (s : Sheet) (c : ClientId) (username : String) : Action → Outcome → Sheet → Message → Prop
  | selection {raw : String} {name : CellName} (named : CellName.parse? raw = some name) :
      Tells s c username (.select raw) (.selected name) { s with selections := s.selections.insert c name }
        (.cellSelected name.text c username)
  | change {a : Action} {u : CellUpdate} {s' : Sheet} (write : s.Write ⟨c, a⟩ u s')
      (content : s'.content u.cell = u.content) (others : ∀ x, x ≠ u.cell → s'.content x = s.content x)
      (selections : s'.selections = s.selections) :
      Tells s c username a (.updated u) s' (.cellUpdated u.cell.text (s'.content u.cell))

/-- An open sheet and the queues apart, nothing changes: no other sheet, no member and no client, and nothing stored. -/
structure OnlySheet (k : Controller σ) (name : String) (o : OpenSheet) (s' : Sheet) (k' : Controller σ) : Prop where
  sheet : k'.sheets.get? name = some { o with sheet := s' }
  others : ∀ x, x ≠ name → k'.sheets.get? x = k.sheets.get? x
  clients : k'.clients = k.clients
  stored : k'.stored = k.stored
  policy : k'.policy = k.policy

/-- The sheet has carried out the action, and all members are told. -/
def Announced (k : Controller σ) (info : Attachment) (o : OpenSheet) (c : ClientId) (a : Action)
    (k' : Controller σ) : Prop :=
  ∃ out s' m, o.sheet.apply ⟨c, a⟩ = (out, s') ∧ out.success = true ∧ Tells o.sheet c info.username a out s' m ∧
    k.registry.Delivers o.members.keys m k'.registry ∧ k.OnlySheet info.sheetName o s' k'

/-- The sheet has refused the action, and the client alone is told the cell, the reason and its class. -/
def Refused (k : Controller σ) (info : Attachment) (o : OpenSheet) (c : ClientId) (a : Action)
    (k' : Controller σ) : Prop :=
  ∃ e, o.sheet.apply ⟨c, a⟩ = (.rejected a.target? e, o.sheet) ∧
    k.registry.Delivers [c] (.requestError (a.target?.getD "") e.message (some e.kind)) k'.registry ∧
    k.OnlySheet info.sheetName o o.sheet k'

/-- A sheet does not refuse what it has carried out. -/
theorem Announced.not_refused (h : k.Announced info o c a k') : ¬k.Refused info o c a k' := by
  rintro ⟨e, hrefused, -⟩
  obtain ⟨out, s', m, happly, hsuccess, -⟩ := h
  rw [happly] at hrefused
  cases hrefused
  cases hsuccess

/-- What is announced tells of what the sheet has done. -/
theorem tells_announcement {s s' : Sheet} {out : Outcome} (h : s.perform ⟨c, a⟩ = .ok (out, s')) (username : String) :
    out.success = true ∧ Tells s c username a out s' (announcement c username a out) := by
  rcases perform_cases h with ⟨client, raw, name, hr, hname, rfl, rfl⟩ | ⟨u, rfl, hw⟩
  · cases hr
    exact ⟨rfl, .selection hname⟩
  · have hc := hw.change
    have hcontent : s'.content u.cell = u.content := by rw [hc.content, if_pos rfl]
    have hothers : ∀ x, x ≠ u.cell → s'.content x = s.content x := fun x hx => by rw [hc.content, if_neg hx]
    have htells : Tells s c username a (.updated u) s' _ := .change hw hcontent hothers hc.selections
    rw [hcontent] at htells
    -- no selection is a change of content
    rcases a with raw | ⟨raw, content⟩ | raw | _
    · cases hw
    · exact ⟨rfl, htells⟩
    · exact ⟨rfl, htells⟩
    · exact ⟨rfl, htells⟩

theorem onlySheet_insert (k : Controller σ) (name : String) (o : OpenSheet) (s' : Sheet) (registry : Registry) :
    k.OnlySheet name o s' { k with sheets := k.sheets.insert name { o with sheet := s' }, registry } where
  sheet := Table.get?_insert_self ..
  others x hx := by
    dsimp only
    rw [Table.get?_insert, if_neg hx]
  clients := rfl
  stored := rfl
  policy := rfl

/-- A request of a client who shares an open sheet has exactly one of the two effects. -/
theorem handle_routed (hinfo : k.clients.get? c = some info) (ho : k.sheets.get? info.sheetName = some o) (a : Action) :
    Xor (k.Announced info o c a (k.handle c a)) (k.Refused info o c a (k.handle c a)) := by
  have hhandle := handle_eq hinfo ho a
  rcases hp : o.sheet.perform ⟨c, a⟩ with e | ⟨out, s'⟩
  · have hrefused : k.Refused info o c a (k.handle c a) := by
      rw [tell, apply_of_error hp] at hhandle
      rw [hhandle]
      exact ⟨e, apply_of_error hp, k.registry.delivers_broadcast (List.nodup_singleton c) _,
        onlySheet_insert k info.sheetName o o.sheet _⟩
    exact .inr ⟨hrefused, fun h => h.not_refused hrefused⟩
  · obtain ⟨hsuccess, htells⟩ := tells_announcement hp info.username
    have hannounced : k.Announced info o c a (k.handle c a) := by
      rw [tell, apply_of_ok hp, (announcement_contents (c := c) (perform_step hp) info.username).1] at hhandle
      rw [hhandle]
      exact ⟨out, s', _, apply_of_ok hp, hsuccess, htells, k.registry.delivers_broadcast o.members.nodup_keys _,
        onlySheet_insert k info.sheetName o s' _⟩
    exact .inl ⟨hannounced, hannounced.not_refused⟩

/-! ## All runs -/

/-- In every run of a server, over any storage, a request of a client who shares an open sheet has exactly one of two
effects. Either the sheet has carried it out, and one message about the selection or the change is queued for all
members who are registered and have room, while those without room lose their registration; or the sheet has refused
it and stays as it was, and the answer is queued for the client alone. All members have queues but those who have hung
up. -/
theorem routing_run (ops : Storage σ) (stored : σ) (depth : ℕ) (policy : Policy) (steps : List (ServerStep σ))
    {k : Controller σ} (hk : k = (new stored (Registry.new depth) policy).operateAll ops steps) {c : ClientId}
    {info : Attachment} {o : OpenSheet} (hinfo : k.clients.get? c = some info)
    (ho : k.sheets.get? info.sheetName = some o) (a : Action) :
    Xor (k.Announced info o c a (k.handle c a)) (k.Refused info o c a (k.handle c a)) ∧
      ∀ d, .hangUp d ∉ steps → k.registry.Attends d := by
  refine ⟨handle_routed hinfo ho a, fun d hd => ?_⟩
  rw [hk]
  exact attends_run (fun _ h => by cases h) ops hd

/-- Client 2 takes back what client 1 has done. It is told of that itself no more, because it has not looked at its
queue, but client 1 is; client 4 has hung up, and client 3 is on another sheet. -/
theorem routing_run_full :
    let steps : List (ServerStep (Table String SheetRecord)) := [.serve .register, .serve .register, .serve .register,
      .serve .register, .serve (.connect 1 "first" "plan"), .serve (.connect 2 "second" "plan"),
      .serve (.connect 3 "third" "notes"), .serve (.connect 4 "fourth" "plan"), .serve (.handle 1 (.select "a1")),
      .serve (.handle 1 (.edit "A1" "5")), .drain 1, .hangUp 4]
    let k := (new Table.empty (Registry.new 2) Policy.unbounded).operateAll Memory.storage steps
    let k' := k.handle 2 .undo
    (∃ o, k.Announced ⟨"second", "plan"⟩ o 2 .undo k') ∧ k'.registry.waiting 1 = [.cellUpdated "A1" ""] ∧
      k'.registry.waiting 2 = [.cellSelected "A1" 1 "first", .cellUpdated "A1" "5"] ∧
      k'.registry.isRegistered 2 = false ∧ k'.registry.waiting 3 = [] ∧ k'.registry.waiting 4 = [] ∧
      k'.registry.isRegistered 4 = true := by
  intro steps k k'
  have hinfo : k.clients.get? 2 = some ⟨"second", "plan"⟩ := by
    dsimp only [k, steps]
    cbv
  have hundone : (k.sheets.get? "plan").map (fun o => (o.sheet.apply ⟨2, .undo⟩).1.success) = some true := by
    dsimp only [k, steps]
    cbv
  obtain ⟨o, ho, hsuccess⟩ := Option.map_eq_some_iff.1 hundone
  refine ⟨⟨o, ?_⟩, ?_, ?_, ?_, ?_, ?_, ?_⟩
  · rcases (routing_run Memory.storage _ 2 Policy.unbounded steps rfl hinfo ho .undo).1 with
      ⟨hannounced, -⟩ | ⟨⟨e, hrefused, -⟩, -⟩
    · exact hannounced
    · rw [hrefused] at hsuccess
      cases hsuccess
  all_goals
    dsimp only [k', k, steps]
    cbv

end Controller

end SharedSheet
