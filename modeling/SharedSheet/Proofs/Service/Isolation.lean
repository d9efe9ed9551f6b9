/-
Isolation. What goes on in other sheets cannot be noticed (`isolation_run`): in two runs where the clients of a sheet
do the same they see the same, message by message, and the sheet and its stored copy end the same, whatever the other
clients do in each of them.

What concerns the sheet is compared by `SameFor`. A step of another client changes nothing of it
(`Apart.sameFor_serve`), and a step that concerns the sheet changes it alike in two controllers (`SameFor.serve`). So
every run is for the sheet the one in which the others do nothing (`SameFor.run`), and two runs with the same of that
are alike.
-/
import SharedSheet.Proofs.Service.Upkeep

namespace SharedSheet

variable {σ : Type}

/-! ## What a client sees -/

/-- What shows to a client: what it is answered on connecting, what it finds in its queue, and what is put there. -/
inductive Sight where
  | joined (result : Except StorageError (List CellRecord))
  | received (receipt : Registry.Receipt)
  | queued (m : Message)

/-- What a storage tells of one sheet: whether it is listed, and what is loaded. -/
def Storage.copy (ops : Storage σ) (s : σ) (name : String) : Except StorageError Bool × Except StorageError SheetRecord :=
  ((ops.list s).map (·.contains name), ops.load s name)

namespace ServiceStep

/-- The steps that concern a sheet with these clients: theirs, and all registrations. -/
def concerns (mine : ClientId → Bool) : ServiceStep → Bool
  | .register => true
  | .connect c _ _ | .handle c _ | .disconnect c | .dequeue c => mine c

/-- Those clients connect to this sheet and to no other one, and nobody else connects to it. -/
def KeepsApart (mine : ClientId → Bool) (name : String) : ServiceStep → Prop
  | .connect c _ sheetName => isSheetName sheetName = true → (mine c = true ↔ sheetName = name)
  | .register | .handle .. | .disconnect _ | .dequeue _ => True

end ServiceStep

namespace Controller

/-- What a client is answered in a step of its own. -/
def answer? (ops : Storage σ) (c : ClientId) (k : Controller σ) : ServiceStep → Option Sight
  | .connect d username sheetName =>
    if d = c then some (.joined (k.connectInPlace ops d username sheetName).1) else none
  | .dequeue d => if d = c then some (.received (k.registry.receive d).1) else none
  | .register | .handle .. | .disconnect _ => none

/-- What a client sees of a step: the answer, and the messages that stand behind the old ones in its queue then. -/
def sights (ops : Storage σ) (c : ClientId) (k : Controller σ) (e : ServiceStep) : List Sight :=
  (k.answer? ops c e).toList ++
    (((k.serve ops e).registry.waiting c).drop (k.registry.waiting c).length).map .queued

/-- What a client sees of a run. -/
def view (ops : Storage σ) (c : ClientId) (k : Controller σ) : List ServiceStep → List Sight
  | [] => []
  | e :: steps => k.sights ops c e ++ (k.serve ops e).view ops c steps

end Controller

/-! ## The queues of some clients -/

theorem ne_of_others {mine : ClientId → Bool} {c d : ClientId} (hd : mine d = true) (hc : mine c = false) : d ≠ c := by
  rintro rfl
  rw [hc] at hd
  cases hd

namespace Registry

variable {mine : ClientId → Bool} {r r' r'' : Registry}

/-- Some clients have the same outboxes in two registries, and new ones will get the same. -/
structure SameFor (mine : ClientId → Bool) (r r' : Registry) : Prop where
  depth : r'.depth = r.depth
  next : r'.next = r.next
  outboxes : ∀ c, mine c = true → r'.outboxes.get? c = r.outboxes.get? c

theorem SameFor.refl (mine : ClientId → Bool) (r : Registry) : r.SameFor mine r := ⟨rfl, rfl, fun _ _ => rfl⟩

theorem SameFor.symm (h : r.SameFor mine r') : r'.SameFor mine r :=
  ⟨h.depth.symm, h.next.symm, fun c hc => (h.outboxes c hc).symm⟩

theorem SameFor.trans (h : r.SameFor mine r') (h' : r'.SameFor mine r'') : r.SameFor mine r'' :=
  ⟨h'.depth.trans h.depth, h'.next.trans h.next, fun c hc => (h'.outboxes c hc).trans (h.outboxes c hc)⟩

theorem SameFor.waiting (h : r.SameFor mine r') {c : ClientId} (hc : mine c = true) : r'.waiting c = r.waiting c := by
  unfold Registry.waiting
  rw [h.outboxes c hc]

theorem SameFor.register (h : r.SameFor mine r') : r.register.2.SameFor mine r'.register.2 where
  depth := h.depth
  next := congrArg (· + 1) h.next
  outboxes c hc := by
    show (r'.outboxes.insert r'.next _).get? c = (r.outboxes.insert r.next _).get? c
    rw [h.next, Table.get?_insert, Table.get?_insert, h.outboxes c hc]

theorem SameFor.broadcast (h : r.SameFor mine r') {recipients : List ClientId} (hd : recipients.Nodup) (m : Message) :
    (r.broadcast recipients m).SameFor mine (r'.broadcast recipients m) where
  depth := by rw [depth_broadcast, depth_broadcast, h.depth]
  next := by rw [next_broadcast, next_broadcast, h.next]
  outboxes c hc := by rw [get?_broadcast _ hd, get?_broadcast _ hd, h.depth, h.outboxes c hc]

/-- A message to others does not touch the queues of these clients, even if it overflows one of the others. -/
theorem sameFor_broadcast (r : Registry) {recipients : List ClientId} (hd : recipients.Nodup) (m : Message)
    (hothers : ∀ c ∈ recipients, mine c = false) : r.SameFor mine (r.broadcast recipients m) where
  depth := r.depth_broadcast recipients m
  next := r.next_broadcast recipients m
  outboxes c hc := by
    rw [get?_broadcast _ hd, if_neg]
    intro hmem
    rw [hothers c hmem] at hc
    cases hc

/-- What a client finds in its queue depends on its own outbox alone. -/
theorem receive_congr {c : ClientId} (h : r'.outboxes.get? c = r.outboxes.get? c) :
    (r'.receive c).1 = (r.receive c).1 ∧ (r'.receive c).2.outboxes.get? c = (r.receive c).2.outboxes.get? c := by
  unfold receive
  rw [h]
  rcases hbox : r.outboxes.get? c with _ | ⟨_ | ⟨m, waiting⟩, registered, attended⟩
  · exact ⟨rfl, h⟩
  · exact ⟨rfl, h⟩
  · refine ⟨rfl, ?_⟩
    dsimp only
    rw [Table.get?_insert_self, Table.get?_insert_self]

theorem get?_receive_of_ne (r : Registry) {c d : ClientId} (hd : d ≠ c) :
    (r.receive c).2.outboxes.get? d = r.outboxes.get? d := by
  unfold receive
  split
  · rfl
  · split
    · exact Table.get?_insert_of_ne _ hd _
    · rfl

theorem SameFor.receive (h : r.SameFor mine r') {c : ClientId} (hc : mine c = true) :
    (r.receive c).2.SameFor mine (r'.receive c).2 := by
  obtain ⟨outboxes, hframe⟩ := r.receive_frame c
  obtain ⟨outboxes', hframe'⟩ := r'.receive_frame c
  refine ⟨?_, ?_, fun d hd => ?_⟩
  · rw [hframe, hframe']
    exact h.depth
  · rw [hframe, hframe']
    exact h.next
  · by_cases hdc : d = c
    · rw [hdc]
      exact (receive_congr (h.outboxes c hc)).2
    · rw [get?_receive_of_ne _ hdc, get?_receive_of_ne _ hdc, h.outboxes d hd]

theorem sameFor_receive (r : Registry) {c : ClientId} (hc : mine c = false) : r.SameFor mine (r.receive c).2 := by
  obtain ⟨outboxes, hframe⟩ := r.receive_frame c
  refine ⟨?_, ?_, fun d hd => get?_receive_of_ne r (ne_of_others hd hc)⟩
  · rw [hframe]
  · rw [hframe]

end Registry

/-! ## The copy of one sheet -/

section Copy

variable {ops : Storage σ} {Holds : σ → Shelf → Prop} {s : σ} {m : Shelf} {name : String}
  (hops : ops.Keeps Holds fun _ r => r.IsOrdered)
include hops

theorem Storage.Keeps.copy_eq (h : Holds s m) (hname : isSheetName name = true) :
    ops.copy s name = (.ok (m name).isSome, .ok ((m name).getD SheetRecord.empty)) := by
  obtain ⟨names, hlist, hlisting⟩ := hops.list s m h
  unfold Storage.copy
  rw [hlist, hops.load s m name h hname]
  refine congrArg (Except.ok ·, _) (Bool.eq_iff_iff.2 ?_)
  rw [List.contains_iff_mem, hlisting.mem_iff]

/-- Saving a sheet does not touch the copies of the others. -/
theorem Storage.Keeps.copy_save (h : Holds s m) (hname : isSheetName name = true) {x : String}
    (hx : isSheetName x = true) (hne : x ≠ name) {r : SheetRecord} (hr : r.IsOrdered) :
    ops.copy (ops.save s x r).2 name = ops.copy s name := by
  rw [hops.copy_eq (hops.save s m x r h hx hr).2 hname, hops.copy_eq h hname, Function.update_of_ne hne.symm]

theorem Storage.Keeps.copy_save_self (h : Holds s m) (hname : isSheetName name = true) {r : SheetRecord}
    (hr : r.IsOrdered) : ops.copy (ops.save s name r).2 name = (.ok true, .ok r) := by
  rw [hops.copy_eq (hops.save s m name r h hname hr).2 hname, Function.update_self]
  rfl

end Copy

namespace Controller

variable {ops : Storage σ} {Holds : σ → Shelf → Prop} {mine : ClientId → Bool} {name : String} {k p q : Controller σ}
  {c : ClientId} {e : ServiceStep}

/-! ## What concerns a sheet -/

/-- What concerns a sheet with these clients is the same in two controllers: the open sheet and its stored copy, and the
entries and queues of the clients. -/
structure SameFor (ops : Storage σ) (mine : ClientId → Bool) (name : String) (k p : Controller σ) : Prop where
  registry : k.registry.SameFor mine p.registry
  policy : p.policy = k.policy
  sheet : p.sheets.get? name = k.sheets.get? name
  clients : ∀ c, mine c = true → p.clients.get? c = k.clients.get? c
  copy : isSheetName name = true → ops.copy p.stored name = ops.copy k.stored name

theorem SameFor.refl (ops : Storage σ) (mine : ClientId → Bool) (name : String) (k : Controller σ) :
    k.SameFor ops mine name k :=
  ⟨.refl mine k.registry, rfl, rfl, fun _ _ => rfl, fun _ => rfl⟩

theorem SameFor.symm (h : k.SameFor ops mine name p) : p.SameFor ops mine name k :=
  ⟨h.registry.symm, h.policy.symm, h.sheet.symm, fun c hc => (h.clients c hc).symm, fun hn => (h.copy hn).symm⟩

theorem SameFor.trans (h : k.SameFor ops mine name p) (h' : p.SameFor ops mine name q) : k.SameFor ops mine name q :=
  ⟨h.registry.trans h'.registry, h'.policy.trans h.policy, h'.sheet.trans h.sheet,
    fun c hc => (h'.clients c hc).trans (h.clients c hc), fun hn => (h'.copy hn).trans (h.copy hn)⟩

/-- Those clients share no sheet but this one, and they share it with nobody else. All open sheets are consistent. -/
structure Apart (Holds : σ → Shelf → Prop) (mine : ClientId → Bool) (name : String) (k : Controller σ) : Prop where
  stored : ∃ m, Holds k.stored m
  consistent : k.AllConsistent
  named : ∀ x o, k.sheets.get? x = some o → isSheetName x = true
  attached : ∀ c info, k.clients.get? c = some info → (mine c = true ↔ info.sheetName = name)
  members : ∀ x o, k.sheets.get? x = some o → ∀ c ∈ o.members.keys, (mine c = true ↔ x = name)

theorem apart_new {stored : σ} {m : Shelf} (h : Holds stored m) (registry : Registry) (policy : Policy)
    (mine : ClientId → Bool) (name : String) : (new stored registry policy).Apart Holds mine name where
  stored := ⟨m, h⟩
  consistent _ _ ho := by cases ho
  named _ _ ho := by cases ho
  attached _ _ hinfo := by cases hinfo
  members _ _ ho := by cases ho

/-- Other clients are attached to other sheets. -/
theorem Apart.ne_of_attached (h : k.Apart Holds mine name) {info : Attachment} (hinfo : k.clients.get? c = some info)
    (hc : mine c = false) : info.sheetName ≠ name := by
  intro hn
  rw [(h.attached c info hinfo).2 hn] at hc
  cases hc

/-- Other sheets have other members. -/
theorem Apart.others (h : k.Apart Holds mine name) {x : String} {o : OpenSheet} (ho : k.sheets.get? x = some o)
    (hx : x ≠ name) : ∀ c ∈ o.members.keys, mine c = false :=
  fun c hmem => Bool.eq_false_iff.2 fun hc => hx ((h.members x o ho c hmem).1 hc)

/-- What is left of an open sheet is stored in order. -/
theorem Apart.ordered (h : k.Apart Holds mine name) {x : String} {o : OpenSheet} (ho : k.sheets.get? x = some o)
    (c : ClientId) : (o.leave c).sheet.record.IsOrdered :=
  (Sheet.consistent_after o.sheet (.deselect c) (h.consistent x o ho)).named.ascending

/-! ## Steps keep sheets apart -/

theorem Apart.put (h : k.Apart Holds mine name) {x : String} {o : OpenSheet} (hx : isSheetName x = true)
    (hconsistent : AllConsistent { k with sheets := k.sheets.insert x o })
    (ho : ∀ c ∈ o.members.keys, (mine c = true ↔ x = name)) {registry : Registry} {clients : Table ClientId Attachment}
    (hclients : ∀ c info, clients.get? c = some info → (mine c = true ↔ info.sheetName = name)) :
    Apart Holds mine name { k with registry, clients, sheets := k.sheets.insert x o } where
  stored := h.stored
  consistent := hconsistent
  named y o' hy := by
    dsimp only at hy
    rw [Table.get?_insert] at hy
    split at hy
    · rename_i hyx
      rw [hyx]
      exact hx
    · exact h.named y o' hy
  attached := hclients
  members y o' hy := by
    dsimp only at hy
    rw [Table.get?_insert] at hy
    split at hy
    · rename_i hyx
      cases hy
      rw [hyx]
      exact ho
    · exact h.members y o' hy

/-- Queues play no part in it. -/
theorem Apart.setRegistry (h : k.Apart Holds mine name) (registry : Registry) :
    Apart Holds mine name { k with registry } := ⟨h.stored, h.consistent, h.named, h.attached, h.members⟩

theorem Apart.attached_erase (h : k.Apart Holds mine name) (c d : ClientId) (info : Attachment)
    (hd : (k.clients.erase c).get? d = some info) : mine d = true ↔ info.sheetName = name :=
  h.attached d info (Table.get?_erase_eq_some.1 hd).2

theorem Apart.handle (h : k.Apart Holds mine name) (ops : Storage σ) (c : ClientId) (a : Action) :
    (k.handle c a).Apart Holds mine name := by
  have hconsistent : (k.handle c a).AllConsistent := h.consistent.serve ops (.handle c a)
  rcases hinfo : k.clients.get? c with _ | info
  · rw [handle_of_detached hinfo]
    exact h
  · rcases ho : k.sheets.get? info.sheetName with _ | o
    · rw [handle_of_closed hinfo ho]
      exact h
    · rw [handle_eq hinfo ho] at hconsistent ⊢
      refine h.put (h.named _ o ho) hconsistent ?_ h.attached
      exact h.members _ o ho

section Keeping

variable (hops : ops.Keeps Holds fun _ r => r.IsOrdered)
include hops

/-- A sheet can always be opened. -/
theorem Apart.openSheet (h : k.Apart Holds mine name) {x : String} (hx : isSheetName x = true) :
    ∃ o, k.openSheet ops x = .ok o ∧ ∀ c ∈ o.members.keys, (mine c = true ↔ x = name) := by
  unfold Controller.openSheet
  rcases ho : k.sheets.get? x with _ | o
  · obtain ⟨m, hm⟩ := h.stored
    rw [hops.load k.stored m x hm hx]
    exact ⟨_, rfl, fun _ hmem => by cases hmem⟩
  · exact ⟨o, rfl, h.members x o ho⟩

theorem Apart.connect (h : k.Apart Holds mine name) (c : ClientId) (username : String) {sheetName : String}
    (hside : isSheetName sheetName = true → (mine c = true ↔ sheetName = name)) :
    (k.connectInPlace ops c username sheetName).2.Apart Holds mine name := by
  have hconsistent : (k.connectInPlace ops c username sheetName).2.AllConsistent :=
    h.consistent.serve ops (.connect c username sheetName)
  rcases hname : isSheetName sheetName with _ | _
  · rw [connectInPlace_of_invalid ops k hname]
    exact h
  · obtain ⟨o, ho, hmembers⟩ := h.openSheet hops hname
    rw [connectInPlace_of_openSheet hname ho] at hconsistent ⊢
    refine h.put hname hconsistent (fun d hd => ?_) (fun d info hd => ?_)
    · rcases (KeySet.mem_keys_add ..).1 hd with rfl | hd
      · exact hside hname
      · exact hmembers d hd
    · rw [Table.get?_insert] at hd
      split at hd
      · rename_i hdc
        cases hd
        rw [hdc]
        exact hside hname
      · exact h.attached d info hd

theorem Apart.disconnect (h : k.Apart Holds mine name) (c : ClientId) : (k.disconnect ops c).Apart Holds mine name := by
  have hconsistent : (k.disconnect ops c).AllConsistent := h.consistent.serve ops (.disconnect c)
  rcases hinfo : k.clients.get? c with _ | info
  · rw [disconnect_of_detached ops hinfo]
    exact h
  · rcases ho : k.sheets.get? info.sheetName with _ | o
    · rw [disconnect_of_closed ops hinfo ho]
      exact ⟨h.stored, h.consistent, h.named, h.attached_erase c, h.members⟩
    · have hname := h.named _ o ho
      rw [disconnect_eq ops hinfo ho] at hconsistent ⊢
      by_cases hempty : (o.leave c).members.isEmpty = true
      · rw [if_pos hempty] at hconsistent ⊢
        obtain ⟨m, hm⟩ := h.stored
        have hsaved := (hops.save k.stored m _ _ hm hname (h.ordered ho c)).2
        exact ⟨⟨_, hsaved⟩, hconsistent, fun x o' hx => h.named x o' (Table.get?_erase_eq_some.1 hx).2,
          h.attached_erase c,
          fun x o' hx => h.members x o' (Table.get?_erase_eq_some.1 hx).2⟩
      · rw [if_neg hempty] at hconsistent ⊢
        exact h.put hname hconsistent (fun d hd => h.members _ o ho d ((KeySet.mem_keys_erase ..).1 hd).2)
          (h.attached_erase c)

theorem Apart.serve (h : k.Apart Holds mine name) (he : e.KeepsApart mine name) :
    (k.serve ops e).Apart Holds mine name := by
  cases e with
  | register => exact h.setRegistry _
  | connect c username sheetName => exact h.connect hops c username he
  | handle c a => exact h.handle ops c a
  | disconnect c => exact h.disconnect hops c
  | dequeue c => exact h.setRegistry _

end Keeping

/-! ## Steps of other clients -/

theorem sameFor_tell (registry : Registry) {o : OpenSheet} (hc : mine c = false)
    (ho : ∀ d ∈ o.members.keys, mine d = false) (username : String) (a : Action) :
    registry.SameFor mine (tell registry o c username a) := by
  unfold tell
  split
  · exact registry.sameFor_broadcast (List.nodup_singleton c) _ (by simp [hc])
  · exact registry.sameFor_broadcast o.members.nodup_keys _ ho

theorem Apart.sameFor_handle (h : k.Apart Holds mine name) (ops : Storage σ) (hc : mine c = false) (a : Action) :
    k.SameFor ops mine name (k.handle c a) := by
  rcases hinfo : k.clients.get? c with _ | info
  · rw [handle_of_detached hinfo]
    exact .refl ..
  · have hne := h.ne_of_attached hinfo hc
    rcases ho : k.sheets.get? info.sheetName with _ | o
    · rw [handle_of_closed hinfo ho]
      exact .refl ..
    · rw [handle_eq hinfo ho]
      exact ⟨sameFor_tell k.registry hc (h.others ho hne) info.username a, rfl, Table.get?_insert_of_ne _ hne.symm _,
        fun _ _ => rfl, fun _ => rfl⟩

section Keeping

variable (hops : ops.Keeps Holds fun _ r => r.IsOrdered)
include hops

theorem Apart.sameFor_connect (h : k.Apart Holds mine name) (hc : mine c = false) (username : String)
    {sheetName : String} (hside : isSheetName sheetName = true → (mine c = true ↔ sheetName = name)) :
    k.SameFor ops mine name (k.connectInPlace ops c username sheetName).2 := by
  rcases hname : isSheetName sheetName with _ | _
  · rw [connectInPlace_of_invalid ops k hname]
    exact .refl ..
  · have hne : sheetName ≠ name := fun hn => Bool.eq_false_iff.1 hc ((hside hname).2 hn)
    obtain ⟨o, ho, -⟩ := h.openSheet hops hname
    rw [connectInPlace_of_openSheet hname ho]
    exact ⟨.refl .., rfl, Table.get?_insert_of_ne _ hne.symm _,
      fun d hd => Table.get?_insert_of_ne _ (ne_of_others hd hc) _, fun _ => rfl⟩

theorem Apart.sameFor_disconnect (h : k.Apart Holds mine name) (hc : mine c = false) :
    k.SameFor ops mine name (k.disconnect ops c) := by
  have hclients : ∀ d, mine d = true → (k.clients.erase c).get? d = k.clients.get? d := fun d hd => by
    rw [Table.get?_erase, if_neg (ne_of_others hd hc)]
  rcases hinfo : k.clients.get? c with _ | info
  · rw [disconnect_of_detached ops hinfo]
    exact .refl ..
  · have hne := h.ne_of_attached hinfo hc
    rcases ho : k.sheets.get? info.sheetName with _ | o
    · rw [disconnect_of_closed ops hinfo ho]
      exact ⟨.refl .., rfl, rfl, hclients, fun _ => rfl⟩
    · -- those who remain in that sheet are others, too
      have hqueues : k.registry.SameFor mine (k.registry.broadcast (o.leave c).members.keys (.disconnected c)) :=
        k.registry.sameFor_broadcast (Table.nodup_keys _) _ fun d hd =>
          h.others ho hne d ((KeySet.mem_keys_erase ..).1 hd).2
      rw [disconnect_eq ops hinfo ho]
      by_cases hempty : (o.leave c).members.isEmpty = true
      · rw [if_pos hempty]
        obtain ⟨m, hm⟩ := h.stored
        refine ⟨hqueues, rfl, ?_, hclients, fun hname => ?_⟩
        · dsimp only
          rw [Table.get?_erase, if_neg hne.symm]
        · exact hops.copy_save hm hname (h.named _ o ho) hne (h.ordered ho c)
      · rw [if_neg hempty]
        exact ⟨hqueues, rfl, Table.get?_insert_of_ne _ hne.symm _, hclients, fun _ => rfl⟩

/-- What other clients do, the sheet does not notice. -/
theorem Apart.sameFor_serve (h : k.Apart Holds mine name) (he : e.KeepsApart mine name)
    (hother : e.concerns mine = false) : k.SameFor ops mine name (k.serve ops e) := by
  cases e with
  | register => cases hother
  | connect c username sheetName => exact h.sameFor_connect hops hother username he
  | handle c a => exact h.sameFor_handle ops hother a
  | disconnect c => exact h.sameFor_disconnect hops hother
  | dequeue c => exact ⟨k.registry.sameFor_receive hother, rfl, rfl, fun _ _ => rfl, fun _ => rfl⟩

/-- Nor do its clients see anything of it. -/
theorem Apart.sights_eq_nil (h : k.Apart Holds mine name) (he : e.KeepsApart mine name)
    (hother : e.concerns mine = false) (hc : mine c = true) : k.sights ops c e = [] := by
  have hanswer : k.answer? ops c e = none := by
    cases e with
    | connect d => exact if_neg (ne_of_others hc hother).symm
    | dequeue d => exact if_neg (ne_of_others hc hother).symm
    | _ => rfl
  unfold sights
  rw [hanswer, (h.sameFor_serve hops he hother).registry.waiting hc, List.drop_length]
  rfl

end Keeping

/-! ## Steps that concern the sheet -/

theorem tell_congr {registry registry' : Registry} (h : registry.SameFor mine registry') (o : OpenSheet) (c : ClientId)
    (username : String) (a : Action) :
    (tell registry o c username a).SameFor mine (tell registry' o c username a) := by
  unfold tell
  split
  · exact h.broadcast (List.nodup_singleton c) _
  · exact h.broadcast o.members.nodup_keys _

theorem SameFor.handle (h : k.SameFor ops mine name p) (hk : k.Apart Holds mine name) (hc : mine c = true)
    (a : Action) : (k.handle c a).SameFor ops mine name (p.handle c a) := by
  have hentry := h.clients c hc
  rcases hinfo : k.clients.get? c with _ | info
  · rw [handle_of_detached hinfo, handle_of_detached (hentry.trans hinfo)]
    exact h
  · obtain rfl := (hk.attached c info hinfo).1 hc
    rcases ho : k.sheets.get? info.sheetName with _ | o
    · rw [handle_of_closed hinfo ho, handle_of_closed (hentry.trans hinfo) (h.sheet.trans ho)]
      exact h
    · rw [handle_eq hinfo ho, handle_eq (hentry.trans hinfo) (h.sheet.trans ho)]
      refine ⟨tell_congr h.registry o c info.username a, h.policy, ?_, h.clients, h.copy⟩
      dsimp only
      rw [Table.get?_insert_self, Table.get?_insert_self]

theorem SameFor.openSheet (h : k.SameFor ops mine name p) (hname : isSheetName name = true) :
    p.openSheet ops name = k.openSheet ops name := by
  have hload : ops.load p.stored name = ops.load k.stored name := congrArg Prod.snd (h.copy hname)
  unfold Controller.openSheet
  rw [h.sheet, h.policy, hload]

section Keeping

variable (hops : ops.Keeps Holds fun _ r => r.IsOrdered)
include hops

theorem SameFor.connect (h : k.SameFor ops mine name p) (hk : k.Apart Holds mine name) (hc : mine c = true)
    (username : String) {sheetName : String}
    (hside : isSheetName sheetName = true → (mine c = true ↔ sheetName = name)) :
    (p.connectInPlace ops c username sheetName).1 = (k.connectInPlace ops c username sheetName).1 ∧
      (k.connectInPlace ops c username sheetName).2.SameFor ops mine name
        (p.connectInPlace ops c username sheetName).2 := by
  rcases hname : isSheetName sheetName with _ | _
  · rw [connectInPlace_of_invalid ops k hname, connectInPlace_of_invalid ops p hname]
    exact ⟨rfl, h⟩
  · obtain rfl := (hside hname).1 hc
    obtain ⟨o, ho, -⟩ := hk.openSheet hops hname
    rw [connectInPlace_of_openSheet hname ho, connectInPlace_of_openSheet hname ((h.openSheet hname).trans ho)]
    refine ⟨rfl, h.registry, h.policy, ?_, fun d hd => ?_, h.copy⟩
    · dsimp only
      rw [Table.get?_insert_self, Table.get?_insert_self]
    · dsimp only
      rw [Table.get?_insert, Table.get?_insert, h.clients d hd]

theorem SameFor.disconnect (h : k.SameFor ops mine name p) (hk : k.Apart Holds mine name)
    (hp : p.Apart Holds mine name) (hc : mine c = true) :
    (k.disconnect ops c).SameFor ops mine name (p.disconnect ops c) := by
  have hentry := h.clients c hc
  have hclients : ∀ d, mine d = true → (p.clients.erase c).get? d = (k.clients.erase c).get? d := fun d hd => by
    rw [Table.get?_erase, Table.get?_erase, h.clients d hd]
  rcases hinfo : k.clients.get? c with _ | info
  · rw [disconnect_of_detached ops hinfo, disconnect_of_detached ops (hentry.trans hinfo)]
    exact h
  · obtain rfl := (hk.attached c info hinfo).1 hc
    rcases ho : k.sheets.get? info.sheetName with _ | o
    · rw [disconnect_of_closed ops hinfo ho, disconnect_of_closed ops (hentry.trans hinfo) (h.sheet.trans ho)]
      exact ⟨h.registry, h.policy, h.sheet, hclients, h.copy⟩
    · have hqueues := h.registry.broadcast (Table.nodup_keys (o.leave c).members) (.disconnected c)
      rw [disconnect_eq ops hinfo ho, disconnect_eq ops (hentry.trans hinfo) (h.sheet.trans ho)]
      by_cases hempty : (o.leave c).members.isEmpty = true
      · -- both save the same sheet
        rw [if_pos hempty, if_pos hempty]
        obtain ⟨m, hm⟩ := hk.stored
        obtain ⟨m', hm'⟩ := hp.stored
        have hordered := hk.ordered ho c
        refine ⟨hqueues, h.policy, ?_, hclients, fun hname => ?_⟩
        · dsimp only
          rw [Table.get?_erase, Table.get?_erase, if_pos rfl, if_pos rfl]
        · exact (hops.copy_save_self hm' hname hordered).trans (hops.copy_save_self hm hname hordered).symm
      · rw [if_neg hempty, if_neg hempty]
        refine ⟨hqueues, h.policy, ?_, hclients, h.copy⟩
        dsimp only
        rw [Table.get?_insert_self, Table.get?_insert_self]

/-- What concerns the sheet changes alike in two controllers where it is the same. -/
theorem SameFor.serve (h : k.SameFor ops mine name p) (hk : k.Apart Holds mine name) (hp : p.Apart Holds mine name)
    (he : e.KeepsApart mine name) (hmine : e.concerns mine = true) :
    (k.serve ops e).SameFor ops mine name (p.serve ops e) := by
  cases e with
  | register => exact ⟨h.registry.register, h.policy, h.sheet, h.clients, h.copy⟩
  | connect c username sheetName => exact (h.connect hops hk hmine username he).2
  | handle c a => exact h.handle hk hmine a
  | disconnect c => exact h.disconnect hops hk hp hmine
  | dequeue c => exact ⟨h.registry.receive hmine, h.policy, h.sheet, h.clients, h.copy⟩

/-- Its clients see the same of it. -/
theorem SameFor.sights (h : k.SameFor ops mine name p) (hk : k.Apart Holds mine name) (hp : p.Apart Holds mine name)
    (he : e.KeepsApart mine name) (hmine : e.concerns mine = true) (hc : mine c = true) :
    p.sights ops c e = k.sights ops c e := by
  have hanswer : p.answer? ops c e = k.answer? ops c e := by
    cases e with
    | connect d username sheetName =>
      unfold answer?
      dsimp only
      rw [(h.connect hops hk hmine username he).1]
    | dequeue d =>
      unfold answer?
      dsimp only
      rw [(Registry.receive_congr (h.registry.outboxes d hmine)).1]
    | _ => rfl
  unfold Controller.sights
  rw [hanswer, (h.serve hops hk hp he hmine).registry.waiting hc, h.registry.waiting hc]

/-! ## All runs -/

/-- A run is for the sheet the one in which the other clients do nothing. -/
theorem SameFor.run (h : k.SameFor ops mine name p) (hk : k.Apart Holds mine name) (hp : p.Apart Holds mine name)
    {steps : List ServiceStep} (hsteps : ∀ e ∈ steps, e.KeepsApart mine name) :
    (k.serveAll ops steps).SameFor ops mine name (p.serveAll ops (steps.filter (·.concerns mine))) ∧
      ∀ c, mine c = true → p.view ops c (steps.filter (·.concerns mine)) = k.view ops c steps := by
  induction steps generalizing k p with
  | nil => exact ⟨h, fun _ _ => rfl⟩
  | cons e steps ih =>
    obtain ⟨he, hsteps⟩ := List.forall_mem_cons.1 hsteps
    rcases hmine : e.concerns mine with _ | _
    · rw [List.filter_cons_of_neg (Bool.eq_false_iff.1 hmine)]
      obtain ⟨hrun, hview⟩ := ih ((h.symm.trans (hk.sameFor_serve hops he hmine)).symm) (hk.serve hops he) hp hsteps
      refine ⟨hrun, fun c hc => (hview c hc).trans ?_⟩
      show _ = k.sights ops c e ++ _
      rw [hk.sights_eq_nil hops he hmine hc, List.nil_append]
    · rw [List.filter_cons_of_pos hmine]
      obtain ⟨hrun, hview⟩ := ih (h.serve hops hk hp he hmine) (hk.serve hops he) (hp.serve hops he) hsteps
      refine ⟨hrun, fun c hc => ?_⟩
      show p.sights ops c e ++ _ = k.sights ops c e ++ _
      rw [h.sights hops hk hp he hmine hc, hview c hc]

/-- Take two runs in which the clients of a sheet do the same and as many clients are registered between their steps,
while the other clients do what they like on other sheets. In both runs the sheet is the same in the end, open and
stored; so is what waits in the queues of its clients; and each of these sees the same in the same order, which is what
it is given on connecting, what is put into its queue, and what it finds there. -/
theorem isolation_run {stored : σ} {m : Shelf} (hstored : Holds stored m) (registry : Registry) (policy : Policy)
    {steps₁ steps₂ : List ServiceStep} (h₁ : ∀ e ∈ steps₁, e.KeepsApart mine name)
    (h₂ : ∀ e ∈ steps₂, e.KeepsApart mine name)
    (hsame : steps₁.filter (·.concerns mine) = steps₂.filter (·.concerns mine)) :
    (serveAll ops (new stored registry policy) steps₁).SameFor ops mine name
        (serveAll ops (new stored registry policy) steps₂) ∧
      ∀ c, mine c = true →
        (new stored registry policy).view ops c steps₁ = (new stored registry policy).view ops c steps₂ := by
  have hnew := apart_new hstored registry policy mine name
  obtain ⟨hrun₁, hview₁⟩ := (SameFor.refl ops mine name _).run hops hnew hnew h₁
  obtain ⟨hrun₂, hview₂⟩ := (SameFor.refl ops mine name _).run hops hnew hnew h₂
  rw [← hsame] at hrun₂ hview₂
  exact ⟨hrun₁.trans hrun₂.symm, fun c hc => (hview₁ c hc).symm.trans (hview₂ c hc)⟩

end Keeping

/-- Client 2 sees what client 1 does, whether client 3 is there or not. When it is, it does not look at its queue, which
overflows, and its sheet is saved when it leaves. -/
theorem isolation_run_unnoticed :
    let start : Controller (Table String SheetRecord) := new Table.empty (Registry.new 2) Policy.unbounded
    let quiet : List ServiceStep := [.register, .register, .register, .connect 1 "first" "plan", .connect 2 "second" "plan",
      .handle 1 (.select "A1"), .handle 1 (.edit "A1" "5"), .dequeue 2, .dequeue 2]
    let busy : List ServiceStep := [.register, .register, .register, .connect 1 "first" "plan", .connect 3 "third" "notes",
      .connect 2 "second" "plan", .handle 3 (.select "B1"), .handle 1 (.select "A1"), .handle 3 (.edit "B1" "7"),
      .handle 3 (.edit "B1" "8"), .handle 1 (.edit "A1" "5"), .dequeue 2, .disconnect 3, .dequeue 2]
    let mine : ClientId → Bool := fun c => c != 3
    (serveAll Memory.storage start quiet).SameFor Memory.storage mine "plan" (serveAll Memory.storage start busy) ∧
      start.view Memory.storage 2 quiet = start.view Memory.storage 2 busy ∧
      start.view Memory.storage 2 quiet = [.joined (.ok []), .queued (.cellSelected "A1" 1 "first"),
        .queued (.cellUpdated "A1" "5"), .received (.message (.cellSelected "A1" 1 "first")),
        .received (.message (.cellUpdated "A1" "5"))] ∧
      (serveAll Memory.storage start quiet).registry.overflowed = 0 ∧
      (serveAll Memory.storage start busy).registry.overflowed = 1 ∧
      (serveAll Memory.storage start busy).stored.keys = ["notes"] := by
  intro start quiet busy mine
  have hops := Memory.keeps.mono fun _ (r : SheetRecord) (_ : r.IsOrdered) => trivial
  have hstored : Memory.Holds Table.empty Shelf.empty := fun _ => rfl
  have hquiet : ∀ e ∈ quiet, e.KeepsApart mine "plan" := by simp [quiet, mine, ServiceStep.KeepsApart]
  have hbusy : ∀ e ∈ busy, e.KeepsApart mine "plan" := by simp [busy, mine, ServiceStep.KeepsApart]
  obtain ⟨hend, hview⟩ := isolation_run hops hstored (Registry.new 2) Policy.unbounded hquiet hbusy rfl
  refine ⟨hend, hview 2 rfl, ?_, ?_, ?_, ?_⟩
  · dsimp only [start, quiet]
    cbv
  · dsimp only [start, quiet]
    cbv
  · dsimp only [start, busy]
    cbv
  · dsimp only [start, busy]
    cbv

end Controller

end SharedSheet
