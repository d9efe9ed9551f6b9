/-
Replicas. A client that follows the messages in its queue from what it was given on connecting has the contents
of its sheet at every moment (`replicas_agree`). If its queue had no room for a message, it has the contents from
just before the step that the message was about.

Beside the controller we keep what a client has taken out of its queue and, for every client since its connect,
where it started (`World`). The invariant (`InStep`) speaks of the messages ever put into the queue, so taking one
out changes nothing.
-/
import SharedSheet.Proofs.Service.Upkeep

namespace SharedSheet

open Sheet

/-! ## Clients that follow their sheets -/

/-- A client since its connect: the cells it was given, the number of messages put into its queue before, and, if
it has lost its registration, the contents of its sheet just before the step whose message found no room. -/
structure Follower where
  start : Table String String
  skipped : ℕ
  missed : Option (Table String String)

/-- A controller, the messages that each client has taken out of its queue since it was registered, and the clients
that follow their sheets. A client follows from its connect on until it disconnects, or until its number is given to
another client. -/
structure World (σ : Type) where
  controller : Controller σ
  taken : ClientId → List Message
  followers : ClientId → Option Follower

namespace World

variable {σ : Type}

/-- All messages put into the queue of a client since it was registered, dequeued or not. -/
def queued (w : World σ) (c : ClientId) : List Message := w.taken c ++ w.controller.registry.waiting c

/-- What a client has made of the messages since its connect. -/
def replica (w : World σ) (c : ClientId) (f : Follower) : Table String String :=
  ((w.queued c).drop f.skipped).foldl Message.applyTo f.start

/-- The controller moves on. Clients that lose their registration by this have missed a message. -/
def advance (w : World σ) (k : Controller σ) : World σ where
  controller := k
  taken := w.taken
  followers c := (w.followers c).map fun f =>
    if w.controller.registry.isRegistered c && !k.registry.isRegistered c then
      { f with missed := (w.controller.sheetOf c).map Sheet.contents }
    else f

/-- The world without clients. -/
def start (stored : σ) (depth : ℕ) (policy : Policy) : World σ :=
  ⟨Controller.new stored (Registry.new depth) policy, fun _ => [], fun _ => none⟩

/-- What is kept of a step of the controller. Who connects starts with the cells that it is given, and who leaves
follows no more. -/
def follow (ops : Storage σ) (w : World σ) (e : ServiceStep) : World σ :=
  let k := w.controller.serve ops e
  match e with
  | .register =>
    let c := w.controller.registry.next
    ⟨k, Function.update w.taken c [], Function.update w.followers c none⟩
  | .connect c username sheetName =>
    match (w.controller.connectInPlace ops c username sheetName).1 with
    | .ok cells => ⟨k, w.taken, Function.update w.followers c (some ⟨startOf cells, (w.queued c).length, none⟩)⟩
    | .error _ => { w with controller := k }
  | .handle .. => w.advance k
  | .disconnect c => { w.advance k with followers := Function.update (w.advance k).followers c none }
  | .dequeue c =>
    match (w.controller.registry.receive c).1 with
    | .message m => ⟨k, Function.update w.taken c (w.taken c ++ [m]), w.followers⟩
    | .empty | .closed => { w with controller := k }

/-- Only registered clients that are not attached connect. -/
def admits (w : World σ) (e : ServiceStep) : Bool :=
  w.controller.admits e &&
    match e with
    | .connect c _ _ => w.controller.registry.isRegistered c
    | .register | .handle .. | .disconnect _ | .dequeue _ => true

/-- One step. -/
def after (ops : Storage σ) (w : World σ) (e : ServiceStep) : World σ := if w.admits e then w.follow ops e else w

/-- Apart from what is kept, the step is one of the controller. -/
theorem controller_after (ops : Storage σ) (w : World σ) (e : ServiceStep) :
    (w.after ops e).controller = if w.admits e then w.controller.serve ops e else w.controller := by
  unfold after
  split
  · cases e with
    | register | handle | disconnect => rfl
    | connect c username sheetName =>
      unfold follow
      dsimp only
      split <;> rfl
    | dequeue c =>
      unfold follow
      dsimp only
      split <;> rfl
  · rfl

/-- The world after a sequence of steps. -/
def run (ops : Storage σ) (w : World σ) (steps : List ServiceStep) : World σ := steps.foldl (after ops) w

end World

/-! ## One client -/

/-- A client with the messages `messages` put into its queue so far is in step with its sheet: as long as it is
registered its replica is the contents of the sheet, and after that the contents that it missed the change of. -/
structure InStep (f : Follower) (messages : List Message) (registered : Bool) (contents : Table String String) :
    Prop where
  skipped : f.skipped ≤ messages.length
  current : registered = true → (messages.drop f.skipped).foldl Message.applyTo f.start = contents
  missed : registered = false → f.missed = some ((messages.drop f.skipped).foldl Message.applyTo f.start)

/-- A delivery keeps a client in step with a sheet whose contents change by the message. -/
theorem InStep.deliver {f : Follower} {taken : List Message} {box : Outbox} {contents : Table String String}
    (h : InStep f (taken ++ box.waiting) box.registered contents) (ha : box.attended = true) (depth : ℕ) (m : Message) :
    InStep (if box.registered && !(box.deliver depth m).registered then { f with missed := some contents } else f)
      (taken ++ (box.deliver depth m).waiting) (box.deliver depth m).registered (m.applyTo contents) := by
  have hcases := box.deliver_cases depth m ha
  obtain ⟨waiting, registered, attended⟩ := box
  obtain ⟨hskip, hcurrent, hmissed⟩ := h
  dsimp only at hcases hskip hcurrent hmissed ⊢
  rcases hcases with ⟨rfl, he⟩ | ⟨rfl, he⟩ | ⟨rfl, he⟩
  · -- the client had lost its registration before
    rw [he]
    refine ⟨hskip, fun hr => ?_, hmissed⟩
    cases hr
  · -- the message is the last one in the queue now
    rw [he]
    dsimp only
    rw [← List.append_assoc]
    refine ⟨?_, fun _ => ?_, fun hr => ?_⟩
    · rw [List.length_append]
      exact Nat.le_add_right_of_le hskip
    · show ((taken ++ waiting ++ [m]).drop f.skipped).foldl Message.applyTo f.start = _
      rw [List.drop_append_of_le_length hskip, List.foldl_append, hcurrent rfl]
      rfl
    · cases hr
  · -- no room: the replica stays at the contents of before
    rw [he]
    refine ⟨hskip, fun hr => ?_, fun _ => ?_⟩
    · cases hr
    · exact congrArg some (hcurrent rfl).symm

/-! ## What a client is told -/

variable {σ : Type}

/-- In this move of the controller the client stays attached, and it was sent the message that makes the new
contents of its sheet of the old ones, or none and they did not change. -/
def Told (k k' : Controller σ) (d : ClientId) : Prop :=
  ∀ info o box, k.clients.get? d = some info → k.sheets.get? info.sheetName = some o →
    k.registry.outboxes.get? d = some box →
    ∃ o' box', k'.clients.get? d = some info ∧ k'.sheets.get? info.sheetName = some o' ∧
      k'.registry.outboxes.get? d = some box' ∧
      (box' = box ∧ o'.sheet.contents = o.sheet.contents ∨
        ∃ depth m, box' = box.deliver depth m ∧ o'.sheet.contents = Message.applyTo o.sheet.contents m)

theorem told_handle {k : Controller σ} (h : k.WellAttached) (c : ClientId) (a : Action) (d : ClientId) :
    Told k (k.handle c a) d := by
  intro info o box hinfo ho hbox
  rcases k.handle_cases c a with he | ⟨m, hm, he⟩ | ⟨cinfo, co, s', m, -, hco, hs', he⟩
  · rw [he]
    exact ⟨o, box, hinfo, ho, hbox, .inl ⟨rfl, rfl⟩⟩
  · rw [he]
    dsimp only
    rw [Registry.get?_broadcast _ (List.nodup_singleton c), hbox]
    by_cases hd : d ∈ [c]
    · rw [if_pos hd]
      exact ⟨o, _, hinfo, ho, rfl, .inr ⟨_, m, rfl, (hm _).symm⟩⟩
    · rw [if_neg hd]
      exact ⟨o, box, hinfo, ho, rfl, .inl ⟨rfl, rfl⟩⟩
  · rw [he]
    dsimp only
    rw [Registry.get?_broadcast _ co.members.nodup_keys, hbox, Table.get?_insert]
    by_cases hname : info.sheetName = cinfo.sheetName
    · -- the client shares the sheet, so it is one of the recipients
      have hmem := h.mem_members hinfo ho
      rw [hname, hco] at ho
      cases ho
      rw [if_pos hname, if_pos hmem]
      exact ⟨_, _, hinfo, rfl, rfl, .inr ⟨_, m, rfl, hs'⟩⟩
    · rw [if_neg hname, if_neg fun hmem => hname (h.sheetName_eq hinfo hco hmem)]
      exact ⟨o, box, hinfo, ho, rfl, .inl ⟨rfl, rfl⟩⟩

theorem told_disconnect {k : Controller σ} (h : k.WellAttached) (ops : Storage σ) {c d : ClientId} (hd : d ≠ c) :
    Told k (k.disconnect ops c) d := by
  intro info o box hinfo ho hbox
  rcases Controller.disconnect_cases ops h c with ⟨-, he⟩ | ⟨cinfo, co, stored, sheets, hcinfo, hco, he, hsheets⟩
  · rw [he]
    exact ⟨o, box, hinfo, ho, hbox, .inl ⟨rfl, rfl⟩⟩
  · rw [he]
    dsimp only
    rw [Registry.get?_broadcast _ (Table.nodup_keys _), hbox, Table.get?_erase, if_neg hd, hsheets]
    by_cases hname : info.sheetName = cinfo.sheetName
    · -- the client stays a member, so the sheet is kept and the client is told of the one that left
      have hmem := h.mem_members hinfo ho
      rw [hname, hco] at ho
      cases ho
      have hrest : d ∈ Table.keys (o.members.erase c) := (KeySet.mem_keys_erase ..).2 ⟨hd, hmem⟩
      rw [if_pos hname, if_neg (KeySet.not_isEmpty_of_mem hrest), if_pos hrest]
      exact ⟨_, _, hinfo, rfl, rfl, .inr ⟨_, .disconnected c, rfl, contents_congr fun _ => rfl⟩⟩
    · have hmem : d ∉ Table.keys (co.members.erase c) := fun hmem =>
        hname (h.sheetName_eq hinfo hco ((KeySet.mem_keys_erase ..).1 hmem).2)
      rw [if_neg hname, if_neg hmem]
      exact ⟨o, box, hinfo, ho, rfl, .inl ⟨rfl, rfl⟩⟩

/-! ## The invariant -/

namespace World

/-- Every follower is attached and in step with its sheet. -/
def Following (w : World σ) : Prop :=
  ∀ c f, w.followers c = some f → ∃ info o box, w.controller.clients.get? c = some info ∧
    w.controller.sheets.get? info.sheetName = some o ∧ w.controller.registry.outboxes.get? c = some box ∧
    InStep f (w.taken c ++ box.waiting) box.registered o.sheet.contents

/-- Clients are attached properly, open sheets are consistent, all queues are attended to, and clients follow their
sheets. -/
structure Tracks (w : World σ) : Prop where
  attached : w.controller.WellAttached
  consistent : w.controller.AllConsistent
  attended : w.controller.registry.AllAttended
  following : w.Following

theorem tracks_start (stored : σ) (depth : ℕ) (policy : Policy) : (start stored depth policy).Tracks where
  attached := Controller.wellAttached_new ..
  consistent _ _ h := by cases h
  attended _ _ h := by cases h
  following _ _ h := by cases h

/-- A client that is told of what happened to its sheet stays in step. -/
theorem inStep_advance {w : World σ} (h : w.Tracks) {k : Controller σ} {c : ClientId} {f : Follower}
    (hf : (w.advance k).followers c = some f) (ht : Told w.controller k c) :
    ∃ info o box, k.clients.get? c = some info ∧ k.sheets.get? info.sheetName = some o ∧
      k.registry.outboxes.get? c = some box ∧ InStep f (w.taken c ++ box.waiting) box.registered o.sheet.contents := by
  obtain ⟨g, hg, hfg⟩ := Option.map_eq_some_iff.1 hf
  obtain ⟨info, o, box, hinfo, ho, hbox, hstep⟩ := h.following c g hg
  obtain ⟨o', box', hinfo', ho', hbox', heffect⟩ := ht info o box hinfo ho hbox
  refine ⟨info, o', box', hinfo', ho', hbox', ?_⟩
  -- what `advance` notes for a client that loses its registration are the contents of this sheet
  have hsheet : (w.controller.sheetOf c).map Sheet.contents = some o.sheet.contents := by
    unfold Controller.sheetOf
    rw [hinfo, Option.bind_some, ho]
    rfl
  unfold Registry.isRegistered at hfg
  rw [hbox, hbox', hsheet] at hfg
  rcases heffect with ⟨rfl, hsame⟩ | ⟨depth, m, rfl, hcontents⟩
  · have hgf : g = f := by
      rw [← hfg]
      exact (if_neg (by simp)).symm
    rw [hsame, ← hgf]
    exact hstep
  · rw [hcontents, ← hfg]
    exact hstep.deliver (h.attended c box hbox) depth m

/-! ## The steps keep it -/

theorem after_of_admits (ops : Storage σ) {w : World σ} {e : ServiceStep} (h : w.admits e = true) :
    w.after ops e = w.follow ops e := if_pos h

theorem follow_connect (ops : Storage σ) (w : World σ) (c : ClientId) (username sheetName : String) :
    w.follow ops (.connect c username sheetName) =
      match w.controller.connect ops c username sheetName with
      | .ok (cells, k) => ⟨k, w.taken, Function.update w.followers c (some ⟨startOf cells, (w.queued c).length, none⟩)⟩
      | .error _ => w := by
  unfold follow Controller.serve Controller.serveBy
  dsimp only
  rw [Controller.connectInPlace_eq]
  rcases w.controller.connect ops c username sheetName with e | ⟨cells, k⟩
  · rfl
  · rfl

/-- A message moves from the queue to those taken out, if there is one. -/
theorem follow_dequeue (ops : Storage σ) (w : World σ) (c : ClientId) :
    w.follow ops (.dequeue c) = w ∨ ∃ m rest registered attended,
      w.controller.registry.outboxes.get? c = some ⟨m :: rest, registered, attended⟩ ∧
      w.follow ops (.dequeue c) =
        { w with
          controller := { w.controller with registry := { w.controller.registry with
            outboxes := w.controller.registry.outboxes.insert c ⟨rest, registered, attended⟩ } }
          taken := Function.update w.taken c (w.taken c ++ [m]) } := by
  unfold follow Controller.serve Controller.serveBy Registry.receive
  dsimp only
  rcases hbox : w.controller.registry.outboxes.get? c with _ | ⟨_ | ⟨m, rest⟩, registered, attended⟩
  · exact .inl rfl
  · cases registered
    · exact .inl rfl
    · exact .inl rfl
  · exact .inr ⟨m, rest, registered, attended, rfl, rfl⟩

theorem Tracks.register {w : World σ} (h : w.Tracks) (ops : Storage σ) : (w.after ops .register).Following := by
  intro c f hf
  change Function.update w.followers w.controller.registry.next none c = some f at hf
  by_cases hc : c = w.controller.registry.next
  · rw [hc, Function.update_self] at hf
    cases hf
  · rw [Function.update_of_ne hc] at hf
    obtain ⟨info, o, box, hinfo, ho, hbox, hstep⟩ := h.following c f hf
    refine ⟨info, o, box, hinfo, ho, ?_, ?_⟩
    · show (w.controller.registry.outboxes.insert _ _).get? c = some box
      rw [Table.get?_insert, if_neg hc]
      exact hbox
    · show InStep f (Function.update w.taken w.controller.registry.next [] c ++ box.waiting) _ _
      rw [Function.update_of_ne hc]
      exact hstep

theorem Tracks.connect {w : World σ} (h : w.Tracks) (ops : Storage σ) (c : ClientId) (username sheetName : String) :
    (w.after ops (.connect c username sheetName)).Following := by
  by_cases hadmits : w.admits (.connect c username sheetName) = true
  · have hconsistent := h.consistent.serve ops (.connect c username sheetName)
    change Controller.AllConsistent (w.controller.connectInPlace ops c username sheetName).2 at hconsistent
    obtain ⟨-, hreg⟩ := Bool.and_eq_true_iff.1 hadmits
    rw [Controller.connectInPlace_eq] at hconsistent
    rw [after_of_admits ops hadmits, follow_connect]
    rcases hk : w.controller.connect ops c username sheetName with e | ⟨cells, k⟩
    · exact h.following
    · rw [hk] at hconsistent
      obtain ⟨o, rfl, ho, rfl⟩ := Controller.connect_eq_ok hk
      have hnamed : o.sheet.Named := (hconsistent sheetName _ (Table.get?_insert_self ..)).named
      intro d f hf
      dsimp only at hf ⊢
      rw [Table.get?_insert]
      by_cases hd : d = c
      · -- the client starts with all of the sheet and no message
        rw [hd, Function.update_self] at hf
        cases hf
        obtain ⟨box, hbox, hboxreg⟩ := Registry.isRegistered_iff.1 hreg
        unfold queued
        rw [Registry.waiting_eq hbox, hd]
        refine ⟨_, ⟨o.sheet, o.members.add c⟩, box, if_pos rfl, ?_, hbox, le_rfl, fun _ => ?_, fun hr => ?_⟩
        · rw [Table.get?_insert, if_pos rfl]
        · dsimp only
          rw [List.drop_length, List.foldl_nil, hnamed.startOf_populated]
        · rw [hboxreg] at hr
          cases hr
      · rw [Function.update_of_ne hd] at hf
        obtain ⟨info, o', box, hinfo, ho', hbox, hstep⟩ := h.following d f hf
        rw [if_neg hd, hinfo]
        by_cases hname : info.sheetName = sheetName
        · rw [hname] at ho'
          rcases ho with ho | ⟨hnone, -⟩
          · rw [ho] at ho'
            cases ho'
            exact ⟨info, ⟨o.sheet, o.members.add c⟩, box, rfl, by rw [Table.get?_insert, if_pos hname], hbox, hstep⟩
          · rw [hnone] at ho'
            cases ho'
        · exact ⟨info, o', box, rfl, by rw [Table.get?_insert, if_neg hname]; exact ho', hbox, hstep⟩
  · rw [show w.after ops (.connect c username sheetName) = w from if_neg hadmits]
    exact h.following

theorem Tracks.handle {w : World σ} (h : w.Tracks) (ops : Storage σ) (c : ClientId) (a : Action) :
    (w.after ops (.handle c a)).Following :=
  fun _ _ hf => inStep_advance h hf (told_handle h.attached c a _)

theorem Tracks.disconnect {w : World σ} (h : w.Tracks) (ops : Storage σ) (c : ClientId) :
    (w.after ops (.disconnect c)).Following := by
  intro d f hf
  change Function.update (w.advance (w.controller.disconnect ops c)).followers c none d = some f at hf
  by_cases hd : d = c
  · rw [hd, Function.update_self] at hf
    cases hf
  · rw [Function.update_of_ne hd] at hf
    exact inStep_advance h hf (told_disconnect h.attached ops hd)

theorem Tracks.dequeue {w : World σ} (h : w.Tracks) (ops : Storage σ) (c : ClientId) :
    (w.after ops (.dequeue c)).Following := by
  rw [after_of_admits ops rfl]
  rcases w.follow_dequeue ops c with hsame | ⟨m, rest, registered, attended, hbox, hmoved⟩
  · rw [hsame]
    exact h.following
  · -- the messages ever put into the queue are the same
    rw [hmoved]
    intro d f hf
    obtain ⟨info, o, box, hinfo, ho, hold, hstep⟩ := h.following d f hf
    dsimp only
    rw [Table.get?_insert]
    by_cases hd : d = c
    · rw [hd, hbox] at hold
      cases hold
      refine ⟨info, o, _, hinfo, ho, if_pos hd, ?_⟩
      rw [hd, Function.update_self, List.append_assoc]
      rw [hd] at hstep
      exact hstep
    · refine ⟨info, o, box, hinfo, ho, by rw [if_neg hd]; exact hold, ?_⟩
      rw [Function.update_of_ne hd]
      exact hstep

/-- Every step keeps the invariant. -/
theorem tracks_after (ops : Storage σ) (w : World σ) (e : ServiceStep) (h : w.Tracks) : (w.after ops e).Tracks where
  attached := by
    rw [controller_after]
    split
    · rename_i hadmits
      exact h.attached.serve ops (Bool.and_eq_true_iff.1 hadmits).1
    · exact h.attached
  consistent := by
    rw [controller_after]
    split
    · exact h.consistent.serve ops e
    · exact h.consistent
  attended c := by
    rw [controller_after]
    split
    · exact Controller.attends_serve (h.attended c) ops e
    · exact h.attended c
  following :=
    match e with
    | .register => h.register ops
    | .connect c username sheetName => h.connect ops c username sheetName
    | .handle c a => h.handle ops c a
    | .disconnect c => h.disconnect ops c
    | .dequeue c => h.dequeue ops c

/-! ## Numbers of clients -/

/-- After `n` registrations the next number is the one behind them, only clients with issued numbers have queues or
are attached, and every attached client is a follower. -/
structure Numbered (n : ℕ) (w : World σ) : Prop where
  next : w.controller.registry.next.toNat = (n + 1) % 2 ^ 64
  issued : ∀ c box, w.controller.registry.outboxes.get? c = some box → Registry.Issued n c
  attached : ∀ c info, w.controller.clients.get? c = some info → Registry.Issued n c ∧ ∃ f, w.followers c = some f

theorem numbered_start (stored : σ) (depth : ℕ) (policy : Policy) : (start stored depth policy).Numbered 0 where
  next := rfl
  issued _ _ h := by cases h
  attached _ _ h := by cases h

theorem Numbered.register {w : World σ} {n : ℕ} (h : w.Numbered n) (hn : n < 2 ^ 64) (ops : Storage σ) :
    (w.after ops .register).Numbered (n + 1) where
  next := by
    show (w.controller.registry.next + 1).toNat = _
    rw [UInt64.toNat_add, h.next]
    simp
  issued c box hbox := by
    change (w.controller.registry.outboxes.insert _ _).get? c = some box at hbox
    rw [Table.get?_insert] at hbox
    split at hbox
    · rename_i hc
      rw [hc]
      exact ⟨n + 1, by omega, le_rfl, h.next⟩
    · exact (h.issued c box hbox).mono
  attached c info hinfo := by
    obtain ⟨hissued, f, hf⟩ := h.attached c info hinfo
    refine ⟨hissued.mono, f, ?_⟩
    show Function.update w.followers w.controller.registry.next none c = some f
    rw [Function.update_of_ne (hissued.ne_next h.next hn)]
    exact hf

theorem Numbered.connect {w : World σ} {n : ℕ} (h : w.Numbered n) (ops : Storage σ) (c : ClientId)
    (username sheetName : String) : (w.after ops (.connect c username sheetName)).Numbered n := by
  by_cases hadmits : w.admits (.connect c username sheetName) = true
  · obtain ⟨-, hreg⟩ := Bool.and_eq_true_iff.1 hadmits
    obtain ⟨box, hbox, -⟩ := Registry.isRegistered_iff.1 hreg
    rw [after_of_admits ops hadmits, follow_connect]
    rcases hk : w.controller.connect ops c username sheetName with e | ⟨cells, k⟩
    · exact h
    · obtain ⟨o, rfl, -, rfl⟩ := Controller.connect_eq_ok hk
      refine ⟨h.next, h.issued, fun d info hd => ?_⟩
      dsimp only at hd ⊢
      rw [Table.get?_insert] at hd
      by_cases hdc : d = c
      · rw [hdc, Function.update_self]
        exact ⟨h.issued c box hbox, _, rfl⟩
      · rw [if_neg hdc] at hd
        rw [Function.update_of_ne hdc]
        exact h.attached d info hd
  · rw [show w.after ops (.connect c username sheetName) = w from if_neg hadmits]
    exact h

/-- A move of the controller that registers and attaches nobody. -/
structure Quiet (k k' : Controller σ) : Prop where
  next : k'.registry.next = k.registry.next
  outboxes : ∀ c box, k'.registry.outboxes.get? c = some box → ∃ old, k.registry.outboxes.get? c = some old
  clients : ∀ c info, k'.clients.get? c = some info → k.clients.get? c = some info

theorem quiet_broadcast {r : Registry} {recipients : List ClientId} (hd : recipients.Nodup) (m : Message)
    {c : ClientId} {box : Outbox} (h : (r.broadcast recipients m).outboxes.get? c = some box) :
    ∃ old, r.outboxes.get? c = some old := by
  rw [Registry.get?_broadcast r hd] at h
  split at h
  · obtain ⟨old, hold, -⟩ := Option.map_eq_some_iff.1 h
    exact ⟨old, hold⟩
  · exact ⟨box, h⟩

theorem quiet_handle (k : Controller σ) (c : ClientId) (a : Action) : Quiet k (k.handle c a) := by
  rcases k.handle_cases c a with he | ⟨m, -, he⟩ | ⟨info, o, s', m, -, -, -, he⟩
  · rw [he]
    exact ⟨rfl, fun _ box h => ⟨box, h⟩, fun _ _ h => h⟩
  · rw [he]
    exact ⟨Registry.next_broadcast _ [c] m,
      fun _ _ h => quiet_broadcast (List.nodup_singleton c) m h, fun _ _ h => h⟩
  · rw [he]
    exact ⟨Registry.next_broadcast _ _ m,
      fun _ _ h => quiet_broadcast o.members.nodup_keys m h, fun _ _ h => h⟩

theorem quiet_disconnect {k : Controller σ} (hk : k.WellAttached) (ops : Storage σ) (c : ClientId) :
    Quiet k (k.disconnect ops c) ∧ (k.disconnect ops c).clients.get? c = none := by
  rcases Controller.disconnect_cases ops hk c with ⟨hnone, he⟩ | ⟨info, o, stored, sheets, -, -, he, -⟩
  · rw [he]
    exact ⟨⟨rfl, fun _ box h => ⟨box, h⟩, fun _ _ h => h⟩, hnone⟩
  · rw [he]
    refine ⟨⟨Registry.next_broadcast .., fun _ _ h => quiet_broadcast (Table.nodup_keys _) _ h,
      fun d info h => ?_⟩, ?_⟩
    · exact (Table.get?_erase_eq_some.1 h).2
    · dsimp only
      rw [Table.get?_erase, if_pos rfl]

theorem Numbered.advance {w : World σ} {n : ℕ} (h : w.Numbered n) {k : Controller σ} (hk : Quiet w.controller k) :
    (w.advance k).Numbered n where
  next := (congrArg UInt64.toNat hk.next).trans h.next
  issued c box hbox := by
    obtain ⟨old, hold⟩ := hk.outboxes c box hbox
    exact h.issued c old hold
  attached c info hinfo := by
    obtain ⟨hissued, f, hf⟩ := h.attached c info (hk.clients c info hinfo)
    refine ⟨hissued, ?_⟩
    show ∃ f, (w.followers c).map _ = some f
    rw [hf]
    exact ⟨_, rfl⟩

theorem Numbered.disconnect {w : World σ} {n : ℕ} (h : w.Numbered n) (hw : w.Tracks) (ops : Storage σ) (c : ClientId) :
    (w.after ops (.disconnect c)).Numbered n := by
  obtain ⟨hquiet, hgone⟩ := quiet_disconnect hw.attached ops c
  have hadv := h.advance hquiet
  refine ⟨hadv.next, hadv.issued, fun d info hd => ?_⟩
  change (w.controller.disconnect ops c).clients.get? d = some info at hd
  have hdc : d ≠ c := by
    rintro rfl
    rw [hgone] at hd
    cases hd
  obtain ⟨hissued, f, hf⟩ := hadv.attached d info hd
  refine ⟨hissued, f, ?_⟩
  show Function.update (w.advance (w.controller.disconnect ops c)).followers c none d = some f
  rw [Function.update_of_ne hdc]
  exact hf

theorem Numbered.dequeue {w : World σ} {n : ℕ} (h : w.Numbered n) (ops : Storage σ) (c : ClientId) :
    (w.after ops (.dequeue c)).Numbered n := by
  rw [after_of_admits ops rfl]
  rcases w.follow_dequeue ops c with hsame | ⟨m, rest, registered, attended, hbox, hmoved⟩
  · rw [hsame]
    exact h
  · rw [hmoved]
    refine ⟨h.next, fun d box hd => ?_, h.attached⟩
    dsimp only at hd
    rw [Table.get?_insert] at hd
    split at hd
    · rename_i hdc
      rw [hdc]
      exact h.issued c _ hbox
    · exact h.issued d box hd

/-! ## All runs -/

/-- How many clients are registered in a run. -/
def registrations (steps : List ServiceStep) : ℕ := steps.countP (· == .register)

/-- A run of a service without clients at first. -/
def serve (ops : Storage σ) (stored : σ) (depth : ℕ) (policy : Policy) (steps : List ServiceStep) : World σ :=
  (start stored depth policy).run ops steps

theorem tracks_run (ops : Storage σ) {w : World σ} (h : w.Tracks) (steps : List ServiceStep) :
    (w.run ops steps).Tracks := by
  induction steps generalizing w with
  | nil => exact h
  | cons e steps ih => exact ih (tracks_after ops w e h)

theorem numbered_run (ops : Storage σ) {w : World σ} (hw : w.Tracks) {n : ℕ} (h : w.Numbered n)
    (steps : List ServiceStep) (hn : n + registrations steps ≤ 2 ^ 64) :
    (w.run ops steps).Numbered (n + registrations steps) := by
  induction steps generalizing w n with
  | nil => exact h
  | cons e steps ih =>
    have hnext := tracks_after ops w e hw
    unfold registrations at hn ih ⊢
    rw [List.countP_cons] at hn ⊢
    rcases e with _ | ⟨c, username, sheetName⟩ | ⟨c, a⟩ | c | c
    · have hreg : (ServiceStep.register == ServiceStep.register) = true := by decide
      rw [if_pos hreg] at hn ⊢
      have hrun := ih hnext (h.register (by omega) ops) (by omega)
      rw [Nat.add_right_comm] at hrun
      exact hrun
    · exact ih hnext (h.connect ops c username sheetName) hn
    · exact ih hnext (h.advance (quiet_handle _ c a)) hn
    · exact ih hnext (h.disconnect hw ops c) hn
    · exact ih hnext (h.dequeue ops c) hn

/-- Replicas agree. In every run, whatever the storage does, a client that has connected and is still registered has
made of the cells it was given and the messages put into its queue since, dequeued or not, exactly the contents of
its sheet; and a client that lost its registration has made of them the contents of its sheet from just before the
step whose message found no room. The attached clients are those that the theorem speaks of, as long as there are
numbers left for new clients. -/
theorem replicas_agree (ops : Storage σ) (stored : σ) (depth : ℕ) (policy : Policy) (steps : List ServiceStep) :
    (∀ c f, (serve ops stored depth policy steps).followers c = some f →
      ∃ s, (serve ops stored depth policy steps).controller.sheetOf c = some s ∧
        ((serve ops stored depth policy steps).controller.registry.isRegistered c = true →
          (serve ops stored depth policy steps).replica c f = s.contents) ∧
        ((serve ops stored depth policy steps).controller.registry.isRegistered c = false →
          f.missed = some ((serve ops stored depth policy steps).replica c f))) ∧
    (registrations steps ≤ 2 ^ 64 →
      ∀ c info, (serve ops stored depth policy steps).controller.clients.get? c = some info →
        ∃ f, (serve ops stored depth policy steps).followers c = some f) := by
  have htracks := tracks_run ops (tracks_start stored depth policy) steps
  constructor
  · intro c f hf
    obtain ⟨info, o, box, hinfo, ho, hbox, hstep⟩ := htracks.following c f hf
    have hqueued : (serve ops stored depth policy steps).queued c =
        (serve ops stored depth policy steps).taken c ++ box.waiting := by
      unfold queued serve
      rw [Registry.waiting_eq hbox]
    have hreg : (serve ops stored depth policy steps).controller.registry.isRegistered c = box.registered :=
      Registry.isRegistered_eq hbox
    unfold replica
    rw [hqueued, hreg]
    refine ⟨o.sheet, ?_, hstep.current, hstep.missed⟩
    unfold Controller.sheetOf serve
    rw [hinfo, Option.bind_some, ho]
    rfl
  · intro hn c info hinfo
    have hnumbered := numbered_run ops (tracks_start stored depth policy) (numbered_start stored depth policy) steps
      (by omega)
    exact (hnumbered.attached c info hinfo).2

end World

end SharedSheet
