/-
Queues. Whatever is sent, taken out and unregistered in a registry, and in which order, a client gets the messages
that are addressed to it one after the other and without a gap, until it is unregistered or one of them finds its
queue full (`delivered_in_order`).

What one step does to the outbox of one client is one of six things (`Move`); the rest is read off them. Beside the
registry we keep which clients were registered, what each has received, and what was addressed to it (`Traffic`).
-/
import Mathlib.Data.Set.Card
import SharedSheet.Proofs.Service.Delivery

namespace SharedSheet

/-! ## Messages of a run -/

namespace RegistryStep

/-- Whether a step sends a message. -/
def sends : RegistryStep → Bool
  | .send .. | .broadcast .. | .broadcastAll _ => true
  | .register | .unregister _ | .unregisterAll | .receive _ => false

/-- The message that a step addresses to a client: a message to all is for everybody who is registered. -/
def addressed? (r : Registry) (e : RegistryStep) (c : ClientId) : Option Message :=
  match e with
  | .send d m => if c = d then some m else none
  | .broadcast recipients _ m => if c ∈ recipients then some m else none
  | .broadcastAll m => if r.isRegistered c then some m else none
  | .register | .unregister _ | .unregisterAll | .receive _ => none

/-- The message that a client receives in a step. -/
def received? (r : Registry) (e : RegistryStep) (c : ClientId) : Option Message :=
  match e with
  | .receive d =>
    match (r.receive d).1 with
    | .message m => if c = d then some m else none
    | _ => none
  | _ => none

/-- How many clients are registered in a run. -/
def registrations (steps : List RegistryStep) : ℕ :=
  steps.countP fun
    | .register => true
    | _ => false

end RegistryStep

/-- A registry, the clients that were ever registered in it, and for each of them what it has received and what was
addressed to it since. -/
structure Traffic where
  registry : Registry
  issued : List ClientId
  received : ClientId → List Message
  addressed : ClientId → List Message

namespace Traffic

/-- The registry without clients. -/
def start (depth : ℕ) : Traffic := ⟨Registry.new depth, [], fun _ => [], fun _ => []⟩

def after (w : Traffic) (e : RegistryStep) : Traffic :=
  match e with
  | .register =>
    let (c, r) := w.registry.register
    ⟨r, w.issued ++ [c], Function.update w.received c [], Function.update w.addressed c []⟩
  | e =>
    { registry := e.perform w.registry
      issued := w.issued
      received := fun c => w.received c ++ (e.received? w.registry c).toList
      addressed := fun c => w.addressed c ++ (e.addressed? w.registry c).toList }

def run (w : Traffic) (steps : List RegistryStep) : Traffic := steps.foldl after w

/-- What a client has received, and then what is still in its queue. -/
def queued (w : Traffic) (c : ClientId) : List Message := w.received c ++ w.registry.waiting c

/-- The client loses its registration by a message that is sent. -/
def Drops (w : Traffic) (e : RegistryStep) (c : ClientId) : Prop :=
  e.sends = true ∧ w.registry.isRegistered c = true ∧ (w.after e).registry.isRegistered c = false

/-- A message is addressed to a registered client whose queue is full. -/
def Overfills (depth : ℕ) (w : Traffic) (e : RegistryStep) (c : ClientId) : Prop :=
  w.registry.isRegistered c = true ∧ (e.addressed? w.registry c).isSome = true ∧
    (w.registry.waiting c).length = max depth 1

/-- The client is registered in this step; or it was before, no message finds its queue full, and nobody ends the
registration. -/
def Registers (depth : ℕ) (w : Traffic) (e : RegistryStep) (c : ClientId) : Prop :=
  e = .register ∧ c = w.registry.next ∨
    w.registry.isRegistered c = true ∧ ¬Overfills depth w e c ∧ e ≠ .unregister c ∧ e ≠ .unregisterAll

/-- The clients that lose their registration by a message somewhere in a run. -/
def dropped (w : Traffic) (steps : List RegistryStep) : Set ClientId :=
  {c | ∃ before e later, steps = before ++ e :: later ∧ Drops (w.run before) e c}

end Traffic

/-! ## One client -/

/-- What a step can do to the outbox of a client: whether it sends anything, what it addresses to the client, the
outbox before and after, and what the client receives. -/
inductive Move (depth : ℕ) : Bool → Option Message → Outbox → Outbox → Option Message → Prop
  | pass (sends : Bool) (box : Outbox) : Move depth sends none box box none
  | skip (m : Message) (box : Outbox) (gone : box.registered = false) : Move depth true (some m) box box none
  | queue (m : Message) (box : Outbox) (registered : box.registered = true) (room : box.waiting.length < depth) :
      Move depth true (some m) box { box with waiting := box.waiting ++ [m] } none
  | overflow (m : Message) (box : Outbox) (registered : box.registered = true) (full : depth ≤ box.waiting.length) :
      Move depth true (some m) box { box with registered := false } none
  | remove (box : Outbox) : Move depth false none box { box with registered := false } none
  | receive (m : Message) (rest : List Message) (box : Outbox) (first : box.waiting = m :: rest) :
      Move depth false none box { box with waiting := rest } (some m)

/-- What was received and queued is a beginning of what was addressed to the client, and all of it as long as the
client is registered. -/
structure InOrder (depth : ℕ) (box : Outbox) (received addressed : List Message) : Prop where
  beginning : received ++ box.waiting <+: addressed
  whole : box.registered = true → received ++ box.waiting = addressed
  bounded : box.waiting.length ≤ depth

theorem InOrder.move {depth : ℕ} {sends : Bool} {sent taken : Option Message} {box box' : Outbox}
    {received addressed : List Message} (h : InOrder depth box received addressed)
    (hm : Move depth sends sent box box' taken) :
    InOrder depth box' (received ++ taken.toList) (addressed ++ sent.toList) := by
  obtain ⟨hbeginning, hwhole, hbounded⟩ := h
  cases hm with
  | pass =>
    rw [Option.toList_none, List.append_nil, List.append_nil]
    exact ⟨hbeginning, hwhole, hbounded⟩
  | skip m _ gone =>
    rw [Option.toList_none, List.append_nil]
    refine ⟨hbeginning.trans (List.prefix_append _ _), fun hr => ?_, hbounded⟩
    rw [gone] at hr
    cases hr
  | queue m _ registered room =>
    have hall : received ++ [] ++ (box.waiting ++ [m]) = addressed ++ [m] := by
      rw [List.append_nil, ← List.append_assoc, hwhole registered]
    refine ⟨hall ▸ List.prefix_rfl, fun _ => hall, ?_⟩
    rw [List.length_append]
    exact room
  | overflow m _ registered full =>
    rw [Option.toList_none, List.append_nil]
    refine ⟨hbeginning.trans (List.prefix_append _ _), fun hr => ?_, hbounded⟩
    cases hr
  | remove =>
    rw [Option.toList_none, List.append_nil, List.append_nil]
    refine ⟨hbeginning, fun hr => ?_, hbounded⟩
    cases hr
  | receive m rest _ first =>
    have hsame : received ++ [m] ++ rest = received ++ box.waiting := by
      rw [first, List.append_assoc, List.singleton_append]
    rw [first] at hbounded
    refine ⟨?_, fun hr => ?_, (Nat.le_succ _).trans hbounded⟩
    · show received ++ [m] ++ rest <+: addressed ++ []
      rw [hsame, List.append_nil]
      exact hbeginning
    · show received ++ [m] ++ rest = addressed ++ []
      rw [hsame, List.append_nil]
      exact hwhole hr

theorem Move.attended {depth : ℕ} {sends : Bool} {sent taken : Option Message} {box box' : Outbox}
    (hm : Move depth sends sent box box' taken) : box'.attended = box.attended := by
  cases hm <;> rfl

theorem Move.gone {depth : ℕ} {sends : Bool} {sent taken : Option Message} {box box' : Outbox}
    (hm : Move depth sends sent box box' taken) (hgone : box.registered = false) : box'.registered = false := by
  cases hm with
  | overflow | remove => rfl
  | _ => exact hgone

/-- Nothing is queued in a move that ends without a registration. -/
theorem Move.silent {depth : ℕ} {sends : Bool} {sent taken : Option Message} {box box' : Outbox}
    (hm : Move depth sends sent box box' taken) (hgone : box'.registered = false) :
    taken.toList ++ box'.waiting = box.waiting := by
  cases hm with
  | queue _ _ registered =>
    rw [registered] at hgone
    cases hgone
  | receive m rest _ first => exact first.symm
  | _ => rfl

/-- A registration is lost by a message exactly when the message finds the queue full. -/
theorem Move.overflow_iff {depth : ℕ} {sent taken : Option Message} {sends : Bool} {box box' : Outbox}
    (hm : Move depth sends sent box box' taken) (hregistered : box.registered = true)
    (hbounded : box.waiting.length ≤ depth) :
    sends = true ∧ box'.registered = false ↔ sent.isSome = true ∧ box.waiting.length = depth := by
  cases hm with
  | pass | receive => simp [hregistered]
  | skip _ _ gone =>
    rw [hregistered] at gone
    cases gone
  | queue _ _ _ room => simp [hregistered, room.ne]
  | overflow _ _ _ full => simp [le_antisymm hbounded full]
  | remove => simp

namespace Registry

/-! ## What a step does -/

/-- Whoever a message is for is one of the clients to whom it is given. -/
theorem perform_of_sends (r : Registry) {e : RegistryStep} (he : e.sends = true) :
    ∃ recipients m, recipients.Nodup ∧ e.perform r = r.broadcast recipients m ∧
      ∀ c, e.addressed? r c = if c ∈ recipients then some m else none := by
  cases e with
  | send d m =>
    refine ⟨[d], m, List.nodup_singleton d, rfl, fun c => ?_⟩
    unfold RegistryStep.addressed?
    simp only [List.mem_singleton]
  | broadcast recipients hd m => exact ⟨recipients, m, hd, rfl, fun _ => rfl⟩
  | broadcastAll m =>
    refine ⟨r.registered, m, r.nodup_registered, rfl, fun c => ?_⟩
    unfold RegistryStep.addressed?
    simp only [mem_registered]
  | register | unregister | unregisterAll | receive => cases he

theorem addressed?_eq_none (r : Registry) {e : RegistryStep} (he : e.sends = false) (c : ClientId) :
    e.addressed? r c = none := by
  cases e with
  | send | broadcast | broadcastAll => cases he
  | register | unregister | unregisterAll | receive => rfl

theorem move_deliver (depth : ℕ) (m : Message) {box : Outbox} (ha : box.attended = true) :
    Move depth true (some m) box (box.deliver depth m) none := by
  unfold Outbox.deliver
  rcases hoffer : Outbox.offer? depth m box with _ | box'
  · obtain ⟨hregistered, -, hfull⟩ := offer?_eq_none_iff.1 hoffer
    exact .overflow m box hregistered hfull
  · obtain ⟨waiting, registered, attended⟩ := box
    cases ha
    cases registered with
    | false =>
      cases hoffer
      exact .skip m _ rfl
    | true =>
      by_cases hroom : waiting.length < depth
      · cases (if_pos hroom).symm.trans hoffer
        exact .queue m _ rfl hroom
      · cases (if_neg hroom).symm.trans hoffer

theorem move_broadcast {r : Registry} (ha : r.AllAttended) {recipients : List ClientId} (hd : recipients.Nodup)
    (m : Message) (c : ClientId) :
    ∃ f, (r.broadcast recipients m).outboxes.get? c = (r.outboxes.get? c).map f ∧
      ∀ box, r.outboxes.get? c = some box →
        Move r.depth true (if c ∈ recipients then some m else none) box (f box) none := by
  rw [get?_broadcast r hd]
  by_cases hc : c ∈ recipients
  · rw [if_pos hc, if_pos hc]
    exact ⟨_, rfl, fun box hbox => move_deliver r.depth m (ha c box hbox)⟩
  · rw [if_neg hc, if_neg hc]
    exact ⟨id, Option.map_id.symm ▸ rfl, fun box _ => .pass true box⟩

/-- Every step of a registry makes one of the moves in the outbox of a client, unless it gives the number of the client
to a new one. -/
theorem move {r : Registry} (ha : r.AllAttended) (e : RegistryStep) {c : ClientId}
    (hold : e = .register → c ≠ r.next) :
    ∃ f, (e.perform r).outboxes.get? c = (r.outboxes.get? c).map f ∧
      ∀ box, r.outboxes.get? c = some box →
        Move r.depth e.sends (e.addressed? r c) box (f box) (e.received? r c) := by
  rcases hsends : e.sends with _ | _
  case true =>
    obtain ⟨recipients, m, hd, hperform, haddressed⟩ := r.perform_of_sends hsends
    have hnothing : e.received? r c = none := by cases e <;> first | rfl | cases hsends
    rw [hperform, haddressed, hnothing]
    exact move_broadcast ha hd m c
  rw [r.addressed?_eq_none hsends]
  cases e with
  | send | broadcast | broadcastAll => cases hsends
  | register =>
    refine ⟨id, ?_, fun box _ => .pass false box⟩
    show (r.outboxes.insert r.next _).get? c = _
    rw [Table.get?_insert, if_neg (hold rfl), Option.map_id]
    rfl
  | unregister d =>
    show ∃ f, (r.unregister d).outboxes.get? c = _ ∧ _
    rw [unregister, get?_update]
    by_cases hc : c = d
    · rw [if_pos hc]
      exact ⟨_, rfl, fun box _ => .remove box⟩
    · rw [if_neg hc]
      exact ⟨id, Option.map_id.symm ▸ rfl, fun box _ => .pass false box⟩
  | unregisterAll => exact ⟨_, Table.get?_map _ _ c, fun box _ => .remove box⟩
  | receive d =>
    show ∃ f : Outbox → Outbox, (r.receive d).2.outboxes.get? c = (r.outboxes.get? c).map f ∧
      ∀ box, r.outboxes.get? c = some box →
        Move r.depth false none box (f box) (RegistryStep.received? r (.receive d) c)
    unfold RegistryStep.received? receive
    dsimp only
    rcases hd : r.outboxes.get? d with _ | ⟨waiting, registered, attended⟩
    · exact ⟨id, Option.map_id.symm ▸ rfl, fun box _ => .pass false box⟩
    · rcases waiting with _ | ⟨m, rest⟩
      · cases registered
        · exact ⟨id, Option.map_id.symm ▸ rfl, fun box _ => .pass false box⟩
        · exact ⟨id, Option.map_id.symm ▸ rfl, fun box _ => .pass false box⟩
      · dsimp only
        rw [Table.get?_insert]
        by_cases hc : c = d
        · rw [if_pos hc, if_pos hc, hc, hd]
          refine ⟨fun box => { box with waiting := rest }, rfl, fun box hbox => ?_⟩
          cases hbox
          exact .receive m rest _ rfl
        · rw [if_neg hc, if_neg hc]
          exact ⟨id, Option.map_id.symm ▸ rfl, fun box _ => .pass false box⟩

theorem perform_frame (r : Registry) {e : RegistryStep} (he : e ≠ .register) :
    ∃ outboxes overflowed, e.perform r = { r with outboxes, overflowed } := by
  have hbroadcast : ∀ recipients m, ∃ outboxes overflowed,
      r.broadcast recipients m = { r with outboxes, overflowed } := by
    intro recipients m
    obtain ⟨outboxes, hframe⟩ := r.broadcast_frame recipients m
    exact ⟨_, _, hframe⟩
  cases e with
  | register => exact absurd rfl he
  | send d m => exact hbroadcast [d] m
  | broadcast recipients hd m => exact hbroadcast recipients m
  | broadcastAll m => exact hbroadcast r.registered m
  | unregister d =>
    obtain ⟨outboxes, hframe⟩ := r.update_frame d fun box => { box with registered := false }
    exact ⟨_, _, hframe⟩
  | unregisterAll => exact ⟨_, _, rfl⟩
  | receive d =>
    obtain ⟨outboxes, hframe⟩ := r.receive_frame d
    exact ⟨_, _, hframe⟩

theorem isRegistered_register (r : Registry) (c : ClientId) :
    r.register.2.isRegistered c = true ↔ c = r.next ∨ r.isRegistered c = true := by
  show ((r.outboxes.insert r.next ⟨[], true, true⟩).get? c).any (·.registered) = true ↔ _
  rw [Table.get?_insert]
  split
  · rename_i hc
    exact iff_of_true rfl (.inl hc)
  · rename_i hc
    rw [or_iff_right hc]
    rfl

theorem isRegistered_unregister (r : Registry) (d c : ClientId) :
    (r.unregister d).isRegistered c = true ↔ r.isRegistered c = true ∧ c ≠ d := by
  unfold isRegistered unregister
  rw [get?_update]
  split
  · rename_i hc
    refine iff_of_false ?_ fun h => h.2 hc
    rcases r.outboxes.get? c with _ | box
    · exact Bool.false_ne_true
    · exact Bool.false_ne_true
  · rename_i hc
    rw [and_iff_left hc]

theorem isRegistered_unregisterAll (r : Registry) (c : ClientId) : r.unregisterAll.isRegistered c = false := by
  unfold isRegistered unregisterAll
  rw [Table.get?_map]
  rcases r.outboxes.get? c with _ | box
  · rfl
  · rfl

theorem isRegistered_abandon (r : Registry) (d c : ClientId) : (r.abandon d).isRegistered c = r.isRegistered c := by
  unfold isRegistered abandon
  rw [get?_update]
  split
  · rename_i hc
    subst hc
    rcases r.outboxes.get? c with _ | box
    · rfl
    · rfl
  · rfl

theorem isRegistered_receive (r : Registry) (d c : ClientId) : (r.receive d).2.isRegistered c = r.isRegistered c := by
  unfold receive
  split
  · rfl
  · rename_i box hbox
    split
    · unfold isRegistered
      dsimp only
      rw [Table.get?_insert]
      split
      · rename_i hc
        rw [hc, hbox]
        rfl
      · rfl
    · rfl

/-- A message is counted once for each recipient whose queue is full. -/
theorem overflowed_broadcast (r : Registry) {recipients : List ClientId} (hd : recipients.Nodup) (m : Message) :
    (r.broadcast recipients m).overflowed = r.overflowed + .ofNat
      {c | c ∈ recipients ∧ ∃ box, r.outboxes.get? c = some box ∧ Outbox.offer? r.depth m box = none}.ncard := by
  have hlate : {c | c ∈ recipients ∧ ∃ box, r.outboxes.get? c = some box ∧ Outbox.offer? r.depth m box = none} =
      (r.offerAll m recipients).2.toFinset := by
    ext c
    rw [List.coe_toFinset]
    exact ((offerAll_spec m hd r).2 c).symm
  obtain ⟨outboxes, hframe⟩ := r.broadcast_frame recipients m
  rw [hframe, hlate, Set.ncard_coe_finset, List.toFinset_card_of_nodup ((late_sublist m recipients r).nodup hd)]

theorem overflowed_of_not_sends (r : Registry) {e : RegistryStep} (he : e.sends = false) :
    (e.perform r).overflowed = r.overflowed := by
  cases e with
  | send | broadcast | broadcastAll => cases he
  | register | unregisterAll => rfl
  | unregister d =>
    obtain ⟨outboxes, hframe⟩ := r.update_frame d fun box => { box with registered := false }
    show (r.unregister d).overflowed = r.overflowed
    rw [unregister, hframe]
  | receive d =>
    obtain ⟨outboxes, hframe⟩ := r.receive_frame d
    show (r.receive d).2.overflowed = r.overflowed
    rw [hframe]

/-- A step counts the clients to whom it addresses a message although their queue is full. -/
theorem overflowed_perform {r : Registry} (ha : r.AllAttended) (e : RegistryStep) :
    (e.perform r).overflowed = r.overflowed + .ofNat {c | (e.addressed? r c).isSome = true ∧
      ∃ box, r.outboxes.get? c = some box ∧ box.registered = true ∧ r.depth ≤ box.waiting.length}.ncard := by
  rcases hsends : e.sends with _ | _
  · have hnobody : {c | (e.addressed? r c).isSome = true ∧ ∃ box, r.outboxes.get? c = some box ∧
        box.registered = true ∧ r.depth ≤ box.waiting.length} = ∅ := by
      refine Set.eq_empty_of_forall_notMem fun c hc => ?_
      have hsome := hc.1
      rw [r.addressed?_eq_none hsends] at hsome
      cases hsome
    rw [hnobody, Set.ncard_empty, r.overflowed_of_not_sends hsends]
    exact (UInt64.add_zero _).symm
  · obtain ⟨recipients, m, hd, hperform, haddressed⟩ := r.perform_of_sends hsends
    rw [hperform, overflowed_broadcast r hd]
    congr 3
    ext c
    rw [Set.mem_ofPred_eq, Set.mem_ofPred_eq, haddressed]
    refine and_congr (by simp) (exists_congr fun box => and_congr_right fun hbox => ?_)
    rw [offer?_eq_none_iff, and_iff_right (ha c box hbox)]

end Registry

namespace Traffic

/-! ## All clients -/

/-- Every client that was ever registered has a queue that somebody attends to, and gets its messages in order; and the
next number is the one behind those given out. -/
structure Orderly (depth : ℕ) (w : Traffic) : Prop where
  depth_eq : w.registry.depth = depth
  attended : w.registry.AllAttended
  inOrder : ∀ c box, w.registry.outboxes.get? c = some box → InOrder depth box (w.received c) (w.addressed c)
  issued : ∀ c, c ∈ w.issued ↔ ∃ box, w.registry.outboxes.get? c = some box
  next : w.registry.next.toNat = (w.issued.length + 1) % 2 ^ 64
  numbered : ∀ c ∈ w.issued, Registry.Issued w.issued.length c

theorem orderly_start (depth : ℕ) : (start depth).Orderly (max depth 1) where
  depth_eq := rfl
  attended _ _ h := by cases h
  inOrder _ _ h := by cases h
  issued c := by
    refine ⟨fun h => absurd h List.not_mem_nil, ?_⟩
    rintro ⟨_, ⟨⟩⟩
  next := rfl
  numbered _ h := absurd h List.not_mem_nil

theorem after_of_ne_register (w : Traffic) {e : RegistryStep} (he : e ≠ .register) :
    w.after e = ⟨e.perform w.registry, w.issued, fun c => w.received c ++ (e.received? w.registry c).toList,
      fun c => w.addressed c ++ (e.addressed? w.registry c).toList⟩ := by
  cases e with
  | register => exact absurd rfl he
  | _ => rfl

/-- A step makes one move in the outbox of a client. -/
theorem Orderly.move {depth : ℕ} {w : Traffic} (h : w.Orderly depth) (e : RegistryStep) {c : ClientId}
    (hold : e = .register → c ≠ w.registry.next) {box : Outbox} (hbox : w.registry.outboxes.get? c = some box) :
    ∃ box', (w.after e).registry.outboxes.get? c = some box' ∧
      Move depth e.sends (e.addressed? w.registry c) box box' (e.received? w.registry c) ∧
      (w.after e).received c = w.received c ++ (e.received? w.registry c).toList ∧
      (w.after e).addressed c = w.addressed c ++ (e.addressed? w.registry c).toList := by
  obtain ⟨f, hget, hmove⟩ := w.registry.move h.attended e hold
  have hmove := hmove box hbox
  rw [hbox] at hget
  rw [h.depth_eq] at hmove
  by_cases he : e = .register
  · have hc := hold he
    subst he
    refine ⟨f box, hget, hmove, ?_, ?_⟩
    · exact (Function.update_of_ne hc _ _).trans (List.append_nil _).symm
    · exact (Function.update_of_ne hc _ _).trans (List.append_nil _).symm
  · rw [after_of_ne_register w he]
    exact ⟨f box, hget, hmove, rfl, rfl⟩

theorem Orderly.register {depth : ℕ} {w : Traffic} (h : w.Orderly depth) : (w.after .register).Orderly depth where
  depth_eq := h.depth_eq
  attended c box hbox := by
    change (w.registry.outboxes.insert w.registry.next _).get? c = some box at hbox
    rw [Table.get?_insert] at hbox
    split at hbox
    · cases hbox
      rfl
    · exact h.attended c box hbox
  inOrder c box hbox := by
    change (w.registry.outboxes.insert w.registry.next _).get? c = some box at hbox
    show InOrder depth box (Function.update w.received w.registry.next [] c)
      (Function.update w.addressed w.registry.next [] c)
    rw [Table.get?_insert] at hbox
    split at hbox
    · rename_i hc
      cases hbox
      rw [hc, Function.update_self, Function.update_self]
      exact ⟨List.prefix_rfl, fun _ => rfl, Nat.zero_le _⟩
    · rename_i hc
      rw [Function.update_of_ne hc, Function.update_of_ne hc]
      exact h.inOrder c box hbox
  issued c := by
    show c ∈ w.issued ++ [w.registry.next] ↔ ∃ box, (w.registry.outboxes.insert w.registry.next _).get? c = some box
    rw [Table.get?_insert, List.mem_append, List.mem_singleton, h.issued]
    by_cases hc : c = w.registry.next
    · simp [hc]
    · simp [hc]
  next := by
    show (w.registry.next + 1).toNat = ((w.issued ++ [w.registry.next]).length + 1) % 2 ^ 64
    rw [UInt64.toNat_add, h.next, List.length_append]
    simp
  numbered c hc := by
    change c ∈ w.issued ++ [w.registry.next] at hc
    show Registry.Issued (w.issued ++ [w.registry.next]).length c
    rw [List.length_append, List.length_singleton]
    rcases List.mem_append.1 hc with hc | hc
    · exact (h.numbered c hc).mono
    · rw [List.mem_singleton.1 hc]
      exact ⟨w.issued.length + 1, by omega, le_rfl, h.next⟩

theorem Orderly.perform {depth : ℕ} {w : Traffic} (h : w.Orderly depth) {e : RegistryStep} (he : e ≠ .register) :
    (w.after e).Orderly depth := by
  have hold : ∀ c, e = .register → c ≠ w.registry.next := fun _ hreg => absurd hreg he
  -- an outbox there is now was there before, and has made one of the moves
  have hbefore : ∀ c box', (w.after e).registry.outboxes.get? c = some box' →
      ∃ box, w.registry.outboxes.get? c = some box := by
    intro c box' hbox'
    obtain ⟨f, hget, -⟩ := w.registry.move h.attended e (hold c)
    rw [after_of_ne_register w he] at hbox'
    obtain ⟨box, hbox, -⟩ := Option.map_eq_some_iff.1 (hget.symm.trans hbox')
    exact ⟨box, hbox⟩
  have hafter := after_of_ne_register w he
  obtain ⟨outboxes, overflowed, hframe⟩ := w.registry.perform_frame he
  refine ⟨?_, fun c box' hbox' => ?_, fun c box' hbox' => ?_, fun c => ?_, ?_, ?_⟩
  · rw [hafter]
    exact (congrArg Registry.depth hframe).trans h.depth_eq
  · obtain ⟨box, hbox⟩ := hbefore c box' hbox'
    obtain ⟨box'', hbox'', hmove, -, -⟩ := h.move e (hold c) hbox
    cases hbox'.symm.trans hbox''
    exact hmove.attended.trans (h.attended c box hbox)
  · obtain ⟨box, hbox⟩ := hbefore c box' hbox'
    obtain ⟨box'', hbox'', hmove, hreceived, haddressed⟩ := h.move e (hold c) hbox
    cases hbox'.symm.trans hbox''
    rw [hreceived, haddressed]
    exact (h.inOrder c box hbox).move hmove
  · have hissued : (w.after e).issued = w.issued := by rw [hafter]
    rw [hissued, h.issued]
    constructor
    · rintro ⟨box, hbox⟩
      obtain ⟨box', hbox', -⟩ := h.move e (hold c) hbox
      exact ⟨box', hbox'⟩
    · rintro ⟨box', hbox'⟩
      exact hbefore c box' hbox'
  · rw [hafter]
    exact (congrArg (fun r => r.next.toNat) hframe).trans h.next
  · rw [hafter]
    exact h.numbered

theorem Orderly.after {depth : ℕ} {w : Traffic} (h : w.Orderly depth) (e : RegistryStep) :
    (w.after e).Orderly depth := by
  by_cases he : e = .register
  · rw [he]
    exact h.register
  · exact h.perform he

theorem Orderly.run {depth : ℕ} {w : Traffic} (h : w.Orderly depth) (steps : List RegistryStep) :
    (w.run steps).Orderly depth := by
  induction steps generalizing w with
  | nil => exact h
  | cons e steps ih => exact ih (h.after e)

/-! ## Losing a registration -/

theorem registry_after (w : Traffic) (e : RegistryStep) : (w.after e).registry = e.perform w.registry := by
  cases e <;> rfl

/-- A client loses its registration by a message exactly when a message is addressed to it while its queue is full. -/
theorem Orderly.drops_iff {depth : ℕ} {w : Traffic} (h : w.Orderly (max depth 1)) (e : RegistryStep) (c : ClientId) :
    w.Drops e c ↔ Overfills depth w e c := by
  by_cases he : e = .register
  · -- nothing is sent
    rw [he]
    exact ⟨fun hdrops => absurd hdrops.1 Bool.false_ne_true, fun hover => absurd hover.2.1 Bool.false_ne_true⟩
  · unfold Drops Overfills
    rw [and_left_comm]
    refine and_congr_right fun hregistered => ?_
    obtain ⟨box, hbox, hreg⟩ := Registry.isRegistered_iff.1 hregistered
    obtain ⟨box', hbox', hmove, -⟩ := h.move e (fun hr => absurd hr he) hbox
    rw [Registry.isRegistered_eq hbox', Registry.waiting_eq hbox]
    exact hmove.overflow_iff hreg (h.inOrder c box hbox).bounded

theorem Orderly.gone_after {depth : ℕ} {w : Traffic} (h : w.Orderly depth) {e : RegistryStep} {c : ClientId}
    (hold : e = .register → c ≠ w.registry.next) (hgone : w.registry.isRegistered c = false) :
    (w.after e).registry.isRegistered c = false := by
  obtain ⟨f, hget, hmove⟩ := w.registry.move h.attended e hold
  rw [registry_after]
  unfold Registry.isRegistered at hgone ⊢
  rw [hget]
  rcases hbox : w.registry.outboxes.get? c with _ | box
  · rfl
  · rw [hbox] at hgone
    exact (hmove box hbox).gone hgone

/-- Who is registered after a step. -/
theorem Orderly.isRegistered_after_iff {depth : ℕ} {w : Traffic} (h : w.Orderly (max depth 1)) (e : RegistryStep)
    (c : ClientId) : (w.after e).registry.isRegistered c = true ↔ Registers depth w e c := by
  unfold Registers
  rcases hsends : e.sends with _ | _
  · -- nothing is sent, so no message finds a queue full
    have hroom : ¬Overfills depth w e c := by
      rintro ⟨-, haddressed, -⟩
      rw [w.registry.addressed?_eq_none hsends] at haddressed
      cases haddressed
    rw [registry_after, and_iff_right hroom]
    cases e with
    | send | broadcast | broadcastAll => cases hsends
    | register =>
      refine (w.registry.isRegistered_register c).trans ?_
      simp
    | unregister d =>
      refine (w.registry.isRegistered_unregister d c).trans ?_
      simp [@eq_comm _ c d]
    | unregisterAll =>
      refine iff_of_false (Bool.eq_false_iff.1 (w.registry.isRegistered_unregisterAll c)) ?_
      simp
    | receive d =>
      refine (Bool.coe_iff_coe.2 (w.registry.isRegistered_receive d c)).trans ?_
      simp
  · have hother : e ≠ .register ∧ e ≠ .unregister c ∧ e ≠ .unregisterAll := by
      refine ⟨?_, ?_, ?_⟩ <;> rintro rfl <;> cases hsends
    rw [← h.drops_iff, and_iff_left hother.2]
    unfold Drops
    rw [hsends]
    rcases hregistered : w.registry.isRegistered c with _ | _
    · simp [h.gone_after (fun he => absurd he hother.1) hregistered, hother.1]
    · rcases (w.after e).registry.isRegistered c with _ | _
      · simp [hother.1]
      · simp

/-- A client that is not registered after a step has got nothing into its queue. -/
theorem Orderly.queued_after {depth : ℕ} {w : Traffic} (h : w.Orderly depth) {e : RegistryStep} {c : ClientId}
    (hold : e = .register → c ≠ w.registry.next) {box : Outbox} (hbox : w.registry.outboxes.get? c = some box)
    (hgone : (w.after e).registry.isRegistered c = false) : (w.after e).queued c = w.queued c := by
  obtain ⟨box', hbox', hmove, hreceived, -⟩ := h.move e hold hbox
  rw [Registry.isRegistered_eq hbox'] at hgone
  unfold queued
  rw [Registry.waiting_eq hbox', Registry.waiting_eq hbox, hreceived, List.append_assoc, hmove.silent hgone]

theorem Orderly.silent_after {depth : ℕ} {w : Traffic} (h : w.Orderly depth) (hn : w.issued.length < 2 ^ 64)
    {c : ClientId} (hc : c ∈ w.issued) (hgone : w.registry.isRegistered c = false) (e : RegistryStep) :
    (w.after e).registry.isRegistered c = false ∧ (w.after e).queued c = w.queued c := by
  obtain ⟨box, hbox⟩ := (h.issued c).1 hc
  have hold : e = .register → c ≠ w.registry.next := fun _ => (h.numbered c hc).ne_next h.next hn
  have hgone' := h.gone_after hold hgone
  exact ⟨hgone', h.queued_after hold hbox hgone'⟩

theorem mem_issued_after {w : Traffic} {c : ClientId} (hc : c ∈ w.issued) (e : RegistryStep) :
    c ∈ (w.after e).issued := by
  cases e with
  | register => exact List.mem_append_left _ hc
  | _ => exact hc

theorem length_issued_after (w : Traffic) (e : RegistryStep) (steps : List RegistryStep) :
    (w.after e).issued.length + RegistryStep.registrations steps =
      w.issued.length + RegistryStep.registrations (e :: steps) := by
  unfold RegistryStep.registrations
  rw [List.countP_cons]
  cases e with
  | register =>
    show (w.issued ++ [w.registry.next]).length + _ = _
    rw [List.length_append, List.length_singleton, if_pos rfl]
    omega
  | _ => rfl

theorem length_issued_run (w : Traffic) (steps : List RegistryStep) :
    (w.run steps).issued.length = w.issued.length + RegistryStep.registrations steps := by
  induction steps generalizing w with
  | nil => rfl
  | cons e steps ih =>
    rw [← length_issued_after]
    exact ih (w.after e)

theorem Orderly.silent_run {depth : ℕ} {w : Traffic} (h : w.Orderly depth) (steps : List RegistryStep)
    (hn : w.issued.length + RegistryStep.registrations steps < 2 ^ 64) {c : ClientId} (hc : c ∈ w.issued)
    (hgone : w.registry.isRegistered c = false) :
    (w.run steps).registry.isRegistered c = false ∧ (w.run steps).queued c = w.queued c := by
  induction steps generalizing w with
  | nil => exact ⟨hgone, rfl⟩
  | cons e steps ih =>
    obtain ⟨hgone', hsame⟩ := h.silent_after (by omega) hc hgone e
    rw [← length_issued_after] at hn
    obtain ⟨hlater, hqueued⟩ := ih (h.after e) hn (mem_issued_after hc e) hgone'
    exact ⟨hlater, hqueued.trans hsame⟩

/-! ## Counting -/

theorem Orderly.mem_issued {depth : ℕ} {w : Traffic} (h : w.Orderly depth) {c : ClientId}
    (hregistered : w.registry.isRegistered c = true) : c ∈ w.issued := by
  obtain ⟨box, hbox, -⟩ := Registry.isRegistered_iff.1 hregistered
  exact (h.issued c).2 ⟨box, hbox⟩

theorem Orderly.overflowed_after {depth : ℕ} {w : Traffic} (h : w.Orderly (max depth 1)) (e : RegistryStep) :
    (w.after e).registry.overflowed = w.registry.overflowed + .ofNat {c | w.Drops e c}.ncard := by
  rw [registry_after, Registry.overflowed_perform h.attended]
  congr 3
  ext c
  rw [Set.mem_ofPred_eq, Set.mem_ofPred_eq, h.drops_iff, Overfills, h.depth_eq]
  constructor
  · rintro ⟨haddressed, box, hbox, hregistered, hfull⟩
    rw [Registry.isRegistered_eq hbox, Registry.waiting_eq hbox]
    exact ⟨hregistered, haddressed, le_antisymm (h.inOrder c box hbox).bounded hfull⟩
  · rintro ⟨hregistered, haddressed, hfull⟩
    obtain ⟨box, hbox, hregistered⟩ := Registry.isRegistered_iff.1 hregistered
    rw [Registry.waiting_eq hbox] at hfull
    exact ⟨haddressed, box, hbox, hregistered, hfull.ge⟩

theorem dropped_cons (w : Traffic) (e : RegistryStep) (steps : List RegistryStep) :
    w.dropped (e :: steps) = {c | w.Drops e c} ∪ (w.after e).dropped steps := by
  ext c
  constructor
  · rintro ⟨before, e', later, hsteps, hdrops⟩
    rcases before with _ | ⟨e₀, before⟩
    · cases hsteps
      exact .inl hdrops
    · cases hsteps
      exact .inr ⟨before, e', later, rfl, hdrops⟩
  · rintro (hdrops | ⟨before, e', later, rfl, hdrops⟩)
    · exact ⟨[], e, steps, rfl, hdrops⟩
    · exact ⟨e :: before, e', later, rfl, hdrops⟩

theorem mem_issued_run {w : Traffic} {c : ClientId} (hc : c ∈ w.issued) (steps : List RegistryStep) :
    c ∈ (w.run steps).issued := by
  induction steps generalizing w with
  | nil => exact hc
  | cons e steps ih => exact ih (mem_issued_after hc e)

/-- Only clients that have a number are dropped. -/
theorem Orderly.dropped_subset {depth : ℕ} {w : Traffic} (h : w.Orderly depth) (steps : List RegistryStep) :
    w.dropped steps ⊆ (w.run steps).issued.toFinset := by
  rintro c ⟨before, e, later, rfl, -, hregistered, -⟩
  have hrun : w.run (before ++ e :: later) = (w.run before).run (e :: later) := List.foldl_append
  rw [List.coe_toFinset, Set.mem_ofPred_eq, hrun]
  exact mem_issued_run ((h.run before).mem_issued hregistered) (e :: later)

theorem Orderly.finite_dropped {depth : ℕ} {w : Traffic} (h : w.Orderly depth) (steps : List RegistryStep) :
    (w.dropped steps).Finite := (Finset.finite_toSet _).subset (h.dropped_subset steps)

/-- So there are no more of them than clients that were registered. -/
theorem Orderly.ncard_dropped_le {depth : ℕ} {w : Traffic} (h : w.Orderly depth) (steps : List RegistryStep) :
    (w.dropped steps).ncard ≤ (w.run steps).issued.length :=
  calc
    (w.dropped steps).ncard ≤ (w.run steps).issued.toFinset.card := by
      rw [← Set.ncard_coe_finset]
      exact Set.ncard_le_ncard (h.dropped_subset steps) (Finset.finite_toSet _)
    _ ≤ (w.run steps).issued.length := List.toFinset_card_le _

theorem Orderly.overflowed_run {depth : ℕ} {w : Traffic} (h : w.Orderly (max depth 1)) (steps : List RegistryStep)
    (hn : w.issued.length + RegistryStep.registrations steps < 2 ^ 64) :
    (w.run steps).registry.overflowed = w.registry.overflowed + .ofNat (w.dropped steps).ncard := by
  induction steps generalizing w with
  | nil =>
    have hnobody : w.dropped [] = ∅ := by
      refine Set.eq_empty_of_forall_notMem ?_
      rintro c ⟨before, e, later, hsteps, -⟩
      exact List.append_ne_nil_of_right_ne_nil before (List.cons_ne_nil e later) hsteps.symm
    rw [hnobody, Set.ncard_empty]
    exact (UInt64.add_zero _).symm
  | cons e steps ih =>
    rw [← length_issued_after] at hn
    -- who is dropped now is not registered any more, and is not dropped again
    have hdisjoint : Disjoint {c | w.Drops e c} ((w.after e).dropped steps) := by
      refine Set.disjoint_left.2 ?_
      rintro c ⟨-, hregistered, hgone⟩ ⟨before, e', later, rfl, hagain⟩
      have hbefore : RegistryStep.registrations before ≤ RegistryStep.registrations (before ++ e' :: later) :=
        (List.sublist_append_left before _).countP_le
      have hsilent := (h.after e).silent_run before (by omega) (mem_issued_after (h.mem_issued hregistered) e) hgone
      exact absurd (hsilent.1.symm.trans hagain.2.1) Bool.false_ne_true
    have hfinite := h.finite_dropped (e :: steps)
    rw [dropped_cons] at hfinite ⊢
    obtain ⟨hnow, hlater⟩ := Set.finite_union.1 hfinite
    show ((w.after e).run steps).registry.overflowed = _
    rw [ih (h.after e) hn, h.overflowed_after, Set.ncard_union_eq hdisjoint hnow hlater, UInt64.ofNat_add,
      UInt64.add_assoc]

/-! ## All runs -/

/-- A client that is dropped gets nothing more into its queue, and is not registered again. -/
theorem silent_of_drops (depth : ℕ) {before later : List RegistryStep} {e : RegistryStep}
    (hn : RegistryStep.registrations (before ++ e :: later) < 2 ^ 64) {c : ClientId}
    (hdrops : Drops ((start depth).run before) e c) :
    ((start depth).run (before ++ e :: later)).registry.isRegistered c = false ∧
      ((start depth).run (before ++ e :: later)).queued c = ((start depth).run before).queued c := by
  have hbefore := (orderly_start depth).run before
  obtain ⟨hsent, hregistered, hgone⟩ := hdrops
  obtain ⟨box, hbox, -⟩ := Registry.isRegistered_iff.1 hregistered
  have hold : e = .register → c ≠ ((start depth).run before).registry.next := by
    rintro rfl
    exact absurd hsent Bool.false_ne_true
  have hcount : (((start depth).run before).after e).issued.length + RegistryStep.registrations later < 2 ^ 64 := by
    rw [length_issued_after, length_issued_run]
    unfold RegistryStep.registrations at hn ⊢
    rw [List.countP_append] at hn
    exact (congrArg (· + _) (Nat.zero_add _)).trans_lt hn
  have hrest : ((start depth).run (before ++ e :: later)) = (((start depth).run before).after e).run later :=
    List.foldl_append
  obtain ⟨hlater, hqueued⟩ := (hbefore.after e).silent_run later hcount
    (mem_issued_after (hbefore.mem_issued hregistered) e) hgone
  rw [hrest]
  exact ⟨hlater, hqueued.trans (hbefore.queued_after hold hbox hgone)⟩

/-- Messages arrive in order. In every run, what a client has received and what still waits in its queue is a beginning
of the messages that were addressed to it since it was registered, and all of them as long as it is registered; and
the queue is never longer than it may be. A client stays registered until somebody ends that or a message finds its
queue full. It loses its registration by a message exactly if the message is the first that is addressed to it while
its queue is full, and nothing is queued for it any more after that; how many clients this happens to is counted, and
the count does not wrap, as there are no more of them than registrations. -/
theorem delivered_in_order (depth : ℕ) (steps : List RegistryStep)
    (hn : RegistryStep.registrations steps < 2 ^ 64) :
    (∀ c ∈ ((start depth).run steps).issued,
      ((start depth).run steps).queued c <+: ((start depth).run steps).addressed c ∧
        (((start depth).run steps).registry.isRegistered c = true →
          ((start depth).run steps).queued c = ((start depth).run steps).addressed c) ∧
        (((start depth).run steps).registry.waiting c).length ≤ max depth 1) ∧
    (∀ before e later c, steps = before ++ e :: later →
      ((((start depth).run before).after e).registry.isRegistered c = true ↔
          Registers depth ((start depth).run before) e c) ∧
        (Drops ((start depth).run before) e c ↔ Overfills depth ((start depth).run before) e c) ∧
        (Drops ((start depth).run before) e c →
          (∀ earlier e' between, before = earlier ++ e' :: between →
            ¬Overfills depth ((start depth).run earlier) e' c) ∧
          ((start depth).run steps).registry.isRegistered c = false ∧
          ((start depth).run steps).queued c = ((start depth).run before).queued c)) ∧
    ((start depth).run steps).registry.overflowed.toNat = ((start depth).dropped steps).ncard := by
  have hstart := orderly_start depth
  have hrun := hstart.run steps
  refine ⟨fun c hc => ?_, ?_, ?_⟩
  · obtain ⟨box, hbox⟩ := (hrun.issued c).1 hc
    obtain ⟨hbeginning, hwhole, hbounded⟩ := hrun.inOrder c box hbox
    unfold queued
    rw [Registry.waiting_eq hbox, Registry.isRegistered_eq hbox]
    exact ⟨hbeginning, hwhole, hbounded⟩
  · rintro before e later c rfl
    have hbefore := hstart.run before
    refine ⟨hbefore.isRegistered_after_iff e c, hbefore.drops_iff e c, fun hdrops =>
      ⟨?_, silent_of_drops depth hn hdrops⟩⟩
    -- after an earlier one the client would not be registered any more
    rintro earlier e' between rfl hover
    have hprefix : RegistryStep.registrations (earlier ++ e' :: between) < 2 ^ 64 :=
      (List.sublist_append_left _ _).countP_le.trans_lt hn
    have hgone := (silent_of_drops depth hprefix (((hstart.run earlier).drops_iff e' c).2 hover)).1
    exact absurd (hgone.symm.trans hdrops.2.1) Bool.false_ne_true
  · have hissued : ((start depth).run steps).issued.length = RegistryStep.registrations steps :=
      ((start depth).length_issued_run steps).trans (Nat.zero_add _)
    rw [hstart.overflowed_run steps ((Nat.zero_add _).trans_lt hn)]
    show (0 + UInt64.ofNat _).toNat = _
    rw [UInt64.zero_add]
    exact UInt64.toNat_ofNat_of_lt' ((hstart.ncard_dropped_le steps).trans_lt (hissued.trans_lt hn))

/-- Of two clients with room for one message, the one that takes its messages out gets all of them, and the other is
dropped at the second. -/
theorem delivered_in_order_slow :
    let steps : List RegistryStep := [.register, .register, .broadcastAll (.disconnected 7), .receive 1,
      .broadcast [1, 2] (by decide) (.disconnected 8), .send 2 (.disconnected 9)]
    RegistryStep.registrations steps < 2 ^ 64 ∧
      ((start 0).run steps).queued 1 = [.disconnected 7, .disconnected 8] ∧
      ((start 0).run steps).queued 2 <+: [.disconnected 7, .disconnected 8, .disconnected 9] ∧
      ((start 0).run steps).queued 2 = [.disconnected 7] ∧ ((start 0).dropped steps).ncard = 1 := by
  intro steps
  have hn : RegistryStep.registrations steps < 2 ^ 64 := by decide
  obtain ⟨hclients, -, hcount⟩ := delivered_in_order 0 steps hn
  have h₁ := hclients 1 (by decide)
  have h₂ := hclients 2 (by decide)
  refine ⟨hn, ?_, ?_, ?_, ?_⟩
  · exact h₁.2.1 (by decide)
  · exact h₂.1
  · decide
  · rw [← hcount]
    decide

end Traffic

end SharedSheet
