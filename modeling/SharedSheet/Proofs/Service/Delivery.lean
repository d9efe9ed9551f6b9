/-
Delivery. A message to several clients reaches the outbox of each of them independently of the others
(`get?_broadcast`): it is added at the end, or there was no room and the client loses its registration, which is
counted. Nothing else about the registry changes (`broadcast_frame`). What can be done with a registry is listed as its
steps (`RegistryStep`); as long as a client does not hang up, somebody attends to its queue (`Attends`).
-/
import Mathlib.Algebra.Group.Nat.Defs
import Mathlib.Data.List.Nodup
import SharedSheet.Proofs.Table
import SharedSheet.Service.Registry

namespace SharedSheet

/-- What sending a message makes of an outbox. -/
def Outbox.deliver (depth : ℕ) (m : Message) (box : Outbox) : Outbox :=
  match Registry.Outbox.offer? depth m box with
  | some box => box
  | none => { box with registered := false }

/-- Every delivery is one of three: the client is passed over, the message waits behind all others, or there was
no room. -/
theorem Outbox.deliver_cases (depth : ℕ) (m : Message) {box : Outbox} (ha : box.attended = true) :
    (box.registered = false ∧ box.deliver depth m = box) ∨
      (box.registered = true ∧ box.deliver depth m = { box with waiting := box.waiting ++ [m] }) ∨
      (box.registered = true ∧ box.deliver depth m = { box with registered := false }) := by
  obtain ⟨waiting, registered, attended⟩ := box
  cases ha
  unfold Outbox.deliver Registry.Outbox.offer?
  rcases registered with _ | _
  · exact .inl ⟨rfl, rfl⟩
  · right
    by_cases hroom : waiting.length < depth
    · left
      simp [hroom]
    · right
      simp [hroom]

namespace Registry

/-! ## Clients -/

/-- Whether messages to a client are queued. -/
def isRegistered (r : Registry) (c : ClientId) : Bool := (r.outboxes.get? c).any (·.registered)

theorem isRegistered_iff {r : Registry} {c : ClientId} :
    r.isRegistered c = true ↔ ∃ box, r.outboxes.get? c = some box ∧ box.registered = true :=
  Option.any_eq_true _ _

theorem isRegistered_eq {r : Registry} {c : ClientId} {box : Outbox} (h : r.outboxes.get? c = some box) :
    r.isRegistered c = box.registered := by
  unfold isRegistered
  rw [h]
  rfl

theorem nodup_registered (r : Registry) : r.registered.Nodup :=
  r.outboxes.nodup_keys.sublist (List.filter_sublist.map _)

theorem mem_registered (r : Registry) (c : ClientId) : c ∈ r.registered ↔ r.isRegistered c = true := by
  unfold registered
  rw [isRegistered_iff, List.mem_map]
  constructor
  · rintro ⟨⟨d, box⟩, he, rfl⟩
    obtain ⟨he, hregistered⟩ := List.mem_filter.1 he
    exact ⟨box, Table.get?_eq_some_iff.2 he, hregistered⟩
  · rintro ⟨box, hbox, hregistered⟩
    exact ⟨(c, box), List.mem_filter.2 ⟨Table.get?_eq_some_iff.1 hbox, hregistered⟩, rfl⟩

/-- The connections of a service are counted by the clients that are registered. -/
theorem connections_eq (r : Registry) : r.connections = r.registered.length := by
  unfold connections registered Table.values
  rw [List.filter_map, List.length_map, List.length_map]
  rfl

/-- The messages in the queue of a client. -/
def waiting (r : Registry) (c : ClientId) : List Message := ((r.outboxes.get? c).map (·.waiting)).getD []

theorem waiting_eq {r : Registry} {c : ClientId} {box : Outbox} (h : r.outboxes.get? c = some box) :
    r.waiting c = box.waiting := by
  unfold waiting
  rw [h]
  rfl

/-- The number was given out by one of the first `n` registrations. -/
def Issued (n : ℕ) (c : ClientId) : Prop := ∃ i, 1 ≤ i ∧ i ≤ n ∧ c.toNat = i % 2 ^ 64

theorem Issued.mono {n : ℕ} {c : ClientId} (h : Issued n c) : Issued (n + 1) c := by
  obtain ⟨i, h₁, h₂, h₃⟩ := h
  exact ⟨i, h₁, by omega, h₃⟩

/-- The numbers do not repeat before there are no others left. -/
theorem Issued.ne_next {n : ℕ} {c next : ClientId} (hc : Issued n c) (hnext : next.toNat = (n + 1) % 2 ^ 64)
    (hn : n < 2 ^ 64) : c ≠ next := by
  rintro rfl
  obtain ⟨i, h₁, h₂, h₃⟩ := hc
  omega

/-! ## A message -/

/-- There is no room for a message exactly if the client is registered, somebody attends to its queue, and the queue is
full. -/
theorem offer?_eq_none_iff {depth : ℕ} {m : Message} {box : Outbox} :
    Outbox.offer? depth m box = none ↔
      box.registered = true ∧ box.attended = true ∧ depth ≤ box.waiting.length := by
  obtain ⟨waiting, registered, attended⟩ := box
  unfold Outbox.offer?
  cases registered
  · simp
  · cases attended
    · simp
    · simp

theorem get?_update (r : Registry) (c : ClientId) (f : Outbox → Outbox) (x : ClientId) :
    (r.update c f).outboxes.get? x = if x = c then (r.outboxes.get? x).map f else r.outboxes.get? x := by
  unfold update
  split
  · rename_i box hbox
    rw [Table.get?_insert]
    by_cases hx : x = c
    · rw [if_pos hx, if_pos hx, hx, hbox]
      rfl
    · rw [if_neg hx, if_neg hx]
  · rename_i hbox
    by_cases hx : x = c
    · rw [if_pos hx, hx, hbox]
      rfl
    · rw [if_neg hx]

theorem get?_unregisterAll (r : Registry) (late : List ClientId) (x : ClientId) :
    (late.foldl unregister r).outboxes.get? x =
      if x ∈ late then (r.outboxes.get? x).map fun box => { box with registered := false } else r.outboxes.get? x := by
  induction late generalizing r with
  | nil => rfl
  | cons c late ih =>
    rw [List.foldl_cons, ih, unregister, get?_update]
    by_cases hx : x = c
    · rw [if_pos hx, if_pos (List.mem_cons.2 (.inl hx))]
      split
      · rw [Option.map_map]
        rfl
      · rfl
    · rw [if_neg hx]
      split
      · rename_i hmem
        rw [if_pos (List.mem_cons_of_mem _ hmem)]
      · rename_i hmem
        rw [if_neg fun h => (List.mem_cons.1 h).elim hx hmem]

/-- One outbox after another: changing one and then each of the others is changing all of them. -/
theorem map_cons_outboxes {g : Outbox → Outbox} {c : ClientId} {cs : List ClientId} (hc : c ∉ cs)
    {before after : Table ClientId Outbox} (hself : after.get? c = (before.get? c).map g)
    (hother : ∀ x, x ≠ c → after.get? x = before.get? x) (x : ClientId) :
    (if x ∈ cs then (after.get? x).map g else after.get? x) =
      if x ∈ c :: cs then (before.get? x).map g else before.get? x := by
  by_cases hx : x = c
  · rw [hx, if_neg hc, if_pos List.mem_cons_self, hself]
  · rw [hother x hx]
    by_cases hmem : x ∈ cs
    · rw [if_pos hmem, if_pos (List.mem_cons_of_mem _ hmem)]
    · rw [if_neg hmem, if_neg fun h => (List.mem_cons.1 h).elim hx hmem]

/-- What one round of offers does: each outbox takes the message if there is room, and the late clients are those
without. -/
theorem offerAll_spec (m : Message) {cs : List ClientId} (hd : cs.Nodup) (r : Registry) :
    (∀ x, (r.offerAll m cs).1.outboxes.get? x =
        if x ∈ cs then (r.outboxes.get? x).map fun box => (Outbox.offer? r.depth m box).getD box
        else r.outboxes.get? x) ∧
      ∀ x, x ∈ (r.offerAll m cs).2 ↔
        x ∈ cs ∧ ∃ box, r.outboxes.get? x = some box ∧ Outbox.offer? r.depth m box = none := by
  induction cs generalizing r with
  | nil =>
    refine ⟨fun _ => rfl, fun x => ?_⟩
    show x ∈ ([] : List ClientId) ↔ _
    simp
  | cons c cs ih =>
    obtain ⟨hc, hd⟩ := List.nodup_cons.1 hd
    unfold offerAll
    split
    · -- the client has no outbox
      rename_i hbox
      obtain ⟨hget, hlate⟩ := ih hd r
      refine ⟨fun x => ?_, fun x => ?_⟩
      · rw [hget]
        exact map_cons_outboxes hc (by rw [hbox]; rfl) (fun _ _ => rfl) x
      · rw [hlate, List.mem_cons]
        constructor
        · exact fun h => ⟨.inr h.1, h.2⟩
        · rintro ⟨rfl | hx, box, hget, hoffer⟩
          · rw [hbox] at hget
            cases hget
          · exact ⟨hx, box, hget, hoffer⟩
    · rename_i box hbox
      split
      · -- there is room
        rename_i box' hoffer
        obtain ⟨hget, hlate⟩ := ih hd { r with outboxes := r.outboxes.insert c box' }
        refine ⟨fun x => ?_, fun x => ?_⟩
        · rw [hget]
          refine map_cons_outboxes hc ?_ (fun x hx => ?_) x
          · rw [Table.get?_insert, if_pos rfl, hbox, Option.map_some, hoffer]
            rfl
          · rw [Table.get?_insert, if_neg hx]
        · rw [hlate, List.mem_cons]
          constructor
          · rintro ⟨hx, b, hget, hb⟩
            have hne : x ≠ c := fun h => hc (h ▸ hx)
            rw [Table.get?_insert, if_neg hne] at hget
            exact ⟨.inr hx, b, hget, hb⟩
          · rintro ⟨hx, b, hget, hb⟩
            by_cases hxc : x = c
            · rw [hxc, hbox] at hget
              cases hget
              rw [hoffer] at hb
              cases hb
            · refine ⟨hx.resolve_left hxc, b, ?_, hb⟩
              rw [Table.get?_insert, if_neg hxc]
              exact hget
      · -- there is none
        rename_i hoffer
        obtain ⟨hget, hlate⟩ := ih hd r
        refine ⟨fun x => ?_, fun x => ?_⟩
        · rw [hget]
          refine map_cons_outboxes hc ?_ (fun _ _ => rfl) x
          rw [hbox, Option.map_some, hoffer]
          rfl
        · show x ∈ c :: (r.offerAll m cs).2 ↔ _
          rw [List.mem_cons, hlate, List.mem_cons]
          constructor
          · rintro (rfl | ⟨hx, hb⟩)
            · exact ⟨.inl rfl, box, hbox, hoffer⟩
            · exact ⟨.inr hx, hb⟩
          · rintro ⟨rfl | hx, hb⟩
            · exact .inl rfl
            · exact .inr ⟨hx, hb⟩

/-- The late clients are some of the recipients, in their order. -/
theorem late_sublist (m : Message) (cs : List ClientId) (r : Registry) : (r.offerAll m cs).2.Sublist cs := by
  induction cs generalizing r with
  | nil => exact .slnil
  | cons c cs ih =>
    unfold offerAll
    split
    · exact (ih r).cons c
    · split
      · exact (ih _).cons c
      · exact (ih r).cons_cons c

/-- A message to several clients is delivered to each of them, and to nobody else. -/
theorem get?_broadcast (r : Registry) {recipients : List ClientId} (hd : recipients.Nodup) (m : Message)
    (x : ClientId) :
    (r.broadcast recipients m).outboxes.get? x =
      if x ∈ recipients then (r.outboxes.get? x).map (Outbox.deliver r.depth m) else r.outboxes.get? x := by
  obtain ⟨hget, hlate⟩ := offerAll_spec m hd r
  unfold broadcast
  show ((r.offerAll m recipients).2.foldl unregister (r.offerAll m recipients).1).outboxes.get? x = _
  rw [get?_unregisterAll, hget]
  by_cases hx : x ∈ recipients
  · rw [if_pos hx, if_pos hx]
    rcases hbox : r.outboxes.get? x with _ | box
    · simp
    · -- without room the client is among the late ones, who lose their registration
      rcases hoffer : Outbox.offer? r.depth m box with _ | box'
      · rw [if_pos ((hlate x).2 ⟨hx, box, hbox, hoffer⟩)]
        unfold Outbox.deliver
        simp [hoffer]
      · have hnot : x ∉ (r.offerAll m recipients).2 := by
          rw [hlate]
          rintro ⟨-, b, hb, hn⟩
          rw [hbox] at hb
          cases hb
          rw [hoffer] at hn
          cases hn
        rw [if_neg hnot]
        unfold Outbox.deliver
        simp [hoffer]
  · rw [if_neg hx, if_neg fun h => hx ((hlate x).1 h).1, if_neg hx]

/-! ## The rest of the registry -/

theorem update_frame (r : Registry) (c : ClientId) (f : Outbox → Outbox) :
    ∃ outboxes, r.update c f = { r with outboxes } := by
  unfold update
  split
  · exact ⟨_, rfl⟩
  · exact ⟨_, rfl⟩

theorem unregisterAll_frame (r : Registry) (late : List ClientId) :
    ∃ outboxes, late.foldl unregister r = { r with outboxes } := by
  induction late generalizing r with
  | nil => exact ⟨_, rfl⟩
  | cons c late ih =>
    obtain ⟨outboxes, hupdate⟩ := r.update_frame c fun box => { box with registered := false }
    obtain ⟨outboxes', hlate⟩ := ih { r with outboxes }
    refine ⟨outboxes', ?_⟩
    rw [List.foldl_cons, unregister, hupdate, hlate]

theorem offerAll_frame (m : Message) (cs : List ClientId) (r : Registry) :
    ∃ outboxes, (r.offerAll m cs).1 = { r with outboxes } := by
  induction cs generalizing r with
  | nil => exact ⟨_, rfl⟩
  | cons c cs ih =>
    unfold offerAll
    split
    · exact ih r
    · split
      · exact ih _
      · exact ih r

/-- A message changes outboxes, and is counted once for each late client. -/
theorem broadcast_frame (r : Registry) (recipients : List ClientId) (m : Message) :
    ∃ outboxes, r.broadcast recipients m =
      { r with outboxes, overflowed := r.overflowed + .ofNat (r.offerAll m recipients).2.length } := by
  obtain ⟨outboxes, hoffer⟩ := r.offerAll_frame m recipients
  obtain ⟨outboxes', hlate⟩ := (r.offerAll m recipients).1.unregisterAll_frame (r.offerAll m recipients).2
  refine ⟨outboxes', ?_⟩
  unfold broadcast
  dsimp only
  rw [hlate, hoffer]

theorem depth_broadcast (r : Registry) (recipients : List ClientId) (m : Message) :
    (r.broadcast recipients m).depth = r.depth := by
  obtain ⟨outboxes, hframe⟩ := r.broadcast_frame recipients m
  rw [hframe]

theorem next_broadcast (r : Registry) (recipients : List ClientId) (m : Message) :
    (r.broadcast recipients m).next = r.next := by
  obtain ⟨outboxes, hframe⟩ := r.broadcast_frame recipients m
  rw [hframe]

theorem receive_frame (r : Registry) (c : ClientId) : ∃ outboxes, (r.receive c).2 = { r with outboxes } := by
  unfold receive
  split
  · exact ⟨_, rfl⟩
  · split
    · exact ⟨_, rfl⟩
    · exact ⟨_, rfl⟩

end Registry

/-! ## Steps of a registry -/

/-- What can be done with a registry, and with the queue of a client that somebody attends to. -/
inductive RegistryStep where
  | register
  | send (c : ClientId) (m : Message)
  | broadcast (recipients : List ClientId) (distinct : recipients.Nodup) (m : Message)
  | broadcastAll (m : Message)
  | unregister (c : ClientId)
  | unregisterAll
  | receive (c : ClientId)

def RegistryStep.perform (r : Registry) : RegistryStep → Registry
  | .register => r.register.2
  | .send c m => r.send c m
  | .broadcast recipients _ m => r.broadcast recipients m
  | .broadcastAll m => r.broadcastAll m
  | .unregister c => r.unregister c
  | .unregisterAll => r.unregisterAll
  | .receive c => (r.receive c).2

namespace Registry

/-! ## Who attends to the queues -/

/-- If a client has a queue then somebody attends to it. -/
def Attends (r : Registry) (c : ClientId) : Prop := ∀ box, r.outboxes.get? c = some box → box.attended = true

/-- Somebody attends to every queue. -/
def AllAttended (r : Registry) : Prop := ∀ c, r.Attends c

theorem attended_deliver (depth : ℕ) (m : Message) {box : Outbox} (h : box.attended = true) :
    (box.deliver depth m).attended = true := by
  rcases box.deliver_cases depth m h with ⟨-, he⟩ | ⟨-, he⟩ | ⟨-, he⟩
  · rw [he]
    exact h
  · rw [he]
    exact h
  · rw [he]
    exact h

variable {r : Registry} {c : ClientId}

theorem Attends.broadcast (h : r.Attends c) {recipients : List ClientId} (hd : recipients.Nodup)
    (m : Message) : (r.broadcast recipients m).Attends c := by
  intro box hbox
  rw [get?_broadcast r hd] at hbox
  split at hbox
  · obtain ⟨old, hold, rfl⟩ := Option.map_eq_some_iff.1 hbox
    exact attended_deliver _ _ (h old hold)
  · exact h box hbox

theorem Attends.insert (h : r.Attends c) {d : ClientId} {new : Outbox} (hnew : c = d → new.attended = true)
    (next : ClientId) : Attends { r with next, outboxes := r.outboxes.insert d new } c := by
  intro box hbox
  dsimp only at hbox
  rw [Table.get?_insert] at hbox
  split at hbox
  · rename_i hc
    cases hbox
    exact hnew hc
  · exact h box hbox

theorem Attends.update (h : r.Attends c) {d : ClientId} {f : Outbox → Outbox}
    (hf : c = d → ∀ box, (f box).attended = box.attended) : (r.update d f).Attends c := by
  intro box hbox
  rw [get?_update] at hbox
  split at hbox
  · rename_i hc
    obtain ⟨old, hold, rfl⟩ := Option.map_eq_some_iff.1 hbox
    rw [hf hc]
    exact h old hold
  · exact h box hbox

theorem Attends.unregisterAll (h : r.Attends c) : r.unregisterAll.Attends c := by
  intro box hbox
  change (r.outboxes.map _).get? c = some box at hbox
  rw [Table.get?_map] at hbox
  obtain ⟨old, hold, rfl⟩ := Option.map_eq_some_iff.1 hbox
  exact h old hold

theorem Attends.receive (h : r.Attends c) (d : ClientId) : (r.receive d).2.Attends c := by
  unfold Registry.receive
  split
  · exact h
  · rename_i box hbox
    split
    · refine h.insert (fun hc => ?_) _
      rw [← hc] at hbox
      exact h box hbox
    · exact h

theorem Attends.drain (h : r.Attends c) (d : ClientId) : (r.drain d).2.2.Attends c := by
  unfold Registry.drain
  split
  · exact h
  · rename_i box hbox
    split
    · exact h
    · split
      · refine h.insert (fun hc => ?_) _
        rw [← hc] at hbox
        exact h box hbox
      · -- what is forgotten is no outbox any more
        intro box' hbox'
        exact h box' (Table.get?_erase_eq_some.1 hbox').2

theorem Attends.perform (h : r.Attends c) (e : RegistryStep) : (e.perform r).Attends c := by
  cases e with
  | register => exact h.insert (fun _ => rfl) _
  | send d m => exact h.broadcast (List.nodup_singleton d) m
  | broadcast recipients hd m => exact h.broadcast hd m
  | broadcastAll m => exact h.broadcast r.nodup_registered m
  | unregister d => exact h.update fun _ _ => rfl
  | unregisterAll => exact h.unregisterAll
  | receive d => exact h.receive d

end Registry

end SharedSheet
