/-
The registry of clients and their outgoing messages. Every client has a queue of bounded length; sending
never waits. A client whose queue has no room has missed a message for good, so it loses its
registration: what is queued can still be taken out, but nothing is added any more.
-/
import SharedSheet.Table
import SharedSheet.Wire.Message

namespace SharedSheet

/-- The outgoing messages of a client, the oldest first. While the client is registered messages are
added, and while somebody attends to the queue they are taken out. -/
structure Outbox where
  waiting : List Message
  registered : Bool
  attended : Bool
  deriving DecidableEq, Repr

/-- The outboxes of all clients, the number of the next client, and how often a message found no room, counted in
64 bits. -/
structure Registry where
  depth : Nat
  next : ClientId
  outboxes : Table ClientId Outbox
  overflowed : UInt64
  deriving DecidableEq

namespace Registry

/-- The registry without clients. A queue holds one message at least. -/
def new (depth : Nat) : Registry := ⟨max depth 1, 1, Table.empty, 0⟩

/-- The number of registered clients. -/
def connections (r : Registry) : Nat := (r.outboxes.values.filter (·.registered)).length

/-- Registers a new client. -/
def register (r : Registry) : ClientId × Registry :=
  (r.next, { r with next := r.next + 1, outboxes := r.outboxes.insert r.next ⟨[], true, true⟩ })

/-- Changes the outbox of a client that has one. -/
def update (r : Registry) (c : ClientId) (change : Outbox → Outbox) : Registry :=
  match r.outboxes.get? c with
  | some box => { r with outboxes := r.outboxes.insert c (change box) }
  | none => r

/-- Ends a registration. -/
def unregister (r : Registry) (c : ClientId) : Registry := r.update c fun box => { box with registered := false }

/-- Ends all registrations. -/
def unregisterAll (r : Registry) : Registry :=
  { r with outboxes := r.outboxes.map fun _ box => { box with registered := false } }

/-- Nobody attends to the queue of a client any more; what is in it is lost. -/
def abandon (r : Registry) (c : ClientId) : Registry :=
  r.update c fun box => { box with waiting := [], attended := false }

/-! ## Sending -/

/-- What becomes of a message for a client: an outbox with it; or `none` if there is no room. A client that
is not registered, or whom nobody attends to, is passed over. -/
def Outbox.offer? (depth : Nat) (m : Message) (box : Outbox) : Option Outbox :=
  if !box.registered || !box.attended then some box
  else if box.waiting.length < depth then some { box with waiting := box.waiting ++ [m] }
  else none

/-- Offers a message to clients one after the other: the registry then, and those without room. -/
def offerAll (r : Registry) (m : Message) : List ClientId → Registry × List ClientId
  | [] => (r, [])
  | c :: cs =>
    match r.outboxes.get? c with
    | none => offerAll r m cs
    | some box =>
      match Outbox.offer? r.depth m box with
      | some box => offerAll { r with outboxes := r.outboxes.insert c box } m cs
      | none =>
        let (r, late) := offerAll r m cs
        (r, c :: late)

/-- Queues a message for clients; those without room lose their registration. -/
def broadcast (r : Registry) (recipients : List ClientId) (m : Message) : Registry :=
  let (r, late) := r.offerAll m recipients
  { late.foldl unregister r with overflowed := r.overflowed + .ofNat late.length }

/-- Queues a message for one client. -/
def send (r : Registry) (c : ClientId) (m : Message) : Registry := r.broadcast [c] m

/-- The registered clients by ascending number. -/
def registered (r : Registry) : List ClientId :=
  (r.outboxes.entries.filter (·.2.registered)).map (·.1)

/-- Queues a message for all registered clients. -/
def broadcastAll (r : Registry) (m : Message) : Registry := r.broadcast r.registered m

/-! ## Taking out -/

/-- What somebody finds who attends to a queue. -/
inductive Receipt where
  | message (m : Message)
  /-- nothing yet -/
  | empty
  /-- nothing, and nothing will come -/
  | closed
  deriving DecidableEq, Repr

/-- Takes the oldest message of a client out. -/
def receive (r : Registry) (c : ClientId) : Receipt × Registry :=
  match r.outboxes.get? c with
  | none => (.closed, r)
  | some box =>
    match box.waiting with
    | m :: waiting => (.message m, { r with outboxes := r.outboxes.insert c { box with waiting } })
    | [] => (if box.registered then .empty else .closed, r)

/-- Takes all messages of a client out: the messages, and whether none will come any more; in that case
the client is forgotten. There is nothing for clients that nobody attends to. -/
def drain (r : Registry) (c : ClientId) : List Message × Bool × Registry :=
  match r.outboxes.get? c with
  | none => ([], false, r)
  | some box =>
    if !box.attended then ([], false, r)
    else if box.registered then
      (box.waiting, false, { r with outboxes := r.outboxes.insert c { box with waiting := [] } })
    else (box.waiting, true, { r with outboxes := r.outboxes.erase c })

end Registry

end SharedSheet
