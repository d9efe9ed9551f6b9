/-
The controller, which brings clients and sheets together. A sheet is open while it has members; it is
loaded for its first member and saved when the last one leaves. Requests are carried out on the sheet of
the client; what changed is told to all members, and a refusal to the client alone.
-/
import SharedSheet.Service.Registry
import SharedSheet.Storage.Store

namespace SharedSheet

/-- An open sheet and the clients that share it. -/
structure OpenSheet where
  sheet : Sheet
  members : KeySet ClientId
  deriving DecidableEq

/-- The name of a client and the sheet that it is attached to. -/
structure Attachment where
  username : String
  sheetName : String
  deriving DecidableEq, Repr

/-- The state of a controller whose storage has the state `σ`. -/
structure Controller (σ : Type) where
  stored : σ
  registry : Registry
  policy : Policy
  sheets : Table String OpenSheet
  clients : Table ClientId Attachment

namespace Controller

variable {σ : Type}

/-- The controller without clients. -/
def new (stored : σ) (registry : Registry) (policy : Policy) : Controller σ :=
  ⟨stored, registry, policy, Table.empty, Table.empty⟩

/-- The names of the stored and the open sheets, ascending. A storage that refuses counts as empty. -/
def sheetNames (ops : Storage σ) (k : Controller σ) : List String :=
  (KeySet.ofList ((ops.list k.stored).toOption.getD [] ++ k.sheets.keys)).keys

/-- Registers a client and makes its queue. -/
def register (k : Controller σ) : ClientId × Controller σ :=
  let (c, registry) := k.registry.register
  (c, { k with registry })

/-- The sheet with this name: the open one, or else the stored one, without members. -/
def openSheet (ops : Storage σ) (k : Controller σ) (name : String) : Except StorageError OpenSheet :=
  match k.sheets.get? name with
  | some o => .ok o
  | none => (ops.load k.stored name).map fun r => ⟨Sheet.restore r k.policy, Table.empty⟩

/-- Attaches a client to a sheet: the cells that the client starts with, and the controller then. -/
def connect (ops : Storage σ) (k : Controller σ) (c : ClientId) (username sheetName : String) :
    Except StorageError (List CellRecord × Controller σ) := do
  checkSheetName sheetName
  let o ← k.openSheet ops sheetName
  return (o.sheet.populated,
    { k with
      sheets := k.sheets.insert sheetName { o with members := o.members.add c }
      clients := k.clients.insert c ⟨username, sheetName⟩ })

/-- What the members of a sheet are told when a client's action succeeded. -/
def announcement (c : ClientId) (username : String) (a : Action) (o : Outcome) : Message :=
  let cell := o.affectedCell.getD ""
  match a with
  | .select _ => .cellSelected cell c username
  | .edit .. | .revert _ | .undo => .cellUpdated cell (o.newContent.getD "")

/-- Carries out an action of a client, and tells its effect to those whom it concerns. Actions of clients
without a sheet have no effect. -/
def handle (k : Controller σ) (c : ClientId) (a : Action) : Controller σ :=
  match k.clients.get? c with
  | none => k
  | some info =>
    match k.sheets.get? info.sheetName with
    | none => k
    | some o =>
      let (outcome, sheet) := o.sheet.apply ⟨c, a⟩
      match Message.ofRejection? outcome with
      | some refusal => { k with registry := k.registry.send c refusal }
      | none =>
        { k with
          sheets := k.sheets.insert info.sheetName { o with sheet }
          registry := k.registry.broadcast o.members.keys (announcement c info.username a outcome) }

/-- Saves a sheet. If that fails the stored copy stays as it was. -/
def save (ops : Storage σ) (k : Controller σ) (name : String) (s : Sheet) : Controller σ :=
  { k with stored := (ops.save k.stored name s.record).2 }

/-- Detaches a client and tells the remaining members. The last member closes the sheet, which is saved. -/
def disconnect (ops : Storage σ) (k : Controller σ) (c : ClientId) : Controller σ :=
  match k.clients.get? c with
  | none => k
  | some info =>
    let k := { k with clients := k.clients.erase c }
    match k.sheets.get? info.sheetName with
    | none => k
    | some o =>
      let members := o.members.erase c
      let sheet := o.sheet.deselect c
      let k := { k with registry := k.registry.broadcast members.keys (.disconnected c) }
      if members.isEmpty then
        save ops { k with sheets := k.sheets.erase info.sheetName } info.sheetName sheet
      else { k with sheets := k.sheets.insert info.sheetName ⟨sheet, members⟩ }

/-- What clients are told when the service ends. -/
def closingMessage : Message := .serverError "Server closing"

/-- Saves all open sheets, tells all clients, and detaches them. -/
def shutdown (ops : Storage σ) (k : Controller σ) : Controller σ :=
  let k := k.sheets.entries.foldl (fun k e => save ops k e.1 e.2.sheet) k
  { k with
    registry := (k.registry.broadcastAll closingMessage).unregisterAll
    sheets := Table.empty
    clients := Table.empty }

end Controller

/-! ## Joining in place

Joining as a procedure that changes the controller in place, one write after the other in the order in which
they happen. A sheet that is not open is loaded and put among the open ones without members; then the client
is put into the table of clients, and after that among the members. A refusal ends the procedure where it
stands, and what was written before it stays written. -/

/-- A procedure on a controller, which can end with a refusal of the storage. -/
abbrev Joining (σ : Type) := EStateM StorageError (Controller σ)

namespace Joining

variable {σ : Type}

def putSheet (name : String) (o : OpenSheet) : Joining σ Unit :=
  modify fun k => { k with sheets := k.sheets.insert name o }

def putClient (c : ClientId) (info : Attachment) : Joining σ Unit :=
  modify fun k => { k with clients := k.clients.insert c info }

/-- Adds a client to the members of an open sheet. -/
def addMember (name : String) (c : ClientId) : Joining σ Unit :=
  modify fun k =>
    match k.sheets.get? name with
    | some o => { k with sheets := k.sheets.insert name { o with members := o.members.add c } }
    | none => k

/-- The open sheet with this name, which is loaded if it is not open. -/
def openSheet (ops : Storage σ) (name : String) : Joining σ OpenSheet := do
  let k ← get
  match k.sheets.get? name with
  | some o => return o
  | none =>
    let r ← ofExcept (ops.load k.stored name)
    let o : OpenSheet := ⟨Sheet.restore r k.policy, Table.empty⟩
    putSheet name o
    return o

/-- Attaches a client to a sheet; the result is the cells that the client starts with. -/
def connect (ops : Storage σ) (c : ClientId) (username sheetName : String) : Joining σ (List CellRecord) := do
  ofExcept (checkSheetName sheetName)
  let o ← openSheet ops sheetName
  putClient c ⟨username, sheetName⟩
  addMember sheetName c
  return o.sheet.populated

end Joining

/-- Attaches a client to a sheet in place: the cells or the refusal, and the controller as it is left. -/
def Controller.connectInPlace {σ : Type} (ops : Storage σ) (k : Controller σ) (c : ClientId)
    (username sheetName : String) : Except StorageError (List CellRecord) × Controller σ :=
  match (Joining.connect ops c username sheetName).run k with
  | .ok cells k => (.ok cells, k)
  | .error e k => (.error e, k)

end SharedSheet
