/-
Steps of a service. What can happen to a controller is listed once (`ServiceStep`, `ServerStep`), and what it makes of
the controller is defined once (`serveBy`, `operate`); runs of any kind are made of these steps. A client joins in
place, its sheet and its name being put into the tables one after the other, which ends as joining at once
(`connectInPlace_eq`): a refusal leaves nothing written.
-/
import SharedSheet.Proofs.Service.OpenSheet
import SharedSheet.Proofs.Sheet.Frame

namespace SharedSheet

variable {σ : Type}

/-- What clients do. -/
inductive ServiceStep where
  | register
  | connect (c : ClientId) (username sheetName : String)
  | handle (c : ClientId) (a : Action)
  | disconnect (c : ClientId)
  | dequeue (c : ClientId)
  deriving DecidableEq, Repr

/-- What can happen to a controller while a server runs: what its clients do, what sessions do with the queues, and
what becomes of the storage, which may also change by itself. Where a client hangs up it is still registered, and still
a member of its sheet. After a shutdown clients may come again. -/
inductive ServerStep (σ : Type) where
  | serve (e : ServiceStep)
  | queues (e : RegistryStep)
  | drain (c : ClientId)
  | hangUp (c : ClientId)
  | shutdown
  | stored (stored : σ)

namespace Controller

/-! ## One step -/

/-- One step of the clients, who leave in the way that is given. -/
def serveBy (ops : Storage σ) (leave : Controller σ → ClientId → Controller σ) (k : Controller σ) :
    ServiceStep → Controller σ
  | .register => k.register.2
  | .connect c username sheetName => (k.connectInPlace ops c username sheetName).2
  | .handle c a => k.handle c a
  | .disconnect c => leave k c
  | .dequeue c => { k with registry := (k.registry.receive c).2 }

/-- One step of the clients, where the last member that leaves a sheet closes it. -/
def serve (ops : Storage σ) (k : Controller σ) (e : ServiceStep) : Controller σ := k.serveBy ops (disconnect ops) e

def serveAll (ops : Storage σ) (k : Controller σ) (steps : List ServiceStep) : Controller σ :=
  steps.foldl (serve ops) k

/-- One step of a server. -/
def operate (ops : Storage σ) (k : Controller σ) : ServerStep σ → Controller σ
  | .serve e => k.serve ops e
  | .queues e => { k with registry := e.perform k.registry }
  | .drain c => { k with registry := (k.registry.drain c).2.2 }
  | .hangUp c => { k with registry := k.registry.abandon c }
  | .shutdown => k.shutdown ops
  | .stored stored => { k with stored }

def operateAll (ops : Storage σ) (k : Controller σ) (steps : List (ServerStep σ)) : Controller σ :=
  steps.foldl (operate ops) k

/-- Only clients that are not attached connect. -/
def admits (k : Controller σ) : ServiceStep → Bool
  | .connect c _ _ => (k.clients.get? c).isNone
  | .register | .handle .. | .disconnect _ | .dequeue _ => true

variable {ops : Storage σ} {k : Controller σ} {c : ClientId}

/-! ## Joining in place -/

section Joining

open Procedure

/-- A sheet that is opened in place is among the open ones then, if it was not before. -/
theorem run_openSheet (ops : Storage σ) (k : Controller σ) (name : String) :
    (Joining.openSheet ops name).run k =
      match k.openSheet ops name with
      | .ok o => .ok o { k with sheets := k.sheets.insert name o }
      | .error e => .error e k := by
  unfold Joining.openSheet openSheet
  rw [run_get]
  rcases ho : k.sheets.get? name with _ | o
  · dsimp only
    rcases ops.load k.stored name with e | r
    · rfl
    · rfl
  · dsimp only
    rw [Table.insert_eq_self ho]
    rfl

theorem run_addMember {name : String} {o : OpenSheet} (ho : k.sheets.get? name = some o) (c : ClientId) :
    (Joining.addMember name c).run k =
      .ok () { k with sheets := k.sheets.insert name { o with members := o.members.add c } } := by
  unfold Joining.addMember
  show EStateM.Result.ok () _ = _
  dsimp only
  rw [ho]

/-- Joining in place ends as joining at once, and what can be refused comes before the first write. -/
theorem run_connect (ops : Storage σ) (k : Controller σ) (c : ClientId) (username sheetName : String) :
    (Joining.connect ops c username sheetName).run k =
      match k.connect ops c username sheetName with
      | .ok (cells, k') => .ok cells k'
      | .error e => .error e k := by
  have hopen := run_openSheet ops k sheetName
  unfold Joining.connect connect
  rcases checkSheetName sheetName with e | _
  · rfl
  · show (Joining.openSheet ops sheetName >>= _).run k = _
    rcases ho : k.openSheet ops sheetName with e | o
    · rw [ho] at hopen
      exact run_bind_error hopen
    · rw [ho] at hopen
      -- the sheet is among the open ones when the client is added to its members
      let opened : Controller σ := { k with sheets := k.sheets.insert sheetName o }
      let entered : Controller σ := { opened with clients := k.clients.insert c ⟨username, sheetName⟩ }
      have hput : (Joining.putClient c ⟨username, sheetName⟩).run opened = .ok () entered := rfl
      have hadd := run_addMember (k := entered) (Table.get?_insert_self k.sheets sheetName o) c
      dsimp only [entered, opened] at hadd
      rw [Table.insert_insert] at hadd
      rw [run_bind hopen, run_bind hput, run_bind hadd]
      rfl

end Joining

theorem connectInPlace_eq (ops : Storage σ) (k : Controller σ) (c : ClientId) (username sheetName : String) :
    k.connectInPlace ops c username sheetName =
      match k.connect ops c username sheetName with
      | .ok (cells, k') => (.ok cells, k')
      | .error e => (.error e, k) := by
  unfold connectInPlace
  rw [run_connect]
  rcases k.connect ops c username sheetName with e | ⟨cells, k'⟩
  · rfl
  · rfl

theorem connectInPlace_of_invalid (ops : Storage σ) (k : Controller σ) {sheetName : String}
    (h : isSheetName sheetName = false) (c : ClientId) (username : String) :
    k.connectInPlace ops c username sheetName = (.error (.invalidName sheetName), k) := by
  rw [connectInPlace_eq, connect_of_invalid h]

theorem connectInPlace_of_refused {sheetName : String} {e : StorageError} (hname : isSheetName sheetName = true)
    (h : k.openSheet ops sheetName = .error e) (c : ClientId) (username : String) :
    k.connectInPlace ops c username sheetName = (.error e, k) := by
  rw [connectInPlace_eq, connect_of_refused hname h]

theorem connectInPlace_of_openSheet {sheetName : String} {o : OpenSheet} (hname : isSheetName sheetName = true)
    (ho : k.openSheet ops sheetName = .ok o) (c : ClientId) (username : String) :
    k.connectInPlace ops c username sheetName = (.ok o.sheet.populated, { k with
      sheets := k.sheets.insert sheetName { o with members := o.members.add c }
      clients := k.clients.insert c ⟨username, sheetName⟩ }) := by
  rw [connectInPlace_eq, connect_of_openSheet hname ho]

theorem registry_connectInPlace (ops : Storage σ) (k : Controller σ) (c : ClientId) (username sheetName : String) :
    (k.connectInPlace ops c username sheetName).2.registry = k.registry := by
  rw [connectInPlace_eq]
  rcases hk : k.connect ops c username sheetName with e | ⟨cells, k'⟩
  · rfl
  · obtain ⟨o, -, -, rfl⟩ := connect_eq_ok hk
    rfl

/-- Clients stay attached properly if only those connect that are not attached. -/
theorem WellAttached.serve (h : k.WellAttached) (ops : Storage σ) {e : ServiceStep} (hadmits : k.admits e = true) :
    (k.serve ops e).WellAttached := by
  cases e with
  | register | dequeue => exact ⟨h.attached, h.member⟩
  | connect c username sheetName =>
    show Controller.WellAttached (k.connectInPlace ops c username sheetName).2
    rw [connectInPlace_eq]
    rcases hk : k.connect ops c username sheetName with e | ⟨cells, k'⟩
    · exact h
    · exact h.connect (Option.isNone_iff_eq_none.1 hadmits) hk
  | handle c a => exact h.handle c a
  | disconnect c => exact h.disconnect ops c

/-! ## Hanging up -/

theorem attends_handle (h : k.registry.Attends c) (d : ClientId) (a : Action) : (k.handle d a).registry.Attends c := by
  rcases k.handle_cases d a with he | ⟨m, -, he⟩ | ⟨info, o, s', m, -, -, -, he⟩
  · rw [he]
    exact h
  · rw [he]
    exact h.broadcast (List.nodup_singleton d) m
  · rw [he]
    exact h.broadcast o.members.nodup_keys m

theorem attends_disconnect (h : k.registry.Attends c) (ops : Storage σ) (d : ClientId) :
    (k.disconnect ops d).registry.Attends c := by
  unfold Controller.disconnect
  split
  · exact h
  · dsimp only
    split
    · exact h
    · split
      · exact h.broadcast (Table.nodup_keys _) _
      · exact h.broadcast (Table.nodup_keys _) _

theorem attends_serve (h : k.registry.Attends c) (ops : Storage σ) (e : ServiceStep) :
    (k.serve ops e).registry.Attends c := by
  cases e with
  | register => exact h.insert (fun _ => rfl) _
  | connect d username sheetName =>
    show Registry.Attends (k.connectInPlace ops d username sheetName).2.registry c
    rw [registry_connectInPlace]
    exact h
  | handle d a => exact attends_handle h d a
  | disconnect d => exact attends_disconnect h ops d
  | dequeue d => exact h.receive d

theorem attends_shutdown (h : k.registry.Attends c) (ops : Storage σ) : (k.shutdown ops).registry.Attends c := by
  obtain ⟨stored, hframe⟩ := saveAll_frame ops k.sheets.entries k
  unfold shutdown
  dsimp only
  rw [hframe]
  exact (h.broadcast k.registry.nodup_registered _).unregisterAll

/-- As long as a client does not hang up, somebody attends to its queue. -/
theorem attends_operate (h : k.registry.Attends c) (ops : Storage σ) {e : ServerStep σ} (he : e ≠ .hangUp c) :
    (k.operate ops e).registry.Attends c := by
  cases e with
  | serve e => exact attends_serve h ops e
  | queues e => exact h.perform e
  | drain d => exact h.drain d
  | hangUp d => exact h.update fun hc => absurd (congrArg ServerStep.hangUp hc.symm) he
  | shutdown => exact attends_shutdown h ops
  | stored stored => exact h

theorem attends_run (h : k.registry.Attends c) (ops : Storage σ) {steps : List (ServerStep σ)}
    (hsteps : .hangUp c ∉ steps) : (k.operateAll ops steps).registry.Attends c := by
  induction steps generalizing k with
  | nil => exact h
  | cons e steps ih =>
    rw [List.mem_cons, not_or] at hsteps
    exact ih (attends_operate h ops (Ne.symm hsteps.1)) hsteps.2

end Controller

end SharedSheet
