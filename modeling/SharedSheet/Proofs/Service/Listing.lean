/-
Listing. Names of sheets come from lines that clients have sent, and go out again in listings (`names_survive`). In
every run that begins with an empty store, whatever fails on the way, every name that is listed is one that a client
has said and that a sheet can have (`Sayable`). So a listing is read back as it was, and a client that sends one of
its lines back says the very name that stands there, and joins the sheet with this name.
-/
import SharedSheet.Proofs.Service.Upkeep
import SharedSheet.Proofs.Sheet.Lengths
import SharedSheet.Proofs.Storage.Names
import SharedSheet.Proofs.Wire.Handshake
import SharedSheet.Service.Session

namespace SharedSheet

variable {σ : Type} {ops : Storage σ}

/-! ## All names have been said -/

/-- Clients name their sheets by lines that they send, and the storage does not change by itself. -/
def ServerStep.ByLines : ServerStep σ → Prop
  | .serve (.connect _ _ sheetName) => ∃ line, Handshake.field? line = some sheetName
  | .stored _ => False
  | _ => True

theorem ServerStep.ByLines.within {e : ServerStep σ} (h : e.ByLines) (Q : σ → Prop) :
    e.Within (fun name => ∃ line, Handshake.field? line = some name) Q := by
  cases e with
  | serve e => cases e <;> exact h
  | stored s => exact h.elim
  | queues | drain | hangUp | shutdown => trivial

/-- A name that a sheet can have and that a line of a client can say. -/
def Sayable (name : String) : Prop := isSheetName name = true ∧ ∃ line, Handshake.field? line = some name

/-- A sheet gets its name from the line with which it was first joined. -/
theorem upkeep_sayable {Knows : σ → String → Prop} (hops : ops.Remembers Knows) :
    Upkeep ops (fun name => ∃ line, Handshake.field? line = some name) (fun name _ => Sayable name)
      (fun name _ => Sayable name) (fun stored => ∀ name, Knows stored name → Sayable name)
      (fun stored => ∀ name, Knows stored name → Sayable name) where
  sheet _ _ h := h
  storage _ h := h
  apply _ _ _ h := h
  deselect _ _ _ h := h
  load _ _ _ _ _ hname hsaid _ := ⟨hname, hsaid⟩
  save stored name s hstored hname other hother := by
    rcases hops.save stored name s.record other hother with hold | rfl
    · exact hstored other hold
    · exact hname

/-- What is listed has been said. -/
theorem sayable_of_listed {Knows : σ → String → Prop} (hops : ops.Remembers Knows) {k : Controller σ}
    (h : k.Upholds (fun name _ => Sayable name) fun stored => ∀ name, Knows stored name → Sayable name) {name : String}
    (hname : name ∈ k.sheetNames ops) : Sayable name := by
  unfold Controller.sheetNames at hname
  rw [KeySet.mem_keys_ofList, List.mem_append] at hname
  rcases hname with hstored | hopened
  · rcases hlist : ops.list k.stored with e | names
    · rw [hlist] at hstored
      exact absurd hstored List.not_mem_nil
    · rw [hlist] at hstored
      exact h.stored name (hops.list k.stored names hlist name hstored)
  · obtain ⟨o, ho⟩ := Table.mem_keys_iff.1 hopened
    exact h.opened name o ho

/-! ## All sheets can be loaded -/

/-- What a store holds, without a history of more than `n` entries. -/
def Store.HoldsShort (n : ℕ) (s : Store) : Prop := ∃ m, s.Holds m ∧ ∀ name r, m name = some r → r.Short n

theorem Store.HoldsShort.load {n : ℕ} {s : Store} (h : s.HoldsShort n) {name : String}
    (hname : isSheetName name = true) : ∃ r, s.load name = .ok r ∧ r.Short n := by
  obtain ⟨m, hm, hshort⟩ := h
  refine ⟨_, Store.keeps.load s m name hm hname, ?_⟩
  rcases hr : m name with _ | r
  · intro c hc
    exact absurd hc List.not_mem_nil
  · exact hshort name r hr

/-- A consistent sheet under a name that it can have, without a history of more than `n` entries. -/
structure Savable (n : ℕ) (name : String) (s : Sheet) : Prop where
  name : isSheetName name = true
  short : s.Short n
  consistent : s.Consistent

/-- As long as the lengths of histories are numbers of 64 bits, whatever is saved can be loaded. -/
theorem upkeep_savable (Said : String → Prop) {n : ℕ} (hn : n < UInt64.size) :
    Upkeep Store.storage Said (Savable n) (Savable (n + 1)) (Store.HoldsShort n) (Store.HoldsShort (n + 1)) where
  sheet _ _ h := ⟨h.name, h.short.succ, h.consistent⟩
  storage _ := by
    rintro ⟨m, hm, hshort⟩
    exact ⟨m, hm, fun name r hr c hc => (hshort name r hr c hc).trans (Nat.le_succ n)⟩
  apply _ s r h := ⟨h.name, h.short.apply r, Sheet.consistent_after s (.request r) h.consistent⟩
  deselect _ s c h := ⟨h.name, h.short, Sheet.consistent_after s (.deselect c) h.consistent⟩
  load stored name r policy h hname _ hload := by
    obtain ⟨r', hload', hshort⟩ := h.load hname
    cases hload'.symm.trans hload
    exact ⟨hname, (Sheet.Short.restore hshort policy).succ, Sheet.consistent_restore r policy⟩
  save stored name s := by
    rintro ⟨m, hm, hshort⟩ ⟨hname, hs, hconsistent⟩
    have hrecord := hs.record
    rcases hm.save hname hconsistent.named.ascending fun c hc => (hrecord c hc).trans_lt hn with hnew | hold
    · refine ⟨_, hnew, fun other r hr => ?_⟩
      rw [Function.update_apply] at hr
      split at hr
      · cases hr
        exact hrecord
      · exact hshort other r hr
    · exact ⟨m, hold, hshort⟩

theorem Store.HoldsShort.openSheet {n : ℕ} {k : Controller Store} (h : k.stored.HoldsShort n) {name : String}
    (hname : isSheetName name = true) : ∃ o, k.openSheet Store.storage name = .ok o := by
  unfold Controller.openSheet
  rcases k.sheets.get? name with _ | o
  · obtain ⟨r, hload, -⟩ := h.load hname
    change ∃ o, ((k.stored.load name).map fun r => _) = .ok o
    rw [hload]
    exact ⟨_, rfl⟩
  · exact ⟨o, rfl⟩

/-! ## Saying a name -/

/-- A client that says a name joins the open sheet of this name, or else the one that is loaded under it; the only
refusal is that of the storage. -/
theorem Service.takeLine_choosing (ops : Storage σ) (v : Service σ) (c : ClientId) (username : String)
    {line name : String} (hline : Handshake.field? line = some name) (hname : isSheetName name = true) :
    v.takeLine ops ⟨c, .choosing username⟩ line =
      match v.controller.openSheet ops name with
      | .ok o => (welcome c o.sheet.populated, .serving 0,
          { v with controller := { v.controller with
            sheets := v.controller.sheets.insert name { o with members := o.members.add c }
            clients := v.controller.clients.insert c ⟨username, name⟩ } })
      | .error e => ((Message.serverError (e.message v.wording.toCauses)).encode, .finished, v) := by
  unfold takeLine
  dsimp only
  rw [hline]
  dsimp only
  rcases ho : v.controller.openSheet ops name with e | o
  · rw [Controller.connect_of_refused hname ho]
  · rw [Controller.connect_of_openSheet hname ho]

/-- Names of sheets survive the wire. A listing of names that sheets can have is read back as it was. And in every run
of a controller over a store of any kind that was empty at first, where clients name sheets by lines: the listing is
read back as it was, each name in it is one that a sheet can have and is what the line says that has this name and a
newline, and a client whose line says the name joins the sheet of this name: the open one if there is one, and else
the stored one. It could be refused only if the store could not load the sheet, which does not happen in a run of
`2 ^ 64` steps: no history is longer than the run, so the lengths are numbers of 64 bits. -/
theorem names_survive :
    (∀ names : List String, (∀ name ∈ names, isSheetName name = true) →
      Handshake.parseListing (Handshake.listing names) = names) ∧
    ∀ (backend : Backend) (s : Store), Store.attach backend Table.empty = .ok s →
      ∀ (depth : ℕ) (policy : Policy) (steps : List (ServerStep Store)), (∀ e ∈ steps, e.ByLines) →
      let k := (Controller.new s (Registry.new depth) policy).operateAll Store.storage steps
      Handshake.parseListing (Handshake.listing (k.sheetNames Store.storage)) = k.sheetNames Store.storage ∧
      ∀ name ∈ k.sheetNames Store.storage, isSheetName name = true ∧ Handshake.field? (name ++ "\n") = some name ∧
        (steps.length ≤ UInt64.size → ∃ o, k.openSheet Store.storage name = .ok o) ∧
        ∀ (limits : Limits) (wording : Wording) (metrics : Metrics) (c : ClientId) (username line : String),
          Handshake.field? line = some name →
          Service.takeLine Store.storage ⟨k, limits, wording, metrics⟩ ⟨c, .choosing username⟩ line =
            match k.openSheet Store.storage name with
            | .ok o => (Service.welcome c o.sheet.populated, .serving 0,
                ⟨{ k with
                    sheets := k.sheets.insert name { o with members := o.members.add c }
                    clients := k.clients.insert c ⟨username, name⟩ }, limits, wording, metrics⟩)
            | .error e => ((Message.serverError (e.message wording.toCauses)).encode, .finished,
                ⟨k, limits, wording, metrics⟩) := by
  refine ⟨fun names h => Handshake.parseListing_listing h, ?_⟩
  intro backend s hs depth policy steps hsteps k
  -- at first nothing is open and nothing is stored
  have hempty : s.HoldsShort 0 := by
    obtain ⟨s', hs', hholds⟩ := Store.attach_empty backend
    cases hs'.symm.trans hs
    exact ⟨_, hholds, fun _ _ hr => by cases hr⟩
  have hnamed : (Controller.new s (Registry.new depth) policy).Upholds (fun name _ => Sayable name)
      fun stored => ∀ name, Store.Knows stored name → Sayable name :=
    Controller.upholds_new (fun name hname => absurd hname (Store.not_knows_attach hs name)) (Registry.new depth) policy
  have hk := Controller.Upholds.run (n := 0) (fun _ _ => upkeep_sayable Store.remembers) hnamed
    (fun _ e he => (hsteps e he).within _) le_rfl
  have hsayable : ∀ name ∈ k.sheetNames Store.storage, Sayable name := fun _ => sayable_of_listed Store.remembers hk
  refine ⟨Handshake.parseListing_listing fun name hname => (hsayable name hname).1, fun name hname => ?_⟩
  obtain ⟨hvalid, line, hline⟩ := hsayable name hname
  refine ⟨hvalid, Handshake.field?_newline hline, fun hlength => ?_,
    fun limits wording metrics c username line hline => ?_⟩
  · have hshort := Controller.Upholds.run (fun _ => upkeep_savable _)
      (Controller.upholds_new (P := Savable 0) hempty (Registry.new depth) policy)
      (fun _ e he => (hsteps e he).within _) ((Nat.zero_add _).trans_le hlength)
    exact hshort.stored.openSheet hvalid
  · exact Service.takeLine_choosing Store.storage ⟨k, limits, wording, metrics⟩ c username hline hvalid

/-- Client 1 joins a sheet whose name has a line separator in it, with blanks around it in the line, and leaves it
again; client 2 is on a sheet that is called like a file. Client 3 sends back the line with the first sheet, and is on
it. -/
theorem names_survive_separator :
    let wording : Wording := ⟨⟨fun _ => "", fun _ => ""⟩, fun _ => ""⟩
    let steps : List (ServerStep Store) := [.serve .register, .serve .register,
      .serve (.connect 1 "first" "Q3 \u2028 numbers"), .serve (.connect 2 "second" ".sprd"), .serve (.disconnect 1),
      .serve .register]
    let store : Store := ⟨.text, Table.empty, Table.empty⟩
    let k := (Controller.new store (Registry.new 2) Policy.unbounded).operateAll Store.storage steps
    Store.attach .text Table.empty = .ok store ∧ (∀ e ∈ steps, e.ByLines) ∧
      k.sheetNames Store.storage = [".sprd", "Q3 \u2028 numbers"] ∧
      Handshake.parseListing (Handshake.listing [".sprd", "Q3 \u2028 numbers"]) = [".sprd", "Q3 \u2028 numbers"] ∧
      Handshake.field? ("Q3 \u2028 numbers" ++ "\n") = some "Q3 \u2028 numbers" ∧
      (Service.takeLine Store.storage (Service.new k Limits.default wording) ⟨3, .choosing "third"⟩
        ("Q3 \u2028 numbers" ++ "\n")).2.1 = .serving 0 := by
  intro wording steps store k
  have hsteps : ∀ e ∈ steps, e.ByLines := by
    intro e he
    simp only [steps, List.mem_cons, List.not_mem_nil, or_false] at he
    rcases he with rfl | rfl | rfl | rfl | rfl | rfl
    · exact trivial
    · exact trivial
    · exact ⟨"\u3000 Q3 \u2028 numbers\u00a0", by decide +kernel⟩
    · exact ⟨".sprd", by decide +kernel⟩
    · exact trivial
    · exact trivial
  have hnames : k.sheetNames Store.storage = [".sprd", "Q3 \u2028 numbers"] := by decide +kernel
  obtain ⟨hlisting, hall⟩ := names_survive.2 .text store rfl 2 Policy.unbounded steps hsteps
  rw [show Controller.sheetNames Store.storage _ = _ from hnames] at hlisting
  obtain ⟨-, hfield, hopen, hjoin⟩ := hall "Q3 \u2028 numbers" (hnames ▸ by simp)
  refine ⟨rfl, hsteps, hnames, hlisting, hfield, ?_⟩
  obtain ⟨o, ho⟩ := hopen (by decide)
  have hjoined := hjoin Limits.default wording ⟨0, 0, 0⟩ 3 "third" _ hfield
  rw [ho] at hjoined
  exact congrArg (·.2.1) hjoined

end SharedSheet
