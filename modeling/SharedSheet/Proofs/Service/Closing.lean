/-
Closing and opening again. A sheet is closed when its last member leaves and loaded when somebody joins it again, and
nobody can tell (`closing_unseen`): a controller that keeps all sheets open runs alike. Between the two runs stands
`Lingers`: they have the same clients and queues, and the sheets as they are now are the same, whether they are open or
stored. One step keeps it (`Lingers.after`), and the rest is an induction on the steps.
-/
import SharedSheet.Proofs.Service.Steps

namespace SharedSheet.Controller

open Sheet OpenSheet

variable {σ : Type}

/-! ## Runs -/

/-- Detaches a client as `disconnect` does, but the sheet stays open, whoever is left. -/
def linger (k : Controller σ) (c : ClientId) : Controller σ :=
  match k.clients.get? c with
  | none => k
  | some info =>
    let k := { k with clients := k.clients.erase c }
    match k.sheets.get? info.sheetName with
    | none => k
    | some o =>
      { k with
        sheets := k.sheets.insert info.sheetName (o.leave c)
        registry := k.registry.broadcast (o.leave c).members.keys (.disconnected c) }

theorem linger_of_detached {k : Controller σ} {c : ClientId} (h : k.clients.get? c = none) : k.linger c = k := by
  unfold linger
  rw [h]

theorem linger_eq {k : Controller σ} {c : ClientId} {info : Attachment} {o : OpenSheet}
    (hinfo : k.clients.get? c = some info) (ho : k.sheets.get? info.sheetName = some o) :
    k.linger c = { k with
      clients := k.clients.erase c
      sheets := k.sheets.insert info.sheetName (o.leave c)
      registry := k.registry.broadcast (o.leave c).members.keys (.disconnected c) } := by
  unfold linger
  rw [hinfo]
  dsimp only
  rw [ho]

/-- One step, in which clients leave in this way. Only clients that are not attached connect. -/
def after (ops : Storage σ) (leave : Controller σ → ClientId → Controller σ) (k : Controller σ) (e : ServiceStep) :
    Controller σ := if k.admits e then k.serveBy ops leave e else k

/-- A run in which the last member that leaves closes a sheet. -/
def closingRun (ops : Storage σ) (k : Controller σ) (steps : List ServiceStep) : Controller σ :=
  steps.foldl (after ops (disconnect ops)) k

/-- A run in which sheets stay open. -/
def lingeringRun (ops : Storage σ) (k : Controller σ) (steps : List ServiceStep) : Controller σ :=
  steps.foldl (after ops linger) k

/-! ## The same sheets -/

variable {ops : Storage σ} {Holds : σ → Shelf → Prop} {policy : Policy} {m m₀ : Shelf} {k p : Controller σ}

/-- A sheet of a controller that closes sheets and of one that keeps them open. Both have it open; or one has closed it,
and in the other it has no members; or neither has opened it. -/
inductive Kept : Option OpenSheet → Option OpenSheet → Prop where
  | opened (o : OpenSheet) : Kept (some o) (some o)
  | closed (o : OpenSheet) (hempty : o.members.isEmpty = true) : Kept none (some o)
  | untouched : Kept none none

/-- A controller `k` that closes sheets and a controller `p` that keeps them open. The storage of `k` holds `m` and that
of `p` still holds `m₀`, but all sheets as they are now are the same. -/
structure Lingers (Holds : σ → Shelf → Prop) (policy : Policy) (m₀ : Shelf) (k p : Controller σ) (m : Shelf) :
    Prop where
  attached : k.WellAttached
  holds : Holds k.stored m
  held : Holds p.stored m₀
  policy_eq : k.policy = policy ∧ p.policy = policy
  registry : p.registry = k.registry
  clients : p.clients = k.clients
  sheets : ∀ name, Kept (k.sheets.get? name) (p.sheets.get? name)
  proper : AllProper policy p.sheets
  current : p.current m₀ = k.current m

theorem lingers_new {stored : σ} (h : Holds stored m) (registry : Registry) (policy : Policy) :
    Lingers Holds policy m (new stored registry policy) (new stored registry policy) m where
  attached := wellAttached_new ..
  holds := h
  held := h
  policy_eq := ⟨rfl, rfl⟩
  registry := rfl
  clients := rfl
  sheets _ := .untouched
  proper _ _ h := by cases h
  current := rfl

/-- What is open where sheets are closed is open, and the same, where they are not. -/
theorem Lingers.opened (h : Lingers Holds policy m₀ k p m) {name : String} {o : OpenSheet}
    (ho : k.sheets.get? name = some o) : p.sheets.get? name = some o ∧ isSheetName name = true ∧ o.Proper policy := by
  have hkept := h.sheets name
  rw [ho] at hkept
  generalize hp : p.sheets.get? name = sheet at hkept
  cases hkept
  exact ⟨rfl, h.proper name o hp⟩

/-- Both put the same sheet in place of the one that they had. -/
theorem Lingers.put (h : Lingers Holds policy m₀ k p m) {name : String} {o : OpenSheet}
    (hname : isSheetName name = true) (ho : o.Proper policy) {registry : Registry} {clients : Table ClientId Attachment}
    (hattached : WellAttached { k with registry, clients, sheets := k.sheets.insert name o }) :
    Lingers Holds policy m₀ { k with registry, clients, sheets := k.sheets.insert name o }
      { p with registry, clients, sheets := p.sheets.insert name o } m where
  attached := hattached
  holds := h.holds
  held := h.held
  policy_eq := h.policy_eq
  registry := rfl
  clients := rfl
  sheets x := by
    dsimp only
    rw [Table.get?_insert, Table.get?_insert]
    split
    · exact .opened o
    · exact h.sheets x
  proper := h.proper.insert hname ho
  current := by
    rw [current_insert, current_insert, h.current]

/-! ## The steps keep it -/

/-- The sheets that are closed after a step are stored as they were before it. -/
def KeepsClosed (k : Controller σ) (m : Shelf) (k' : Controller σ) (m' : Shelf) : Prop :=
  ∀ name, k'.sheets.get? name = none → m' name = k.current m name

/-- A step that closes no sheet stores nothing. -/
theorem keepsClosed_of_open {k' : Controller σ}
    (h : ∀ name, k'.sheets.get? name = none → k.sheets.get? name = none) : KeepsClosed k m k' m :=
  fun name hname => (current_of_closed (h name hname)).symm

theorem open_of_insert {sheets : Table String OpenSheet} {name x : String} {o : OpenSheet}
    (h : (sheets.insert name o).get? x = none) : sheets.get? x = none := by
  rw [Table.get?_insert] at h
  split at h
  · cases h
  · exact h

theorem Lingers.handle (h : Lingers Holds policy m₀ k p m) (c : ClientId) (a : Action) :
    Lingers Holds policy m₀ (k.handle c a) (p.handle c a) m ∧ KeepsClosed k m (k.handle c a) m := by
  rcases hinfo : k.clients.get? c with _ | info
  · rw [handle_of_detached hinfo, handle_of_detached (h.clients ▸ hinfo)]
    exact ⟨h, keepsClosed_of_open fun _ hx => hx⟩
  · obtain ⟨o, ho, hmem⟩ := h.attached.attached c info hinfo
    obtain ⟨hpo, hname, hproper⟩ := h.opened ho
    have hattached := h.attached.handle c a
    rw [handle_eq hinfo ho] at hattached ⊢
    rw [handle_eq (h.clients ▸ hinfo) hpo, h.registry, h.clients]
    exact ⟨h.put hname (hproper.apply hmem a) hattached, keepsClosed_of_open fun _ => open_of_insert⟩

/-- The queues play no part in it. -/
theorem Lingers.setRegistry (h : Lingers Holds policy m₀ k p m) (registry : Registry) :
    Lingers Holds policy m₀ { k with registry } { p with registry } m :=
  { h with attached := ⟨h.attached.attached, h.attached.member⟩, registry := rfl }

/-! ## What can be seen -/

/-- What a client gets that joins a sheet: the cells, and the sheet with its members. -/
def join (ops : Storage σ) (k : Controller σ) (c : ClientId) (username sheetName : String) :
    Except StorageError (List CellRecord × Option OpenSheet) :=
  let (result, k') := k.connectInPlace ops c username sheetName
  result.map fun cells => (cells, k'.sheets.get? sheetName)

/-- Two controllers that cannot be told apart: the same clients with the same queues and sheets, the same list of names,
and the same for everybody who joins a sheet. -/
structure Alike (ops : Storage σ) (k p : Controller σ) : Prop where
  registry : p.registry = k.registry
  clients : p.clients = k.clients
  sheetOf : ∀ c, p.sheetOf c = k.sheetOf c
  sheetNames : p.sheetNames ops = k.sheetNames ops
  join : ∀ c username name, p.join ops c username name = k.join ops c username name

/-! ## A storage that keeps what is saved -/

section Keeping

variable (hops : ops.Keeps Holds fun _ r => r.IsOrdered)
include hops

/-- Whether a sheet was closed or not, who joins it finds the same. -/
theorem Lingers.openSheet (h : Lingers Holds policy m₀ k p m) {name : String} (hname : isSheetName name = true) :
    k.openSheet ops name = p.openSheet ops name := by
  have hcurrent := congrFun h.current name
  have hkept := h.sheets name
  unfold Controller.openSheet
  rw [hops.load k.stored m name h.holds hname, hops.load p.stored m₀ name h.held hname, h.policy_eq.1, h.policy_eq.2]
  generalize hk : k.sheets.get? name = sheet at hkept
  generalize hp : p.sheets.get? name = sheet' at hkept
  cases hkept with
  | opened o => rfl
  | closed o hempty =>
    -- the record that was stored on closing restores all of the sheet
    rw [current_of_closed hk, current_of_open hp] at hcurrent
    dsimp only
    rw [← hcurrent]
    exact congrArg Except.ok ((h.proper name o hp).2.eq_restore hempty)
  | untouched =>
    rw [current_of_closed hk, current_of_closed hp] at hcurrent
    rw [hcurrent]

/-- Whoever joins a sheet finds it as it is now, selections aside. -/
theorem Lingers.openSheet_eq (h : Lingers Holds policy m₀ k p m) {name : String} (hname : isSheetName name = true) :
    ∃ o, k.openSheet ops name = .ok o ∧ o.Proper policy ∧
      { o.sheet with selections := Table.empty } = restore ((k.current m name).getD SheetRecord.empty) policy := by
  unfold Controller.openSheet
  rcases hk : k.sheets.get? name with _ | o
  · refine ⟨⟨restore ((m name).getD SheetRecord.empty) policy, Table.empty⟩, ?_, proper_restore _ _, ?_⟩
    · dsimp only
      rw [hops.load k.stored m name h.holds hname, h.policy_eq.1]
      rfl
    · rw [current_of_closed hk]
      dsimp only
      rw [← selections_restore ((m name).getD SheetRecord.empty) policy]
  · obtain ⟨-, -, hproper⟩ := h.opened hk
    refine ⟨o, rfl, hproper, ?_⟩
    rw [current_of_open hk]
    exact hproper.restore_record.symm

/-- The controller closes a sheet that has no members any more; it is stored as it is now. -/
theorem Lingers.close (h : Lingers Holds policy m₀ k p m) {name : String}
    {o : OpenSheet} (hname : isSheetName name = true) (ho : o.Proper policy) (hempty : o.members.isEmpty = true)
    {registry : Registry} {clients : Table ClientId Attachment}
    (hattached : WellAttached { k with
      stored := (ops.save k.stored name o.sheet.record).2, registry, clients, sheets := k.sheets.erase name }) :
    Lingers Holds policy m₀
      { k with stored := (ops.save k.stored name o.sheet.record).2, registry, clients, sheets := k.sheets.erase name }
      { p with registry, clients, sheets := p.sheets.insert name o }
      (Function.update m name (some o.sheet.record)) where
  attached := hattached
  holds := (hops.save k.stored m name _ h.holds hname ho.consistent.named.ascending).2
  held := h.held
  policy_eq := h.policy_eq
  registry := rfl
  clients := rfl
  sheets x := by
    dsimp only
    rw [Table.get?_erase, Table.get?_insert]
    split
    · exact .closed o hempty
    · exact h.sheets x
  proper := h.proper.insert hname ho
  current := by
    rw [current_insert, current_erase, h.current]

theorem Lingers.connect (h : Lingers Holds policy m₀ k p m) (c : ClientId) (username sheetName : String) :
    Lingers Holds policy m₀ (k.after ops (Controller.disconnect ops) (.connect c username sheetName))
        (p.after ops linger (.connect c username sheetName)) m ∧
      KeepsClosed k m (k.after ops (Controller.disconnect ops) (.connect c username sheetName)) m := by
  unfold Controller.after admits serveBy
  dsimp only
  rw [h.clients]
  by_cases hfree : (k.clients.get? c).isNone = true
  · rw [if_pos hfree, if_pos hfree]
    rcases hname : isSheetName sheetName with _ | _
    · rw [connectInPlace_of_invalid ops k hname, connectInPlace_of_invalid ops p hname]
      exact ⟨h, keepsClosed_of_open fun _ hx => hx⟩
    · obtain ⟨o, ho, hproper, -⟩ := h.openSheet_eq hops hname
      have hattached := h.attached.connect (Option.isNone_iff_eq_none.1 hfree) (connect_of_openSheet hname ho c username)
      rw [connectInPlace_of_openSheet hname ho,
        connectInPlace_of_openSheet hname ((h.openSheet hops hname).symm.trans ho), h.clients, h.registry]
      exact ⟨h.put hname (hproper.join c) hattached, keepsClosed_of_open fun _ => open_of_insert⟩
  · rw [if_neg hfree, if_neg hfree]
    exact ⟨h, keepsClosed_of_open fun _ hx => hx⟩

theorem Lingers.disconnect (h : Lingers Holds policy m₀ k p m) (c : ClientId) :
    ∃ m', Lingers Holds policy m₀ (k.disconnect ops c) (p.linger c) m' ∧ KeepsClosed k m (k.disconnect ops c) m' := by
  rcases hinfo : k.clients.get? c with _ | info
  · rw [disconnect_of_detached ops hinfo, linger_of_detached (h.clients ▸ hinfo)]
    exact ⟨m, h, keepsClosed_of_open fun _ hx => hx⟩
  · obtain ⟨o, ho, -⟩ := h.attached.attached c info hinfo
    obtain ⟨hpo, hname, hproper⟩ := h.opened ho
    have hattached := h.attached.disconnect ops c
    rw [disconnect_eq ops hinfo ho] at hattached ⊢
    rw [linger_eq (h.clients ▸ hinfo) hpo, h.registry, h.clients]
    by_cases hempty : (o.leave c).members.isEmpty = true
    · rw [if_pos hempty] at hattached ⊢
      refine ⟨_, h.close hops hname (hproper.leave c) hempty hattached, fun x hx => ?_⟩
      dsimp only at hx
      rw [Table.get?_erase] at hx
      rw [Function.update_apply]
      split at hx
      · rename_i hn
        rw [if_pos hn, hn, current_of_open ho]
        rfl
      · rename_i hn
        rw [if_neg hn, current_of_closed hx]
    · rw [if_neg hempty] at hattached ⊢
      exact ⟨m, h.put hname (hproper.leave c) hattached, keepsClosed_of_open fun _ => open_of_insert⟩

/-- Every step keeps the two runs alike, whatever is closed in one of them. -/
theorem Lingers.after (h : Lingers Holds policy m₀ k p m) (e : ServiceStep) :
    ∃ m', Lingers Holds policy m₀ (k.after ops (Controller.disconnect ops) e) (p.after ops linger e) m' ∧
      KeepsClosed k m (k.after ops (Controller.disconnect ops) e) m' := by
  rcases e with _ | ⟨c, username, sheetName⟩ | ⟨c, a⟩ | c | c
  · refine ⟨m, ?_, keepsClosed_of_open fun _ hx => hx⟩
    show Lingers Holds policy m₀ { k with registry := k.registry.register.2 }
      { p with registry := p.registry.register.2 } m
    rw [h.registry]
    exact h.setRegistry _
  · exact ⟨m, h.connect hops c username sheetName⟩
  · exact ⟨m, h.handle c a⟩
  · exact h.disconnect hops c
  · refine ⟨m, ?_, keepsClosed_of_open fun _ hx => hx⟩
    show Lingers Holds policy m₀ { k with registry := (k.registry.receive c).2 }
      { p with registry := (p.registry.receive c).2 } m
    rw [h.registry]
    exact h.setRegistry _

/-! ## All runs -/

theorem Lingers.run (h : Lingers Holds policy m₀ k p m) (steps : List ServiceStep) :
    ∃ m', Lingers Holds policy m₀ (closingRun ops k steps) (lingeringRun ops p steps) m' := by
  induction steps generalizing k p m with
  | nil => exact ⟨m, h⟩
  | cons e steps ih =>
    obtain ⟨m', h', -⟩ := h.after hops e
    exact ih h'

/-- As long as a sheet is closed it is stored as it was when it was open. -/
theorem Lingers.run_closed (h : Lingers Holds policy m₀ k p m) {steps : List ServiceStep} {name : String}
    (hclosed : ∀ first, first <+: steps → first ≠ [] → (closingRun ops k first).sheets.get? name = none) :
    ∃ m', Lingers Holds policy m₀ (closingRun ops k steps) (lingeringRun ops p steps) m' ∧
      (closingRun ops k steps).current m' name = k.current m name := by
  induction steps generalizing k p m with
  | nil => exact ⟨m, h, rfl⟩
  | cons e steps ih =>
    obtain ⟨m₁, h₁, hkeeps⟩ := h.after hops e
    have hnow := hclosed [e] (List.prefix_append [e] steps) (List.cons_ne_nil e [])
    obtain ⟨m', h', hcurrent⟩ := ih h₁ fun first hfirst _ =>
      hclosed (e :: first) (List.cons_prefix_cons.2 ⟨rfl, hfirst⟩) (List.cons_ne_nil e first)
    refine ⟨m', h', hcurrent.trans ?_⟩
    exact (current_of_closed hnow).trans (hkeeps name hnow)

theorem Lingers.alike (h : Lingers Holds policy m₀ k p m) : Alike ops k p where
  registry := h.registry
  clients := h.clients
  sheetOf c := by
    unfold Controller.sheetOf
    rw [h.clients]
    rcases hinfo : k.clients.get? c with _ | info
    · rfl
    · obtain ⟨o, ho, -⟩ := h.attached.attached c info hinfo
      rw [Option.bind_some, Option.bind_some, ho, (h.opened ho).1]
  sheetNames := by
    refine congrArg Table.keys (KeySet.ext_keys fun name => ?_)
    show name ∈ p.sheetNames ops ↔ name ∈ k.sheetNames ops
    rw [mem_sheetNames hops h.held, mem_sheetNames hops h.holds, h.current]
  join c username name := by
    unfold Controller.join
    rcases hname : isSheetName name with _ | _
    · rw [connectInPlace_of_invalid ops k hname, connectInPlace_of_invalid ops p hname]
      rfl
    · obtain ⟨o, ho, -⟩ := h.openSheet_eq hops hname
      rw [connectInPlace_of_openSheet hname ho,
        connectInPlace_of_openSheet hname ((h.openSheet hops hname).symm.trans ho)]
      show Except.ok (_, Table.get? (p.sheets.insert name _) name) =
        Except.ok (_, Table.get? (k.sheets.insert name _) name)
      rw [Table.get?_insert_self, Table.get?_insert_self]

/-- Who joins a sheet that was closed for some time finds it as it was when it was open. -/
theorem Lingers.rejoin (h : Lingers Holds policy m₀ k p m) {name : String} {o : OpenSheet}
    (ho : k.sheets.get? name = some o) {steps : List ServiceStep}
    (hclosed : ∀ first, first <+: steps → first ≠ [] → (closingRun ops k first).sheets.get? name = none) (c : ClientId)
    (username : String) :
    ∃ o', (closingRun ops k steps).join ops c username name = .ok (o.sheet.populated, some o') ∧
      { o'.sheet with selections := Table.empty } = { o.sheet with selections := Table.empty } := by
  obtain ⟨-, hname, hproper⟩ := h.opened ho
  obtain ⟨m', h', hcurrent⟩ := h.run_closed hops hclosed
  obtain ⟨o', ho', -, hsheet⟩ := h'.openSheet_eq hops hname
  rw [hcurrent, current_of_open ho, Option.getD_some, hproper.restore_record] at hsheet
  -- the cells do not depend on the selections
  have hpopulated := congrArg Sheet.populated hsheet
  change o'.sheet.populated = o.sheet.populated at hpopulated
  refine ⟨{ o' with members := o'.members.add c }, ?_, hsheet⟩
  unfold join
  rw [connectInPlace_of_openSheet hname ho' c username, hpopulated]
  show Except.ok (_, Table.get? (Table.insert _ name _) name) = _
  rw [Table.get?_insert_self]

/-- Closing a sheet and opening it again cannot be seen, if the storage keeps what is saved. Who joins a sheet that was
open some time before finds it as it was when it was open last, selections aside. At any time the controller cannot be
told from one in which all sheets stay open. And after a shutdown every sheet that was open is stored as it was. -/
theorem closing_invisible {stored : σ} (hstored : Holds stored m)
    (registry : Registry) (policy : Policy) :
    (∀ before later name o, (closingRun ops (new stored registry policy) before).sheets.get? name = some o →
      (∀ first, first <+: later → first ≠ [] →
        (closingRun ops (new stored registry policy) (before ++ first)).sheets.get? name = none) →
      ∀ c username, ∃ o',
        (closingRun ops (new stored registry policy) (before ++ later)).join ops c username name =
          .ok (o.sheet.populated, some o') ∧
        { o'.sheet with selections := Table.empty } = { o.sheet with selections := Table.empty }) ∧
    (∀ steps, Alike ops (closingRun ops (new stored registry policy) steps)
      (lingeringRun ops (new stored registry policy) steps)) ∧
    ∀ steps name o, (closingRun ops (new stored registry policy) steps).sheets.get? name = some o →
      (∃ names, ops.list ((closingRun ops (new stored registry policy) steps).shutdown ops).stored = .ok names ∧
        name ∈ names) ∧
      ops.load ((closingRun ops (new stored registry policy) steps).shutdown ops).stored name = .ok o.sheet.record := by
  have hnew := lingers_new hstored registry policy
  refine ⟨?_, fun steps => ?_, fun steps name o ho => ?_⟩
  · intro before later name o ho hclosed c username
    obtain ⟨m', h'⟩ := hnew.run hops before
    have happend : ∀ steps, closingRun ops (new stored registry policy) (before ++ steps) =
        closingRun ops (closingRun ops (new stored registry policy) before) steps := fun _ => List.foldl_append
    rw [happend]
    exact h'.rejoin hops ho (fun first hfirst hne => happend first ▸ hclosed first hfirst hne) c username
  · obtain ⟨m', h'⟩ := hnew.run hops steps
    exact h'.alike hops
  · obtain ⟨m', h'⟩ := hnew.run hops steps
    have hproper : AllProper policy (closingRun ops (new stored registry policy) steps).sheets :=
      fun _ _ hx => (h'.opened hx).2
    have hshelf := holds_shutdown hops hproper h'.holds
    obtain ⟨names, hlist, hlisting⟩ := hops.list _ _ hshelf
    refine ⟨⟨names, hlist, ?_⟩, ?_⟩
    · rw [hlisting.mem_iff, current_of_open ho]
      rfl
    · rw [hops.load _ _ name hshelf (hproper name o ho).1, current_of_open ho]
      rfl

end Keeping

/-- The first client edits a cell twice and leaves; the second one, who comes later, finds the cell and its history. -/
theorem closing_invisible_alone :
    let k : Controller (Table String SheetRecord) := new Table.empty (Registry.new 16) Policy.unbounded
    let before : List ServiceStep := [.register, .connect 1 "first" "plan", .handle 1 (.select "a1"),
      .handle 1 (.edit "A1" "5"), .handle 1 (.edit "A1" "=b2")]
    ∃ o o', (closingRun Memory.storage k before).sheets.get? "plan" = some o ∧
      (closingRun Memory.storage k (before ++ [.disconnect 1])).sheets.get? "plan" = none ∧
      o.sheet.populated = [⟨"A1", "=B2", ["5"]⟩] ∧
      (closingRun Memory.storage k (before ++ [.disconnect 1])).join Memory.storage 2 "second" "plan" =
        .ok (o.sheet.populated, some o') ∧
      { o'.sheet with selections := Table.empty } = { o.sheet with selections := Table.empty } := by
  intro k before
  have hops := Memory.keeps.mono fun _ (r : SheetRecord) (_ : r.IsOrdered) => trivial
  have hstored : Memory.Holds Table.empty Shelf.empty := fun _ => rfl
  have hcells : ((closingRun Memory.storage k before).sheets.get? "plan").map (·.sheet.populated) =
      some [⟨"A1", "=B2", ["5"]⟩] := by
    dsimp only [k, before]
    cbv
  have hclosed : (closingRun Memory.storage k (before ++ [.disconnect 1])).sheets.get? "plan" = none := by
    dsimp only [k, before]
    cbv
  obtain ⟨o, ho, hpopulated⟩ := Option.map_eq_some_iff.1 hcells
  have hlater : ∀ first, first <+: [ServiceStep.disconnect 1] → first ≠ [] →
      (closingRun Memory.storage k (before ++ first)).sheets.get? "plan" = none := by
    intro first hfirst hne
    rcases List.prefix_concat_iff.1 (show first <+: [] ++ [ServiceStep.disconnect 1] from hfirst) with rfl | hnil
    · exact hclosed
    · exact absurd (List.prefix_nil.1 hnil) hne
  obtain ⟨o', hjoin, hsame⟩ := (closing_invisible hops hstored (Registry.new 16) Policy.unbounded).1 before
    [.disconnect 1] "plan" o ho hlater 2 "second"
  exact ⟨o, o', ho, hclosed, hpopulated, hjoin, hsame⟩

end SharedSheet.Controller
