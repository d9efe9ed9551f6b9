/-
Counting. The counters of a service are words of 64 bits. What they count is listed beside the service, event after
event (`Host.counted`), and in a run with fewer than `2 ^ 64` connections they say how often each of these things has
happened (`counted_run`): a connection is refused or begins a session, and a session ends once.
-/
import Mathlib.Data.List.Count
import SharedSheet.Service.Session

namespace SharedSheet

/-- What a service counts: connections that are refused, and sessions that end for unreadable lines or for a line that
is too long. -/
inductive Counted where
  | refused
  | unreadable
  | tooLong
  deriving DecidableEq, Repr

namespace Metrics

def count (m : Metrics) : Counted → Metrics
  | .refused => { m with refused := m.refused + 1 }
  | .unreadable => { m with parseFailures := m.parseFailures + 1 }
  | .tooLong => { m with oversize := m.oversize + 1 }

/-- The counter for something. -/
def of (m : Metrics) : Counted → UInt64
  | .refused => m.refused
  | .unreadable => m.parseFailures
  | .tooLong => m.oversize

theorem of_count (m : Metrics) (x y : Counted) : (m.count x).of y = m.of y + UInt64.ofNat ([x].count y) := by
  cases x <;> cases y <;> simp [count, of]

/-- A counter has counted all that there was, modulo `2 ^ 64`. -/
theorem of_foldl_count (m : Metrics) (l : List Counted) (y : Counted) :
    (l.foldl count m).of y = m.of y + UInt64.ofNat (l.count y) := by
  induction l generalizing m with
  | nil => simp
  | cons x l ih =>
    rw [List.foldl_cons, ih, of_count, UInt64.add_assoc, ← UInt64.ofNat_add, ← List.count_append]
    rfl

end Metrics

namespace Service

variable {σ : Type}

/-- Whether a session reads in a round. One that is served ends without if no more can come for its client. -/
def reads (v : Service σ) (s : Session) : Bool :=
  match s.phase with
  | .serving _ => (v.flush s.client).2.1
  | .naming | .choosing _ => true
  | .finished => false

/-- What is counted of what a session reads. -/
def counted? (v : Service σ) (s : Session) : ReadEvent → Option Counted
  | .line line =>
    match s.phase with
    | .serving failures =>
      if (Reaction.toLine v.limits.maxParseFailures failures line).1 = .complain true then some .unreadable else none
    | .naming | .choosing _ | .finished => none
  | .tooLong => some .tooLong
  | .idle | .closed => none

theorem counted?_ne_refused (v : Service σ) (s : Session) (event : ReadEvent) : v.counted? s event ≠ some .refused := by
  unfold counted?
  split
  · split
    · split
      · rintro ⟨⟩
      · rintro ⟨⟩
    all_goals rintro ⟨⟩
  all_goals rintro ⟨⟩

/-- What a session reads is counted once, and ends the session then. -/
theorem take_counted (ops : Storage σ) (v : Service σ) (s : Session) (event : ReadEvent) :
    (v.take ops s event).2.2.metrics = (v.counted? s event).toList.foldl Metrics.count v.metrics ∧
      ((v.counted? s event).isSome = true → (v.take ops s event).2.1 = .finished) := by
  obtain ⟨c, phase⟩ := s
  cases event with
  | idle | closed | tooLong => exact ⟨rfl, by simp [counted?, take]⟩
  | line line =>
    unfold take takeLine counted?
    cases phase with
    | naming =>
      dsimp only
      split
      · exact ⟨rfl, by simp⟩
      · exact ⟨rfl, by simp⟩
    | choosing username =>
      dsimp only
      split
      · split
        · exact ⟨rfl, by simp⟩
        · exact ⟨rfl, by simp⟩
      · exact ⟨rfl, by simp⟩
    | serving failures =>
      dsimp only
      rcases Reaction.toLine v.limits.maxParseFailures failures line with ⟨_ | a | _ | _, failures'⟩
      all_goals exact ⟨rfl, by simp⟩
    | finished => exact ⟨rfl, by simp⟩

/-- What is counted in a round, which is nothing if the session does not read. -/
theorem round_counted (ops : Storage σ) (v : Service σ) {s : Session} (hs : s.phase ≠ .finished) (event : ReadEvent) :
    let counted := if v.reads s then v.counted? s event else none
    (v.round ops s event).2.2.metrics = counted.toList.foldl Metrics.count v.metrics ∧
      (counted.isSome = true → (v.round ops s event).2.1.phase = .finished) := by
  obtain ⟨c, phase⟩ := s
  intro counted
  cases phase with
  | naming => exact take_counted ops v ⟨c, .naming⟩ event
  | choosing username => exact take_counted ops v ⟨c, .choosing username⟩ event
  | serving failures =>
    have htake := take_counted ops (v.flush c).2.2 ⟨c, .serving failures⟩ event
    unfold counted reads round
    dsimp only
    split
    · exact htake
    · exact ⟨rfl, by simp⟩
  | finished => exact absurd rfl hs

end Service

/-- A service and its sessions, in the order in which they began. -/
structure Host (σ : Type) where
  service : Service σ
  sessions : List Session

/-- What can happen to a service: somebody connects, a session that has not ended takes a round, and whatever happens to
the controller, also at the end of a session or of the service. -/
inductive HostStep (σ : Type) where
  | connect
  | round (i : ℕ) (event : ReadEvent)
  | others (act : Controller σ → Controller σ)

namespace Host

variable {σ : Type}

def step (ops : Storage σ) (h : Host σ) : HostStep σ → Host σ
  | .connect =>
    match h.service.accept with
    | (.ok s, v) => ⟨v, h.sessions ++ [s]⟩
    | (.error _, v) => { h with service := v }
  | .round i event =>
    match h.sessions[i]? with
    | some s =>
      if s.phase = .finished then h
      else
        let (_, s, v) := h.service.round ops s event
        ⟨v, h.sessions.set i s⟩
    | none => h
  | .others act => { h with service := { h.service with controller := act h.service.controller } }

def run (ops : Storage σ) (h : Host σ) (steps : List (HostStep σ)) : Host σ := steps.foldl (step ops) h

/-- What is counted in a step. -/
def counted? (h : Host σ) : HostStep σ → Option Counted
  | .connect => if h.service.limits.maxConnections ≤ h.service.controller.registry.connections then some .refused else none
  | .round i event =>
    match h.sessions[i]? with
    | some s => if h.service.reads s then h.service.counted? s event else none
    | none => none
  | .others _ => none

/-- What is counted in some steps. -/
def counted (ops : Storage σ) : Host σ → List (HostStep σ) → List Counted
  | _, [] => []
  | h, e :: steps => (h.counted? e).toList ++ counted ops (h.step ops e) steps

/-- The number of connections in some steps. -/
def connections (steps : List (HostStep σ)) : ℕ :=
  steps.countP fun
    | .connect => true
    | _ => false

/-- The sessions that have ended. -/
def ended (h : Host σ) : ℕ := h.sessions.countP fun s => s.phase = .finished

/-! ## Counting adds up -/

/-- What happens between two states is what the counters count. A connection is refused or begins a session, and who
reads what is counted has ended then, and had not before. -/
structure Tallies (h h' : Host σ) (happened : List Counted) (connected : ℕ) : Prop where
  metrics : h'.service.metrics = happened.foldl Metrics.count h.service.metrics
  sessions : happened.count .refused + h'.sessions.length = h.sessions.length + connected
  ended : happened.count .unreadable + happened.count .tooLong + h.ended ≤ h'.ended

theorem Tallies.refl (h : Host σ) : Tallies h h [] 0 := ⟨rfl, Nat.zero_add _, Nat.le_of_eq (Nat.zero_add _)⟩

theorem Tallies.trans {h h' h'' : Host σ} {happened happened' : List Counted} {connected connected' : ℕ}
    (hfirst : Tallies h h' happened connected) (hthen : Tallies h' h'' happened' connected') :
    Tallies h h'' (happened ++ happened') (connected + connected') where
  metrics := by
    rw [List.foldl_append, ← hfirst.metrics]
    exact hthen.metrics
  sessions := by
    have h₁ := hfirst.sessions
    have h₂ := hthen.sessions
    rw [List.count_append]
    omega
  ended := by
    have h₁ := hfirst.ended
    have h₂ := hthen.ended
    rw [List.count_append, List.count_append]
    omega

theorem tallies_connect (ops : Storage σ) (h : Host σ) :
    Tallies h (h.step ops .connect) (h.counted? .connect).toList 1 := by
  unfold step counted? Service.accept
  dsimp only
  by_cases hfull : h.service.limits.maxConnections ≤ h.service.controller.registry.connections
  · rw [if_pos hfull, if_pos hfull]
    exact ⟨rfl, Nat.add_comm .., Nat.le_of_eq (Nat.zero_add _)⟩
  · rw [if_neg hfull, if_neg hfull]
    refine ⟨rfl, (Nat.zero_add _).trans (List.length_append ..), ?_⟩
    unfold ended
    rw [List.countP_append]
    exact Nat.le_of_eq (Nat.zero_add _)

theorem tallies_round (ops : Storage σ) (h : Host σ) (i : ℕ) (event : ReadEvent) :
    Tallies h (h.step ops (.round i event)) (h.counted? (.round i event)).toList 0 := by
  unfold step counted?
  dsimp only
  rcases hi : h.sessions[i]? with _ | s
  · exact Tallies.refl h
  dsimp only
  by_cases hs : s.phase = .finished
  · unfold Service.reads
    rw [if_pos hs, hs]
    exact Tallies.refl h
  rw [if_neg hs]
  obtain ⟨hmetrics, hend⟩ := h.service.round_counted ops hs event
  obtain ⟨hlt, hget⟩ := List.getElem?_eq_some_iff.1 hi
  have hended : ∀ s', ended ⟨(h.service.round ops s event).2.2, h.sessions.set i s'⟩ =
      h.ended + if s'.phase = .finished then 1 else 0 := by
    intro s'
    unfold ended
    dsimp only
    rw [List.countP_set hlt, hget, decide_eq_false hs, if_neg Bool.false_ne_true, Nat.sub_zero]
    simp
  refine ⟨hmetrics, ?_, ?_⟩
  · have hnone : (if h.service.reads s then h.service.counted? s event else none) ≠ some .refused := by
      split
      · exact h.service.counted?_ne_refused s event
      · rintro ⟨⟩
    rw [List.count_eq_zero.2 fun hmem => hnone (Option.mem_toList.1 hmem), Nat.zero_add]
    exact List.length_set ..
  · rw [hended]
    rcases hcounted : if h.service.reads s then h.service.counted? s event else none with _ | x
    · rw [Option.toList_none, List.count_nil, List.count_nil]
      omega
    · rw [hcounted] at hend
      rw [if_pos (hend rfl)]
      cases x <;> simp [Nat.add_comm]

theorem tallies_step (ops : Storage σ) (h : Host σ) (e : HostStep σ) :
    Tallies h (h.step ops e) (h.counted? e).toList (connections [e]) := by
  cases e with
  | connect => exact tallies_connect ops h
  | round i event => exact tallies_round ops h i event
  | others act => exact ⟨rfl, Nat.zero_add _, Nat.le_of_eq (Nat.zero_add _)⟩

theorem tallies_run (ops : Storage σ) (h : Host σ) (steps : List (HostStep σ)) :
    Tallies h (h.run ops steps) (counted ops h steps) (connections steps) := by
  induction steps generalizing h with
  | nil => exact Tallies.refl h
  | cons e steps ih =>
    have hsplit : connections ([e] ++ steps) = connections [e] + connections steps := List.countP_append
    change Tallies h _ _ (connections ([e] ++ steps))
    rw [hsplit]
    exact (tallies_step ops h e).trans (ih (h.step ops e))

/-- The counters of a service tell how often each thing has happened that they count, as long as there were fewer than
`2 ^ 64` connections: each of these was refused or began a session, and each session that was counted has ended. -/
theorem counted_run (ops : Storage σ) (k : Controller σ) (limits : Limits) (wording : Wording)
    (steps : List (HostStep σ)) (hbound : connections steps < UInt64.size) :
    let start : Host σ := ⟨Service.new k limits wording, []⟩
    let happened := counted ops start steps
    (∀ x, ((start.run ops steps).service.metrics.of x).toNat = happened.count x) ∧
      happened.count .refused + (start.run ops steps).sessions.length = connections steps ∧
      happened.count .unreadable + happened.count .tooLong ≤ (start.run ops steps).ended := by
  intro start happened
  obtain ⟨hmetrics, hsessions, hended⟩ := tallies_run ops start steps
  have hle : (start.run ops steps).ended ≤ (start.run ops steps).sessions.length := List.countP_le_length
  change happened.count .refused + _ = 0 + _ at hsessions
  change happened.count .unreadable + happened.count .tooLong + 0 ≤ _ at hended
  refine ⟨fun x => ?_, by omega, hended⟩
  have hcount : happened.count x < UInt64.size := by
    cases x <;> omega
  have hstart : start.service.metrics.of x = 0 := by
    cases x <;> rfl
  rw [hmetrics, Metrics.of_foldl_count, hstart, UInt64.zero_add, UInt64.toNat_ofNat_of_lt' hcount]

end Host

end SharedSheet
