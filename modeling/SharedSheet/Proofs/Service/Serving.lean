/-
Serving. How a session takes the lines behind the handshake is told by what has been said alone (`served_run`):
requests go to the controller in their order, an unreadable line is complained about once, blank lines might as well not
be there, and the session gives up at the first line at which too many lines in a row have been unreadable, and not
before. Meanwhile others use the service as they like, before and behind every line. A session that is served begins
with the contents its client starts from (`welcome_starts`), and behind its end nothing is left of the client
(`leave_gone`).

The number of unreadable lines that a session keeps is no more than a way to know the end of what has been said
(`toLine_eq`). While no end is too bad the session goes on (`Heeding`), and from then on it has given up (`GivenUp`).
-/
import SharedSheet.Proofs.Service.Queue
import SharedSheet.Proofs.Service.Routing
import SharedSheet.Proofs.Text
import SharedSheet.Service.Session

namespace SharedSheet

open Text (isBlank)

/-- What can happen while a session is served: others use the service, what is queued for the client is written out, and
the session takes a line. -/
inductive ServingStep (σ : Type) where
  | others (act : Controller σ × Metrics → Controller σ × Metrics)
  | deliver
  | hear (line : String)

/-- A session with its service, and all that the session has written. -/
structure Conversation (σ : Type) where
  session : Session
  service : Service σ
  written : String

/-! ## What has been said -/

/-- A line of nothing but blanks. -/
def isBlankLine (line : String) : Bool := line.toList.all isBlank

/-- The lines that are not blank. -/
def spoken (lines : List String) : List String := lines.filter fun line => !isBlankLine line

/-- The last `n` lines that are not blank are all unreadable. -/
def Exhausted (n : ℕ) (lines : List String) : Prop :=
  ∃ earlier last, spoken lines = earlier ++ last ∧ last.length = n ∧ ∀ line ∈ last, Action.decode? line = none

/-- The number of unreadable lines at the end of what has been said. -/
def failures (lines : List String) : ℕ :=
  ((spoken lines).reverse.takeWhile fun line => (Action.decode? line).isNone).length

theorem exhausted_iff {n : ℕ} {lines : List String} : Exhausted n lines ↔ n ≤ failures lines := by
  unfold Exhausted failures
  constructor
  · rintro ⟨earlier, last, hspoken, rfl, hlast⟩
    have hunreadable : ∀ line ∈ last.reverse, (Action.decode? line).isNone = true := fun line hline =>
      Option.isNone_iff_eq_none.2 (hlast line (List.mem_reverse.1 hline))
    rw [hspoken, List.reverse_append, List.takeWhile_append_of_pos hunreadable, List.length_append, List.length_reverse]
    exact Nat.le_add_right ..
  · intro hn
    -- the last `n` lines of the run at the end
    set p : String → Bool := fun line => (Action.decode? line).isNone
    have hsplit := List.takeWhile_append_dropWhile (p := p) (l := (spoken lines).reverse)
    set run := (spoken lines).reverse.takeWhile p with hrun
    refine ⟨(run.drop n ++ (spoken lines).reverse.dropWhile p).reverse, (run.take n).reverse, ?_, ?_,
      fun line hline => ?_⟩
    · rw [← List.reverse_append, ← List.append_assoc, List.take_append_drop, hsplit, List.reverse_reverse]
    · rw [List.length_reverse, List.length_take_of_le hn]
    · have hmem : line ∈ run := List.mem_of_mem_take (List.mem_reverse.1 hline)
      exact Option.isNone_iff_eq_none.1 (List.mem_takeWhile_imp (p := p) hmem)

theorem spoken_blank {line : String} (hblank : isBlankLine line = true) (lines : List String) :
    spoken (lines ++ [line]) = spoken lines := by
  unfold spoken
  rw [List.filter_append, List.filter_cons_of_neg (by simp [hblank]), List.filter_nil, List.append_nil]

theorem spoken_concat {line : String} (hblank : isBlankLine line = false) (lines : List String) :
    spoken (lines ++ [line]) = spoken lines ++ [line] := by
  unfold spoken
  rw [List.filter_append, List.filter_cons_of_pos (by simp [hblank]), List.filter_nil]

theorem failures_blank {line : String} (hblank : isBlankLine line = true) (lines : List String) :
    failures (lines ++ [line]) = failures lines := by
  rw [failures, spoken_blank hblank, failures]

theorem failures_request {line : String} {a : Action} (hblank : isBlankLine line = false)
    (ha : Action.decode? line = some a) (lines : List String) : failures (lines ++ [line]) = 0 := by
  rw [failures, spoken_concat hblank, List.reverse_concat, List.takeWhile_cons_of_neg (by simp [ha]), List.length_nil]

theorem failures_unreadable {line : String} (hblank : isBlankLine line = false) (hline : Action.decode? line = none)
    (lines : List String) : failures (lines ++ [line]) = failures lines + 1 := by
  rw [failures, spoken_concat hblank, List.reverse_concat, List.takeWhile_cons_of_pos (by simp [hline]),
    List.length_cons, failures]

theorem failures_concat_le (lines : List String) (line : String) : failures (lines ++ [line]) ≤ failures lines + 1 := by
  by_cases hblank : isBlankLine line = true
  · rw [failures_blank hblank]
    omega
  · rw [Bool.not_eq_true] at hblank
    rcases ha : Action.decode? line with _ | a
    · rw [failures_unreadable hblank ha]
    · rw [failures_request hblank ha]
      omega

/-- The reaction to a line, and the number kept then, which is how many lines at the end are unreadable. -/
theorem toLine_eq (limit : ℕ) (lines : List String) (line : String) :
    Reaction.toLine limit (failures lines) line =
      (if isBlankLine line then .skip
        else match Action.decode? line with
          | some a => .perform a
          | none => .complain (limit ≤ failures (lines ++ [line])), failures (lines ++ [line])) := by
  unfold Reaction.toLine
  rw [Text.isEmpty_trim]
  change (if isBlankLine line = true then _ else _) = _
  by_cases hblank : isBlankLine line = true
  · rw [if_pos hblank, if_pos hblank, failures_blank hblank]
  · rw [if_neg hblank, if_neg hblank]
    rw [Bool.not_eq_true] at hblank
    rcases ha : Action.decode? line with _ | a
    · rw [failures_unreadable hblank ha]
    · rw [failures_request hblank ha]

/-- As long as the end of what has been said is not too bad, the number that is kept does not get above the limit. -/
theorem toLine_le {limit : ℕ} {lines : List String} (h : ¬Exhausted limit lines) (line : String) :
    (Reaction.toLine limit (failures lines) line).2 ≤ limit := by
  have hconcat := failures_concat_le lines line
  rw [exhausted_iff] at h
  rw [toLine_eq]
  dsimp only
  omega

/-! ## What becomes of the service -/

namespace Service

variable {σ : Type}

/-- Others use the service; its limits and its words stay. -/
def changed (v : Service σ) (act : Controller σ × Metrics → Controller σ × Metrics) : Service σ :=
  { v with controller := (act (v.controller, v.metrics)).1, metrics := (act (v.controller, v.metrics)).2 }

/-- What a line of a client makes of the service: a request is handled, and an unreadable line is complained about. -/
def answer (c : ClientId) (v : Service σ) (line : String) : Service σ :=
  if isBlankLine line then v
  else
    match Action.decode? line with
    | some a => { v with controller := v.controller.handle c a }
    | none =>
      let complaint := unreadableLine (v.wording.request line)
      { v with controller := { v.controller with registry := v.controller.registry.send c complaint } }

/-- The end of a session that gives up: it is counted, and what is queued is written out. -/
def giveUp (c : ClientId) (v : Service σ) : Service σ :=
  (flush { v with metrics := { v.metrics with parseFailures := v.metrics.parseFailures + 1 } } c).2.2

end Service

namespace ServingStep

variable {σ : Type}

def line? : ServingStep σ → Option String
  | .hear line => some line
  | .others _ | .deliver => none

/-- What a step makes of the service while the session is served. -/
def heeded (c : ClientId) (v : Service σ) : ServingStep σ → Service σ
  | .others act => v.changed act
  | .deliver => (v.flush c).2.2
  | .hear line => v.answer c line

/-- What a step makes of the service when the session has ended. -/
def unheeded (v : Service σ) : ServingStep σ → Service σ
  | .others act => v.changed act
  | .deliver | .hear _ => v

/-- What steps make of the service while the session is served. -/
def heededAll (c : ClientId) (v : Service σ) (steps : List (ServingStep σ)) : Service σ := steps.foldl (heeded c) v

/-- The lines that are said in some steps. -/
def said (steps : List (ServingStep σ)) : List String := steps.filterMap line?

theorem said_hear (steps : List (ServingStep σ)) (line : String) :
    said (steps ++ [.hear line]) = said steps ++ [line] := List.filterMap_append

theorem heeded_frame (c : ClientId) (v : Service σ) (e : ServingStep σ) :
    (e.heeded c v).limits = v.limits ∧ (e.heeded c v).wording = v.wording := by
  cases e with
  | others act => exact ⟨rfl, rfl⟩
  | deliver => exact ⟨rfl, rfl⟩
  | hear line =>
    show (v.answer c line).limits = v.limits ∧ (v.answer c line).wording = v.wording
    unfold Service.answer
    split
    · exact ⟨rfl, rfl⟩
    · split
      · exact ⟨rfl, rfl⟩
      · exact ⟨rfl, rfl⟩

theorem heededAll_concat (c : ClientId) (v : Service σ) (steps : List (ServingStep σ)) (e : ServingStep σ) :
    heededAll c v (steps ++ [e]) = e.heeded c (heededAll c v steps) := List.foldl_concat (heeded c) v e steps

theorem heededAll_frame (c : ClientId) (v : Service σ) (steps : List (ServingStep σ)) :
    (heededAll c v steps).limits = v.limits ∧ (heededAll c v steps).wording = v.wording := by
  induction steps generalizing v with
  | nil => exact ⟨rfl, rfl⟩
  | cons e steps ih =>
    obtain ⟨hlimits, hwording⟩ := heeded_frame c v e
    obtain ⟨hlimits', hwording'⟩ := ih (e.heeded c v)
    exact ⟨hlimits'.trans hlimits, hwording'.trans hwording⟩

end ServingStep

namespace Conversation

open ServingStep

variable {σ : Type} {ops : Storage σ} {c : ClientId} {v : Service σ}

/-- The session of a client right behind the handshake. -/
def start (c : ClientId) (v : Service σ) : Conversation σ := ⟨⟨c, .serving 0⟩, v, ""⟩

def after (ops : Storage σ) (s : Conversation σ) : ServingStep σ → Conversation σ
  | .others act => { s with service := s.service.changed act }
  | .deliver =>
    let (text, session, service) := s.service.round ops s.session .idle
    ⟨session, service, s.written ++ text⟩
  | .hear line =>
    let (text, phase, service) := s.service.takeLine ops s.session line
    ⟨{ s.session with phase }, service, s.written ++ text⟩

def run (ops : Storage σ) (s : Conversation σ) (steps : List (ServingStep σ)) : Conversation σ :=
  steps.foldl (after ops) s

theorem run_concat (ops : Storage σ) (s : Conversation σ) (steps : List (ServingStep σ)) (e : ServingStep σ) :
    s.run ops (steps ++ [e]) = (s.run ops steps).after ops e := List.foldl_concat ..

/-- A round of a session that is served is a delivery and then a line. -/
theorem run_round (ops : Storage σ) (v : Service σ) {s : Session} {f : ℕ} (hs : s.phase = .serving f)
    (line written : String) :
    run ops ⟨s, v, written⟩ [.deliver, .hear line] =
      let (text, s, v) := v.round ops s (.line line)
      ⟨s, v, written ++ text⟩ := by
  obtain ⟨c, phase⟩ := s
  subst hs
  simp only [run, List.foldl_cons, List.foldl_nil, after, Service.round]
  rcases v.flush c with ⟨queued, isOpen, v'⟩
  cases isOpen with
  | false => simp [Service.takeLine]
  | true => simp [Service.take, String.append_assoc]

/-! ## One line -/

/-- A line that does not exhaust the session is answered, and the session goes on. -/
theorem takeLine_heeded (ops : Storage σ) (c : ClientId) {said : List String} {line : String}
    (h : ¬Exhausted v.limits.maxParseFailures (said ++ [line])) :
    v.takeLine ops ⟨c, .serving (failures said)⟩ line =
      ("", .serving (failures (said ++ [line])), v.answer c line) := by
  rw [exhausted_iff] at h
  unfold Service.takeLine Service.answer
  dsimp only
  rw [toLine_eq]
  by_cases hblank : isBlankLine line = true
  · rw [if_pos hblank, if_pos hblank]
  · rw [if_neg hblank, if_neg hblank]
    rcases Action.decode? line with _ | a
    · simp [h]
    · rfl

/-- The line that exhausts the session is complained about, and the session gives up. -/
theorem takeLine_exhausted (ops : Storage σ) (c : ClientId) (hlimit : 1 ≤ v.limits.maxParseFailures)
    {said : List String} {line : String} (hsaid : ¬Exhausted v.limits.maxParseFailures said)
    (h : Exhausted v.limits.maxParseFailures (said ++ [line])) :
    v.takeLine ops ⟨c, .serving (failures said)⟩ line =
      (((v.answer c line).flush c).1, .finished, (v.answer c line).giveUp c) := by
  rw [exhausted_iff] at h hsaid
  -- neither a blank line nor a request makes the end any worse
  have hblank : isBlankLine line = false := by
    rw [Bool.eq_false_iff]
    intro hblank
    rw [failures_blank hblank] at h
    exact hsaid h
  have hline : Action.decode? line = none := by
    rcases ha : Action.decode? line with _ | a
    · rfl
    · rw [failures_request hblank ha] at h
      omega
  unfold Service.takeLine Service.answer
  dsimp only
  rw [toLine_eq, hblank, hline]
  simp only [h, Bool.false_eq_true, ↓reduceIte, decide_true]
  rfl

/-! ## All steps -/

/-- The session goes on: what has been said never ended in too many unreadable lines, the session keeps how many they
are at the moment, and all that was said has been answered. -/
structure Heeding (ops : Storage σ) (c : ClientId) (v : Service σ) (steps : List (ServingStep σ)) : Prop where
  unexhausted : ∀ earlier, earlier <+: said steps → ¬Exhausted v.limits.maxParseFailures earlier
  session : ((start c v).run ops steps).session = ⟨c, .serving (failures (said steps))⟩
  service : ((start c v).run ops steps).service = heededAll c v steps

/-- The session has given up at a line: before it the session went on, and this line makes too many. It is answered like
those before it; then the end is counted, what is queued is written out, and nothing that comes later is heard. -/
structure GivenUp (ops : Storage σ) (c : ClientId) (v : Service σ) (before : List (ServingStep σ)) (line : String)
    (later : List (ServingStep σ)) : Prop where
  heeding : Heeding ops c v before
  exhausted : Exhausted v.limits.maxParseFailures (said before ++ [line])
  session : ((start c v).run ops (before ++ .hear line :: later)).session = ⟨c, .finished⟩
  service : ((start c v).run ops (before ++ .hear line :: later)).service =
    later.foldl unheeded ((heededAll c v (before ++ [.hear line])).giveUp c)
  written : ((start c v).run ops (before ++ .hear line :: later)).written =
    ((start c v).run ops before).written ++ ((heededAll c v (before ++ [.hear line])).flush c).1

/-- As long as the session is served nobody ends the registration of the client, and there is room in its queue when it
says a line. -/
structure Unhindered (ops : Storage σ) (c : ClientId) (v : Service σ) (steps : List (ServingStep σ)) : Prop where
  registered : ∀ before, before <+: steps → ((start c v).run ops before).session.phase ≠ .finished →
    ((start c v).run ops before).service.controller.registry.isRegistered c = true ∧
      ((start c v).run ops before).service.controller.registry.Attends c
  room : ∀ before line, before ++ [.hear line] <+: steps → ((start c v).run ops before).session.phase ≠ .finished →
    (((start c v).run ops before).service.controller.registry.waiting c).length <
      ((start c v).run ops before).service.controller.registry.depth

theorem Unhindered.of_prefix {steps steps' : List (ServingStep σ)} (h : Unhindered ops c v steps)
    (hp : steps' <+: steps) : Unhindered ops c v steps' where
  registered before hbefore := h.registered before (hbefore.trans hp)
  room before line hbefore := h.room before line (hbefore.trans hp)

theorem isOpen_flush (hregistered : v.controller.registry.isRegistered c = true)
    (hattends : v.controller.registry.Attends c) : (v.flush c).2.1 = true := by
  obtain ⟨box, hbox, hreg⟩ := Registry.isRegistered_iff.1 hregistered
  unfold Service.flush Registry.drain
  simp [hbox, hreg, hattends box hbox]

theorem Heeding.serving {steps : List (ServingStep σ)} (h : Heeding ops c v steps) :
    ((start c v).run ops steps).session.phase ≠ .finished := by
  rw [h.session]
  exact Phase.noConfusion

theorem after_deliver (ops : Storage σ) {s : Conversation σ} {f : ℕ} (hs : s.session = ⟨c, .serving f⟩)
    (hopen : (s.service.flush c).2.1 = true) :
    (s.after ops .deliver).session = s.session ∧ (s.after ops .deliver).service = (s.service.flush c).2.2 := by
  obtain ⟨session, service, written⟩ := s
  cases hs
  unfold after Service.round
  dsimp only at hopen ⊢
  rw [if_pos hopen]
  exact ⟨rfl, rfl⟩

/-- What has been said before it is what has been said with it, if the step is no line. -/
theorem said_silent {e : ServingStep σ} (he : e.line? = none) (steps : List (ServingStep σ)) :
    said (steps ++ [e]) = said steps := by
  rw [said, List.filterMap_append, List.filterMap_cons_none he, List.filterMap_nil, List.append_nil]
  rfl

/-- A step that is no line leaves a session as it is that goes on. -/
theorem Heeding.silent {steps : List (ServingStep σ)} (h : Heeding ops c v steps) {e : ServingStep σ}
    (he : e.line? = none)
    (hsession : (((start c v).run ops steps).after ops e).session = ((start c v).run ops steps).session)
    (hservice : (((start c v).run ops steps).after ops e).service = e.heeded c ((start c v).run ops steps).service) :
    Heeding ops c v (steps ++ [e]) where
  unexhausted := by
    rw [said_silent he]
    exact h.unexhausted
  session := by
    rw [run_concat, hsession, h.session, said_silent he]
  service := by
    rw [run_concat, hservice, h.service, heededAll_concat]

theorem Heeding.hear {steps : List (ServingStep σ)} (h : Heeding ops c v steps) {line : String}
    (hline : ¬Exhausted v.limits.maxParseFailures (said steps ++ [line])) :
    Heeding ops c v (steps ++ [.hear line]) := by
  have hafter : ((start c v).run ops (steps ++ [.hear line])) =
      ⟨⟨c, .serving (failures (said steps ++ [line]))⟩, (heededAll c v steps).answer c line,
        ((start c v).run ops steps).written ++ ""⟩ := by
    rw [← (heededAll_frame c v steps).1] at hline
    rw [run_concat, after, h.session, h.service, takeLine_heeded ops c hline]
  refine ⟨fun earlier hearlier => ?_, ?_, ?_⟩
  · rw [said_hear, List.prefix_concat_iff] at hearlier
    rcases hearlier with rfl | hearlier
    · exact hline
    · exact h.unexhausted earlier hearlier
  · rw [hafter, said_hear]
  · rw [hafter, heededAll_concat]
    rfl

theorem Heeding.giveUp {steps : List (ServingStep σ)} (h : Heeding ops c v steps) {line : String}
    (hlimit : 1 ≤ v.limits.maxParseFailures) (hline : Exhausted v.limits.maxParseFailures (said steps ++ [line])) :
    GivenUp ops c v steps line [] := by
  have hafter : ((start c v).run ops (steps ++ [.hear line])) =
      ⟨⟨c, .finished⟩, ((heededAll c v steps).answer c line).giveUp c,
        ((start c v).run ops steps).written ++ (((heededAll c v steps).answer c line).flush c).1⟩ := by
    have hsteps := h.unexhausted (said steps) (List.prefix_refl _)
    rw [← (heededAll_frame c v steps).1] at hline hlimit hsteps
    rw [run_concat, after, h.session, h.service, takeLine_exhausted ops c hlimit hsteps hline]
  refine ⟨h, hline, ?_, ?_, ?_⟩
  · rw [hafter]
  · rw [hafter, heededAll_concat]
    rfl
  · rw [hafter, heededAll_concat]
    rfl

/-- Nothing is heard of what comes after the end. -/
theorem GivenUp.concat {before later : List (ServingStep σ)} {line : String} (h : GivenUp ops c v before line later)
    (e : ServingStep σ) : GivenUp ops c v before line (later ++ [e]) := by
  have hrun : (start c v).run ops (before ++ .hear line :: (later ++ [e])) =
      ((start c v).run ops (before ++ .hear line :: later)).after ops e := by
    rw [← run_concat, List.append_assoc, List.cons_append]
  rcases hs : (start c v).run ops (before ++ .hear line :: later) with ⟨session, service, written⟩
  have hsession := h.session
  have hservice := h.service
  have hwritten := h.written
  rw [hs] at hrun hsession hservice hwritten
  cases hsession
  refine ⟨h.heeding, h.exhausted, ?_, ?_, ?_⟩
  · rw [hrun]
    cases e <;> rfl
  · rw [hrun, List.foldl_concat, ← hservice]
    cases e <;> rfl
  · rw [hrun, ← hwritten]
    cases e with
    | others act => rfl
    | deliver => exact String.append_empty
    | hear line => exact String.append_empty

theorem heeding_or_givenUp (hlimit : 1 ≤ v.limits.maxParseFailures) {steps : List (ServingStep σ)}
    (h : Unhindered ops c v steps) :
    Heeding ops c v steps ∨
      ∃ before line later, steps = before ++ .hear line :: later ∧ GivenUp ops c v before line later := by
  -- the last step is taken by a session that went on until then, or by one that has given up
  induction steps using List.reverseRecOn with
  | nil =>
    refine .inl ⟨fun earlier hearlier => ?_, rfl, rfl⟩
    rw [List.prefix_nil.1 hearlier, exhausted_iff]
    exact Nat.not_le.2 hlimit
  | append_singleton steps e ih =>
    have hbeginning : steps <+: steps ++ [e] := List.prefix_append ..
    rcases ih (h.of_prefix hbeginning) with hheeding | ⟨before, line, later, rfl, hgiven⟩
    · cases e with
      | others act => exact .inl (hheeding.silent rfl rfl rfl)
      | deliver =>
        obtain ⟨hregistered, hattends⟩ := h.registered steps hbeginning hheeding.serving
        obtain ⟨hsession, hservice⟩ := after_deliver ops hheeding.session (isOpen_flush hregistered hattends)
        exact .inl (hheeding.silent rfl hsession hservice)
      | hear line =>
        by_cases hline : Exhausted v.limits.maxParseFailures (said steps ++ [line])
        · exact .inr ⟨steps, line, [], rfl, hheeding.giveUp hlimit hline⟩
        · exact .inl (hheeding.hear hline)
    · exact .inr ⟨before, line, later ++ [e], by rw [List.append_assoc, List.cons_append], hgiven.concat e⟩

theorem heeding_of_unexhausted (hlimit : 1 ≤ v.limits.maxParseFailures) {steps : List (ServingStep σ)}
    (h : Unhindered ops c v steps)
    (hsaid : ∀ earlier, earlier <+: said steps → ¬Exhausted v.limits.maxParseFailures earlier) :
    Heeding ops c v steps := by
  rcases heeding_or_givenUp hlimit h with hheeding | ⟨before, line, later, rfl, hgiven⟩
  · exact hheeding
  · -- it would have given up at one of the ends
    refine absurd hgiven.exhausted (hsaid _ ?_)
    rw [← said_hear]
    exact ⟨said later, by simp [said, line?]⟩

/-- A complaint is put behind all that waits for the client, and nowhere else. -/
theorem answer_unreadable {line : String} (hblank : isBlankLine line = false) (hline : Action.decode? line = none)
    (hregistered : v.controller.registry.isRegistered c = true) (hattends : v.controller.registry.Attends c)
    (hroom : (v.controller.registry.waiting c).length < v.controller.registry.depth) :
    let complaint := Service.unreadableLine (v.wording.request line)
    v.controller.registry.Delivers [c] complaint (v.answer c line).controller.registry ∧
      (v.answer c line).controller.registry.waiting c = v.controller.registry.waiting c ++ [complaint] := by
  intro complaint
  have hanswer : (v.answer c line).controller.registry = v.controller.registry.broadcast [c] complaint := by
    unfold Service.answer
    rw [hblank, hline]
    rfl
  have hdelivers := v.controller.registry.delivers_broadcast (List.nodup_singleton c) complaint
  rw [hanswer]
  refine ⟨hdelivers, ?_⟩
  obtain ⟨box, hbox, hreg⟩ := Registry.isRegistered_iff.1 hregistered
  unfold Registry.waiting at hroom ⊢
  rw [hbox] at hroom
  rw [hdelivers.queued c List.mem_cons_self box hbox hreg (hattends box hbox) hroom, hbox]
  rfl

/-- A session that is served behind the handshake, whatever is said and whatever others do. As long as the last lines,
blank ones apart, are not all unreadable up to the limit, every request has been handled and every unreadable line has
been complained about, in the order of the lines. At the first line where they are, and not before, the session gives
up. Every unreadable line until then, this one included, brings its client one complaint, which is of no kind of error
and says what is wrong with the line, and blank lines bring nothing. The number of unreadable lines that the session
keeps is never above the limit. -/
theorem served_run (ops : Storage σ) (c : ClientId) (v : Service σ) (hlimit : 1 ≤ v.limits.maxParseFailures)
    (steps : List (ServingStep σ)) (h : Unhindered ops c v steps) :
    (Heeding ops c v steps ∨
      ∃ before line later, steps = before ++ .hear line :: later ∧ GivenUp ops c v before line later) ∧
    (∀ before line later, steps = before ++ .hear line :: later →
      (∀ earlier, earlier <+: said before → ¬Exhausted v.limits.maxParseFailures earlier) →
      isBlankLine line = false → Action.decode? line = none →
      let r := (heededAll c v before).controller.registry
      let r' := (heededAll c v (before ++ [.hear line])).controller.registry
      let complaint : Message := .requestError "" ("Malformed request: " ++ v.wording.request line) none
      r.Delivers [c] complaint r' ∧ r'.waiting c = r.waiting c ++ [complaint]) ∧
    ∀ before line later f, steps = before ++ .hear line :: later →
      ((start c v).run ops before).session.phase = .serving f →
      (Reaction.toLine v.limits.maxParseFailures f line).2 ≤ v.limits.maxParseFailures := by
  have hbeginning : ∀ {before : List (ServingStep σ)} {line later}, steps = before ++ .hear line :: later →
      before <+: steps ∧ before ++ [.hear line] <+: steps := by
    rintro before line later rfl
    exact ⟨List.prefix_append .., later, by simp⟩
  refine ⟨heeding_or_givenUp hlimit h, ?_, ?_⟩
  · intro before line later hsteps hbefore hblank hline
    obtain ⟨hp, hp'⟩ := hbeginning hsteps
    have hheeding := heeding_of_unexhausted hlimit (h.of_prefix hp) hbefore
    obtain ⟨hregistered, hattends⟩ := h.registered before hp hheeding.serving
    have hroom := h.room before line hp' hheeding.serving
    rw [hheeding.service] at hregistered hattends hroom
    dsimp only
    rw [heededAll_concat, ← (heededAll_frame c v before).2]
    exact answer_unreadable hblank hline hregistered hattends hroom
  · intro before line later f hsteps hf
    rcases heeding_or_givenUp hlimit (h.of_prefix (hbeginning hsteps).1) with hheeding | ⟨_, _, _, rfl, hgiven⟩
    · rw [hheeding.session] at hf
      obtain rfl := Phase.serving.inj hf
      exact toLine_le (hheeding.unexhausted _ (List.prefix_refl _)) line
    · rw [hgiven.session] at hf
      cases hf

/-- Two unreadable lines are too many. Client 1 says one, a blank one, a request, and then two more, and is not heard
again; meanwhile client 2 selects cells of the same sheet. -/
theorem served_run_mixed :
    let service : Service (Table String SheetRecord) := Service.new ((Controller.new Table.empty (Registry.new 4)
      Policy.unbounded).operateAll Memory.storage [.serve .register, .serve .register,
        .serve (.connect 1 "first" "plan"), .serve (.connect 2 "second" "plan")]) ⟨2, 80, 2, 4⟩
      ⟨⟨fun _ => "", fun _ => ""⟩, fun line => "no request: " ++ line⟩
    let others (cell : String) : ServingStep (Table String SheetRecord) :=
      .others fun (k, metrics) => (k.handle 2 (.select cell), metrics)
    let steps := [.hear "nonsense", .hear " \t", others "b1", .deliver, .hear (Action.encode (.select "a1")),
      .hear "\x7b", others "b2", .hear "undo", .deliver, .hear (Action.encode .undo)]
    let written : List Message := [Service.unreadableLine "no request: nonsense", .cellSelected "B1" 2 "second",
      .cellSelected "A1" 1 "first", Service.unreadableLine "no request: \x7b", .cellSelected "B2" 2 "second",
      Service.unreadableLine "no request: undo"]
    1 ≤ service.limits.maxParseFailures ∧ Unhindered Memory.storage 1 service steps ∧
      ((start 1 service).run Memory.storage steps).written = String.join (written.map Message.encode) ∧
      ∃ before line later, steps = before ++ .hear line :: later ∧
        GivenUp Memory.storage 1 service before line later := by
  intro service others steps written
  have hregistered : ∀ before ∈ steps.inits,
      ((start 1 service).run Memory.storage before).session.phase ≠ .finished →
      ((start 1 service).run Memory.storage before).service.controller.registry.isRegistered 1 = true ∧
        ∀ box ∈ ((start 1 service).run Memory.storage before).service.controller.registry.outboxes.get? 1,
          box.attended = true := by
    decide +kernel
  have hroom : ∀ before ∈ steps.inits,
      (((start 1 service).run Memory.storage before).service.controller.registry.waiting 1).length <
        ((start 1 service).run Memory.storage before).service.controller.registry.depth := by
    decide +kernel
  have hend : ((start 1 service).run Memory.storage steps).session.phase = .finished := by decide +kernel
  have h : Unhindered Memory.storage 1 service steps :=
    ⟨fun before hbefore => hregistered before ((List.mem_inits ..).2 hbefore),
      fun before line hbefore _ => hroom before ((List.mem_inits ..).2 ((List.prefix_append ..).trans hbefore))⟩
  refine ⟨by decide, h, by decide +kernel, ?_⟩
  rcases (served_run Memory.storage 1 service (by decide) steps h).1 with hheeding | hgiven
  · rw [hheeding.session] at hend
    cases hend
  · exact hgiven

end Conversation

/-! ## Before and after -/

namespace Service

variable {σ : Type}

/-- Who joins a sheet is sent messages that make the contents the client starts from, and then the client's number. -/
theorem welcome_starts (c : ClientId) (cells : List CellRecord) :
    ∃ messages : List Message,
      welcome c cells = String.join (messages.map Message.encode) ++ Handshake.clientIdLine c ∧
        messages.foldl Message.applyTo Table.empty = startOf cells := by
  refine ⟨_, ?_, foldl_applyTo_startOf cells⟩
  rw [List.map_map]
  rfl

/-- A client whose session has ended is attached to no sheet, and registered no more. -/
theorem leave_gone (ops : Storage σ) (v : Service σ) (s : Session) :
    (v.leave ops s).controller.clients.get? s.client = none ∧
      (v.leave ops s).controller.registry.isRegistered s.client = false := by
  refine ⟨Controller.get?_clients_disconnect ops v.controller s.client, ?_⟩
  unfold leave
  rw [Registry.isRegistered_abandon, Bool.eq_false_iff]
  exact fun h => ((Registry.isRegistered_unregister _ _ _).1 h).2 rfl

/-- When a service has ended no client is attached to a sheet, and none is registered. -/
theorem stop_gone (ops : Storage σ) (v : Service σ) (c : ClientId) :
    (v.stop ops).controller.clients.get? c = none ∧ (v.stop ops).controller.registry.isRegistered c = false :=
  ⟨Table.get?_empty c, Registry.isRegistered_unregisterAll _ c⟩

end Service

end SharedSheet
