/-
Lines in a stream, however its bytes arrive. While the stream is open, a reader gives its lines up to the first one that
is too long (`framed`), and where the stream pauses makes no difference (`lines_independent`). How a reader ends at the
end of the stream hangs on the bytes and on one more thing: whether a tail of one byte too many is followed by a pause
(`ends_iff`).

Between two attempts to read, the buffer holds the beginning of a line that is not complete. `Attempt` says all that an
attempt can do then. What the reader is still to give is determined by the buffer and the bytes to come, taken together
(`owed`), and an attempt gives the first part of it.
-/
import SharedSheet.Proofs.Text.Utf8
import SharedSheet.Service.Framing

namespace SharedSheet

open Text (Byte)

namespace ReadEvent

/-- Nothing is read behind this. -/
def isFinal : ReadEvent → Bool
  | .closed | .tooLong => true
  | .line _ | .idle => false

/-- A line is handed over. -/
def isLine : ReadEvent → Bool
  | .line _ => true
  | .idle | .closed | .tooLong => false

theorem filter_isLine (events : List ReadEvent) :
    (events.filter (· ≠ .idle)).filter isLine = events.filter isLine := by
  rw [List.filter_filter]
  refine List.filter_congr fun e _ => ?_
  cases e <;> simp [isLine]

end ReadEvent

namespace LineReader

/-- The first `n` attempts to read, up to one that is final. -/
def polls : (n : ℕ) → LineReader → Incoming → List ReadEvent
  | 0, _, _ => []
  | n + 1, r, s => (r.poll s).1 :: if (r.poll s).1.isFinal then [] else polls n (r.poll s).2.1 (r.poll s).2.2

/-! ## The lines of a stream -/

/-- The lines that end with a newline, without it. -/
def linesOf (bytes : List Byte) : List (List Byte) := (bytes.splitOn newline).dropLast

/-- The bytes behind the last newline. -/
def tailOf (bytes : List Byte) : List Byte := (bytes.splitOn newline).getLastD []

/-- A line without one carriage return at its end. -/
def withoutReturn (line : List Byte) : List Byte :=
  if line.getLast? = some carriageReturn then line.dropLast else line

/-- A line is not too long. -/
def Fits (limit : ℕ) (line : List Byte) : Prop := (withoutReturn line).length ≤ limit

instance (limit : ℕ) (line : List Byte) : Decidable (Fits limit line) := inferInstanceAs (Decidable (_ ≤ _))

/-- The event of a line. -/
def delivered (line : List Byte) : ReadEvent := .line (String.ofList (Text.decodeLossy (withoutReturn line)))

/-- A line is too long, or what stands behind the last newline has two bytes too many. -/
def Overflows (limit : ℕ) (bytes : List Byte) : Prop :=
  (∃ line ∈ linesOf bytes, ¬Fits limit line) ∨ limit + 2 ≤ (tailOf bytes).length

instance (limit : ℕ) (bytes : List Byte) : Decidable (Overflows limit bytes) := inferInstanceAs (Decidable (_ ∨ _))

/-- What a stream amounts to: its lines up to the first that is too long, and then that one, or else what is `behind`
the stream. -/
def framed (limit : ℕ) (bytes : List Byte) (behind : List ReadEvent) : List ReadEvent :=
  ((linesOf bytes).takeWhile fun line => Fits limit line).map delivered ++
    if Overflows limit bytes then [.tooLong] else behind

section Streams

variable {limit : ℕ} {l t : List Byte}

theorem linesOf_line (hl : newline ∉ l) (rest : List Byte) : linesOf (l ++ newline :: rest) = l :: linesOf rest := by
  unfold linesOf
  rw [List.splitOn_append_cons_self_of_not_mem hl, List.dropLast_cons_of_ne_nil (List.splitOn_ne_nil newline rest)]

theorem linesOf_tail (ht : newline ∉ t) : linesOf t = [] := by
  rw [linesOf, List.splitOn_eq_singleton ht, List.dropLast_singleton]

theorem tailOf_line (hl : newline ∉ l) (rest : List Byte) : tailOf (l ++ newline :: rest) = tailOf rest := by
  unfold tailOf
  rw [List.splitOn_append_cons_self_of_not_mem hl]
  obtain ⟨part, parts, hparts⟩ := List.exists_cons_of_ne_nil (List.splitOn_ne_nil newline rest)
  rw [hparts]
  rfl

theorem tailOf_tail (ht : newline ∉ t) : tailOf t = t := by
  rw [tailOf, List.splitOn_eq_singleton ht, List.getLastD_cons, List.getLastD_nil]

theorem overflows_line (hl : newline ∉ l) (rest : List Byte) :
    Overflows limit (l ++ newline :: rest) ↔ ¬Fits limit l ∨ Overflows limit rest := by
  unfold Overflows
  rw [linesOf_line hl, tailOf_line hl, List.exists_mem_cons_iff, or_assoc]

theorem framed_line (hl : newline ∉ l) (rest : List Byte) (behind : List ReadEvent) :
    framed limit (l ++ newline :: rest) behind =
      if Fits limit l then delivered l :: framed limit rest behind else [.tooLong] := by
  unfold framed
  rw [linesOf_line hl, List.takeWhile_cons]
  by_cases hfits : Fits limit l
  · simp [hfits, overflows_line hl]
  · simp [hfits, overflows_line hl]

theorem overflows_tail (ht : newline ∉ t) : Overflows limit t ↔ limit + 2 ≤ t.length := by
  unfold Overflows
  rw [linesOf_tail ht, tailOf_tail ht]
  simp

theorem framed_tail (ht : newline ∉ t) (behind : List ReadEvent) :
    framed limit t behind = if limit + 2 ≤ t.length then [.tooLong] else behind := by
  unfold framed
  simp [linesOf_tail ht, overflows_tail ht]

theorem length_le_withoutReturn (line : List Byte) : line.length ≤ (withoutReturn line).length + 1 := by
  unfold withoutReturn
  split
  · rw [List.length_dropLast]
    omega
  · omega

/-- The first bytes of a line that is too long decide, whatever follows them. -/
theorem framed_long (ht : newline ∉ t) (hlen : limit + 2 ≤ t.length) (rest : List Byte) (behind : List ReadEvent) :
    framed limit (t ++ rest) behind = [.tooLong] := by
  by_cases hrest : newline ∈ rest
  · obtain ⟨u, v, rfl, hu⟩ := List.eq_append_cons_of_mem hrest
    have hline : newline ∉ t ++ u := by simp [ht, hu]
    rw [← List.append_assoc, framed_line hline, if_neg]
    have := length_le_withoutReturn (t ++ u)
    rw [List.length_append] at this
    unfold Fits
    omega
  · have htail : newline ∉ t ++ rest := by simp [ht, hrest]
    rw [framed_tail htail, if_pos]
    rw [List.length_append]
    omega

end Streams

/-! ## One attempt -/

/-- The first bytes up to a newline, up to a number of bytes, or all of them. -/
theorem splitLine_cases (n : ℕ) (s : List Byte) :
    (∃ l rest, s = l ++ newline :: rest ∧ newline ∉ l ∧ l.length < n ∧ splitLine n s = (l ++ [newline], rest)) ∨
    (∃ l rest, s = l ++ rest ∧ newline ∉ l ∧ l.length = n ∧ splitLine n s = (l, rest)) ∨
    (newline ∉ s ∧ s.length < n ∧ splitLine n s = (s, [])) := by
  fun_induction splitLine n s with
  | case1 s => exact .inr (.inl ⟨[], s, rfl, by simp, rfl, rfl⟩)
  | case2 n => exact .inr (.inr ⟨by simp, by simp, rfl⟩)
  | case3 n s => exact .inl ⟨[], s, rfl, by simp, by simp, rfl⟩
  | case4 n b s hb ih =>
    rcases ih with ⟨l, rest, rfl, hl, hlen, hsplit⟩ | ⟨l, rest, rfl, hl, hlen, hsplit⟩ | ⟨hs, hlen, hsplit⟩
    · refine .inl ⟨b :: l, rest, rfl, ?_, by simpa using hlen, by rw [hsplit]; rfl⟩
      simp [Ne.symm hb, hl]
    · refine .inr (.inl ⟨b :: l, rest, rfl, ?_, by simpa using hlen, by rw [hsplit]⟩)
      simp [Ne.symm hb, hl]
    · refine .inr (.inr ⟨?_, by simpa using hlen, by rw [hsplit]⟩)
      simp [Ne.symm hb, hs]

/-- Between two attempts: the buffer holds no newline and has room for a byte. -/
structure Waiting (r : LineReader) : Prop where
  incomplete : newline ∉ r.buffer
  room : r.buffer.length ≤ r.limit + 1

theorem waiting_new (limit : ℕ) : (new limit).Waiting := ⟨by simp [new], by simp [new]⟩

theorem Waiting.budget_add {r : LineReader} (h : r.Waiting) : r.budget + r.buffer.length = r.limit + 2 := by
  have hroom := h.room
  unfold budget
  omega

theorem Waiting.budget_pos {r : LineReader} (h : r.Waiting) : 0 < r.budget := by
  have hroom := h.room
  have hbudget := h.budget_add
  omega

/-- All that an attempt can do between two lines. -/
inductive Attempt (r : LineReader) (s : Incoming) : ReadEvent → LineReader → Incoming → Prop
  | line {l rest : List Byte} {later : List (List Byte)} (pieces : s.pieces = (l ++ newline :: rest) :: later)
      (first : newline ∉ l) (fits : Fits r.limit (r.buffer ++ l)) :
      Attempt r s (delivered (r.buffer ++ l)) { r with buffer := [] } { s with pieces := rest :: later }
  | overlong {l rest : List Byte} {later : List (List Byte)} {r' : LineReader} {s' : Incoming}
      (pieces : s.pieces = (l ++ newline :: rest) :: later) (first : newline ∉ l)
      (overlong : ¬Fits r.limit (r.buffer ++ l)) : Attempt r s .tooLong r' s'
  | full {l rest : List Byte} {later : List (List Byte)} {r' : LineReader} {s' : Incoming}
      (pieces : s.pieces = (l ++ rest) :: later) (first : newline ∉ l)
      (length : (r.buffer ++ l).length = r.limit + 2) : Attempt r s .tooLong r' s'
  | pause {piece : List Byte} {later : List (List Byte)} (pieces : s.pieces = piece :: later)
      (incomplete : newline ∉ piece) (room : (r.buffer ++ piece).length ≤ r.limit + 1)
      (more : later = [] → s.ended = false) :
      Attempt r s .idle { r with buffer := r.buffer ++ piece } { s with pieces := later }
  | last {piece : List Byte} (pieces : s.pieces = [piece]) (ended : s.ended = true) (incomplete : newline ∉ piece)
      (length : (r.buffer ++ piece).length ≤ r.limit) :
      Attempt r s .idle { r with buffer := r.buffer ++ piece } { s with pieces := [] }
  | cut {piece : List Byte} {r' : LineReader} {s' : Incoming} (pieces : s.pieces = [piece]) (ended : s.ended = true)
      (incomplete : newline ∉ piece) (nonempty : piece ≠ []) (length : (r.buffer ++ piece).length = r.limit + 1) :
      Attempt r s .tooLong r' s'
  | closed {r' : LineReader} {s' : Incoming} (pieces : s.pieces = [] ∨ s.pieces = [[]]) (ended : s.ended = true) :
      Attempt r s .closed r' s'
  | quiet (pieces : s.pieces = []) (ended : s.ended = false) : Attempt r s .idle r s

theorem content_line (line : List Byte) : content (line ++ [newline]) = withoutReturn line := by
  unfold content withoutReturn
  rw [List.dropLast_concat]

theorem judge_line (limit : ℕ) (line : List Byte) :
    judge ⟨limit, line ++ [newline]⟩ =
      if Fits limit line then (delivered line, ⟨limit, []⟩) else (.tooLong, ⟨limit, withoutReturn line⟩) := by
  unfold judge
  simp only [List.getLast?_concat, if_true, content_line]
  by_cases hfits : Fits limit line
  · rw [if_pos hfits, if_neg (Nat.not_lt.2 hfits)]
    rfl
  · rw [if_neg hfits, if_pos (Nat.lt_of_not_le hfits)]

theorem judge_incomplete {r : LineReader} (h : newline ∉ r.buffer) :
    r.judge = if r.buffer.length > r.limit then (.tooLong, r) else (.idle, r) := by
  unfold judge
  rw [if_neg fun hlast => h (List.mem_of_getLast? hlast)]

theorem poll_nil {r : LineReader} (hbudget : 0 < r.budget) (ended : Bool) :
    r.poll ⟨[], ended⟩ = (if ended then .closed else .idle, r, ⟨[], ended⟩) := by
  have hsplit : splitLine r.budget [] = ([], []) := by
    obtain ⟨n, hn⟩ := Nat.exists_eq_succ_of_ne_zero (Nat.ne_of_gt hbudget)
    rw [hn, splitLine]
  cases ended <;> simp [poll, hsplit, Nat.ne_of_lt hbudget]

theorem poll_cons {r : LineReader} {piece taken rest : List Byte} (h : splitLine r.budget piece = (taken, rest))
    (later : List (List Byte)) (ended : Bool) :
    r.poll ⟨piece :: later, ended⟩ =
      if taken.getLast? = some newline ∨ taken.length = r.budget then
        if taken.isEmpty then (.closed, r, ⟨piece :: later, ended⟩)
        else
          ((judge ⟨r.limit, r.buffer ++ taken⟩).1, (judge ⟨r.limit, r.buffer ++ taken⟩).2, ⟨rest :: later, ended⟩)
      else if later.isEmpty ∧ ended then
        if taken.isEmpty then (.closed, r, ⟨[], ended⟩)
        else ((judge ⟨r.limit, r.buffer ++ taken⟩).1, (judge ⟨r.limit, r.buffer ++ taken⟩).2, ⟨[], ended⟩)
      else (.idle, ⟨r.limit, r.buffer ++ taken⟩, ⟨later, ended⟩) := by
  simp only [poll, List.headD_cons, List.tail_cons, h]

section Piece

variable {r : LineReader} {later : List (List Byte)} {ended : Bool}

/-- The next bytes complete the line. -/
theorem attempt_line {l rest : List Byte} (hl : newline ∉ l)
    (hsplit : splitLine r.budget (l ++ newline :: rest) = (l ++ [newline], rest)) :
    Attempt r ⟨(l ++ newline :: rest) :: later, ended⟩ (r.poll ⟨(l ++ newline :: rest) :: later, ended⟩).1
      (r.poll ⟨(l ++ newline :: rest) :: later, ended⟩).2.1 (r.poll ⟨(l ++ newline :: rest) :: later, ended⟩).2.2 := by
  rw [poll_cons hsplit, if_pos (.inl List.getLast?_concat), if_neg (by simp)]
  dsimp only
  rw [← List.append_assoc, judge_line]
  split
  · exact .line rfl hl ‹_›
  · exact .overlong rfl hl ‹_›

/-- The next bytes fill the buffer. -/
theorem attempt_full (h : r.Waiting) {l rest : List Byte} (hl : newline ∉ l) (hlen : l.length = r.budget)
    (hsplit : splitLine r.budget (l ++ rest) = (l, rest)) :
    Attempt r ⟨(l ++ rest) :: later, ended⟩ (r.poll ⟨(l ++ rest) :: later, ended⟩).1
      (r.poll ⟨(l ++ rest) :: later, ended⟩).2.1 (r.poll ⟨(l ++ rest) :: later, ended⟩).2.2 := by
  have hbudget := h.budget_add
  have hroom := h.room
  have hne : l ≠ [] := by
    rintro rfl
    rw [List.length_nil] at hlen
    omega
  have hfull : (r.buffer ++ l).length = r.limit + 2 := by
    rw [List.length_append]
    omega
  rw [poll_cons hsplit, if_pos (.inr hlen), if_neg (by simpa using hne)]
  dsimp only
  rw [judge_incomplete (List.not_mem_append h.incomplete hl), if_pos (by dsimp only; omega)]
  exact .full rfl hl hfull

/-- The next bytes are taken whole, and the line goes on or the stream ends. -/
theorem attempt_whole (h : r.Waiting) {piece : List Byte} (hpiece : newline ∉ piece) (hlen : piece.length < r.budget)
    (hsplit : splitLine r.budget piece = (piece, [])) :
    Attempt r ⟨piece :: later, ended⟩ (r.poll ⟨piece :: later, ended⟩).1 (r.poll ⟨piece :: later, ended⟩).2.1
      (r.poll ⟨piece :: later, ended⟩).2.2 := by
  have hgrown : (r.buffer ++ piece).length ≤ r.limit + 1 := by
    have hbudget := h.budget_add
    rw [List.length_append]
    omega
  have hincomplete : newline ∉ r.buffer ++ piece := List.not_mem_append h.incomplete hpiece
  have hlast : ¬(piece.getLast? = some newline ∨ piece.length = r.budget) := by
    rintro (hlast | heq)
    · exact hpiece (List.mem_of_getLast? hlast)
    · omega
  rw [poll_cons hsplit, if_neg hlast]
  by_cases hend : later.isEmpty ∧ ended
  · -- the stream ends behind these bytes
    obtain ⟨hlater, rfl⟩ := hend
    obtain rfl := List.isEmpty_iff.1 hlater
    rw [if_pos ⟨rfl, rfl⟩]
    rcases piece with _ | ⟨b, piece⟩
    · exact .closed (.inr rfl) rfl
    · rw [if_neg (by simp)]
      dsimp only
      rw [judge_incomplete hincomplete]
      split
      · rename_i hlong
        exact .cut rfl rfl hpiece (by simp) (by dsimp only at hlong; omega)
      · rename_i hshort
        exact .last rfl rfl hpiece (by simpa using hshort)
  · rw [if_neg hend]
    refine .pause rfl hpiece hgrown fun hlater => ?_
    rw [hlater] at hend
    simpa using hend

end Piece

theorem attempt_poll {r : LineReader} (h : r.Waiting) (s : Incoming) :
    Attempt r s (r.poll s).1 (r.poll s).2.1 (r.poll s).2.2 := by
  rcases s with ⟨_ | ⟨piece, later⟩, ended⟩
  · rw [poll_nil h.budget_pos]
    cases ended with
    | true => exact .closed (.inl rfl) rfl
    | false => exact .quiet rfl rfl
  · rcases splitLine_cases r.budget piece with
      ⟨l, rest, rfl, hl, -, hsplit⟩ | ⟨l, rest, rfl, hl, hlen, hsplit⟩ | ⟨hpiece, hlen, hsplit⟩
    · exact attempt_line hl hsplit
    · exact attempt_full h hl hlen hsplit
    · exact attempt_whole h hpiece hlen hsplit

/-! ## What a reader owes -/

/-- How a stream ends whose lines all fit. If the tail has one byte too many, this hangs on whether any bytes came
together with the end. -/
def ending (limit : ℕ) (tail lastPiece : List Byte) : ReadEvent :=
  if tail.length = limit + 1 ∧ lastPiece ≠ [] then .tooLong else .closed

theorem ending_congr {limit : ℕ} {tail p q : List Byte} (h : tail.length = limit + 1 → (p = [] ↔ q = [])) :
    ending limit tail p = ending limit tail q := by
  unfold ending
  by_cases htail : tail.length = limit + 1
  · simp [h htail]
  · rw [if_neg fun hp => htail hp.1, if_neg fun hq => htail hq.1]

/-- What a reader is still to give of a stream. -/
def owed (r : LineReader) (s : Incoming) : List ReadEvent :=
  framed r.limit (r.buffer ++ s.pieces.flatten)
    (if s.ended then [ending r.limit (tailOf (r.buffer ++ s.pieces.flatten)) (s.pieces.getLastD [])] else [])

/-- The number of pieces and of bytes that are to come. -/
def remaining (s : Incoming) : ℕ := s.pieces.length + s.pieces.flatten.length

namespace Attempt

variable {r r' : LineReader} {s s' : Incoming} {e : ReadEvent}

theorem waiting (ha : Attempt r s e r' s') (h : r.Waiting) (he : e.isFinal = false) : r'.Waiting := by
  cases ha with
  | line => exact ⟨by simp, by simp⟩
  | pause _ hpiece hroom _ => exact ⟨by simp [h.incomplete, hpiece], hroom⟩
  | last _ _ hpiece hlen => exact ⟨by simp [h.incomplete, hpiece], Nat.le_succ_of_le hlen⟩
  | quiet => exact h
  | _ => cases he

/-- An attempt that is not final takes a piece or a byte, or else nothing is to come yet. -/
theorem remaining_lt (ha : Attempt r s e r' s') (he : e.isFinal = false) (hs : s ≠ ⟨[], false⟩) :
    remaining s' < remaining s := by
  unfold remaining
  cases ha with
  | line hpieces => simp only [hpieces, List.length_cons, List.flatten_cons, List.length_append]; omega
  | pause hpieces => simp only [hpieces, List.length_cons, List.flatten_cons, List.length_append]; omega
  | last hpieces => simp only [hpieces, List.length_cons, List.length_nil, List.flatten_nil]; omega
  | quiet hpieces hended =>
    obtain ⟨pieces, ended⟩ := s
    cases hpieces
    cases hended
    exact absurd rfl hs
  | _ => cases he

/-- A final attempt gives all that is owed. -/
theorem owed_final (ha : Attempt r s e r' s') (h : r.Waiting) (he : e.isFinal = true) : owed r s = [e] := by
  unfold owed
  cases ha with
  | overlong hpieces hl hlong =>
    rw [hpieces, List.flatten_cons, List.append_assoc, List.cons_append, ← List.append_assoc, framed_line, if_neg hlong]
    simp [h.incomplete, hl]
  | full hpieces hl hlen =>
    rw [hpieces, List.flatten_cons, List.append_assoc, ← List.append_assoc, framed_long _ (Nat.le_of_eq hlen.symm)]
    simp [h.incomplete, hl]
  | cut hpieces hended hpiece hne hlen =>
    have htail : newline ∉ r.buffer ++ _ := List.not_mem_append h.incomplete hpiece
    rw [hpieces, hended, List.flatten_cons, List.flatten_nil, List.append_nil, framed_tail htail, if_neg (by omega),
      if_pos rfl, tailOf_tail htail, ending, if_pos ⟨hlen, hne⟩]
  | closed hpieces hended =>
    have hbytes : s.pieces.flatten = [] ∧ s.pieces.getLastD [] = [] := by
      rcases hpieces with hpieces | hpieces
      · simp [hpieces]
      · simp [hpieces]
    have hroom := h.room
    rw [hbytes.1, hbytes.2, hended, List.append_nil, framed_tail h.incomplete, if_neg (by omega), if_pos rfl, ending,
      if_neg fun hne => hne.2 rfl]
  | _ => cases he

/-- An attempt that is not final gives the first part of what is owed, or nothing. -/
theorem owed_step (ha : Attempt r s e r' s') (h : r.Waiting) (he : e.isFinal = false) :
    owed r s = [e].filter (· ≠ .idle) ++ owed r' s' := by
  unfold owed
  cases ha with
  | @line l rest later hpieces hl hfits =>
    have hline : newline ∉ r.buffer ++ l := List.not_mem_append h.incomplete hl
    have hbytes : r.buffer ++ s.pieces.flatten = (r.buffer ++ l) ++ newline :: (rest ++ later.flatten) := by
      rw [hpieces, List.flatten_cons]
      simp
    have hending : ending r.limit (tailOf (rest ++ later.flatten)) (s.pieces.getLastD []) =
        ending r.limit (tailOf (rest ++ later.flatten)) ((rest :: later).getLastD []) := by
      refine ending_congr fun htail => ?_
      rw [hpieces]
      cases later with
      | nil =>
        -- the tail is in the same piece as the line
        have hrest : rest ≠ [] := by
          rintro rfl
          simp [tailOf_tail] at htail
        simp [hrest]
      | cons piece later => simp
    rw [hbytes, framed_line hline, if_pos hfits, tailOf_line hline, hending]
    rfl
  | @pause piece later hpieces hpiece hroom hmore =>
    have hbytes : r.buffer ++ s.pieces.flatten = r.buffer ++ piece ++ later.flatten := by
      rw [hpieces, List.flatten_cons, List.append_assoc]
    rw [hbytes]
    cases later with
    | nil => rw [hmore rfl]; rfl
    | cons next later => rw [hpieces]; rfl
  | @last piece hpieces hended hpiece hlen =>
    have hbytes : r.buffer ++ s.pieces.flatten = r.buffer ++ piece := by
      rw [hpieces, List.flatten_cons, List.flatten_nil, List.append_nil]
    have htail : newline ∉ r.buffer ++ piece := List.not_mem_append h.incomplete hpiece
    rw [hbytes, List.flatten_nil, List.append_nil, tailOf_tail htail, ending_congr (q := []) (by omega)]
    rfl
  | quiet => rfl
  | _ => cases he

end Attempt

/-! ## Runs -/

theorem Waiting.poll_quiet {r : LineReader} (h : r.Waiting) : r.poll ⟨[], false⟩ = (.idle, r, ⟨[], false⟩) := by
  rw [poll_nil h.budget_pos]
  rfl

theorem Waiting.owed_quiet {r : LineReader} (h : r.Waiting) : owed r ⟨[], false⟩ = [] := by
  have hroom := h.room
  show framed r.limit (r.buffer ++ []) [] = []
  rw [List.append_nil, framed_tail h.incomplete, if_neg (by omega)]

/-- Where nothing is to come, nothing is given. -/
theorem Waiting.polls_quiet {r : LineReader} (h : r.Waiting) (n : ℕ) :
    (polls n r ⟨[], false⟩).filter (· ≠ .idle) = [] := by
  induction n with
  | zero => rfl
  | succ n ih =>
    rw [polls, h.poll_quiet]
    exact ih

/-- Attempts enough for all that is to come give what is owed, and pauses between. -/
theorem polls_owed {r : LineReader} (h : r.Waiting) (s : Incoming) (n : ℕ) (hn : remaining s < n) :
    (polls n r s).filter (· ≠ .idle) = owed r s := by
  induction n generalizing r s with
  | zero => cases hn
  | succ n ih =>
    by_cases hs : s = ⟨[], false⟩
    · rw [hs, h.owed_quiet, h.polls_quiet]
    · have ha := attempt_poll h s
      rw [polls, ← List.singleton_append, List.filter_append]
      cases he : (r.poll s).1.isFinal with
      | true =>
        have hidle : (r.poll s).1 ≠ .idle := fun hidle => by simp [hidle, ReadEvent.isFinal] at he
        rw [ha.owed_final h he, if_pos rfl, List.filter_nil, List.append_nil,
          List.filter_cons_of_pos (by simpa using hidle)]
        rfl
      | false =>
        have hlt := ha.remaining_lt he hs
        rw [if_neg (by simp), ih (ha.waiting h he) _ (by omega), ha.owed_step h he]

/-- More attempts go on where fewer stopped. -/
theorem prefix_polls (n k : ℕ) (r : LineReader) (s : Incoming) : polls n r s <+: polls (n + k) r s := by
  induction n generalizing r s with
  | zero => exact List.nil_prefix
  | succ n ih =>
    rw [Nat.succ_add, polls, polls, List.prefix_cons_inj]
    split
    · exact List.prefix_rfl
    · exact ih ..

/-- However many attempts there are, they give a beginning of what is owed. -/
theorem polls_prefix_owed {r : LineReader} (h : r.Waiting) (s : Incoming) (n : ℕ) :
    (polls n r s).filter (· ≠ .idle) <+: owed r s := by
  rw [← polls_owed h s (n + (remaining s + 1)) (by omega)]
  exact (prefix_polls ..).filter _

theorem owed_new (limit : ℕ) (pieces : List (List Byte)) (ended : Bool) :
    owed (new limit) ⟨pieces, ended⟩ = framed limit pieces.flatten
      (if ended then [ending limit (tailOf pieces.flatten) (pieces.getLastD [])] else []) := rfl

theorem filter_framed {limit : ℕ} {bytes : List Byte} {behind : List ReadEvent} (h : ∀ e ∈ behind, e.isLine = false) :
    (framed limit bytes behind).filter ReadEvent.isLine =
      ((linesOf bytes).takeWhile fun line => Fits limit line).map delivered := by
  unfold framed
  rw [List.filter_append, List.filter_eq_self.2, List.filter_eq_nil_iff.2, List.append_nil]
  · intro e he
    split at he
    · rw [List.mem_singleton.1 he]
      simp [ReadEvent.isLine]
    · simp [h e he]
  · intro e he
    obtain ⟨line, -, rfl⟩ := List.mem_map.1 he
    rfl

theorem isLine_ending (limit : ℕ) (tail lastPiece : List Byte) : (ending limit tail lastPiece).isLine = false := by
  unfold ending
  split
  · rfl
  · rfl

theorem delivered_eq_line_iff {line : List Byte} {text : List Char} :
    delivered line = .line (String.ofList text) ↔ Text.Says (withoutReturn line) text := by
  rw [delivered, ReadEvent.line.injEq, String.ofList_inj, Text.decodeLossy_eq_iff]

/-- While a stream is open, attempts give its lines up to the first one that is too long, and wherever it pauses, enough
of them give all. The bytes behind the last newline are never given as a line, at the end of the stream neither. A line
is given as the text that its bytes say. -/
theorem lines_independent (limit : ℕ) (pieces : List (List Byte)) :
    (∀ n, (polls n (new limit) ⟨pieces, false⟩).filter (· ≠ .idle) <+: framed limit pieces.flatten []) ∧
    (∀ k, (polls (pieces.length + pieces.flatten.length + 1 + k) (new limit) ⟨pieces, false⟩).filter (· ≠ .idle) =
      framed limit pieces.flatten []) ∧
    (∀ n ended, (polls n (new limit) ⟨pieces, ended⟩).filter ReadEvent.isLine <+:
      ((linesOf pieces.flatten).takeWhile fun line => Fits limit line).map delivered) ∧
    ∀ line text, delivered line = .line (String.ofList text) ↔ Text.Says (withoutReturn line) text := by
  have hnew := waiting_new limit
  refine ⟨fun n => polls_prefix_owed hnew ⟨pieces, false⟩ n, fun k => ?_, fun n ended => ?_, fun _ _ =>
    delivered_eq_line_iff⟩
  · refine polls_owed hnew ⟨pieces, false⟩ _ ?_
    show pieces.length + pieces.flatten.length < _
    omega
  · have hlines := (polls_prefix_owed hnew ⟨pieces, ended⟩ n).filter ReadEvent.isLine
    rw [ReadEvent.filter_isLine, owed_new, filter_framed] at hlines
    · exact hlines
    · intro e he
      split at he
      · rw [List.mem_singleton.1 he]
        exact isLine_ending ..
      · cases he

example : linesOf [97, 13, 10, 98] = [[97, 13]] ∧ withoutReturn [97, 13] = [97] := by decide

/-! ## The end of a stream -/

/-- Attempts to read end with an event that is final. -/
def Ends (r : LineReader) (s : Incoming) (e : ReadEvent) : Prop := ∃ n, e ∈ polls n r s ∧ e.isFinal = true

/-- A stream that ends is found too long: a line is, or the tail has two bytes too many, or it has one byte too many and
the stream does not pause before its end. -/
def EndsLong (limit : ℕ) (pieces : List (List Byte)) : Prop :=
  Overflows limit pieces.flatten ∨ (tailOf pieces.flatten).length = limit + 1 ∧ pieces.getLastD [] ≠ []

instance (limit : ℕ) (pieces : List (List Byte)) : Decidable (EndsLong limit pieces) :=
  inferInstanceAs (Decidable (_ ∨ _))

/-- How a reader ends with a stream that ends. -/
def outcome (limit : ℕ) (pieces : List (List Byte)) : ReadEvent := if EndsLong limit pieces then .tooLong else .closed

theorem isFinal_outcome (limit : ℕ) (pieces : List (List Byte)) : (outcome limit pieces).isFinal = true := by
  unfold outcome
  split
  · rfl
  · rfl

theorem outcome_eq_iff (limit : ℕ) (p q : List (List Byte)) :
    outcome limit p = outcome limit q ↔ (EndsLong limit p ↔ EndsLong limit q) := by
  unfold outcome
  by_cases hp : EndsLong limit p <;> by_cases hq : EndsLong limit q <;> simp [hp, hq]

theorem owed_ended (limit : ℕ) (pieces : List (List Byte)) :
    owed (new limit) ⟨pieces, true⟩ =
      ((linesOf pieces.flatten).takeWhile fun line => Fits limit line).map delivered ++ [outcome limit pieces] := by
  rw [owed_new]
  unfold framed outcome EndsLong ending
  by_cases h : Overflows limit pieces.flatten
  · simp [h]
  · simp [h]

/-- Reading a stream that ends always comes to an end, and in one way only. -/
theorem ends_iff (limit : ℕ) (pieces : List (List Byte)) (e : ReadEvent) :
    Ends (new limit) ⟨pieces, true⟩ e ↔ e = outcome limit pieces := by
  constructor
  · rintro ⟨n, hmem, hfinal⟩
    have hidle : e ≠ .idle := by
      rintro rfl
      cases hfinal
    have howing := (polls_prefix_owed (waiting_new limit) ⟨pieces, true⟩ n).mem
      (List.mem_filter.2 ⟨hmem, by simpa using hidle⟩)
    rw [owed_ended, List.mem_append, List.mem_singleton] at howing
    rcases howing with hline | he
    · obtain ⟨line, -, rfl⟩ := List.mem_map.1 hline
      cases hfinal
    · exact he
  · rintro rfl
    refine ⟨remaining ⟨pieces, true⟩ + 1, ?_, isFinal_outcome ..⟩
    have hmem : outcome limit pieces ∈ owed (new limit) ⟨pieces, true⟩ := by
      rw [owed_ended]
      simp
    rw [← polls_owed (waiting_new limit) _ _ (Nat.lt_succ_self _)] at hmem
    exact List.mem_of_mem_filter hmem

/-- Two ways in which the same bytes arrive end alike, unless what stands behind the last newline has one byte too many
and the stream pauses right before its end in one of them only. -/
theorem endings_agree_iff (limit : ℕ) (p q : List (List Byte)) (h : p.flatten = q.flatten) :
    (∀ e, Ends (new limit) ⟨p, true⟩ e ↔ Ends (new limit) ⟨q, true⟩ e) ↔
      (Overflows limit p.flatten ∨ (tailOf p.flatten).length ≠ limit + 1 ∨ (p.getLastD [] = [] ↔ q.getLastD [] = [])) := by
  have houtcome : (∀ e, Ends (new limit) ⟨p, true⟩ e ↔ Ends (new limit) ⟨q, true⟩ e) ↔
      outcome limit p = outcome limit q := by
    simp only [ends_iff]
    exact ⟨fun heq => (heq _).1 rfl, fun heq e => by rw [heq]⟩
  rw [houtcome, outcome_eq_iff, EndsLong, EndsLong, ← h]
  tauto

/-- Three bytes are two too many for a limit of one byte, with a pause before the end or without. -/
theorem endings_agree_iff_longer :
    [[120, 120], [120]].flatten = ([[120], [], [120, 120], []] : List (List Byte)).flatten ∧
      ∀ e, Ends (new 1) ⟨[[120, 120], [120]], true⟩ e ↔ Ends (new 1) ⟨[[120], [], [120, 120], []], true⟩ e := by
  have hbytes : [[120, 120], [120]].flatten = ([[120], [], [120, 120], []] : List (List Byte)).flatten := rfl
  have hover : Overflows 1 ([[120, 120], [120]] : List (List Byte)).flatten := by decide
  exact ⟨hbytes, (endings_agree_iff 1 _ _ hbytes).2 (.inl hover)⟩

/-- Two bytes are one too many for a limit of one byte. If the stream ends with them, they are found too long; if it
pauses first, it is closed as if nothing had been wrong. -/
theorem ending_depends_on_pause :
    [[120, 120]].flatten = ([[120, 120], []] : List (List Byte)).flatten ∧
      (∀ e, Ends (new 1) ⟨[[120, 120]], true⟩ e ↔ e = .tooLong) ∧
      ∀ e, Ends (new 1) ⟨[[120, 120], []], true⟩ e ↔ e = .closed := by
  have htogether : outcome 1 [[120, 120]] = .tooLong := by decide
  have hpaused : outcome 1 [[120, 120], []] = .closed := by decide
  exact ⟨rfl, fun e => by rw [ends_iff, htogether], fun e => by rw [ends_iff, hpaused]⟩

end LineReader

end SharedSheet
