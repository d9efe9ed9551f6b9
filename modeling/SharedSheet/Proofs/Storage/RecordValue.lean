/-
The values in stored records and the lines that they are written on. A value may have several written forms, but only
one of them stands on one line, and this is its escaped form (`Written.escape_eq`).

A line is read in pairs: a backslash takes the character behind it along, even if that is a backslash, too. So what a
backslash means depends on all that is in front of it (`Paired`), though only the backslashes just before it have to be
counted (`paired_iff`). Reading fails at the first backslash that is the first of a pair and takes nothing along with
which it stands for a character (`unescape_eq_error_iff`).
-/
import SharedSheet.Proofs.Storage.RecordGrammar

namespace SharedSheet.Text

variable {raw value before after s t : List Char} {c d : Char} {e : EscapeError}

/-! ## The form on one line -/

theorem escapeChar_of_letter (h : (d, c) ∈ [('\\', '\\'), ('n', '\n'), ('r', '\r')]) : escapeChar c = ['\\', d] := by
  simp only [List.mem_cons, Prod.mk.injEq, List.not_mem_nil, or_false] at h
  rcases h with ⟨rfl, rfl⟩ | ⟨rfl, rfl⟩ | ⟨rfl, rfl⟩ <;> rfl

/-- What is written on one line is written as escaping writes it. -/
theorem Written.escape_eq (h : Written raw value) (hn : '\n' ∉ raw) (hr : '\r' ∉ raw) : escape value = raw := by
  induction h with
  | nil => rfl
  | @plain c raw value hc _ ih =>
    obtain ⟨hnc, hn⟩ := List.ne_and_not_mem_of_not_mem_cons hn
    obtain ⟨hrc, hr⟩ := List.ne_and_not_mem_of_not_mem_cons hr
    show escapeChar c ++ escape value = _
    rw [escapeChar_eq_self hc hnc.symm hrc.symm, ih hn hr]
    rfl
  | @escaped d c raw value hd _ ih =>
    have hsub : raw ⊆ '\\' :: d :: raw := fun _ h => List.mem_cons_of_mem _ (List.mem_cons_of_mem _ h)
    show escapeChar c ++ escape value = _
    rw [escapeChar_of_letter hd, ih (mt (@hsub _) hn) (mt (@hsub _) hr)]
    rfl

/-! ## Pairs -/

/-- A text that is read to its end in pairs: a backslash with the character behind it, whichever it is, and every other
character alone. -/
inductive Paired : List Char → Prop
  | nil : Paired []
  | plain {c : Char} {s : List Char} (hc : c ≠ '\\') (h : Paired s) : Paired (c :: s)
  | pair {c : Char} {s : List Char} (h : Paired s) : Paired ('\\' :: c :: s)

theorem Written.paired (h : Written raw value) : Paired raw := by
  induction h with
  | nil => exact .nil
  | plain hc _ ih => exact .plain hc ih
  | escaped _ _ ih => exact .pair ih

theorem Paired.append (h : Paired s) (ht : Paired t) : Paired (s ++ t) := by
  induction h with
  | nil => exact ht
  | plain hc _ ih => exact .plain hc ih
  | pair _ ih => exact .pair ih

theorem paired_cons_iff (hc : c ≠ '\\') : Paired (c :: s) ↔ Paired s := by
  constructor
  · intro h
    cases h with
    | plain _ h => exact h
    | pair => exact absurd rfl hc
  · exact .plain hc

theorem paired_pair_iff : Paired ('\\' :: c :: s) ↔ Paired s := by
  constructor
  · intro h
    cases h with
    | plain hc => exact absurd rfl hc
    | pair h => exact h
  · exact .pair

/-- A backslash behind whole pairs is the first of a pair. -/
theorem Paired.not_concat (h : Paired s) : ¬Paired (s ++ ['\\']) := by
  induction h with
  | nil =>
    intro h
    cases h with
    | plain hc => exact hc rfl
  | plain hc _ ih => rwa [List.cons_append, paired_cons_iff hc]
  | pair _ ih => rwa [List.cons_append, List.cons_append, paired_pair_iff]

/-- A text that ends within a pair ends with the backslash of this pair. -/
theorem paired_or_concat (s : List Char) : Paired s ∨ ∃ t, s = t ++ ['\\'] ∧ Paired t := by
  induction s using List.reverseRecOn with
  | nil => exact .inl .nil
  | append_singleton s c ih =>
    rcases ih with h | ⟨t, rfl, h⟩
    · by_cases hc : c = '\\'
      · exact .inr ⟨s, by rw [hc], h⟩
      · exact .inl (h.append (.plain hc .nil))
    · rw [List.append_assoc]
      exact .inl (h.append (.pair .nil))

theorem paired_concat_iff : Paired (s ++ [c]) ↔ (c = '\\' → ¬Paired s) := by
  constructor
  · rintro h rfl hs
    exact hs.not_concat h
  · intro h
    rcases paired_or_concat s with hs | ⟨t, rfl, ht⟩
    · exact hs.append (.plain (fun hc => h hc hs) .nil)
    · rw [List.append_assoc]
      exact ht.append (.pair .nil)

/-- Whether a text is read in pairs is told by the backslashes at its end. -/
theorem paired_iff : Paired s ↔ Even (s.rtakeWhile (· = '\\')).length := by
  induction s using List.reverseRecOn with
  | nil => simp [Paired.nil]
  | append_singleton s c ih =>
    rw [paired_concat_iff, ih, List.rtakeWhile_concat]
    by_cases hc : c = '\\'
    · rw [if_pos (decide_eq_true hc), List.length_append, List.length_singleton, Nat.even_add_one]
      exact forall_prop_of_true hc
    · simp [hc]

/-! ## Where reading fails -/

/-- What is wrong with a backslash, by the text behind it: it is the last character, or the next is none with which it
stands for a character. -/
inductive Amiss : List Char → EscapeError → Prop
  | last : Amiss [] .danglingBackslash
  | letter {c : Char} {s : List Char} (hc : c ∉ ['\\', 'n', 'r']) : Amiss (c :: s) (.unknownEscape c)

theorem exists_amiss_iff : (∃ e, Amiss s e) ↔ s = [] ∨ ∃ c rest, s = c :: rest ∧ c ∉ ['\\', 'n', 'r'] := by
  constructor
  · rintro ⟨e, h⟩
    cases h with
    | last => exact .inl rfl
    | letter hc => exact .inr ⟨_, _, rfl, hc⟩
  · rintro (rfl | ⟨c, rest, rfl, hc⟩)
    · exact ⟨_, .last⟩
    · exact ⟨_, .letter hc⟩

theorem escaped?_eq_none_iff : escaped? d = none ↔ d ∉ ['\\', 'n', 'r'] := by
  unfold escaped?
  split <;> simp_all

theorem unescape_amiss (h : Amiss s e) : unescape ('\\' :: s) = .error e := by
  cases h with
  | last => rfl
  | letter hc => rw [unescape, escaped?_eq_none_iff.2 hc]

/-- Reading fails at the first backslash with which something is wrong, behind a written value, and says what it is. -/
theorem unescape_eq_error_iff : unescape raw = .error e ↔
    ∃ before after value, raw = before ++ '\\' :: after ∧ Written before value ∧ Amiss after e := by
  constructor
  · intro h
    induction raw using unescape.induct with
    | case1 => cases h
    | case2 =>
      cases h
      exact ⟨[], [], [], rfl, .nil, .last⟩
    | case3 d raw c hd ih =>
      rw [unescape, hd] at h
      obtain ⟨before, after, value, rfl, hbefore, hafter⟩ := ih (map_eq_error h)
      exact ⟨'\\' :: d :: before, after, c :: value, rfl, .escaped (escaped?_eq_some_iff.1 hd) hbefore, hafter⟩
    | case4 d raw hd =>
      rw [unescape, hd] at h
      cases h
      exact ⟨[], d :: raw, [], rfl, .nil, .letter (escaped?_eq_none_iff.1 hd)⟩
    | case5 c raw hlast hpair ih =>
      have hc := ne_backslash hlast hpair
      rw [unescape_plain hc] at h
      obtain ⟨before, after, value, rfl, hbefore, hafter⟩ := ih (map_eq_error h)
      exact ⟨c :: before, after, c :: value, rfl, .plain hc hbefore, hafter⟩
  · rintro ⟨before, after, value, rfl, hbefore, hafter⟩
    rw [hbefore.unescape_append, unescape_amiss hafter]
    rfl

example : unescape "\\\\\\r\\\\\\q".toList = .error (.unknownEscape 'q') := by decide

/-- Nothing is read if something is wrong with the backslash that is the first of a pair. -/
theorem Paired.exists_error (h : Paired before) (hafter : Amiss after e) :
    ∃ e', unescape (before ++ '\\' :: after) = .error e' := by
  induction h with
  | nil => exact ⟨e, unescape_amiss hafter⟩
  | plain hc _ ih =>
    obtain ⟨e', he⟩ := ih
    rw [List.cons_append, unescape_plain hc, he]
    exact ⟨e', rfl⟩
  | @pair c _ _ ih =>
    obtain ⟨e', he⟩ := ih
    rw [List.cons_append, List.cons_append, unescape, he]
    rcases escaped? c with _ | d
    · exact ⟨_, rfl⟩
    · exact ⟨e', rfl⟩

/-! ## Values and their lines -/

/-- Every value is written on one line and read back from it, and a line from which a value is read is the one that
the value is written on. Reading fails exactly on the texts in which, in pairs from the left, some backslash is the
last character or stands in front of another one than a backslash, an n or an r. A backslash is the first of a pair
exactly if the number of backslashes just before it is even. -/
theorem unescape_inverts_escape :
    (∀ s, '\n' ∉ escape s ∧ '\r' ∉ escape s ∧ unescape (escape s) = .ok s) ∧
    (∀ raw s, '\n' ∉ raw → '\r' ∉ raw → unescape raw = .ok s → escape s = raw) ∧
    (∀ raw, (∃ e, unescape raw = .error e) ↔ ∃ before after, raw = before ++ '\\' :: after ∧ Paired before ∧
      (after = [] ∨ ∃ c rest, after = c :: rest ∧ c ∉ ['\\', 'n', 'r'])) ∧
    ∀ before, Paired before ↔ Even (before.rtakeWhile (· = '\\')).length := by
  refine ⟨fun s => ?_, fun raw s hn hr h => ?_, fun raw => ⟨?_, ?_⟩, fun before => paired_iff⟩
  · obtain ⟨hn, hr⟩ := no_line_end_escape s
    exact ⟨hn, hr, unescape_escape s⟩
  · exact (unescape_eq_ok_iff.1 h).escape_eq hn hr
  · rintro ⟨e, h⟩
    obtain ⟨before, after, value, hraw, hbefore, hafter⟩ := unescape_eq_error_iff.1 h
    exact ⟨before, after, hraw, hbefore.paired, exists_amiss_iff.1 ⟨e, hafter⟩⟩
  · rintro ⟨before, after, rfl, hbefore, hafter⟩
    obtain ⟨e, hafter⟩ := exists_amiss_iff.2 hafter
    exact hbefore.exists_error hafter

/-- Of three backslashes in front of an n the last is its own, of two none is. -/
theorem unescape_inverts_escape_run : '\n' ∉ "\\\\\\n\\\\n".toList ∧ '\r' ∉ "\\\\\\n\\\\n".toList ∧
    unescape "\\\\\\n\\\\n".toList = .ok "\\\n\\n".toList ∧
    escape "\\\n\\n".toList = "\\\\\\n\\\\n".toList := by
  have hn : '\n' ∉ "\\\\\\n\\\\n".toList := by decide
  have hr : '\r' ∉ "\\\\\\n\\\\n".toList := by decide
  have hread : unescape "\\\\\\n\\\\n".toList = .ok "\\\n\\n".toList := by decide
  exact ⟨hn, hr, hread, unescape_inverts_escape.2.1 _ _ hn hr hread⟩

end SharedSheet.Text
