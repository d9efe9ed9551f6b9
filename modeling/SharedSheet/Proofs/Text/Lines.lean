/-
Values on one line, and texts in lines. Unescaping takes an escaped value back to what it was, and an escaped value
holds no line end, so that lines which are put one after the other can be told apart again (`parts_flatMap`).
-/
import SharedSheet.Text.Lines

namespace SharedSheet.Text

/-! ## Escapes -/

/-- What is escaped, and how: a backslash and the two line ends, by a backslash and a letter that stands for them. -/
theorem escapeChar_cases (c : Char) :
    (∃ d, escapeChar c = ['\\', d] ∧ escaped? d = some c ∧ d ≠ '\n' ∧ d ≠ '\r') ∨
      (escapeChar c = [c] ∧ c ≠ '\\' ∧ c ≠ '\n' ∧ c ≠ '\r') := by
  unfold escapeChar
  split
  · exact .inl ⟨'\\', rfl, rfl, by decide, by decide⟩
  · exact .inl ⟨'n', rfl, rfl, by decide, by decide⟩
  · exact .inl ⟨'r', rfl, rfl, by decide, by decide⟩
  · exact .inr ⟨rfl, by assumption, by assumption, by assumption⟩

theorem unescape_plain {c : Char} (h : c ≠ '\\') (s : List Char) : unescape (c :: s) = (unescape s).map (c :: ·) := by
  rw [unescape]
  · rintro rfl
    exact absurd rfl h
  · rintro _ _ rfl
    exact absurd rfl h

/-- A character that is no first of a pair, and not a backslash at the end, is no backslash. -/
theorem ne_backslash {c : Char} {s : List Char} (hlast : c = '\\' → s = [] → False)
    (hpair : ∀ d t, c = '\\' → s = d :: t → False) : c ≠ '\\' := by
  intro hc
  rcases s with _ | ⟨d, t⟩
  · exact hlast hc rfl
  · exact hpair d t hc rfl

theorem unescape_escape (s : List Char) : unescape (escape s) = .ok s := by
  induction s with
  | nil => rfl
  | cons c s ih =>
    show unescape (escapeChar c ++ escape s) = _
    rcases escapeChar_cases c with ⟨d, hc, hd, -, -⟩ | ⟨hc, hplain, -, -⟩
    · rw [hc, List.cons_append, List.cons_append, List.nil_append, unescape, hd]
      dsimp only
      rw [ih]
      rfl
    · rw [hc, List.cons_append, List.nil_append, unescape_plain hplain, ih]
      rfl

/-- An escaped value stands on one line. -/
theorem no_line_end_escape (s : List Char) : '\n' ∉ escape s ∧ '\r' ∉ escape s := by
  have key : ∀ e, e = '\n' ∨ e = '\r' → e ∉ escape s := by
    intro e he hmem
    obtain ⟨c, -, hc⟩ := List.mem_flatMap.1 hmem
    rcases escapeChar_cases c with ⟨d, hesc, -, hn, hr⟩ | ⟨hesc, -, hn, hr⟩
    · rw [hesc] at hc
      rcases he with rfl | rfl
      · simp [hn.symm] at hc
      · simp [hr.symm] at hc
    · rw [hesc, List.mem_singleton] at hc
      rcases he with rfl | rfl
      · exact hn hc.symm
      · exact hr hc.symm
  exact ⟨key _ (.inl rfl), key _ (.inr rfl)⟩

theorem escapeChar_eq_self {c : Char} (h₁ : c ≠ '\\') (h₂ : c ≠ '\n') (h₃ : c ≠ '\r') : escapeChar c = [c] := by
  unfold escapeChar
  split
  · exact absurd rfl h₁
  · exact absurd rfl h₂
  · exact absurd rfl h₃
  · rfl

/-- A value without backslashes and line ends is written as it is. -/
theorem escape_eq_self {s : List Char} (h : ∀ c ∈ s, c ≠ '\\' ∧ c ≠ '\n' ∧ c ≠ '\r') : escape s = s := by
  induction s with
  | nil => rfl
  | cons c s ih =>
    obtain ⟨h₁, h₂, h₃⟩ := h c List.mem_cons_self
    show escapeChar c ++ escape s = _
    rw [escapeChar_eq_self h₁ h₂ h₃, ih fun d hd => h d (List.mem_cons_of_mem _ hd)]
    rfl

/-! ## Lines -/

/-- A text without the separator is one part. -/
theorem parts_of_notMem {sep : Char} {s : List Char} (h : sep ∉ s) : parts sep s = [s] := by
  induction s with
  | nil => rfl
  | cons c s ih =>
    obtain ⟨hc, hs⟩ := List.ne_and_not_mem_of_not_mem_cons h
    rw [parts, if_neg hc.symm, ih hs]

/-- The first part ends at the first separator. -/
theorem parts_append {sep : Char} {s : List Char} (h : sep ∉ s) (t : List Char) :
    parts sep (s ++ sep :: t) = s :: parts sep t := by
  induction s with
  | nil => simp [parts]
  | cons c s ih =>
    obtain ⟨hc, hs⟩ := List.ne_and_not_mem_of_not_mem_cons h
    rw [List.cons_append, parts, if_neg hc.symm, ih hs]

/-- Parts that are ended by a separator each, and what is left behind the last of them, are found again. -/
theorem parts_flatMap {sep : Char} {lines : List (List Char)} {rest : List Char} (h : ∀ l ∈ lines, sep ∉ l)
    (hrest : sep ∉ rest) : parts sep (lines.flatMap (· ++ [sep]) ++ rest) = lines ++ [rest] := by
  induction lines with
  | nil => exact parts_of_notMem hrest
  | cons l lines ih =>
    rw [List.flatMap_cons, List.append_assoc, List.append_assoc, List.singleton_append,
      parts_append (h l List.mem_cons_self), ih fun m hm => h m (List.mem_cons_of_mem _ hm)]
    rfl

end SharedSheet.Text
