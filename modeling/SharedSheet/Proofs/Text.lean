/-
Characters and runs of characters: the classes of characters by code point, and texts whose blank ends
are cut off.
-/
import Mathlib
import SharedSheet.Text.Basic

namespace SharedSheet.Text

/-! ## Characters -/

theorem isUpper_iff (c : Char) : c.isUpper = true ↔ 65 ≤ c.toNat ∧ c.toNat ≤ 90 := by
  simp only [Char.isUpper, decide_eq_true_eq, ge_iff_le, UInt32.le_iff_toNat_le]
  rfl

theorem isDigit_iff (c : Char) : c.isDigit = true ↔ 48 ≤ c.toNat ∧ c.toNat ≤ 57 := by
  simp only [Char.isDigit, Bool.and_eq_true, decide_eq_true_eq, ge_iff_le, UInt32.le_iff_toNat_le]
  rfl

theorem isLower_iff (c : Char) : c.isLower = true ↔ 97 ≤ c.toNat ∧ c.toNat ≤ 122 := by
  simp only [Char.isLower, Bool.and_eq_true, decide_eq_true_eq, ge_iff_le, UInt32.le_iff_toNat_le]
  rfl

/-- Only the letters a–z change in upper case. -/
theorem toUpper_eq_self {c : Char} (h : c.toNat < 97 ∨ 122 < c.toNat) : c.toUpper = c := by
  unfold Char.toUpper
  rw [dif_neg]
  rintro ⟨h₁, h₂⟩
  rw [UInt32.le_iff_toNat_le] at h₁ h₂
  change 97 ≤ c.toNat at h₁
  change c.toNat ≤ 122 at h₂
  omega

/-- Only the letters A–Z change in lower case. -/
theorem toLower_eq_self {c : Char} (h : c.toNat < 65 ∨ 90 < c.toNat) : c.toLower = c := by
  unfold Char.toLower
  rw [dif_neg]
  rintro ⟨h₁, h₂⟩
  rw [ge_iff_le, UInt32.le_iff_toNat_le] at h₁
  rw [UInt32.le_iff_toNat_le] at h₂
  change 65 ≤ c.toNat at h₁
  change c.toNat ≤ 90 at h₂
  omega

/-- No visible character of ASCII is blank. -/
theorem isBlank_of_visible {c : Char} (h : 33 ≤ c.toNat ∧ c.toNat ≤ 126) : isBlank c = false := by
  unfold isBlank
  simp only [Bool.or_eq_false_iff, Bool.and_eq_false_iff, decide_eq_false_iff_not, beq_eq_false_iff_ne]
  omega

theorem isBlank_eq_false {c : Char} (h : c.isUpper = true ∨ c.isDigit = true) : isBlank c = false := by
  rw [isUpper_iff, isDigit_iff] at h
  exact isBlank_of_visible (by omega)

/-! ## Runs -/

/-- A run is split off as a whole from what follows it. -/
theorem split_run {p : Char → Bool} {s t : List Char} (hs : ∀ c ∈ s, p c = true)
    (ht : ∀ c ∈ t.head?, p c = false) : (s ++ t).takeWhile p = s ∧ (s ++ t).dropWhile p = t := by
  rw [List.takeWhile_append_of_pos hs, List.dropWhile_append_of_pos hs]
  rcases t with _ | ⟨c, t⟩
  · simp
  · have hc := ht c (by simp)
    simp [hc]

theorem trim_eq_self {s : List Char} (h : ∀ c ∈ s, isBlank c = false) : trim s = s := by
  have hdrop : ∀ t : List Char, (∀ c ∈ t, isBlank c = false) → t.dropWhile isBlank = t := by
    intro t ht
    rcases t with _ | ⟨c, t⟩
    · rfl
    · exact List.dropWhile_cons_of_neg (by simp [ht c (by simp)])
  unfold trim dropEndWhile
  rw [hdrop s h, hdrop s.reverse fun c hc => h c (List.mem_reverse.1 hc), List.reverse_reverse]

/-- Blanks around a text that neither begins nor ends with one are cut off, and nothing else. -/
theorem trim_padded {before s after : List Char} (hbefore : ∀ c ∈ before, isBlank c = true)
    (hafter : ∀ c ∈ after, isBlank c = true) (hne : s ≠ []) (hhead : ∀ c ∈ s.head?, isBlank c = false)
    (hlast : ∀ c ∈ s.getLast?, isBlank c = false) : trim (before ++ s ++ after) = s := by
  have hfront : (before ++ (s ++ after)).dropWhile isBlank = s ++ after := by
    refine (split_run hbefore ?_).2
    rw [List.head?_append_of_ne_nil _ hne]
    exact hhead
  have hback : (after.reverse ++ s.reverse).dropWhile isBlank = s.reverse := by
    refine (split_run (fun c hc => hafter c (List.mem_reverse.1 hc)) ?_).2
    rw [List.head?_reverse]
    exact hlast
  rw [trim, dropEndWhile, List.append_assoc, hfront, List.reverse_append, hback, List.reverse_reverse]

/-- What is cut off at both ends is blank. -/
theorem exists_trim (s : List Char) : ∃ before after, s = before ++ trim s ++ after ∧
    (∀ c ∈ before, isBlank c = true) ∧ ∀ c ∈ after, isBlank c = true := by
  set t := s.dropWhile isBlank
  refine ⟨s.takeWhile isBlank, (t.reverse.takeWhile isBlank).reverse, ?_, fun c hc => List.mem_takeWhile_imp hc,
    fun c hc => List.mem_takeWhile_imp (List.mem_reverse.1 hc)⟩
  have hback : trim s ++ (t.reverse.takeWhile isBlank).reverse = t := by
    rw [trim, dropEndWhile, ← List.reverse_append, List.takeWhile_append_dropWhile, List.reverse_reverse]
  rw [List.append_assoc, hback, List.takeWhile_append_dropWhile]

/-- Nothing is left of a text exactly if it has nothing but blanks. -/
theorem isEmpty_trim (s : List Char) : (trim s).isEmpty = s.all isBlank := by
  rw [Bool.eq_iff_iff, List.isEmpty_iff, List.all_eq_true, trim, dropEndWhile, List.reverse_eq_nil_iff,
    List.dropWhile_eq_nil_iff]
  constructor
  · intro h c hc
    rw [← List.takeWhile_append_dropWhile (p := isBlank) (l := s), List.mem_append] at hc
    exact hc.elim List.mem_takeWhile_imp fun hc => h c (List.mem_reverse.2 hc)
  · intro h c hc
    exact h c ((List.dropWhile_sublist _).subset (List.mem_reverse.1 hc))

theorem dropWhile_head {p : Char → Bool} {s : List Char} {c : Char} (hc : c ∈ (s.dropWhile p).head?) : p c = false := by
  have h := List.head?_dropWhile_not p s
  rw [Option.mem_def.1 hc] at h
  exact h

/-- A text without the blanks around it neither begins nor ends with one. -/
theorem trim_ends (s : List Char) :
    (∀ c ∈ (trim s).head?, isBlank c = false) ∧ ∀ c ∈ (trim s).getLast?, isBlank c = false := by
  unfold trim dropEndWhile
  constructor
  · intro c hc
    -- what is cut off at the end leaves a prefix
    have hsplit : (s.dropWhile isBlank).reverse.reverse = _ :=
      congrArg List.reverse (List.takeWhile_append_dropWhile (p := isBlank) (l := (s.dropWhile isBlank).reverse)).symm
    rw [List.reverse_append, List.reverse_reverse] at hsplit
    refine dropWhile_head (s := s) ?_
    rw [hsplit, List.head?_append, Option.mem_def.1 hc]
    rfl
  · intro c hc
    rw [List.getLast?_reverse] at hc
    exact dropWhile_head hc

end SharedSheet.Text
