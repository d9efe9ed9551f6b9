/-
Reading decimals in positional notation. A decimal is read back from its printed form with the value
it has (`read?_plain`), and the printed form has digits and a point only.
-/
import SharedSheet.Formula.Token
import SharedSheet.Proofs.Number.Numeral

namespace SharedSheet.Number

theorem isDigits_digitsOf (n : ℕ) : IsDigits (digitsOf n) := by
  intro c hc
  exact Nat.isDigit_of_mem_toDigits (by norm_num) (by norm_num) hc

theorem digitsOf_ne_nil (n : ℕ) : digitsOf n ≠ [] := Nat.toDigits_ne_nil

theorem isDigits_zeros (n : ℕ) : IsDigits (List.replicate n '0') := by
  intro c hc
  rw [List.eq_of_mem_replicate hc]
  rfl

theorem IsDigits.append {s t : List Char} (hs : IsDigits s) (ht : IsDigits t) : IsDigits (s ++ t) := by
  intro c hc
  rcases List.mem_append.1 hc with h | h
  · exact hs c h
  · exact ht c h

theorem isNumeric_of_isDigit {c : Char} (h : c.isDigit = true) : Formula.isNumeric c = true := by
  simp [Formula.isNumeric, h]

theorem toLower_of_isNumeric {c : Char} (h : Formula.isNumeric c = true) : c.toLower = c := by
  unfold Formula.isNumeric at h
  rw [Bool.or_eq_true, Text.isDigit_iff, beq_iff_eq] at h
  rcases h with h | rfl
  · exact Text.toLower_eq_self (.inl (by omega))
  · decide

/-- A text of digits and points says a decimal without a sign, if it says a number. -/
theorem Spells.of_numeric {s : List Char} {l : Literal} (h : Spells s l) (hs : ∀ c ∈ s, Formula.isNumeric c = true) :
    ∃ n e, l = .decimal false n e := by
  -- no letter of a word is numeric
  have hword : ∀ {sign w v : List Char} {c : Char}, (∀ d ∈ sign ++ w, Formula.isNumeric d = true) →
      w.map Char.toLower = c :: v → Formula.isNumeric c = true := by
    intro sign w v c hs hw
    obtain ⟨d, w, rfl, rfl, -⟩ := List.map_eq_cons_iff.1 hw
    have hd := hs d (by simp)
    rwa [toLower_of_isNumeric hd]
  cases h with
  | infinity hsign hw =>
    rcases hw with hw | hw
    · exact absurd (hword hs hw) (by decide)
    · exact absurd (hword hs hw) (by decide)
  | notANumber hsign hw => exact absurd (hword hs hw) (by decide)
  | decimal hsign =>
    cases hsign with
    | none => exact ⟨_, _, rfl⟩
    | plus | minus => exact absurd (hs _ List.mem_cons_self) (by decide)

/-! ## The printed form -/

/-- The three shapes of a printed decimal: zeros behind the digits, a point between them, zeros in
front of them. -/
theorem plain_cases (d : Decimal) :
    (∃ w, d.plain = w ∧ IsDigits w ∧ w ≠ [] ∧ 0 ≤ d.exponent ∧
      Nat.ofDigitChars 10 w 0 = d.digits * 10 ^ d.exponent.toNat) ∨
    (∃ w f, d.plain = w ++ '.' :: f ∧ IsDigits w ∧ IsDigits f ∧ w ≠ [] ∧ (f.length : ℤ) = -d.exponent ∧
      Nat.ofDigitChars 10 (w ++ f) 0 = d.digits) := by
  have hdigits := isDigits_digitsOf d.digits
  have hvalue : Nat.ofDigitChars 10 (digitsOf d.digits) 0 = d.digits := Nat.ofDigitChars_ten_toDigits
  unfold Decimal.plain
  simp only
  split
  · rename_i hexp
    left
    refine ⟨_, rfl, hdigits.append (isDigits_zeros _), by simp [digitsOf_ne_nil], hexp, ?_⟩
    rw [Nat.ofDigitChars_append, hvalue, Nat.ofDigitChars_replicate_zero, Nat.mul_comm]
  · rename_i hexp
    right
    split
    · rename_i hlt
      -- the point stands between the digits
      refine ⟨_, _, rfl, ?_, ?_, ?_, ?_, ?_⟩
      · exact fun c hc => hdigits c (List.mem_of_mem_take hc)
      · exact fun c hc => hdigits c (List.mem_of_mem_drop hc)
      · rw [← List.length_pos_iff, List.length_take]
        omega
      · rw [List.length_drop]
        omega
      · rw [List.take_append_drop, hvalue]
    · -- the number has no more digits than stand behind the point
      rename_i hle
      refine ⟨['0'], List.replicate ((-d.exponent).toNat - (digitsOf d.digits).length) '0' ++ digitsOf d.digits, rfl,
        isDigits_zeros 1, (isDigits_zeros _).append hdigits, by simp, ?_, ?_⟩
      · rw [List.length_append, List.length_replicate]
        omega
      · rw [Nat.ofDigitChars_append, Nat.ofDigitChars_append, Nat.ofDigitChars_replicate_zero]
        simpa [Nat.ofDigitChars] using hvalue

theorem isNumeric_plain (d : Decimal) : ∀ c ∈ d.plain, Formula.isNumeric c = true := by
  intro c hc
  rcases plain_cases d with ⟨w, hw, hdig, -⟩ | ⟨w, f, hw, hdig, hfrac, -⟩
  · rw [hw] at hc
    exact isNumeric_of_isDigit (hdig c hc)
  · rw [hw, List.mem_append, List.mem_cons] at hc
    rcases hc with hc | rfl | hc
    · exact isNumeric_of_isDigit (hdig c hc)
    · rfl
    · exact isNumeric_of_isDigit (hfrac c hc)

theorem plain_ne_nil (d : Decimal) : d.plain ≠ [] := by
  rcases plain_cases d with ⟨w, hw, -, hne, -⟩ | ⟨w, f, hw, -⟩
  · rwa [hw]
  · rw [hw]
    simp

/-- A printed decimal is read back with its value. -/
theorem read?_plain (d : Decimal) :
    ∃ n k, Literal.read? d.plain = some (.decimal false n k) ∧ (n : ℚ) * 10 ^ k = d.digits * 10 ^ d.exponent := by
  rcases plain_cases d with ⟨w, hw, hdig, hne, hexp, hval⟩ | ⟨w, f, hw, hdig, hfrac, hne, hlen, hval⟩
  · have hspells := Spells.decimal .none (.whole hdig hne) .none
    rw [List.nil_append, List.append_nil] at hspells
    refine ⟨_, _, by rw [hw, Literal.read?_eq_some_iff.2 hspells], ?_⟩
    rw [hval]
    push_cast
    rw [mul_one, ← zpow_natCast, Int.toNat_of_nonneg hexp]
  · have hspells := Spells.decimal .none (.point hdig hfrac (by simp [hne])) .none
    rw [List.nil_append, List.append_nil] at hspells
    refine ⟨_, _, by rw [hw, Literal.read?_eq_some_iff.2 hspells], ?_⟩
    rw [hval, hlen, zero_sub, neg_neg]

end SharedSheet.Number
