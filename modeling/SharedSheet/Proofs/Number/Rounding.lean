/-
Rounding to doubles. A nonnegative rational rounds to `m · 2^e` when it lies in the interval of that number
(`RoundsTo`), and there is such a number for each (`exists_roundsTo`). The arithmetic of doubles finds exactly this
one: a quotient or a product whose true value rounds to `m · 2^e` is `m · 2^e` (`roundWithAccuracy_eq`, `div_eq`,
`mul_eq`).
-/
import SharedSheet.Number.Literal
import SharedSheet.Proofs.Number.Double

namespace SharedSheet.Number

open Float.Model Float.Model.UnpackedFloat

theorem two_zpow_pos (e : ℤ) : (0 : ℚ) < 2 ^ e := zpow_pos (by norm_num) e

theorem two_zpow_lt {e e' : ℤ} : (2 : ℚ) ^ e < 2 ^ e' ↔ e < e' := zpow_lt_zpow_iff_right₀ (by norm_num)

theorem two_zpow_le {e e' : ℤ} : (2 : ℚ) ^ e ≤ 2 ^ e' ↔ e ≤ e' := zpow_le_zpow_iff_right₀ (by norm_num)

theorem two_zpow_add (e e' : ℤ) : (2 : ℚ) ^ (e + e') = 2 ^ e * 2 ^ e' := zpow_add₀ (by norm_num) e e'

/-! ## Mantissas with a remainder -/

/-- The mantissa is the integer part of the value, the round bit says whether the rest reaches one
half, and the sticky bit whether anything is left after that. -/
def Describes (em : ExtendedMantissa) (v : ℚ) : Prop :=
  ∃ r : ℚ, v = em.mantissa + em.roundBit.toNat / 2 + r ∧ 0 ≤ r ∧ r < 1 / 2 ∧ (em.stickyBit = false ↔ r = 0)

theorem Describes.le {em : ExtendedMantissa} {v : ℚ} (h : Describes em v) : (em.mantissa : ℚ) ≤ v := by
  obtain ⟨r, rfl, hr, -, -⟩ := h
  cases em.roundBit <;> simp <;> linarith

theorem Describes.lt {em : ExtendedMantissa} {v : ℚ} (h : Describes em v) : v < em.mantissa + 1 := by
  obtain ⟨r, rfl, -, hr, -⟩ := h
  cases em.roundBit <;> simp <;> linarith

theorem toNat_mod_two_ne (m : ℕ) : (m % 2 != 0).toNat = m % 2 := by
  rcases Nat.mod_two_eq_zero_or_one m with h | h <;> rw [h] <;> rfl

theorem Describes.shiftRightOne {em : ExtendedMantissa} {v : ℚ} (h : Describes em v) :
    Describes em.shiftRightOne (v / 2) := by
  obtain ⟨r, rfl, hr, hlt, hs⟩ := h
  obtain ⟨m, b, s⟩ := em
  have hm : (m : ℚ) = 2 * (m / 2 : ℕ) + (m % 2 : ℕ) := by exact_mod_cast (Nat.div_add_mod m 2).symm
  refine ⟨b.toNat / 4 + r / 2, ?_, ?_, ?_, ?_⟩
  · simp only [ExtendedMantissa.shiftRightOne, toNat_mod_two_ne]
    rw [hm]
    ring
  · positivity
  · cases b <;> simp <;> linarith
  · cases b
    · simpa [ExtendedMantissa.shiftRightOne] using hs
    · simp only [ExtendedMantissa.shiftRightOne, Bool.true_or, Bool.true_eq_false, false_iff, Bool.toNat_true]
      have : (0 : ℚ) < (1 : ℕ) / 4 := by norm_num
      linarith

theorem Describes.shiftRight {em : ExtendedMantissa} {v : ℚ} (h : Describes em v) (n : ℕ) :
    Describes (em >>> n) (v / 2 ^ n) := by
  show Describes (n.repeat ExtendedMantissa.shiftRightOne em) _
  induction n with
  | zero => simpa [Nat.repeat] using h
  | succ n ih =>
    rw [pow_succ, ← div_div]
    exact ih.shiftRightOne

theorem describes_exact (m : ℕ) : Describes (.ofMantissaAndAccuracy m .exact) m :=
  ⟨0, by simp [ExtendedMantissa.ofMantissaAndAccuracy], le_refl 0, by norm_num,
    by simp [ExtendedMantissa.ofMantissaAndAccuracy]⟩

/-- A division with remainder describes the quotient. -/
theorem describes_quotient (a : ℕ) {b : ℕ} (hb : 0 < b) :
    Describes (.ofMantissaAndAccuracy (a / b) (accuracyOfFraction (a % b) b)) (a / b : ℚ) := by
  have hb' : (0 : ℚ) < b := by exact_mod_cast hb
  have hlt : ((a % b : ℕ) : ℚ) < b := by exact_mod_cast Nat.mod_lt a hb
  have hnn : (0 : ℚ) ≤ (a % b : ℕ) := by positivity
  have hsplit : (a / b : ℚ) = (a / b : ℕ) + ((a % b : ℕ) : ℚ) / b := by
    have h : (a : ℚ) = b * (a / b : ℕ) + (a % b : ℕ) := by exact_mod_cast (Nat.div_add_mod a b).symm
    field_simp
    rw [h]
  rw [hsplit]
  unfold accuracyOfFraction
  split
  · rename_i hz
    rw [hz]
    simpa using describes_exact (a / b)
  · rename_i hz
    have hz' : (0 : ℚ) < (a % b : ℕ) := by exact_mod_cast Nat.pos_of_ne_zero hz
    -- the rest is less than one half, one half, or more
    rcases lt_trichotomy (2 * (a % b)) b with h | h | h
    · rw [Nat.compare_eq_lt.2 h]
      have h' : 2 * ((a % b : ℕ) : ℚ) < b := by exact_mod_cast h
      refine ⟨(a % b : ℕ) / b, ?_, ?_, ?_, ?_⟩
      · simp [ExtendedMantissa.ofMantissaAndAccuracy]
      · positivity
      · rw [div_lt_iff₀ hb']; linarith
      · simp [ExtendedMantissa.ofMantissaAndAccuracy, hz, hb.ne']
    · rw [Nat.compare_eq_eq.2 h]
      have h' : 2 * ((a % b : ℕ) : ℚ) = b := by exact_mod_cast h
      refine ⟨0, ?_, le_refl 0, by norm_num, ?_⟩
      · rw [← h']
        field_simp
        simp [ExtendedMantissa.ofMantissaAndAccuracy, mul_comm]
      · simp [ExtendedMantissa.ofMantissaAndAccuracy]
    · rw [Nat.compare_eq_gt.2 h]
      have h' : (b : ℚ) < 2 * ((a % b : ℕ) : ℚ) := by exact_mod_cast h
      have hpos : (1 : ℚ) / 2 < (a % b : ℕ) / b := by rw [lt_div_iff₀ hb']; linarith
      have hone : ((a % b : ℕ) : ℚ) / b < 1 := by rw [div_lt_iff₀ hb']; linarith
      refine ⟨(a % b : ℕ) / b - 1 / 2, ?_, by linarith, by linarith, ?_⟩
      · simp [ExtendedMantissa.ofMantissaAndAccuracy]
      · simp only [ExtendedMantissa.ofMantissaAndAccuracy, Bool.true_eq_false, false_iff]
        linarith

/-- The natural numbers nearest to a rational, of two equally near ones the even one. -/
def IsNearest (n : ℕ) (v : ℚ) : Prop :=
  |(n : ℚ) - v| ≤ 1 / 2 ∧ (|(n : ℚ) - v| = 1 / 2 → n % 2 = 0)

theorem IsNearest.unique {n n' : ℕ} {v : ℚ} (h : IsNearest n v) (h' : IsNearest n' v) : n = n' := by
  wlog hlt : n < n' generalizing n n'
  · rcases Nat.lt_trichotomy n n' with hn | hn | hn
    · exact this h h' hn
    · exact hn
    · exact (this h' h hn).symm
  obtain ⟨hle, heven⟩ := h
  obtain ⟨hle', heven'⟩ := h'
  have h₁ : (n : ℚ) + 1 ≤ n' := by exact_mod_cast hlt
  obtain ⟨h₂, -⟩ := abs_le.1 hle
  obtain ⟨-, h₃⟩ := abs_le.1 hle'
  -- both are half a unit away, so both are even, and one is the successor of the other
  have hv : v = n + 1 / 2 := by linarith
  have hn : (n' : ℚ) = n + 1 := by linarith
  have e := heven (by rw [hv]; norm_num)
  have e' := heven' (by rw [hv, hn]; norm_num)
  have hs : n' = n + 1 := by exact_mod_cast hn
  omega

theorem Describes.isNearest_roundedMantissa {em : ExtendedMantissa} {v : ℚ} (h : Describes em v) :
    IsNearest em.roundedMantissa v := by
  obtain ⟨r, rfl, hr, hlt, hs⟩ := h
  obtain ⟨m, b, s⟩ := em
  unfold IsNearest ExtendedMantissa.roundedMantissa
  cases b <;> cases s <;> simp only [ExtendedMantissa.accuracy, Accuracy.roundToNearestEven]
  · -- the value is the mantissa
    have hz : r = 0 := hs.1 rfl
    rw [hz]
    norm_num
  · -- less than one half is left
    have hpos : 0 < r := lt_of_le_of_ne hr fun h => by simp [← h] at hs
    have habs : |(m : ℚ) - (m + (false.toNat : ℚ) / 2 + r)| < 1 / 2 := by
      rw [abs_lt]
      constructor <;> simp <;> linarith
    exact ⟨habs.le, fun h => absurd h habs.ne⟩
  · -- one half is left: the even neighbour is taken
    have hz : r = 0 := hs.1 rfl
    refine ⟨?_, fun _ => by omega⟩
    rw [hz, abs_le]
    rcases Nat.mod_two_eq_zero_or_one m with h | h
    · rw [h]
      constructor <;> norm_num
    · rw [h]
      constructor <;> norm_num
  · -- more than one half is left
    have hpos : 0 < r := lt_of_le_of_ne hr fun h => by simp [← h] at hs
    have habs : |((m + 1 : ℕ) : ℚ) - (m + (true.toNat : ℚ) / 2 + r)| < 1 / 2 := by
      rw [abs_lt]
      constructor <;> simp <;> linarith
    exact ⟨habs.le, fun h => absurd h habs.ne⟩

/-! ## The interval of a double -/

/-- The rationals that round to `m · 2^e`: half a unit on both sides, but a quarter below a power of
two, whose lower neighbour is twice as near. The ends belong to it when the mantissa is even. -/
structure RoundsTo (m : ℕ) (e : ℤ) (r : ℚ) : Prop where
  upper : r ≤ (m + 1 / 2) * 2 ^ e
  lower : (m - 1 / 2) * 2 ^ e ≤ r
  power : m = 2 ^ 52 → -1074 < e → (m - 1 / 4) * 2 ^ e ≤ r
  even : r = (m + 1 / 2) * 2 ^ e ∨ r = (m - 1 / 2) * 2 ^ e → m % 2 = 0

theorem roundsTo_self (m : ℕ) (e : ℤ) : RoundsTo m e (m * 2 ^ e) := by
  have h := two_zpow_pos e
  refine ⟨by nlinarith, by nlinarith, fun _ _ => by nlinarith, ?_⟩
  rintro (h' | h') <;> nlinarith

/-- In units of the last place the mantissa is nearest to what rounds to it. -/
theorem RoundsTo.isNearest {m : ℕ} {e : ℤ} {r : ℚ} (h : RoundsTo m e r) : IsNearest m (r / 2 ^ e) := by
  have hp := two_zpow_pos e
  have h₁ := h.upper
  have h₂ := h.lower
  rw [← div_le_iff₀ hp] at h₁
  rw [← le_div_iff₀ hp] at h₂
  refine ⟨abs_le.2 ⟨by linarith, by linarith⟩, fun ht => h.even ?_⟩
  rcases (abs_eq (by norm_num)).1 ht with ht | ht
  · right
    rw [← div_eq_iff hp.ne']
    linarith
  · left
    rw [← div_eq_iff hp.ne']
    linarith

/-- The converse, with the quarter below a power of two. -/
theorem IsNearest.roundsTo {m : ℕ} {e : ℤ} {r : ℚ} (h : IsNearest m (r / 2 ^ e))
    (hpower : m = 2 ^ 52 → -1074 < e → (m - 1 / 4) * 2 ^ e ≤ r) : RoundsTo m e r := by
  have hp := two_zpow_pos e
  obtain ⟨hle, heven⟩ := h
  obtain ⟨h₁, h₂⟩ := abs_le.1 hle
  refine ⟨?_, ?_, hpower, ?_⟩
  · rw [← div_le_iff₀ hp]
    linarith
  · rw [← le_div_iff₀ hp]
    linarith
  · intro hend
    rw [← div_eq_iff hp.ne', ← div_eq_iff hp.ne'] at hend
    refine heven ?_
    rcases hend with hend | hend <;> rw [hend] <;> norm_num

/-! ## All numbers round to one of the grid -/

theorem exists_isNearest {v : ℚ} (hv : 0 ≤ v) : ∃ n, IsNearest n v := by
  have hle := Nat.floor_le hv
  have hlt := Nat.lt_floor_add_one v
  set n := ⌊v⌋₊
  unfold IsNearest
  rcases lt_trichotomy (v - n) (1 / 2) with h | h | h
  · have habs : |(n : ℚ) - v| < 1 / 2 := abs_lt.2 ⟨by linarith, by linarith⟩
    exact ⟨n, habs.le, fun h' => absurd h' habs.ne⟩
  · -- both neighbours are equally near, and one of them is even
    rcases Nat.mod_two_eq_zero_or_one n with heven | hodd
    · exact ⟨n, abs_le.2 ⟨by linarith, by linarith⟩, fun _ => heven⟩
    · refine ⟨n + 1, abs_le.2 ?_, fun _ => by omega⟩
      push_cast
      exact ⟨by linarith, by linarith⟩
  · have habs : |((n + 1 : ℕ) : ℚ) - v| < 1 / 2 := by
      push_cast
      exact abs_lt.2 ⟨by linarith, by linarith⟩
    exact ⟨n + 1, habs.le, fun h' => absurd h' habs.ne⟩

theorem exists_roundsTo {q : ℚ} (hq : 0 ≤ q) : ∃ m e, OnGrid m e ∧ RoundsTo m e q := by
  rcases hq.eq_or_lt with rfl | hq
  · have h := roundsTo_self 0 (-1074)
    rw [Nat.cast_zero, zero_mul] at h
    exact ⟨0, -1074, ⟨by norm_num, le_rfl, .inr rfl⟩, h⟩
  -- the exponent with which the mantissa has 53 digits, or the smallest one
  obtain ⟨e, he⟩ : ∃ e, max (Int.log 2 q - 52) (-1074) = e := ⟨_, rfl⟩
  have hp := two_zpow_pos e
  have hlt : q / 2 ^ e < 2 ^ 53 := by
    rw [div_lt_iff₀ hp]
    calc q < 2 ^ (Int.log 2 q + 1) := Int.lt_zpow_succ_log_self (by norm_num) q
      _ ≤ 2 ^ (53 + e) := two_zpow_le.2 (by omega)
      _ = 2 ^ 53 * 2 ^ e := two_zpow_add 53 e
  have hfull : -1074 < e → 2 ^ 52 ≤ q / 2 ^ e := by
    intro hlow
    rw [le_div_iff₀ hp]
    calc (2 : ℚ) ^ 52 * 2 ^ e = 2 ^ (52 + e) := (two_zpow_add 52 e).symm
      _ ≤ 2 ^ Int.log 2 q := two_zpow_le.2 (by omega)
      _ ≤ q := Int.zpow_log_le_self (by norm_num) hq
  obtain ⟨m, hm⟩ := exists_isNearest (div_nonneg hq.le hp.le)
  obtain ⟨hbelow, habove⟩ := abs_le.1 hm.1
  rcases Nat.lt_or_ge m (2 ^ 53) with hsmall | hlarge
  · refine ⟨m, e, ⟨hsmall, by omega, ?_⟩, hm.roundsTo fun hM hlow => ?_⟩
    · by_cases hlow : -1074 < e
      · left
        have hM : (2 : ℚ) ^ 52 - 1 < m := by linarith [hfull hlow]
        by_contra hn
        have h₁ : m + 1 ≤ 2 ^ 52 := by omega
        have h₂ : (m : ℚ) + 1 ≤ 2 ^ 52 := by exact_mod_cast h₁
        linarith
      · right
        omega
    · have h₁ := (le_div_iff₀ hp).1 (hfull hlow)
      rw [hM]
      push_cast
      nlinarith
  · -- the mantissa has got a digit more
    have hM : m = 2 ^ 53 := by
      have h₁ : (m : ℚ) < 2 ^ 53 + 1 := by linarith
      have h₂ : m < 2 ^ 53 + 1 := by exact_mod_cast h₁
      omega
    rw [hM] at hbelow habove
    push_cast at hbelow habove
    have h₁ : (2 ^ 53 - 1 / 2) * 2 ^ e ≤ q := by
      rw [← le_div_iff₀ hp]
      linarith
    have h₂ : q < 2 ^ 53 * 2 ^ e := (div_lt_iff₀ hp).1 hlt
    have hdouble : (2 : ℚ) ^ (e + 1) = 2 * 2 ^ e := by
      rw [two_zpow_add, zpow_one, mul_comm]
    refine ⟨2 ^ 52, e + 1, ⟨by norm_num, by omega, .inl le_rfl⟩, ?_, ?_, fun _ _ => ?_, fun _ => by norm_num⟩
    all_goals
      rw [hdouble]
      push_cast
      nlinarith

/-! ## Rounding -/

theorem targetExponent_totalExponent (m : ℕ) (e : ℤ) :
    Format.binary64.targetExponent (totalExponent m e) = max (m.log2 + e - 52) (-1074) := by
  unfold Format.targetExponent totalExponent
  rw [mantissaBits_eq]
  have : Format.binary64.minExponent = -1074 := rfl
  omega

theorem lt_two_zpow_log2 {m : ℕ} {v : ℚ} (h : v < m + 1) : v < 2 ^ ((m.log2 : ℤ) + 1) := by
  have h₁ : m + 1 ≤ 2 ^ (m.log2 + 1) := Nat.lt_log2_self
  have h₂ : (m : ℚ) + 1 ≤ 2 ^ (m.log2 + 1) := by exact_mod_cast h₁
  have h₃ : (2 : ℚ) ^ ((m.log2 : ℤ) + 1) = 2 ^ (m.log2 + 1) := by exact_mod_cast zpow_natCast (2 : ℚ) (m.log2 + 1)
  rw [h₃]
  exact h.trans_le h₂

theorem two_zpow_log2_le {m : ℕ} {v : ℚ} (hm : 0 < m) (h : (m : ℚ) ≤ v) : 2 ^ (m.log2 : ℤ) ≤ v := by
  have h₁ : 2 ^ m.log2 ≤ m := Nat.log2_self_le hm.ne'
  have h₂ : (2 : ℚ) ^ m.log2 ≤ m := by exact_mod_cast h₁
  rw [zpow_natCast]
  exact h₂.trans h

/-- The exponent that rounding shifts to is the exponent of the result. Only in the quarter below a power
of two it is one less, since there the doubles lie closer. -/
theorem target_of_roundsTo {M m : ℕ} {E e : ℤ} {v : ℚ} (hd : OnGrid M E) (hle : (m : ℚ) ≤ v) (hlt : v < m + 1)
    (h : RoundsTo M E (v * 2 ^ e)) (he : e ≤ max (m.log2 + e - 52) (-1074)) :
    max (m.log2 + e - 52) (-1074) = E ∨
      max (m.log2 + e - 52) (-1074) = E - 1 ∧ M = 2 ^ 52 ∧ v * 2 ^ e < 2 ^ 52 * 2 ^ E := by
  obtain ⟨hM, hlow, hfull⟩ := hd
  have hE := two_zpow_pos E
  have hMq : (M : ℚ) + 1 ≤ 2 ^ 53 := by exact_mod_cast hM
  have below : v * 2 ^ e < 2 ^ (m.log2 + 1 + e) := by
    rw [two_zpow_add]
    exact mul_lt_mul_of_pos_right (lt_two_zpow_log2 hlt) (two_zpow_pos e)
  have pow_add : ∀ k : ℕ, (2 : ℚ) ^ ((k : ℤ) + E) = 2 ^ k * 2 ^ E := fun k => by
    rw [two_zpow_add, zpow_natCast]
  have top : 0 < m → m.log2 + e < 53 + E := by
    intro hm
    rw [← two_zpow_lt]
    calc (2 : ℚ) ^ (m.log2 + e) ≤ v * 2 ^ e := by
          rw [two_zpow_add]
          exact mul_le_mul_of_nonneg_right (two_zpow_log2_le hm hle) (two_zpow_pos e).le
      _ ≤ (M + 1 / 2) * 2 ^ E := h.upper
      _ < 2 ^ 53 * 2 ^ E := by nlinarith
      _ = 2 ^ ((53 : ℤ) + E) := (pow_add 53).symm
  have bottom : ∀ k : ℕ, 2 ^ k * 2 ^ E ≤ v * 2 ^ e → k + E < m.log2 + 1 + e := by
    intro k hk
    rw [← two_zpow_lt, pow_add]
    exact hk.trans_lt below
  have hz : m = 0 → m.log2 = 0 := fun hm => by rw [hm]; exact Nat.log2_zero
  rcases hlow.eq_or_lt with rfl | hlow
  · -- there is no smaller exponent to shift to
    left
    omega
  · have hfull : 2 ^ 52 ≤ M := by omega
    have hMq' : (2 : ℚ) ^ 52 ≤ M := by exact_mod_cast hfull
    by_cases hr : (2 : ℚ) ^ 52 * 2 ^ E ≤ v * 2 ^ e
    · have := bottom 52 hr
      left
      omega
    · -- the value is below `2 ^ 52` units, so it lies in the quarter under a power of two
      have hM52 : M = 2 ^ 52 := by
        by_contra hne
        have h₁ : 2 ^ 52 + 1 ≤ M := by omega
        have h₂ : (2 : ℚ) ^ 52 + 1 ≤ M := by exact_mod_cast h₁
        have := h.lower
        nlinarith
      have h51 : (2 : ℚ) ^ 51 * 2 ^ E ≤ v * 2 ^ e := by
        have := h.power hM52 hlow
        nlinarith
      have h₁ := bottom 51 h51
      have h₂ : m.log2 + e < 52 + E ∨ m = 0 := by
        rcases Nat.eq_zero_or_pos m with hm | hm
        · exact .inr hm
        · left
          rw [← two_zpow_lt, two_zpow_add]
          refine lt_of_le_of_lt ?_ ((not_le.1 hr).trans_eq (pow_add 52).symm)
          exact mul_le_mul_of_nonneg_right (two_zpow_log2_le hm hle) (two_zpow_pos e).le
      right
      refine ⟨by omega, hM52, not_le.1 hr⟩

theorem OnGrid.targetExponent {m : ℕ} {e : ℤ} (h : OnGrid m e) : max (m.log2 + e - 52) (-1074) = e := by
  have hlow := h.low
  rcases h.full with hfull | rfl
  · rw [h.log2_eq hfull]
    omega
  · rcases Nat.eq_zero_or_pos m with rfl | hpos
    · rw [Nat.log2_zero]
      omega
    · have hlog : m.log2 < 53 := (Nat.log2_lt hpos.ne').2 h.lt
      omega

theorem shiftToTargetExponent_eq (m : ℕ) (e : ℤ) (acc : Accuracy) {t : ℤ}
    (ht : max (m.log2 + e - 52) (-1074) = t) (he : e ≤ t) :
    shiftToTargetExponent Format.binary64 m e acc =
      (ExtendedMantissa.ofMantissaAndAccuracy m acc >>> (t - e).toNat, t) := by
  unfold shiftToTargetExponent shiftToExponent
  rw [targetExponent_totalExponent, ht]
  have hsum : e + ((t - e).toNat : ℤ) = t := by omega
  simp only [hsum]

/-- A mantissa that rounding carried into a 54th digit is put in order again. -/
theorem shiftToTargetExponent_carry {e : ℤ} (he : -1074 < e) :
    shiftToTargetExponent Format.binary64 (2 ^ 53) (e - 1) .exact = (⟨2 ^ 52, false, false⟩, e) := by
  have hlog : (2 ^ 53 : ℕ).log2 = 53 := Nat.log2_two_pow
  rw [shiftToTargetExponent_eq _ _ _ (t := e) (by rw [hlog]; omega) (by omega)]
  have hs : (e - (e - 1)).toNat = 1 := by omega
  rw [hs]
  rfl

/-- Rounding finds the number in whose interval the value lies. -/
theorem roundWithAccuracy_eq {M m : ℕ} {E e : ℤ} {acc : Accuracy} {v : ℚ} (s : Sign) (hd : OnGrid M E)
    (hv : Describes (.ofMantissaAndAccuracy m acc) v) (h : RoundsTo M E (v * 2 ^ e))
    (he : 2 ^ 52 ≤ m ∨ e ≤ -1074) :
    roundWithAccuracy Format.binary64 s m e acc = unpacked s M E := by
  have hmant : (ExtendedMantissa.ofMantissaAndAccuracy m acc).mantissa = m := by
    rcases acc with _ | _ | _ | _ <;> rfl
  have hle := hv.le
  have hlt := hv.lt
  rw [hmant] at hle hlt
  have he' : e ≤ max (m.log2 + e - 52) (-1074) := by
    rcases he with he | he
    · have h₂ : 52 ≤ m.log2 := (Nat.le_log2 (by omega)).2 he
      omega
    · omega
  have hcases := target_of_roundsTo hd hle hlt h he'
  generalize ht : max (m.log2 + e - 52) (-1074) = t at hcases he'
  have hshift : v / 2 ^ (t - e).toNat = v * 2 ^ e / 2 ^ t := by
    have h₁ : (2 : ℚ) ^ t = 2 ^ (t - e).toNat * 2 ^ e := by
      rw [← zpow_natCast, ← two_zpow_add]
      congr 1
      omega
    have h₂ := two_zpow_pos e
    rw [h₁]
    field_simp
  have hround := (hv.shiftRight (t - e).toNat).isNearest_roundedMantissa
  rw [hshift] at hround
  unfold roundWithAccuracy
  rw [shiftToTargetExponent_eq m e acc ht he']
  rcases hcases with rfl | ⟨rfl, hM, hr⟩
  · -- the shifted value is rounded to the mantissa at once
    have hR := hround.unique h.isNearest
    have hlast := shiftToTargetExponent_eq M t .exact hd.targetExponent le_rfl
    have hz : (t - t).toNat = 0 := by omega
    rw [hz] at hlast
    simp only [hR, hlast]
    rfl
  · -- the shifted value is rounded up to the power of two
    have hlow : -1074 < E := by omega
    have hR : (ExtendedMantissa.ofMantissaAndAccuracy m acc >>> (E - 1 - e).toNat).roundedMantissa = 2 ^ 53 := by
      have hp := two_zpow_pos (E - 1)
      have hE : (2 : ℚ) ^ E = 2 * 2 ^ (E - 1) := by
        have h₁ : E = 1 + (E - 1) := by omega
        rw [h₁, two_zpow_add]
        simp
      have hlow' := h.power hM hlow
      rw [hM, hE, ← mul_assoc, ← le_div_iff₀ hp] at hlow'
      rw [hE, ← mul_assoc, ← div_lt_iff₀ hp] at hr
      have habs : |((2 ^ 53 : ℕ) : ℚ) - v * 2 ^ e / 2 ^ (E - 1)| ≤ 1 / 2 := by
        push_cast at hlow' ⊢
        rw [abs_le]
        constructor <;> linarith
      exact hround.unique ⟨habs, fun _ => by norm_num⟩
    simp only [hR, shiftToTargetExponent_carry hlow]
    subst hM
    rfl

theorem roundWithAccuracy_exact {m : ℕ} {e : ℤ} (s : Sign) (hd : OnGrid m e) :
    roundWithAccuracy Format.binary64 s m e .exact = unpacked s m e :=
  roundWithAccuracy_eq s hd (describes_exact m) (roundsTo_self m e) (hd.full.imp_right fun h => h.le)

/-! ## Quotients and products -/

theorem natCast_shiftLeft (m n : ℕ) : ((m <<< n : ℕ) : ℚ) = m * 2 ^ n := by
  rw [Nat.shiftLeft_eq]
  push_cast
  rfl

/-- The quotient is carried to 53 binary digits at least, or down to the smallest exponent. -/
theorem two_pow_le_quotient {m₁ m₂ n : ℕ} (h₁ : 0 < m₁) (h₂ : 0 < m₂) (hn : 53 + m₂.log2 ≤ m₁.log2 + n) :
    2 ^ 52 ≤ m₁ <<< n / m₂ := by
  rw [Nat.le_div_iff_mul_le h₂, Nat.shiftLeft_eq]
  calc 2 ^ 52 * m₂ ≤ 2 ^ 52 * 2 ^ (m₂.log2 + 1) := Nat.mul_le_mul_left _ Nat.lt_log2_self.le
    _ = 2 ^ (53 + m₂.log2) := by rw [← pow_add]; congr 1; omega
    _ ≤ 2 ^ (m₁.log2 + n) := Nat.pow_le_pow_right (by omega) hn
    _ = 2 ^ m₁.log2 * 2 ^ n := pow_add ..
    _ ≤ m₁ * 2 ^ n := Nat.mul_le_mul_right _ (Nat.log2_self_le h₁.ne')

theorem div_eq {M m₁ m₂ : ℕ} {E e₁ e₂ : ℤ} (s₁ s₂ : Sign) (h₁ : 0 < m₁) (h₂ : 0 < m₂) (hd : OnGrid M E)
    (h : RoundsTo M E (m₁ * 2 ^ e₁ / (m₂ * 2 ^ e₂))) :
    UnpackedFloat.div Format.binary64 (.finite s₁ m₁ e₁ h₁) (.finite s₂ m₂ e₂ h₂) = unpacked (s₁ / s₂) M E := by
  have ht : Format.binary64.targetExponent (totalExponent m₁ e₁ - totalExponent m₂ e₂) =
      max (m₁.log2 + e₁ - (m₂.log2 + e₂) - 53) (-1074) := by
    unfold Format.targetExponent totalExponent
    rw [mantissaBits_eq]
    have : Format.binary64.minExponent = -1074 := rfl
    omega
  simp only [UnpackedFloat.div, divCore, ht]
  generalize hT : min (e₁ - e₂) (max (m₁.log2 + e₁ - (m₂.log2 + e₂) - 53) (-1074)) = T
  refine roundWithAccuracy_eq _ hd (describes_quotient _ h₂) ?_ ?_
  · rw [natCast_shiftLeft]
    have hsum : (2 : ℚ) ^ (e₁ - e₂ - T).toNat * 2 ^ T * 2 ^ e₂ = 2 ^ e₁ := by
      rw [← zpow_natCast, ← two_zpow_add, ← two_zpow_add]
      congr 1
      omega
    have hm₂ : (m₂ : ℚ) ≠ 0 := by exact_mod_cast h₂.ne'
    have he₂ := (two_zpow_pos e₂).ne'
    rw [← hsum] at h
    convert h using 1
    field_simp
  · by_cases hlow : T ≤ -1074
    · exact .inr hlow
    · exact .inl (two_pow_le_quotient h₁ h₂ (by omega))

theorem mul_eq {M m₁ m₂ : ℕ} {E e₁ e₂ : ℤ} (s₁ s₂ : Sign) (h₁ : 0 < m₁) (h₂ : 0 < m₂) (hd : OnGrid M E)
    (h : RoundsTo M E (m₁ * 2 ^ e₁ * (m₂ * 2 ^ e₂))) (hbits : 2 ^ 52 ≤ m₁) :
    UnpackedFloat.mul Format.binary64 (.finite s₁ m₁ e₁ h₁) (.finite s₂ m₂ e₂ h₂) = unpacked (s₁ * s₂) M E := by
  unfold UnpackedFloat.mul
  refine roundWithAccuracy_eq _ hd (describes_exact _) ?_ (.inl (hbits.trans (Nat.le_mul_of_pos_right _ h₂)))
  convert h using 1
  rw [two_zpow_add]
  push_cast
  ring

end SharedSheet.Number
