/-
The printed form of a double is read back as the same double: the shortest decimal lies in the interval
of the double (`shortest_roundsTo`), and so its value is that double again (`read?_textOf`).
-/
import SharedSheet.Proofs.Number.Decimal
import SharedSheet.Proofs.Number.Scientific

namespace SharedSheet.Number

open Float.Model Float.Model.UnpackedFloat

/-! ## The scale of a grid -/

theorem numerator_eq (i : Interval) (k : ℤ) : i.numerator k = 2 ^ i.exponent.toNat * 10 ^ (-k).toNat := rfl

theorem denominator_eq (i : Interval) (k : ℤ) : i.denominator k = 2 ^ (-i.exponent).toNat * 10 ^ k.toNat := rfl

theorem lower_around (m : ℕ) (e : ℤ) :
    (Interval.around m e).lower = 4 * m - (if m = 2 ^ 52 ∧ -1074 < e then 1 else 2) := rfl

/-- Counting in units of `2^exponent` and counting in units of `10^k` differ by one positive factor. -/
theorem grid_scale (i : Interval) (k : ℤ) :
    ∃ t : ℚ, 0 < t ∧ (i.numerator k : ℚ) = t * 2 ^ i.exponent ∧ (i.denominator k : ℚ) = t * 10 ^ k := by
  have h10 : (0 : ℚ) < 10 ^ k := zpow_pos (by norm_num) k
  have hneg : (10 : ℚ) ^ (-k).toNat * 10 ^ k = 10 ^ k.toNat := by
    rw [← zpow_natCast, ← zpow_natCast, ← zpow_add₀ (by norm_num)]
    congr 1
    omega
  have htwo : (2 : ℚ) ^ i.exponent.toNat = 2 ^ (-i.exponent).toNat * 2 ^ i.exponent := by
    rw [← zpow_natCast, ← zpow_natCast, ← two_zpow_add]
    congr 1
    omega
  refine ⟨i.denominator k / 10 ^ k, ?_, ?_, (div_mul_cancel₀ _ h10.ne').symm⟩
  · rw [denominator_eq]
    positivity
  · rw [numerator_eq, denominator_eq]
    push_cast
    rw [← hneg, htwo]
    field_simp

theorem numerator_le_denominator (i : Interval) (k : ℤ) (a d : ℕ) :
    a * i.numerator k ≤ d * i.denominator k ↔ (a : ℚ) * 2 ^ i.exponent ≤ d * 10 ^ k := by
  obtain ⟨t, ht, hnum, hden⟩ := grid_scale i k
  rw [← Nat.cast_le (α := ℚ), Nat.cast_mul, Nat.cast_mul, hnum, hden, mul_left_comm, mul_left_comm (d : ℚ)]
  exact mul_le_mul_iff_of_pos_left ht

theorem denominator_le_numerator (i : Interval) (k : ℤ) (a d : ℕ) :
    d * i.denominator k ≤ a * i.numerator k ↔ (d : ℚ) * 10 ^ k ≤ a * 2 ^ i.exponent := by
  obtain ⟨t, ht, hnum, hden⟩ := grid_scale i k
  rw [← Nat.cast_le (α := ℚ), Nat.cast_mul, Nat.cast_mul, hnum, hden, mul_left_comm, mul_left_comm (a : ℚ)]
  exact mul_le_mul_iff_of_pos_left ht

theorem contains_iff (i : Interval) (k : ℤ) (d : ℕ) :
    i.contains k d = true ↔
      (i.lower : ℚ) * 2 ^ i.exponent ≤ d * 10 ^ k ∧ (d : ℚ) * 10 ^ k ≤ i.upper * 2 ^ i.exponent ∧
      (i.closed = false →
        (i.lower : ℚ) * 2 ^ i.exponent ≠ d * 10 ^ k ∧ (d : ℚ) * 10 ^ k ≠ i.upper * 2 ^ i.exponent) := by
  unfold Interval.contains
  rw [← numerator_le_denominator, ← denominator_le_numerator]
  cases i.closed
  · simp only [true_implies, ← not_le, ne_eq, le_antisymm_iff, ← numerator_le_denominator, ← denominator_le_numerator]
    grind
  · simp

/-! ## The interval of the search -/

theorem two_zpow_quarter (e : ℤ) : (2 : ℚ) ^ e = 4 * 2 ^ (e - 2) := by
  rw [sub_eq_add_neg, two_zpow_add, zpow_neg]
  norm_num
  ring

/-- What lies between the ends of the interval rounds to the double. -/
theorem roundsTo_of_contains {m d : ℕ} {e k : ℤ} (hm : 0 < m)
    (h : (Interval.around m e).contains k d = true) : RoundsTo m e (d * 10 ^ k) := by
  have hunit := two_zpow_quarter e
  have hlower : ((Interval.around m e).lower : ℚ) = 4 * m - (if m = 2 ^ 52 ∧ -1074 < e then 1 else 2) := by
    rw [lower_around, Nat.cast_sub (by split <;> omega)]
    split <;> push_cast <;> rfl
  have hupper : ((Interval.around m e).upper : ℚ) = 4 * m + 2 := by
    unfold Interval.around
    push_cast
    rfl
  obtain ⟨h₁, h₂, h₃⟩ := (contains_iff _ _ _).1 h
  rw [hlower] at h₁ h₃
  rw [hupper] at h₂ h₃
  change _ * 2 ^ (e - 2) ≤ _ at h₁
  change _ ≤ _ * 2 ^ (e - 2) at h₂
  have hp := two_zpow_pos (e - 2)
  have hodd : m % 2 ≠ 0 → (Interval.around m e).closed = false := by
    intro hne
    simpa [Interval.around] using hne
  refine ⟨?_, ?_, ?_, ?_⟩
  · rw [hunit]
    linarith
  · rw [hunit]
    split at h₁ <;> nlinarith
  · intro hm52 he
    rw [if_pos ⟨hm52, he⟩] at h₁
    rw [hunit]
    linarith
  · -- an odd mantissa leaves the ends out
    intro hend
    by_contra hne
    obtain ⟨h₄, h₅⟩ := h₃ (hodd hne)
    rw [hunit] at hend
    rcases hend with hend | hend
    · apply h₅
      rw [hend]
      show _ = _ * 2 ^ (e - 2)
      ring
    · split at h₁
      · rw [hend] at h₁
        nlinarith
      · rename_i hpower
        rw [if_neg hpower] at h₄
        apply h₄
        rw [hend]
        show _ * 2 ^ (e - 2) = _
        ring

theorem contains_of_onGrid? {i : Interval} {k : ℤ} {d : ℕ} (h : i.onGrid? k = some d) : i.contains k d = true := by
  unfold Interval.onGrid? at h
  simp only at h
  split at h
  · rename_i hbelow habove
    cases h
    split <;> assumption
  · cases h
    assumption
  · cases h
    assumption
  · cases h

/-- On the finest grid there is the double itself. -/
theorem finest_dvd (m : ℕ) (e : ℤ) :
    (Interval.around m e).denominator (min e 0) ∣ 4 * m * (Interval.around m e).numerator (min e 0) := by
  rw [denominator_eq, numerator_eq]
  show 2 ^ (-(e - 2)).toNat * 10 ^ (min e 0).toNat ∣ 4 * m * (2 ^ (e - 2).toNat * 10 ^ (-min e 0).toNat)
  have hzero : (min e 0).toNat = 0 := by omega
  rw [hzero, pow_zero, mul_one]
  have hsplit : 2 ^ (-(e - 2)).toNat ∣ 2 ^ 2 * 2 ^ (-min e 0).toNat := by
    rw [← pow_add]
    exact pow_dvd_pow 2 (by omega)
  have hten : 2 ^ (-min e 0).toNat ∣ 10 ^ (-min e 0).toNat := pow_dvd_pow_of_dvd (by norm_num) _
  calc 2 ^ (-(e - 2)).toNat ∣ 2 ^ 2 * 2 ^ (-min e 0).toNat := hsplit
    _ ∣ 2 ^ 2 * 10 ^ (-min e 0).toNat := Nat.mul_dvd_mul_left _ hten
    _ ∣ 4 * m * (2 ^ (e - 2).toNat * 10 ^ (-min e 0).toNat) := ⟨m * 2 ^ (e - 2).toNat, by ring⟩

theorem finest_value (m : ℕ) (e : ℤ) :
    ((4 * m * (Interval.around m e).numerator (min e 0) / (Interval.around m e).denominator (min e 0) : ℕ) : ℚ) *
      10 ^ min e 0 = m * 2 ^ e := by
  obtain ⟨t, ht, hnum, hden⟩ := grid_scale (.around m e) (min e 0)
  have h10 : (0 : ℚ) < 10 ^ min e 0 := zpow_pos (by norm_num) _
  have hunit := two_zpow_quarter e
  rw [Nat.cast_div (finest_dvd m e) (by rw [hden]; positivity), Nat.cast_mul, hnum, hden, hunit]
  show _ * (t * 2 ^ (e - 2)) / _ * _ = _
  push_cast
  field_simp

/-- The shortest decimal rounds to the double it was made for. -/
theorem shortest_roundsTo {m : ℕ} {e : ℤ} (hm : 0 < m) :
    RoundsTo m e ((shortest m e).digits * 10 ^ (shortest m e).exponent) := by
  unfold shortest
  simp only
  generalize (coarsest m e - min e 0).toNat = n
  induction n with
  | zero =>
    -- the last grid holds the double itself
    have h := roundsTo_self m e
    rw [← finest_value m e] at h
    exact h
  | succ n ih =>
    unfold Interval.search
    split
    · rename_i d hd
      exact roundsTo_of_contains hm (contains_of_onGrid? hd)
    · exact ih

/-! ## The round trip -/

theorem read?_textOf_double {m : ℕ} {e : ℤ} (h : IsDouble m e) : read? (textOf (double h)) = some (double h) := by
  obtain ⟨n, k, hread, hval⟩ := read?_plain (shortest m e)
  have hround := shortest_roundsTo (e := e) h.pos
  rw [← hval] at hround
  unfold textOf read?
  rw [unpack_double]
  show (Literal.read? (shortest m e).plain).map _ = _
  rw [hread, Option.map_some, value_decimal h.toOnGrid hround, ofGrid_eq_double h]

theorem read?_textOf_zero {x : Float} (h : x.toModel.unpack = .zero .positive) : read? (textOf x) = some x := by
  unfold textOf
  rw [h]
  show some (Literal.decimal false 0 0).value = some x
  have hzero : (Literal.decimal false 0 0).value.toModel = .pack (.zero .positive) := by decide +kernel
  refine congrArg some (eq_of_unpack_eq ?_)
  rw [h, hzero]
  rfl

/-- A finite double without a minus sign is read back from its text. -/
theorem read?_textOf {x : Float} (h : IsUnsigned x.toModel.unpack) (hfin : x.isFinite = true) :
    read? (textOf x) = some x := by
  rcases zero_or_double h hfin with hz | ⟨m, e, hd, rfl⟩
  · exact read?_textOf_zero hz
  · exact read?_textOf_double hd

/-- The text of such a double is a run of digits and points. -/
theorem isNumeric_textOf {x : Float} (h : IsUnsigned x.toModel.unpack) (hfin : x.isFinite = true) :
    textOf x ≠ [] ∧ ∀ c ∈ textOf x, Formula.isNumeric c = true := by
  unfold textOf
  rcases zero_or_double h hfin with hz | ⟨m, e, hd, rfl⟩
  · rw [hz]
    exact ⟨by simp [withSign], by simp [withSign, Formula.isNumeric]⟩
  · rw [unpack_double]
    exact ⟨plain_ne_nil _, isNumeric_plain _⟩

/-- What a text of digits and points denotes has no minus sign. -/
theorem isUnsigned_read? {s : List Char} {x : Float} (hs : ∀ c ∈ s, Formula.isNumeric c = true)
    (h : read? s = some x) : IsUnsigned x.toModel.unpack := by
  obtain ⟨l, hl, rfl⟩ := Option.map_eq_some_iff.1 h
  obtain ⟨n, e, rfl⟩ := (Literal.read?_eq_some_iff.1 hl).of_numeric hs
  exact isUnsigned_value n e

end SharedSheet.Number
