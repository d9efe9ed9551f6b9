/-
Decimals to doubles. The value of the literal `n · 10^k` is the number of the grid in whose interval the decimal lies,
on the way over exact powers of ten as well as on the general one (`value_decimal`); where no double is so large it is
infinite. So a literal has a finite value exactly if it says one (`Literal.denotes_iff`).
-/
import SharedSheet.Proofs.Number.Rounding

namespace SharedSheet.Number

open Float.Model Float.Model.UnpackedFloat

/-! ## The general way -/

theorem two_zpow_le_ten_zpow {e : ℤ} (h : 0 ≤ e) : (2 : ℚ) ^ e ≤ 10 ^ e :=
  zpow_le_zpow_left₀ h (by norm_num) (by norm_num)

theorem ten_zpow_le_two_zpow {e : ℤ} (h : e ≤ 0) : (10 : ℚ) ^ e ≤ 2 ^ e := by
  have h' := two_zpow_le_ten_zpow (e := -e) (by omega)
  rw [zpow_neg, zpow_neg] at h'
  exact (inv_le_inv₀ (two_zpow_pos e) (zpow_pos (by norm_num) e)).1 h'

/-- What is no more than half the smallest double rounds to zero. -/
theorem RoundsTo.eq_zero {M : ℕ} {E : ℤ} {r : ℚ} (h : RoundsTo M E r) (hr : r ≤ 2 ^ (-1075 : ℤ)) (hd : OnGrid M E) :
    M = 0 := by
  by_contra hM
  have hp := two_zpow_pos E
  have hM₁ : (1 : ℚ) ≤ M := by exact_mod_cast Nat.one_le_iff_ne_zero.2 hM
  have hhalf : r ≤ 1 / 2 * 2 ^ E := by
    calc r ≤ 2 ^ (-1075 : ℤ) := hr
      _ ≤ 2 ^ (-1 + E) := two_zpow_le.2 (by have := hd.low; omega)
      _ = 1 / 2 * 2 ^ E := by rw [two_zpow_add]; norm_num
  have hlower := h.lower
  -- it lies in the middle between zero and the smallest double, whose mantissa is odd
  have hM₂ : (M : ℚ) = 1 := by nlinarith
  have heven := h.even (.inr (by rw [hM₂] at hlower ⊢; linarith))
  have hone : M = 1 := by exact_mod_cast hM₂
  omega

/-- What is above all doubles rounds to a number above all doubles. -/
theorem RoundsTo.large {M : ℕ} {E : ℤ} {r : ℚ} (h : RoundsTo M E r) (hd : OnGrid M E) (hr : 2 ^ (1025 : ℤ) ≤ r) :
    0 < M ∧ 971 < E := by
  have hE := two_zpow_pos E
  have hM : (M : ℚ) + 1 ≤ 2 ^ (53 : ℤ) := by exact_mod_cast hd.lt
  have hexp : (1025 : ℤ) < 53 + E := by
    rw [← two_zpow_lt]
    calc (2 : ℚ) ^ (1025 : ℤ) ≤ r := hr
      _ ≤ (M + 1 / 2) * 2 ^ E := h.upper
      _ < 2 ^ (53 : ℤ) * 2 ^ E := by gcongr; linarith
      _ = 2 ^ (53 + E) := (two_zpow_add _ _).symm
  have hfull := hd.full.resolve_right (by omega)
  exact ⟨by omega, by omega⟩

/-- What is packed as `m · 2^e` is, with all that is as large as infinity. -/
theorem ofScientific_eq {M m : ℕ} {E e : ℤ} (hd : OnGrid M E) (h : RoundsTo M E (m * 10 ^ e)) :
    UnpackedFloat.pack Format.binary64 (UnpackedFloat.ofScientific Format.binary64 m e) =
      UnpackedFloat.pack Format.binary64 (unpacked .positive M E) := by
  rcases Nat.eq_zero_or_pos m with rfl | hm
  · rw [Nat.cast_zero, zero_mul] at h
    rw [h.eq_zero (zpow_pos (by norm_num) _).le hd]
    rfl
  have hm₁ : (1 : ℚ) ≤ m := by exact_mod_cast hm
  unfold UnpackedFloat.ofScientific
  rw [dif_neg hm.ne']
  split
  · -- so large a number is above all doubles
    rename_i hlarge
    have he : (2048 : ℤ) < e := hlarge
    have hge : (2 : ℚ) ^ (1025 : ℤ) ≤ m * 10 ^ e := by
      calc (2 : ℚ) ^ (1025 : ℤ) ≤ 2 ^ e := two_zpow_le.2 (by omega)
        _ ≤ 10 ^ e := two_zpow_le_ten_zpow (by omega)
        _ ≤ m * 10 ^ e := le_mul_of_one_le_left (zpow_pos (by norm_num) e).le hm₁
    obtain ⟨hM, hE⟩ := h.large hd hge
    rw [unpacked_of_pos _ hM, pack_large hM hE]
  · split
    · -- so small a number is nearest to zero
      rename_i hsmall
      have he : e < -(2048 + m.log2 : ℤ) := hsmall
      have hle : (m : ℚ) * 10 ^ e ≤ 2 ^ (-1075 : ℤ) := by
        calc (m : ℚ) * 10 ^ e ≤ m * 2 ^ e := by gcongr; exact ten_zpow_le_two_zpow (by omega)
          _ ≤ 2 ^ ((m.log2 : ℤ) + 1) * 2 ^ e := by
            have := two_zpow_pos e
            gcongr
            exact (lt_two_zpow_log2 (by linarith)).le
          _ = 2 ^ ((m.log2 : ℤ) + 1 + e) := (two_zpow_add _ _).symm
          _ ≤ 2 ^ (-1075 : ℤ) := two_zpow_le.2 (by omega)
      rw [h.eq_zero hle hd]
      rfl
    · refine congrArg _ ?_
      split
      · rename_i he
        refine mul_eq _ _ _ _ hd ?_ ?_
        · convert h using 1
          rw [natCast_shiftLeft, mantissaBits_eq]
          have h₁ : (10 : ℚ) ^ e = 10 ^ e.toNat := by
            rw [← zpow_natCast]
            congr 1
            omega
          rw [h₁]
          push_cast
          rw [zpow_neg]
          field_simp
        · rw [Nat.shiftLeft_eq, mantissaBits_eq]
          have : 1 * 2 ^ 53 ≤ m * 2 ^ 53 := Nat.mul_le_mul_right _ hm
          omega
      · rename_i he
        refine div_eq _ _ _ _ hd ?_
        convert h using 1
        have h₁ : (10 : ℚ) ^ e = (10 ^ (-e).toNat)⁻¹ := by
          rw [← zpow_natCast, ← zpow_neg]
          congr 1
          omega
        rw [h₁]
        push_cast
        simp [div_eq_mul_inv]

/-! ## The exact way -/

theorem div_double {M m₁ m₂ : ℕ} {E e₁ e₂ : ℤ} {h₁ : IsDouble m₁ e₁} {h₂ : IsDouble m₂ e₂} (hd : OnGrid M E)
    (h : RoundsTo M E (m₁ * 2 ^ e₁ / (m₂ * 2 ^ e₂))) : double h₁ / double h₂ = ofGrid M E := by
  show Float.ofModel (.pack (UnpackedFloat.div _ (double h₁).toModel.unpack (double h₂).toModel.unpack)) = _
  rw [unpack_double, unpack_double, div_eq _ _ _ _ hd h]
  rfl

theorem mul_double {M m₁ m₂ : ℕ} {E e₁ e₂ : ℤ} {h₁ : IsDouble m₁ e₁} {h₂ : IsDouble m₂ e₂} (hd : OnGrid M E)
    (h : RoundsTo M E (m₁ * 2 ^ e₁ * (m₂ * 2 ^ e₂))) (hbits : 2 ^ 52 ≤ m₁) : double h₁ * double h₂ = ofGrid M E := by
  show Float.ofModel (.pack (UnpackedFloat.mul _ (double h₁).toModel.unpack (double h₂).toModel.unpack)) = _
  rw [unpack_double, unpack_double, mul_eq _ _ _ _ hd h hbits]
  rfl

/-- Natural numbers of at most 53 binary digits are doubles. -/
theorem isDouble_natural {n : ℕ} (hn : 0 < n) (hlt : n < 2 ^ 53) :
    IsDouble (n <<< (52 - n.log2)) (n.log2 - 52) := by
  have hlog : n.log2 < 53 := (Nat.log2_lt hn.ne').2 hlt
  have h₁ : n < 2 ^ (n.log2 + 1) := Nat.lt_log2_self
  have h₂ : 2 ^ n.log2 ≤ n := Nat.log2_self_le hn.ne'
  rw [Nat.shiftLeft_eq]
  refine ⟨⟨?_, by omega, .inl ?_⟩, by positivity, by omega⟩
  · calc n * 2 ^ (52 - n.log2) < 2 ^ (n.log2 + 1) * 2 ^ (52 - n.log2) := by gcongr
      _ = 2 ^ 53 := by rw [← pow_add]; congr 1; omega
  · calc 2 ^ 52 = 2 ^ n.log2 * 2 ^ (52 - n.log2) := by rw [← pow_add]; congr 1; omega
      _ ≤ n * 2 ^ (52 - n.log2) := by gcongr

theorem natural_value {n : ℕ} (hn : 0 < n) (hlt : n < 2 ^ 53) :
    ((n <<< (52 - n.log2) : ℕ) : ℚ) * 2 ^ ((n.log2 : ℤ) - 52) = n := by
  have hlog : n.log2 < 53 := (Nat.log2_lt hn.ne').2 hlt
  rw [natCast_shiftLeft, mul_assoc, ← zpow_natCast, ← two_zpow_add]
  have hsum : ((52 - n.log2 : ℕ) : ℤ) + (n.log2 - 52) = 0 := by omega
  rw [hsum, zpow_zero, mul_one]

theorem toFloat_natural {n : ℕ} (hn : 0 < n) (hlt : n < 2 ^ 53) :
    n.toUInt64.toFloat = double (isDouble_natural hn hlt) := by
  have hlog : n.log2 < 53 := (Nat.log2_lt hn.ne').2 hlt
  have hto : n.toUInt64.toNat = n := by
    rw [Nat.toUInt64, UInt64.toNat_ofNat']
    omega
  have hcmp : compare (n : ℤ) 0 = .gt := Int.compare_eq_gt.2 (by omega)
  have hshift : (0 - max ((n.log2 : ℤ) + 0 - 52) (-1074)).toNat = 52 - n.log2 := by omega
  have hexp : (0 - ((52 - n.log2 : ℕ) : ℤ)) = n.log2 - 52 := by omega
  show Float.ofModel (.pack (UnpackedFloat.normalize _ (n.toUInt64.toNat : ℤ) 0 _)) = _
  unfold UnpackedFloat.normalize UnpackedFloat.round decreaseExponent
  rw [hto, hcmp]
  simp only [Int.toNat_natCast, targetExponent_totalExponent, hshift, hexp]
  rw [roundWithAccuracy_exact _ (isDouble_natural hn hlt).toOnGrid]
  exact ofGrid_eq_double _

/-- The mantissa and the exponent of `10^k` as a double. It has that many digits up to `k = 22`. -/
def powerMantissa (k : ℕ) : ℕ := 10 ^ k * 2 ^ 52 / 2 ^ (10 ^ k).log2

@[inherit_doc powerMantissa]
def powerExponent (k : ℕ) : ℤ := (10 ^ k).log2 - 52

theorem isDouble_power {k : ℕ} (hk : k ≤ 22) : IsDouble (powerMantissa k) (powerExponent k) := by
  have h : ∀ k : Fin 23, powerMantissa k < 2 ^ 53 ∧ 2 ^ 52 ≤ powerMantissa k ∧ -1074 ≤ powerExponent k ∧
      powerExponent k ≤ 971 := by decide +kernel
  obtain ⟨hlt, hfull, hlow, hhigh⟩ := h ⟨k, by omega⟩
  exact ⟨⟨hlt, hlow, .inl hfull⟩, Nat.lt_of_lt_of_le (by positivity) hfull, hhigh⟩

theorem power_value {k : ℕ} (hk : k ≤ 22) : (powerMantissa k : ℚ) * 2 ^ powerExponent k = 10 ^ k := by
  have h : ∀ k : Fin 23, powerMantissa k * 2 ^ (10 ^ k.val).log2 = 10 ^ k.val * 2 ^ 52 := by decide +kernel
  have h' : (powerMantissa k : ℚ) * 2 ^ (10 ^ k).log2 = 10 ^ k * 2 ^ 52 := by exact_mod_cast h ⟨k, by omega⟩
  unfold powerExponent
  rw [sub_eq_add_neg, two_zpow_add, ← mul_assoc, zpow_natCast, h', zpow_neg]
  norm_num
  ring

/-- The table of powers of ten holds the doubles it should. -/
theorem exactPowers_eq {k : ℕ} (hk : k ≤ 22) (hsize : k < Float.exactlyRepresentablePowersOfTen.size) :
    Float.exactlyRepresentablePowersOfTen[k] = double (isDouble_power hk) := by
  have h : ∀ k : Fin 23, ∀ hsize : k.val < Float.exactlyRepresentablePowersOfTen.size,
      Float.exactlyRepresentablePowersOfTen[k.val].toModel =
        .pack (.finite .positive (powerMantissa k) (powerExponent k)
          (isDouble_power (Nat.le_of_lt_succ k.isLt)).pos) := by
    decide +kernel
  exact congrArg Float.ofModel (h ⟨k, by omega⟩ hsize)

theorem ten_zpow_of_neg {k : ℤ} (h : k < 0) : (10 : ℚ) ^ k = (10 ^ k.natAbs)⁻¹ := by
  rw [← zpow_natCast, ← zpow_neg]
  congr 1
  omega

theorem ten_zpow_of_nonneg {k : ℤ} (h : ¬k < 0) : (10 : ℚ) ^ k = 10 ^ k.natAbs := by
  rw [← zpow_natCast]
  congr 1
  omega

theorem unpack_toFloat_zero : (Nat.toUInt64 0).toFloat.toModel.unpack = .zero .positive := by
  rfl

theorem zero_div_double {m : ℕ} {e : ℤ} (h : IsDouble m e) (E : ℤ) :
    (Nat.toUInt64 0).toFloat / double h = ofGrid 0 E := by
  show Float.ofModel (.pack (UnpackedFloat.div _ (Nat.toUInt64 0).toFloat.toModel.unpack (double h).toModel.unpack)) = _
  rw [unpack_toFloat_zero, unpack_double]
  rfl

theorem zero_mul_double {m : ℕ} {e : ℤ} (h : IsDouble m e) (E : ℤ) :
    (Nat.toUInt64 0).toFloat * double h = ofGrid 0 E := by
  show Float.ofModel (.pack (UnpackedFloat.mul _ (Nat.toUInt64 0).toFloat.toModel.unpack (double h).toModel.unpack)) = _
  rw [unpack_toFloat_zero, unpack_double]
  rfl

/-- The value of a decimal is the number of the grid in whose interval the decimal lies, if it is a double, and else
infinity. -/
theorem value_decimal {M n : ℕ} {E k : ℤ} (hd : OnGrid M E) (h : RoundsTo M E (n * 10 ^ k)) :
    (Literal.decimal false n k).value = ofGrid M E := by
  show Float.ofScientific n (decide (k < 0)) k.natAbs = _
  unfold Float.ofScientific
  split
  · -- both operands are exact doubles, so there is only one rounding
    rename_i hfast
    obtain ⟨hlt, hk⟩ := hfast
    simp only [exactPowers_eq hk]
    rcases Nat.eq_zero_or_pos n with rfl | hn
    · rw [Nat.cast_zero, zero_mul] at h
      rw [h.eq_zero (two_zpow_pos _).le hd, zero_div_double, zero_mul_double, ite_self]
    have hbits := (isDouble_natural hn hlt).full.resolve_right (by omega)
    rw [toFloat_natural hn hlt]
    by_cases hneg : k < 0
    · rw [if_pos (decide_eq_true hneg)]
      refine div_double hd ?_
      rw [natural_value hn hlt, power_value hk, div_eq_mul_inv, ← ten_zpow_of_neg hneg]
      exact h
    · rw [if_neg (by simpa using hneg)]
      refine mul_double hd ?_ hbits
      rw [natural_value hn hlt, power_value hk, ← ten_zpow_of_nonneg hneg]
      exact h
  · have hexp : (if decide (k < 0) = true then Int.negOfNat k.natAbs else Int.ofNat k.natAbs) = k := by
      by_cases hneg : k < 0
      · rw [if_pos (decide_eq_true hneg), Int.negOfNat_eq]
        exact (Int.eq_neg_natAbs_of_nonpos hneg.le).symm
      · rw [if_neg (by simpa using hneg)]
        exact Int.natAbs_of_nonneg (not_lt.1 hneg)
    simp only [hexp]
    exact ofModel_pack_congr (ofScientific_eq hd h)

/-! ## The double of a literal -/

/-- The finite double that a literal says: the one in whose interval the decimal lies, with the sign. -/
inductive Literal.Denotes : Literal → Float → Prop
  | decimal {negative : Bool} {n m : ℕ} {k e : ℤ} (grid : OnGrid m e) (finite : e ≤ 971)
      (nearest : RoundsTo m e (n * 10 ^ k)) :
      Denotes (.decimal negative n k) (if negative then -ofGrid m e else ofGrid m e)

theorem isFinite_signed (negative : Bool) (x : Float) : (if negative then -x else x).isFinite = x.isFinite := by
  cases negative
  · rfl
  · exact isFinite_neg x

theorem value_signed {n m : ℕ} {k e : ℤ} (hd : OnGrid m e) (h : RoundsTo m e (n * 10 ^ k)) (negative : Bool) :
    (Literal.decimal negative n k).value = if negative then -ofGrid m e else ofGrid m e :=
  congrArg (Literal.value.signed negative) (value_decimal hd h)

/-- A literal has a finite value exactly if it says one. -/
theorem Literal.denotes_iff {l : Literal} {x : Float} : l.Denotes x ↔ l.value = x ∧ x.isFinite = true := by
  constructor
  · rintro ⟨hgrid, hfinite, hnearest⟩
    rw [isFinite_signed]
    exact ⟨value_signed hgrid hnearest _, (isFinite_ofGrid hgrid).2 hfinite⟩
  · rintro ⟨rfl, hfinite⟩
    cases l with
    | infinity negative =>
      have hinfinite : (1.0 / 0.0 : Float).isFinite = false := by decide +kernel
      rw [value, value.signed, isFinite_signed, hinfinite] at hfinite
      cases hfinite
    | notANumber =>
      have hinfinite : (0.0 / 0.0 : Float).isFinite = false := by decide +kernel
      rw [value, hinfinite] at hfinite
      cases hfinite
    | decimal negative n k =>
      obtain ⟨m, e, hgrid, hnearest⟩ := exists_roundsTo (q := n * 10 ^ k) (by positivity)
      rw [value_signed hgrid hnearest, isFinite_signed, isFinite_ofGrid hgrid] at hfinite
      rw [value_signed hgrid hnearest]
      exact .decimal hgrid hfinite hnearest

/-! ## Signs -/

theorem isUnsigned_roundWithAccuracy (m : ℕ) (e : ℤ) (acc : Accuracy) :
    IsUnsigned (roundWithAccuracy Format.binary64 .positive m e acc) := by
  unfold roundWithAccuracy
  dsimp only
  split <;> rfl

theorem isUnsigned_mul {a b : UnpackedFloat} (ha : IsUnsigned a) (hb : IsUnsigned b) :
    IsUnsigned (UnpackedFloat.mul Format.binary64 a b) := by
  rcases a with _ | _ | _ | _ <;> rcases b with _ | _ | _ | _ <;> cases ha <;> cases hb <;>
    first
    | exact isUnsigned_roundWithAccuracy ..
    | trivial

theorem isUnsigned_div {a b : UnpackedFloat} (ha : IsUnsigned a) (hb : IsUnsigned b) :
    IsUnsigned (UnpackedFloat.div Format.binary64 a b) := by
  rcases a with _ | _ | _ | _ <;> rcases b with _ | _ | _ | _ <;> cases ha <;> cases hb <;>
    first
    | exact isUnsigned_roundWithAccuracy ..
    | trivial

theorem isUnsigned_toFloat (n : UInt64) : IsUnsigned n.toFloat.toModel.unpack := by
  refine isUnsigned_pack ?_
  show IsUnsigned (UnpackedFloat.normalize _ (n.toNat : ℤ) 0 _)
  unfold UnpackedFloat.normalize
  split
  · rename_i hlt
    have := Int.compare_eq_lt.1 hlt
    omega
  · rfl
  · exact isUnsigned_roundWithAccuracy ..

theorem isUnsigned_exactPower {k : ℕ} (hk : k < Float.exactlyRepresentablePowersOfTen.size) :
    IsUnsigned Float.exactlyRepresentablePowersOfTen[k].toModel.unpack := by
  rw [exactPowers_eq (Nat.le_of_lt_succ hk), unpack_double]
  rfl

theorem isUnsigned_finite {m : ℕ} {e : ℤ} (h : 0 < m) : IsUnsigned (.finite .positive m e h) := rfl

theorem isUnsigned_ofScientific (m : ℕ) (e : ℤ) : IsUnsigned (UnpackedFloat.ofScientific Format.binary64 m e) := by
  unfold UnpackedFloat.ofScientific
  split
  · rfl
  · split
    · rfl
    · split
      · rfl
      · split
        · exact isUnsigned_mul (isUnsigned_finite _) (isUnsigned_finite _)
        · exact isUnsigned_div (isUnsigned_finite _) (isUnsigned_finite _)

/-- A literal without a sign has a value without a sign. -/
theorem isUnsigned_value (n : ℕ) (k : ℤ) : IsUnsigned (Literal.decimal false n k).value.toModel.unpack := by
  show IsUnsigned (Float.ofScientific n (decide (k < 0)) k.natAbs).toModel.unpack
  unfold Float.ofScientific
  split
  · dsimp only
    split
    · exact isUnsigned_pack (isUnsigned_div (isUnsigned_toFloat _) (isUnsigned_exactPower _))
    · exact isUnsigned_pack (isUnsigned_mul (isUnsigned_toFloat _) (isUnsigned_exactPower _))
  · exact isUnsigned_pack (isUnsigned_ofScientific _ _)

end SharedSheet.Number
