/-
The layout of doubles in their 64 bits. Every finite double other than zero has one mantissa and one
exponent (`IsDouble`); taking the bits apart and putting them together again are inverse to each other.
-/
import Mathlib
import SharedSheet.Number.Shortest

namespace SharedSheet.Number

open Float.Model Float.Model.UnpackedFloat

/-- The mantissa and the exponent of a number to which others are rounded: the mantissa has 53 digits, or fewer
if the exponent is the smallest one. Rounding knows no largest exponent. -/
structure OnGrid (m : ℕ) (e : ℤ) : Prop where
  lt : m < 2 ^ 53
  low : -1074 ≤ e
  full : 2 ^ 52 ≤ m ∨ e = -1074

/-- The mantissa and the exponent of a positive double. -/
structure IsDouble (m : ℕ) (e : ℤ) : Prop extends OnGrid m e where
  pos : 0 < m
  high : e ≤ 971

theorem OnGrid.log2_eq {m : ℕ} {e : ℤ} (h : OnGrid m e) (hm : 2 ^ 52 ≤ m) : m.log2 = 52 := by
  have hne : m ≠ 0 := by omega
  have h₁ : 52 ≤ m.log2 := (Nat.le_log2 hne).2 hm
  have h₂ : m.log2 < 53 := (Nat.log2_lt hne).2 h.lt
  omega

theorem exponentBias_eq : Format.binary64.exponentBias = 1023 := rfl

theorem mantissaBits_eq : Format.binary64.mantissaBits = 53 := rfl

/-! ## Fields -/

theorem ofBitVec_toBitVec (s : Sign) : Sign.ofBitVec s.toBitVec = s := by cases s <;> rfl

theorem toBitVec_ofBitVec (b : BitVec 1) : (Sign.ofBitVec b).toBitVec = b := by
  rcases BitVec.eq_zero_or_eq_one b with rfl | rfl <;> rfl

theorem unpackSign_packComponents (s : Sign) (e : BitVec 11) (m : BitVec 52) :
    unpackSign (packComponents Format.binary64 s e m) = s.toBitVec := by
  refine BitVec.eq_of_getLsbD_eq fun i hi => ?_
  simp only [unpackSign, packComponents, BitVec.getLsbD_cast, BitVec.getLsbD_extractLsb]
  grind

/-- The three fields make up the bits. -/
theorem packComponents_fields (b : BitVec Format.binary64.numBits) :
    packComponents Format.binary64 (Sign.ofBitVec (unpackSign b)) (unpackExponent b) (unpackMantissa b) = b := by
  unfold packComponents
  rw [toBitVec_ofBitVec]
  apply BitVec.eq_of_getLsbD_eq
  intro i hi
  simp only [unpackSign, unpackExponent, unpackMantissa, BitVec.getLsbD_append, BitVec.getLsbD_cast,
    BitVec.getLsbD_extractLsb]
  grind

theorem toNat_one_append (m : BitVec 52) : (1#1 ++ m).toNat = 2 ^ 52 + m.toNat := by
  rw [BitVec.toNat_append, ← Nat.shiftLeft_add_eq_or_of_lt m.isLt]
  simp [Nat.shiftLeft_eq]

theorem toNat_exponent {e : BitVec 11} (h : e ≠ -1#_) : e.toNat < 2047 := by
  by_contra hn
  apply h
  apply BitVec.eq_of_toNat_eq
  have := e.isLt
  simp
  omega

theorem toNat_ofNat_exponent {n : ℕ} (h : n < 2047) :
    (BitVec.ofNat 11 n).toNat = n ∧ BitVec.ofNat 11 n ≠ -1#_ := by
  have hn : (BitVec.ofNat 11 n).toNat = n := by
    rw [BitVec.toNat_ofNat]; exact Nat.mod_eq_of_lt (by omega)
  refine ⟨hn, fun he => ?_⟩
  have h₁ : (BitVec.ofNat 11 n).toNat = 2047 := by rw [he]; rfl
  omega

/-! ## Unpacking and packing -/

/-- Unpacking gives one of the finite doubles, or no positive mantissa at all. -/
theorem isDouble_of_unpack {b : BitVec Format.binary64.numBits} {s : Sign} {m : ℕ} {e : ℤ} {hm : 0 < m}
    (h : UnpackedFloat.unpack Format.binary64 b = .finite s m e hm) : IsDouble m e := by
  unfold UnpackedFloat.unpack at h
  simp only [exponentBias_eq] at h
  split at h
  · split at h <;> cases h
  · rename_i hmax
    have hlt := toNat_exponent hmax
    have hman : (unpackMantissa b).toNat < 2 ^ 52 := (unpackMantissa b).isLt
    split at h
    · -- a zero in the field of the exponent: the mantissa is the field alone
      rename_i hzero
      split at h
      · cases h
      · cases h
        rw [hzero]
        exact ⟨⟨by omega, by simp, .inr (by simp)⟩, hm, by simp⟩
    · -- otherwise the mantissa has a leading digit that the field leaves out
      rename_i hzero
      cases h
      have hpos : 0 < (unpackExponent b).toNat := by
        by_contra hn
        exact hzero (BitVec.eq_of_toNat_eq (by simp; omega))
      rw [toNat_one_append] at hm ⊢
      exact ⟨⟨by omega, by omega, .inl (by omega)⟩, hm, by omega⟩

/-- A mantissa of 53 digits is packed without its leading one. -/
theorem pack_full {s : Sign} {m : ℕ} {e : ℤ} (h : IsDouble m e) (hm : 2 ^ 52 ≤ m) :
    UnpackedFloat.pack Format.binary64 (.finite s m e h.pos) =
      packComponents Format.binary64 s (BitVec.ofNat 11 (e + 1075).toNat) (BitVec.ofNat 52 m) := by
  have hlog := h.log2_eq hm
  obtain ⟨⟨hlt, hlow, -⟩, hpos, hhigh⟩ := h
  have hb : (e + Format.binary64.exponentBias + Format.binary64.mantissaBitsWithoutImplicit).toNat =
      (e + 1075).toNat := by simp [exponentBias_eq]; omega
  unfold UnpackedFloat.pack
  rw [hb]
  dsimp only
  rw [if_neg (by omega), if_pos (by rw [hlog, mantissaBits_eq])]

/-- A smaller mantissa is packed with all its digits, and with zero for the smallest exponent. -/
theorem pack_small {s : Sign} {m : ℕ} (hpos : 0 < m) (hm : m < 2 ^ 52) :
    UnpackedFloat.pack Format.binary64 (.finite s m (-1074) hpos) =
      packComponents Format.binary64 s 0#11 (BitVec.ofNat 52 m) := by
  have hlog : m.log2 < 52 := (Nat.log2_lt hpos.ne').2 hm
  unfold UnpackedFloat.pack
  rw [if_neg (by simp [exponentBias_eq]), if_neg (by rw [mantissaBits_eq]; omega)]

/-- A double is found again in its bits. -/
theorem unpack_pack {s : Sign} {m : ℕ} {e : ℤ} (h : IsDouble m e) :
    UnpackedFloat.unpack Format.binary64 (UnpackedFloat.pack Format.binary64 (.finite s m e h.pos)) =
      .finite s m e h.pos := by
  by_cases hm : 2 ^ 52 ≤ m
  · -- the leading digit comes back, as the exponent is not zero
    rw [pack_full h hm]
    obtain ⟨⟨hlt, hlow, -⟩, hpos, hhigh⟩ := h
    obtain ⟨he, hne⟩ := toNat_ofNat_exponent (n := (e + 1075).toNat) (by omega)
    have hz : BitVec.ofNat 11 (e + 1075).toNat ≠ 0#_ := fun h => by
      rw [h] at he; simp at he; omega
    have hman : (1#1 ++ BitVec.ofNat 52 m).toNat = m := by
      rw [toNat_one_append, BitVec.toNat_ofNat]; omega
    unfold UnpackedFloat.unpack
    simp only [unpackMantissa_packComponents, unpackExponent_packComponents, unpackSign_packComponents,
      ofBitVec_toBitVec, if_neg hne, if_neg hz, he, hman, exponentBias_eq]
    congr 1
    omega
  · obtain ⟨⟨hlt, hlow, hfull⟩, hpos, hhigh⟩ := h
    obtain rfl := hfull.resolve_left hm
    rw [pack_small hpos (not_le.1 hm)]
    have hman : (BitVec.ofNat 52 m).toNat = m := by rw [BitVec.toNat_ofNat]; omega
    have hne : BitVec.ofNat 52 m ≠ 0#_ := fun h => by
      rw [h] at hman; simp at hman; omega
    have hmax : (0#11 : BitVec 11) ≠ -1#_ := by decide
    unfold UnpackedFloat.unpack
    simp only [unpackMantissa_packComponents, unpackExponent_packComponents, unpackSign_packComponents,
      ofBitVec_toBitVec, if_neg hmax, if_true, dif_neg hne, hman, exponentBias_eq]
    congr 1

/-- The bits of a double are found again in what they stand for. -/
theorem pack_unpack {b : BitVec Format.binary64.numBits} (hv : Format.binary64.Valid b) :
    UnpackedFloat.pack Format.binary64 (UnpackedFloat.unpack Format.binary64 b) = b := by
  have hb := packComponents_fields b
  have hman : (unpackMantissa b).toNat < 2 ^ 52 := (unpackMantissa b).isLt
  unfold UnpackedFloat.unpack
  simp only [exponentBias_eq]
  split
  · rename_i hmax
    split
    · rename_i hzero
      rw [hmax, hzero] at hb
      exact hb
    · -- valid bits have one form of not-a-number only
      rename_i hzero
      exact (hv.eq_packedNaN hmax hzero).symm
  · rename_i hmax
    have hlt := toNat_exponent hmax
    split
    · rename_i hexp
      rw [hexp] at hb
      split
      · rename_i hzero
        rw [hzero] at hb
        exact hb
      · rename_i hzero
        have hpos : 0 < (unpackMantissa b).toNat := by
          by_contra hn
          exact hzero (BitVec.eq_of_toNat_eq (by simp; omega))
        have he : ((unpackExponent b).toNat : ℤ) - (((1023 : ℕ) : ℤ) + ((52 : ℕ) : ℤ)) + 1 = -1074 := by
          rw [hexp]
          rfl
        rw [he, pack_small hpos hman, BitVec.ofNat_toNat, BitVec.setWidth_eq]
        exact hb
    · rename_i hexp
      have hpos : 0 < (unpackExponent b).toNat := by
        by_contra hn
        exact hexp (BitVec.eq_of_toNat_eq (by simp; omega))
      have hone := toNat_one_append (unpackMantissa b)
      have hfield : BitVec.ofNat 52 (1#1 ++ unpackMantissa b).toNat = unpackMantissa b := by
        refine BitVec.eq_of_toNat_eq ?_
        rw [hone, BitVec.toNat_ofNat]
        omega
      have hbiased : ((unpackExponent b).toNat - (((1023 : ℕ) : ℤ) + ((52 : ℕ) : ℤ)) + 1075).toNat =
          (unpackExponent b).toNat := by omega
      refine (pack_full ⟨⟨by omega, by omega, .inl (by omega)⟩, by omega, by omega⟩ (by omega)).trans ?_
      rw [hfield, hbiased, BitVec.ofNat_toNat, BitVec.setWidth_eq]
      exact hb

/-! ## Doubles -/

/-- The positive double `m · 2^e`. -/
def double {m : ℕ} {e : ℤ} (h : IsDouble m e) : Float := .ofModel (.pack (.finite .positive m e h.pos))

theorem unpack_double {m : ℕ} {e : ℤ} (h : IsDouble m e) :
    (double h).toModel.unpack = .finite .positive m e h.pos :=
  unpack_pack h

/-- Every finite double above zero is `m · 2^e` for the two numbers it unpacks to. -/
theorem exists_eq_double {x : Float} {m : ℕ} {e : ℤ} {hm : 0 < m}
    (h : x.toModel.unpack = .finite .positive m e hm) : ∃ hd : IsDouble m e, x = double hd := by
  obtain ⟨⟨⟨bits⟩, hv⟩⟩ := x
  have hd : IsDouble m e := isDouble_of_unpack h
  refine ⟨hd, ?_⟩
  have hbits := pack_unpack hv
  change UnpackedFloat.unpack Format.binary64 bits = _ at h
  unfold double Float.Model.pack
  congr 2
  rw [← h]
  exact congrArg UInt64.ofBitVec hbits.symm

/-- Doubles that unpack to the same are the same. -/
theorem eq_of_unpack_eq {x y : Float} (h : x.toModel.unpack = y.toModel.unpack) : x = y := by
  obtain ⟨⟨⟨b⟩, hb⟩⟩ := x
  obtain ⟨⟨⟨c⟩, hc⟩⟩ := y
  have h' : b = c := by
    calc b = UnpackedFloat.pack Format.binary64 (UnpackedFloat.unpack Format.binary64 b) := (pack_unpack hb).symm
      _ = UnpackedFloat.pack Format.binary64 (UnpackedFloat.unpack Format.binary64 c) := congrArg _ h
      _ = c := pack_unpack hc
  subst h'
  rfl

/-! ## Finite doubles -/

/-- What is packed as a double, or is nothing to be packed as one, is finite if its bits are. -/
theorem isFinite_unpack_pack {u : UnpackedFloat} (h : ∀ s m e hm, u = .finite s m e hm → IsDouble m e) :
    (UnpackedFloat.unpack Format.binary64 (UnpackedFloat.pack Format.binary64 u)).isFinite = u.isFinite := by
  rcases u with s | _ | s | ⟨s, m, e, hm⟩
  · cases s <;> decide +kernel
  · decide +kernel
  · cases s <;> decide +kernel
  · rw [unpack_pack (h s m e hm rfl)]

theorem isFinite_neg (x : Float) : (-x).isFinite = x.isFinite := by
  show (UnpackedFloat.unpack Format.binary64 (UnpackedFloat.pack Format.binary64 x.toModel.unpack.neg)).isFinite =
    x.toModel.unpack.isFinite
  rw [isFinite_unpack_pack]
  · cases x.toModel.unpack <;> rfl
  · intro s m e hm h
    rcases hx : x.toModel.unpack with _ | _ | _ | ⟨s', m', e', hm'⟩
    all_goals
      rw [hx] at h
      cases h
    exact isDouble_of_unpack hx

/-- `m · 2^e` with a sign; it is a zero if `m` is. -/
def unpacked (s : Sign) (m : ℕ) (e : ℤ) : UnpackedFloat :=
  if h : m = 0 then .zero s else .finite s m e (Nat.pos_of_ne_zero h)

theorem unpacked_of_pos (s : Sign) {m : ℕ} (h : 0 < m) (e : ℤ) : unpacked s m e = .finite s m e h :=
  dif_neg h.ne'

/-- The double `m · 2^e`, or infinity where no double is so large. -/
def ofGrid (m : ℕ) (e : ℤ) : Float := .ofModel (.pack (unpacked .positive m e))

theorem ofGrid_eq_double {m : ℕ} {e : ℤ} (h : IsDouble m e) : ofGrid m e = double h := by
  unfold ofGrid double
  rw [unpacked_of_pos _ h.pos]

/-- What is larger than all doubles is packed as infinity. -/
theorem pack_large {s : Sign} {m : ℕ} {e : ℤ} (hm : 0 < m) (he : 971 < e) :
    UnpackedFloat.pack Format.binary64 (.finite s m e hm) = UnpackedFloat.pack Format.binary64 (.infinity s) := by
  have hb : 2 ^ Format.binary64.exponentBits ≤
      (e + Format.binary64.exponentBias + Format.binary64.mantissaBitsWithoutImplicit).toNat + 1 := by
    show 2048 ≤ (e + 1023 + 52).toNat + 1
    omega
  exact if_pos hb

theorem isFinite_ofGrid {m : ℕ} {e : ℤ} (h : OnGrid m e) : (ofGrid m e).isFinite = true ↔ e ≤ 971 := by
  show (UnpackedFloat.unpack Format.binary64 (UnpackedFloat.pack Format.binary64 (unpacked .positive m e))).isFinite =
    true ↔ _
  rcases Nat.eq_zero_or_pos m with rfl | hm
  · have he : e = -1074 := h.full.resolve_left (by omega)
    rw [he]
    decide +kernel
  · rw [unpacked_of_pos _ hm]
    by_cases he : e ≤ 971
    · rw [unpack_pack ⟨h, hm, he⟩]
      exact iff_of_true rfl he
    · rw [pack_large hm (not_le.1 he)]
      exact iff_of_false (by decide +kernel) he

theorem ofModel_pack_congr {u v : UnpackedFloat}
    (h : UnpackedFloat.pack Format.binary64 u = UnpackedFloat.pack Format.binary64 v) :
    Float.ofModel (.pack u) = Float.ofModel (.pack v) := by
  unfold Float.Model.pack
  congr 2
  exact congrArg UInt64.ofBitVec h

/-! ## Signs -/

/-- Without a minus sign. Not-a-number has no sign. -/
def IsUnsigned : UnpackedFloat → Prop
  | .notANumber => True
  | .infinity s => s = .positive
  | .zero s => s = .positive
  | .finite s _ _ _ => s = .positive

theorem unpackSign_pack {u : UnpackedFloat} (h : IsUnsigned u) :
    unpackSign (UnpackedFloat.pack Format.binary64 u) = 0#1 := by
  rcases u with s | _ | s | ⟨s, m, e, hm⟩
  · cases h
    exact unpackSign_packComponents ..
  · exact unpackSign_packComponents ..
  · cases h
    exact unpackSign_packComponents ..
  · cases h
    unfold UnpackedFloat.pack
    dsimp only
    split
    · exact unpackSign_packComponents ..
    · split
      · exact unpackSign_packComponents ..
      · exact unpackSign_packComponents ..

theorem isUnsigned_unpack {b : BitVec Format.binary64.numBits} (h : unpackSign b = 0#1) :
    IsUnsigned (UnpackedFloat.unpack Format.binary64 b) := by
  unfold UnpackedFloat.unpack
  simp only [h]
  split
  · split
    · rfl
    · trivial
  · split
    · split <;> rfl
    · rfl

/-- Packing puts no minus sign in front of anything. -/
theorem isUnsigned_pack {u : UnpackedFloat} (h : IsUnsigned u) : IsUnsigned (Float.Model.pack u).unpack :=
  isUnsigned_unpack (unpackSign_pack h)

/-- A finite double without a minus sign is zero or one of the positive doubles. -/
theorem zero_or_double {x : Float} (h : IsUnsigned x.toModel.unpack) (hfin : x.isFinite = true) :
    x.toModel.unpack = .zero .positive ∨ ∃ (m : ℕ) (e : ℤ) (hd : IsDouble m e), x = double hd := by
  change x.toModel.unpack.isFinite = true at hfin
  rcases hx : x.toModel.unpack with s | _ | s | ⟨s, m, e, hm⟩
  · rw [hx] at hfin
    cases hfin
  · rw [hx] at hfin
    cases hfin
  · rw [hx] at h
    cases h
    exact .inl rfl
  · rw [hx] at h
    cases h
    obtain ⟨hd, hxd⟩ := exists_eq_double hx
    exact .inr ⟨m, e, hd, hxd⟩

end SharedSheet.Number
