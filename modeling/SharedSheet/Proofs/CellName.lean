/-
The shape of cell names: letters A–Z, then digits (`CellName.matchesPattern`). A name is read back from
its own text (`CellName.parse?_text`), and it is recognised by its bytes as it is by its characters
(`isCellNameBytes_encode`).
-/
import SharedSheet.CellName
import SharedSheet.Proofs.Text
import SharedSheet.Proofs.Text.Utf8

namespace SharedSheet

open Text

/-- The pattern `^[A-Z]+[0-9]+$`. -/
def MatchesPattern (s : String) : Prop :=
  ∃ letters digits : List Char, s.toList = letters ++ digits ∧ letters ≠ [] ∧ digits ≠ [] ∧
    (∀ c ∈ letters, 'A' ≤ c ∧ c ≤ 'Z') ∧ ∀ c ∈ digits, '0' ≤ c ∧ c ≤ '9'

/-- A name splits into its letters and its digits. -/
theorem exists_parts {s : List Char} (h : isCellName s = true) :
    ∃ letters digits, s = letters ++ digits ∧ letters ≠ [] ∧ digits ≠ [] ∧
      (∀ c ∈ letters, c.isUpper = true) ∧ ∀ c ∈ digits, c.isDigit = true := by
  unfold isCellName at h
  simp only [Bool.and_eq_true, Bool.not_eq_true', List.isEmpty_eq_false_iff, List.all_eq_true] at h
  obtain ⟨⟨hl, hd⟩, hall⟩ := h
  exact ⟨_, _, List.takeWhile_append_dropWhile.symm, hl, hd, fun c hc => List.mem_takeWhile_imp hc, hall⟩

/-- Letters with digits behind them are the name of a cell. -/
theorem isCellName_append {letters digits : List Char} (hup : ∀ c ∈ letters, c.isUpper = true)
    (hdig : ∀ c ∈ digits, c.isDigit = true) (hl : letters ≠ []) (hd : digits ≠ []) :
    isCellName (letters ++ digits) = true := by
  obtain ⟨htake, hdrop⟩ := split_run (t := digits) hup fun c hc => by
    have hc := hdig c (List.mem_of_mem_head? hc)
    rw [isDigit_iff] at hc
    rw [Bool.eq_false_iff, ne_eq, isUpper_iff]
    omega
  unfold isCellName
  rw [htake, hdrop, Bool.and_eq_true, Bool.and_eq_true, List.all_eq_true]
  exact ⟨⟨by simpa using hl, by simpa using hd⟩, hdig⟩

/-- Letters alone are not. -/
theorem isCellName_letters {letters : List Char} (hup : ∀ c ∈ letters, c.isUpper = true) :
    isCellName letters = false := by
  have hdrop : letters.dropWhile Char.isUpper = [] := List.dropWhile_eq_nil_iff.2 hup
  unfold isCellName
  rw [hdrop]
  simp

namespace CellName

theorem matchesPattern (name : CellName) : MatchesPattern name.text := by
  obtain ⟨letters, digits, hs, hl, hd, hup, hdig⟩ := exists_parts name.wellFormed
  refine ⟨letters, digits, hs, hl, hd, fun c hc => ?_, fun c hc => ?_⟩
  · have h := hup c hc
    simpa [Char.isUpper, Char.le_def] using h
  · have h := hdig c hc
    simpa [Char.isDigit, Char.le_def] using h

/-- Capital letters and digits only. -/
theorem upper_or_digit (name : CellName) : ∀ c ∈ name.text.toList, c.isUpper = true ∨ c.isDigit = true := by
  obtain ⟨letters, digits, hs, -, -, hup, hdig⟩ := exists_parts name.wellFormed
  intro c hc
  rw [hs, List.mem_append] at hc
  exact hc.imp (hup c) (hdig c)

theorem toUpper_text (name : CellName) : name.text.toList.map Char.toUpper = name.text.toList := by
  refine (List.map_congr_left fun c hc => ?_).trans (List.map_id _)
  have h := name.upper_or_digit c hc
  rw [isUpper_iff, isDigit_iff] at h
  exact toUpper_eq_self (by omega)

theorem ofChars?_text (name : CellName) : ofChars? name.text.toList = some name := by
  unfold ofChars?
  rw [dif_pos name.wellFormed]
  exact congrArg some (CellName.ext String.ofList_toList)

theorem parse?_text (name : CellName) : parse? name.text = some name := by
  unfold parse?
  rw [trim_eq_self fun c hc => isBlank_eq_false (name.upper_or_digit c hc), toUpper_text, ofChars?_text]

end CellName

/-! ## Bytes -/

/-- A class of characters is found again in the bytes: it holds characters of ASCII only, and of bytes the same ones. -/
structure IsByteClass (p : Char → Bool) (q : Byte → Bool) : Prop where
  ascii : ∀ c, c.toNat < 128 → q (UInt8.ofNat c.toNat) = p c
  beyond : ∀ c, 128 ≤ c.toNat → p c = false
  beyondByte : ∀ b, 128 ≤ b.toNat → q b = false

theorem isByteClass_range {p : Char → Bool} {low high : Byte} (hhigh : high.toNat < 128)
    (hp : ∀ c, p c = true ↔ low.toNat ≤ c.toNat ∧ c.toNat ≤ high.toNat) :
    IsByteClass p fun b => low ≤ b && b ≤ high where
  ascii c hc := by
    rw [Bool.eq_iff_iff, hp, Bool.and_eq_true, decide_eq_true_eq, decide_eq_true_eq, UInt8.le_iff_toNat_le,
      UInt8.le_iff_toNat_le, toNat_ofNat_byte (by omega)]
  beyond c hc := by
    rw [Bool.eq_false_iff, ne_eq, hp]
    omega
  beyondByte b hb := by
    rw [Bool.eq_false_iff, ne_eq, Bool.and_eq_true, decide_eq_true_eq, decide_eq_true_eq, UInt8.le_iff_toNat_le,
      UInt8.le_iff_toNat_le]
    omega

theorem isByteClass_upper : IsByteClass Char.isUpper isUpperByte := isByteClass_range (by decide) isUpper_iff

theorem isByteClass_digit : IsByteClass Char.isDigit isDigitByte := isByteClass_range (by decide) isDigit_iff

namespace IsByteClass
variable {p : Char → Bool} {q : Byte → Bool}

theorem all_encode (h : IsByteClass p q) (s : List Char) : (encode s).all q = s.all p := by
  induction s with
  | nil => rfl
  | cons c s ih =>
    rw [encode, List.flatMap_cons, List.all_append, List.all_cons]
    refine congrArg₂ _ ?_ ih
    rcases utf8EncodeChar_cases c with ⟨hc, hbytes⟩ | ⟨hc, b, bytes, hbytes, hbeyond⟩
    · rw [hbytes, List.all_cons, List.all_nil, Bool.and_true, h.ascii c hc]
    · rw [hbytes, List.all_cons, h.beyondByte b (hbeyond b List.mem_cons_self), h.beyond c hc, Bool.false_and]

/-- A run of the class has as many bytes as characters, and ends before the same character. -/
theorem takeWhile_encode (h : IsByteClass p q) (s : List Char) :
    ((encode s).takeWhile q).length = (s.takeWhile p).length ∧
      (encode s).drop (s.takeWhile p).length = encode (s.dropWhile p) := by
  induction s with
  | nil => exact ⟨rfl, rfl⟩
  | cons c s ih =>
    rw [encode, List.flatMap_cons]
    rcases utf8EncodeChar_cases c with ⟨hc, hbytes⟩ | ⟨hc, b, bytes, hbytes, hbeyond⟩
    · rw [hbytes, List.singleton_append]
      by_cases hp : p c = true
      · rw [List.takeWhile_cons_of_pos hp, List.dropWhile_cons_of_pos hp,
          List.takeWhile_cons_of_pos ((h.ascii c hc).trans hp), List.length_cons, List.length_cons, List.drop_succ_cons]
        exact ⟨congrArg Nat.succ ih.1, ih.2⟩
      · have hq : ¬q (UInt8.ofNat c.toNat) = true := by rwa [h.ascii c hc]
        rw [List.takeWhile_cons_of_neg hp, List.dropWhile_cons_of_neg hp, List.takeWhile_cons_of_neg hq]
        refine ⟨rfl, ?_⟩
        rw [encode, List.flatMap_cons, hbytes]
        rfl
    · have hp : ¬p c = true := by rw [h.beyond c hc]; exact Bool.false_ne_true
      have hq : ¬q b = true := by rw [h.beyondByte b (hbeyond b List.mem_cons_self)]; exact Bool.false_ne_true
      rw [hbytes, List.cons_append, List.takeWhile_cons_of_neg hp, List.dropWhile_cons_of_neg hp,
        List.takeWhile_cons_of_neg hq]
      refine ⟨rfl, ?_⟩
      rw [encode, List.flatMap_cons, hbytes]
      rfl
end IsByteClass

/-- A name is recognised by its bytes as it is by its characters. -/
theorem isCellNameBytes_encode (s : List Char) : isCellNameBytes (encode s) = isCellName s := by
  obtain ⟨hlength, hdrop⟩ := isByteClass_upper.takeWhile_encode s
  have hall := isByteClass_digit.all_encode (s.dropWhile Char.isUpper)
  have hletters : (s.takeWhile Char.isUpper).length ≤ (encode s).length := by
    rw [← hlength]
    exact (List.takeWhile_prefix _).length_le
  have hwhole : (s.takeWhile Char.isUpper).length = (encode s).length ↔ s.dropWhile Char.isUpper = [] := by
    rw [← encode_eq_nil_iff, ← hdrop, List.drop_eq_nil_iff]
    omega
  unfold isCellNameBytes isCellName
  dsimp only
  rw [hlength, hdrop, hall]
  simp only [hwhole, List.length_eq_zero_iff]
  rcases s.takeWhile Char.isUpper with _ | ⟨c, letters⟩
  · rfl
  · rcases s.dropWhile Char.isUpper with _ | ⟨d, rest⟩
    · rfl
    · simp

end SharedSheet
