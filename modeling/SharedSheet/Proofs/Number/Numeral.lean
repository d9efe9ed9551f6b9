/-
The texts of numbers. A number is written with decimal digits, a point among them and an exponent behind them if one
likes, or with one of the words for infinity and not-a-number, and a sign may stand in front (`Spells`). The reader of
literals decides exactly this grammar (`Literal.read?_eq_some_iff`).
-/
import SharedSheet.Number.Literal
import SharedSheet.Proofs.Text

namespace SharedSheet.Number

/-! ## The grammar -/

/-- A run of decimal digits. -/
def IsDigits (s : List Char) : Prop := ∀ c ∈ s, c.isDigit = true

/-- A sign or none, and whether it is a minus. -/
inductive IsSign : List Char → Bool → Prop
  | none : IsSign [] false
  | plus : IsSign ['+'] false
  | minus : IsSign ['-'] true

/-- Digits, with a point among them or without one: the number that the digits make, and how many of them stand behind
the point. -/
inductive IsMantissa : List Char → ℕ → ℕ → Prop
  | whole {w : List Char} (digits : IsDigits w) (nonempty : w ≠ []) : IsMantissa w (Nat.ofDigitChars 10 w 0) 0
  | point {w f : List Char} (whole : IsDigits w) (fraction : IsDigits f) (nonempty : w ++ f ≠ []) :
      IsMantissa (w ++ '.' :: f) (Nat.ofDigitChars 10 (w ++ f) 0) f.length

/-- An exponent or none. -/
inductive IsExponent : List Char → ℤ → Prop
  | none : IsExponent [] 0
  | some {c : Char} {s w : List Char} {negative : Bool} (letter : c = 'e' ∨ c = 'E') (sign : IsSign s negative)
      (digits : IsDigits w) (nonempty : w ≠ []) :
      IsExponent (c :: (s ++ w))
        (if negative then -(Nat.ofDigitChars 10 w 0 : ℤ) else (Nat.ofDigitChars 10 w 0 : ℤ))

/-- The texts of a literal. -/
inductive Spells : List Char → Literal → Prop
  | infinity {s w : List Char} {negative : Bool} (sign : IsSign s negative)
      (word : w.map Char.toLower = ['i', 'n', 'f'] ∨ w.map Char.toLower = ['i', 'n', 'f', 'i', 'n', 'i', 't', 'y']) :
      Spells (s ++ w) (.infinity negative)
  | notANumber {s w : List Char} {negative : Bool} (sign : IsSign s negative)
      (word : w.map Char.toLower = ['n', 'a', 'n']) : Spells (s ++ w) .notANumber
  | decimal {s m t : List Char} {negative : Bool} {n places : ℕ} {e : ℤ} (sign : IsSign s negative)
      (mantissa : IsMantissa m n places) (exponent : IsExponent t e) :
      Spells (s ++ (m ++ t)) (.decimal negative n (e - places))

/-! ## Signs and digits -/

theorem splitSign_spec (s : List Char) : ∃ sign, s = sign ++ (splitSign s).2 ∧ IsSign sign (splitSign s).1 := by
  unfold splitSign
  split
  · exact ⟨['-'], rfl, .minus⟩
  · exact ⟨['+'], rfl, .plus⟩
  · exact ⟨[], rfl, .none⟩

/-- A sign is split off from what does not begin with one. -/
theorem IsSign.splitSign {sign s : List Char} {negative : Bool} (h : IsSign sign negative)
    (hs : ∀ c ∈ s.head?, c ≠ '-' ∧ c ≠ '+') : Number.splitSign (sign ++ s) = (negative, s) := by
  cases h with
  | plus | minus => rfl
  | none =>
    rcases s with _ | ⟨c, s⟩
    · rfl
    · obtain ⟨hm, hp⟩ := hs c rfl
      simp [Number.splitSign, hm, hp]

theorem ne_sign_of_isDigit {c : Char} (h : c.isDigit = true) : c ≠ '-' ∧ c ≠ '+' := by
  constructor <;> rintro rfl <;> exact absurd h (by decide)

theorem IsDigits.of_cons {c : Char} {s : List Char} (h : IsDigits (c :: s)) : c.isDigit = true := h c List.mem_cons_self

theorem readDigits?_eq_some_iff {s : List Char} {n : ℕ} :
    readDigits? s = some n ↔ IsDigits s ∧ s ≠ [] ∧ Nat.ofDigitChars 10 s 0 = n := by
  unfold readDigits? IsDigits
  rw [← List.all_eq_true]
  rcases s with _ | ⟨c, s⟩
  · simp
  · rcases (c :: s).all Char.isDigit with _ | _ <;> simp

/-! ## Exponents -/

theorem readExponent?_eq_some_iff {s : List Char} {e : ℤ} : readExponent? s = some e ↔ IsExponent s e := by
  constructor
  · intro h
    rcases s with _ | ⟨c, s⟩
    · cases h
      exact .none
    · rw [readExponent?, Option.ite_none_right_eq_some, Option.map_eq_some_iff] at h
      obtain ⟨hc, n, hn, rfl⟩ := h
      obtain ⟨hdigits, hne, rfl⟩ := readDigits?_eq_some_iff.1 hn
      obtain ⟨sign, hs, hsign⟩ := splitSign_spec s
      have hexponent := IsExponent.some hc hsign hdigits hne
      rwa [← hs] at hexponent
  · rintro (_ | ⟨hc, hsign, hdigits, hne⟩)
    · rfl
    · rw [readExponent?, if_pos hc, hsign.splitSign, readDigits?_eq_some_iff.2 ⟨hdigits, hne, rfl⟩]
      · rfl
      · exact fun c hc => ne_sign_of_isDigit (hdigits c (List.mem_of_mem_head? hc))

/-- Neither a digit nor a point stands at the beginning of an exponent. -/
theorem IsExponent.head {s : List Char} {e : ℤ} (h : IsExponent s e) :
    ∀ c ∈ s.head?, c.isDigit = false ∧ c ≠ '.' := by
  cases h with
  | none => simp
  | some hc =>
    rintro _ ⟨⟩
    rcases hc with rfl | rfl <;> decide

/-! ## Decimals -/

theorem splitFraction_cases (s : List Char) :
    (∃ t, s = '.' :: t ∧ splitFraction s = (t.takeWhile Char.isDigit, t.dropWhile Char.isDigit)) ∨
      splitFraction s = ([], s) := by
  unfold splitFraction
  split
  · exact .inl ⟨_, rfl, rfl⟩
  · exact .inr rfl

/-- A mantissa begins with a digit or a point. -/
theorem IsMantissa.head {m : List Char} {n places : ℕ} (h : IsMantissa m n places) :
    ∃ c t, m = c :: t ∧ (c.isDigit = true ∨ c = '.') := by
  cases h with
  | whole hw hne =>
    obtain ⟨c, t, rfl⟩ := List.exists_cons_of_ne_nil hne
    exact ⟨c, t, rfl, .inl hw.of_cons⟩
  | @point w f hw hf hne =>
    rcases w with _ | ⟨c, w⟩
    · exact ⟨'.', f, rfl, .inr rfl⟩
    · exact ⟨c, _, rfl, .inl hw.of_cons⟩

theorem IsMantissa.readDecimal? {m exponent : List Char} {n places : ℕ} {e : ℤ} (hm : IsMantissa m n places)
    (he : IsExponent exponent e) (negative : Bool) :
    Number.readDecimal? negative (m ++ exponent) = some (.decimal negative n (e - places)) := by
  have hread := readExponent?_eq_some_iff.2 he
  cases hm with
  | whole hw hne =>
    obtain ⟨htake, hdrop⟩ := Text.split_run hw fun c hc => (he.head c hc).1
    have hsplit : splitFraction exponent = ([], exponent) := by
      rcases exponent with _ | ⟨c, t⟩
      · rfl
      · simp [splitFraction, (he.head c rfl).2]
    unfold Number.readDecimal?
    rw [htake, hdrop, hsplit]
    simp [hread, hne]
  | @point w f hw hf hne =>
    obtain ⟨htake, hdrop⟩ := Text.split_run hw (t := '.' :: (f ++ exponent)) (by rintro _ ⟨⟩; rfl)
    obtain ⟨ftake, fdrop⟩ := Text.split_run hf fun c hc => (he.head c hc).1
    have hsome : (w.isEmpty && f.isEmpty) = false := by
      rcases w with _ | _ <;> rcases f with _ | _ <;> simp_all
    unfold Number.readDecimal?
    rw [List.append_assoc, List.cons_append, htake, hdrop, splitFraction, ftake, fdrop]
    simp [hread, hsome]

/-- What the reader takes for a decimal is a mantissa with its exponent. -/
theorem exists_of_readDecimal? {negative : Bool} {s : List Char} {l : Literal} (h : readDecimal? negative s = some l) :
    ∃ m t n places e, s = m ++ t ∧ IsMantissa m n places ∧ IsExponent t e ∧ l = .decimal negative n (e - places) := by
  have hsplit := List.takeWhile_append_dropWhile (p := Char.isDigit) (l := s)
  have hwhole : IsDigits (s.takeWhile Char.isDigit) := fun c hc => List.mem_takeWhile_imp hc
  unfold readDecimal? at h
  -- there is a point behind the first digits, or there is none
  rcases splitFraction_cases (s.dropWhile Char.isDigit) with ⟨t, hpoint, hfraction⟩ | hfraction
  · rw [hpoint] at hsplit
    rw [hfraction] at h
    dsimp only at h
    rw [Option.ite_none_left_eq_some, Option.map_eq_some_iff] at h
    obtain ⟨hsome, e, he, rfl⟩ := h
    refine ⟨_, _, _, _, e, ?_, .point hwhole (fun c hc => List.mem_takeWhile_imp hc) ?_,
      readExponent?_eq_some_iff.1 he, rfl⟩
    · rw [List.append_assoc, List.cons_append, List.takeWhile_append_dropWhile, hsplit]
    · simpa using hsome
  · rw [hfraction] at h
    dsimp only at h
    rw [Option.ite_none_left_eq_some, Option.map_eq_some_iff, List.append_nil] at h
    obtain ⟨hsome, e, he, rfl⟩ := h
    exact ⟨_, _, _, 0, e, hsplit.symm, .whole hwhole (by simpa using hsome), readExponent?_eq_some_iff.1 he, rfl⟩

/-! ## Literals -/

/-- No sign begins a word for infinity or not-a-number. -/
theorem head_word {w v : List Char} {c : Char} (h : w.map Char.toLower = c :: v) (hc : c.isLower = true) :
    ∀ d ∈ w.head?, d ≠ '-' ∧ d ≠ '+' := by
  obtain ⟨d, w, rfl, rfl, -⟩ := List.map_eq_cons_iff.1 h
  rintro _ ⟨⟩
  constructor <;> rintro rfl <;> exact absurd hc (by decide)

/-- No mantissa begins like one of the words. -/
theorem IsMantissa.toLower_ne {m : List Char} {n places : ℕ} (h : IsMantissa m n places) {c : Char}
    (hc : c.isLower = true) (t v : List Char) : (m ++ t).map Char.toLower ≠ c :: v := by
  obtain ⟨d, m, rfl, hd⟩ := h.head
  rintro ⟨⟩
  rcases hd with hd | rfl
  · rw [Text.isDigit_iff] at hd
    rw [Text.toLower_eq_self (.inl (by omega)), Text.isLower_iff] at hc
    omega
  · exact absurd hc (by decide)

/-- The reader of literals accepts the texts of the grammar, each as what it says. -/
theorem Literal.read?_eq_some_iff {s : List Char} {l : Literal} : Literal.read? s = some l ↔ Spells s l := by
  constructor
  · intro h
    obtain ⟨sign, hs, hsign⟩ := splitSign_spec s
    unfold Literal.read? at h
    rw [hs]
    dsimp only at h
    split at h
    · rename_i hword
      cases h
      exact .infinity hsign hword
    · split at h
      · rename_i hword
        cases h
        exact .notANumber hsign hword
      · obtain ⟨m, t, n, places, e, hbody, hm, he, rfl⟩ := exists_of_readDecimal? h
        rw [hbody]
        exact .decimal hsign hm he
  · intro h
    unfold Literal.read?
    cases h with
    | infinity hsign hword =>
      rw [hsign.splitSign]
      · exact if_pos hword
      · rcases hword with hword | hword
        · exact head_word hword (by decide)
        · exact head_word hword (by decide)
    | notANumber hsign hword =>
      rw [hsign.splitSign (head_word hword (by decide))]
      dsimp only
      rw [hword]
      rfl
    | decimal hsign hm he =>
      rw [hsign.splitSign]
      · dsimp only
        rw [if_neg, if_neg (hm.toLower_ne (by decide) _ _), hm.readDecimal? he]
        rintro (hword | hword)
        · exact hm.toLower_ne (by decide) _ _ hword
        · exact hm.toLower_ne (by decide) _ _ hword
      · obtain ⟨c, m, rfl, hc⟩ := hm.head
        rintro _ ⟨⟩
        rcases hc with hc | rfl
        · exact ne_sign_of_isDigit hc
        · decide

/-! ## The characters of numbers -/

/-- A visible character of ASCII. -/
def IsVisible (c : Char) : Prop := 33 ≤ c.toNat ∧ c.toNat ≤ 126

theorem IsSign.visible {s : List Char} {negative : Bool} (h : IsSign s negative) : ∀ c ∈ s, IsVisible c := by
  unfold IsVisible
  cases h <;> simp

theorem IsDigits.visible {s : List Char} (h : IsDigits s) : ∀ c ∈ s, IsVisible c := by
  intro c hc
  have hdigit := (Text.isDigit_iff c).1 (h c hc)
  exact ⟨by omega, by omega⟩

theorem visible_of_toLower {w v : List Char} (h : w.map Char.toLower = v) (hv : ∀ c ∈ v, c.isLower = true) :
    ∀ c ∈ w, IsVisible c := by
  intro c hc
  have hlower := hv c.toLower (h ▸ List.mem_map_of_mem hc)
  by_cases hletter : c.toNat < 65 ∨ 90 < c.toNat
  · rw [Text.toLower_eq_self hletter, Text.isLower_iff] at hlower
    exact ⟨by omega, by omega⟩
  · exact ⟨by omega, by omega⟩

theorem IsMantissa.visible {m : List Char} {n places : ℕ} (h : IsMantissa m n places) : ∀ c ∈ m, IsVisible c := by
  cases h with
  | whole hw => exact hw.visible
  | point hw hf =>
    intro c hc
    rw [List.mem_append, List.mem_cons] at hc
    rcases hc with hc | rfl | hc
    · exact hw.visible c hc
    · unfold IsVisible
      decide
    · exact hf.visible c hc

theorem IsExponent.visible {t : List Char} {e : ℤ} (h : IsExponent t e) : ∀ c ∈ t, IsVisible c := by
  cases h with
  | none => simp
  | some hletter hsign hdigits =>
    intro c hc
    rw [List.mem_cons, List.mem_append] at hc
    rcases hc with rfl | hc | hc
    · unfold IsVisible
      rcases hletter with rfl | rfl <;> decide
    · exact hsign.visible c hc
    · exact hdigits.visible c hc

theorem Spells.visible {s : List Char} {l : Literal} (h : Spells s l) : ∀ c ∈ s, IsVisible c := by
  cases h with
  | infinity hsign hword =>
    have hw := hword.elim (visible_of_toLower · (by simp)) (visible_of_toLower · (by simp))
    exact List.forall_mem_append.2 ⟨hsign.visible, hw⟩
  | notANumber hsign hword => exact List.forall_mem_append.2 ⟨hsign.visible, visible_of_toLower hword (by simp)⟩
  | decimal hsign hm he =>
    exact List.forall_mem_append.2 ⟨hsign.visible, List.forall_mem_append.2 ⟨hm.visible, he.visible⟩⟩

/-- A number is found in a text with blanks around it. -/
theorem Spells.trim {numeral before after : List Char} {l : Literal} (h : Spells numeral l)
    (hbefore : ∀ c ∈ before, Text.isBlank c = true) (hafter : ∀ c ∈ after, Text.isBlank c = true) :
    Text.trim (before ++ numeral ++ after) = numeral := by
  have hvisible : ∀ c ∈ numeral, Text.isBlank c = false := fun c hc => Text.isBlank_of_visible (h.visible c hc)
  have hne : numeral ≠ [] := by
    rintro rfl
    have hread := Literal.read?_eq_some_iff.2 h
    cases hread
  exact Text.trim_padded hbefore hafter hne (fun c hc => hvisible c (List.mem_of_mem_head? hc))
    fun c hc => hvisible c (List.mem_of_mem_getLast? hc)

end SharedSheet.Number
