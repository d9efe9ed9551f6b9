/-
Compact texts are read back. A text is read from left to right, so the text of a value with anything behind it leads
the machine from where a value has to follow to where that value has been delivered (`Exact.reads`). That is an
induction on the value, in which the strings and the integers are the leaves (`readString_escapes`,
`readNumber?_renderInteger`). Doubles are left out: a reader need not find the same double again.
-/
import SharedSheet.Json.Parser
import SharedSheet.Proofs.Number.Decimal

namespace SharedSheet

/-! ## Digits -/

namespace Number

/-- Only zero is written with a zero in front. -/
theorem head?_digitsOf {n : ℕ} (h : 0 < n) : (digitsOf n).head? ≠ some '0' := by
  induction n using Nat.strong_induction_on with
  | _ n ih =>
    unfold digitsOf
    by_cases hlt : n < 10
    · rw [Nat.toDigits_of_lt_base hlt]
      interval_cases n <;> decide
    · have hdiv : 0 < n / 10 := by omega
      rw [Nat.toDigits_of_base_le (by norm_num) (by omega), List.head?_append_of_ne_nil _ Nat.toDigits_ne_nil]
      exact ih (n / 10) (by omega) hdiv

theorem isWhole_digitsOf (n : ℕ) : isWhole (digitsOf n) = true := by
  rcases Nat.eq_zero_or_pos n with rfl | hn
  · rfl
  · have hhead := head?_digitsOf hn
    obtain ⟨c, s, hs⟩ := List.exists_cons_of_ne_nil (digitsOf_ne_nil n)
    rw [hs] at hhead ⊢
    unfold isWhole
    split
    · rename_i hnil
      cases hnil
    · rfl
    · rename_i hcons
      cases hcons
      simpa using hhead

end Number

namespace Json

open Text

/-! ## Integers -/

theorem isNumeric_of_isDigit {c : Char} (h : c.isDigit = true) : isNumeric c = true := by
  simp [isNumeric, h]

theorem isNumeric_renderInteger (i : Int) : ∀ c ∈ renderInteger i, isNumeric c = true := by
  rcases i with n | n
  · exact fun c hc => isNumeric_of_isDigit (Number.isDigits_digitsOf n c hc)
  · intro c hc
    rcases List.mem_cons.1 hc with rfl | hc
    · rfl
    · exact isNumeric_of_isDigit (Number.isDigits_digitsOf _ c hc)

theorem renderInteger_ne_nil (i : Int) : renderInteger i ≠ [] := by
  rcases i with n | n
  · exact Number.digitsOf_ne_nil n
  · exact List.cons_ne_nil _ _

/-- Digits alone are a number without fraction and exponent. -/
theorem read?_digitsOf (n : ℕ) : Numeral.read? (Number.digitsOf n) = some ⟨Number.digitsOf n, [], none⟩ := by
  obtain ⟨htake, hdrop⟩ := split_run (Number.isDigits_digitsOf n) (t := []) (by simp)
  rw [List.append_nil] at htake hdrop
  unfold Numeral.read?
  rw [htake, hdrop]
  dsimp only
  rw [Number.isWhole_digitsOf]
  rfl

theorem readNumber?_digitsOf {n : ℕ} (h : fits64 n = true) :
    readNumber? (Number.digitsOf n) = some (some (.integer n)) := by
  have hminus : (Number.digitsOf n).head? ≠ some '-' := by
    intro hm
    exact absurd (Number.isDigits_digitsOf n _ (List.mem_of_mem_head? hm)) (by decide)
  unfold readNumber?
  rw [if_neg hminus]
  dsimp only
  rw [read?_digitsOf, Option.map_some, Number.digitsOf, Nat.ofDigitChars_ten_toDigits]
  simp [h]

theorem readNumber?_minus {n : ℕ} (hn : n ≠ 0) (h : fits64 (-n) = true) :
    readNumber? ('-' :: Number.digitsOf n) = some (some (.integer (-n))) := by
  unfold readNumber?
  simp only [List.head?_cons, if_true, List.tail_cons]
  rw [read?_digitsOf, Option.map_some, Number.digitsOf, Nat.ofDigitChars_ten_toDigits]
  simp [h, hn]

/-- An integer of 64 bits is read back. -/
theorem readNumber?_renderInteger {i : Int} (h : fits64 i = true) :
    readNumber? (renderInteger i) = some (some (.integer i)) := by
  rcases i with n | n
  · exact readNumber?_digitsOf h
  · exact readNumber?_minus n.succ_ne_zero h

/-! ## Strings -/

/-- A digit in hexadecimal is read back. -/
theorem hexValue?_hexDigit (n : ℕ) : hexValue? (hexDigit n) = some (n % 16) := by
  have key : ∀ m < 16, hexValue? (Nat.digitChar m) = some m := by decide
  exact key _ (Nat.mod_lt n (by norm_num))

/-- What is written for a character: a backslash and a letter that stands for it, its number if it is another control
character, or else the character itself. -/
theorem escapeChar_cases (c : Char) :
    (∃ d, escapeChar c = ['\\', d] ∧ shortEscape? d = some c ∧ 0x20 ≤ d.toNat ∧ d ≠ 'u') ∨
      (escapeChar c = ['\\', 'u', '0', '0', hexDigit (c.toNat / 16), hexDigit c.toNat] ∧ c.toNat < 0x20) ∨
      (escapeChar c = [c] ∧ 0x20 ≤ c.toNat ∧ c ≠ '"' ∧ c ≠ '\\') := by
  unfold escapeChar
  split
  · exact .inl ⟨'"', rfl, rfl, by decide, by decide⟩
  · exact .inl ⟨'\\', rfl, rfl, by decide, by decide⟩
  · exact .inl ⟨'n', rfl, rfl, by decide, by decide⟩
  · exact .inl ⟨'r', rfl, rfl, by decide, by decide⟩
  · exact .inl ⟨'t', rfl, rfl, by decide, by decide⟩
  · exact .inl ⟨'b', rfl, rfl, by decide, by decide⟩
  · exact .inl ⟨'f', rfl, rfl, by decide, by decide⟩
  · right
    split
    · exact .inl ⟨rfl, by assumption⟩
    · exact .inr ⟨rfl, by omega, by assumption, by assumption⟩

theorem readEscape_short {d : Char} (hd : d ≠ 'u') (s : List Char) :
    readEscape (d :: s) = (shortEscape? d).map fun c => (some c, s) := by
  unfold readEscape
  split
  · rename_i h
    cases h
    exact absurd rfl hd
  · rename_i h
    cases h
    rfl
  · rename_i h
    cases h

/-- The number of a control character is read back. -/
theorem readEscape_control {c : Char} (h : c.toNat < 0x20) (s : List Char) :
    readEscape ('u' :: '0' :: '0' :: hexDigit (c.toNat / 16) :: hexDigit c.toNat :: s) = some (some c, s) := by
  have hvalue : hexValue4? '0' '0' (hexDigit (c.toNat / 16)) (hexDigit c.toNat) = some c.toNat := by
    unfold hexValue4?
    rw [hexValue?_hexDigit, hexValue?_hexDigit]
    show some (((0 * 16 + 0) * 16 + c.toNat / 16 % 16) * 16 + c.toNat % 16) = _
    congr 1
    omega
  have hlow : isLowSurrogate c.toNat = false := by
    unfold isLowSurrogate
    simp only [Bool.and_eq_false_iff, decide_eq_false_iff_not]
    omega
  have hhigh : isHighSurrogate c.toNat = false := by
    unfold isHighSurrogate
    simp only [Bool.and_eq_false_iff, decide_eq_false_iff_not]
    omega
  rw [readEscape, hvalue]
  dsimp only
  rw [hlow, hhigh, Char.ofNat_toNat]
  rfl

theorem readString_escape {s r : List Char} {c : Option Char} (h : readEscape s = some (c, r)) :
    readString ('\\' :: s) = (readString r).map fun (t, r) => (c :: t, r) := by
  rw [readString]
  split
  · rename_i h'
    rw [h] at h'
    cases h'
    rfl
  · rename_i h'
    rw [h] at h'
    cases h'

theorem readString_plain {c : Char} (hc : 0x20 ≤ c.toNat) (hq : c ≠ '"') (hb : c ≠ '\\') (s : List Char) :
    readString (c :: s) = (readString s).map fun (t, r) => (some c :: t, r) := by
  rw [readString]
  · rw [if_neg (by omega)]
  · exact hq
  · exact hb

/-- An escaped character is read back, and what follows it is read as it is. -/
theorem readString_escapeChar (c : Char) (s : List Char) :
    readString (escapeChar c ++ s) = (readString s).map fun (t, r) => (some c :: t, r) := by
  rcases escapeChar_cases c with ⟨d, hc, hd, -, hu⟩ | ⟨hc, hctl⟩ | ⟨hc, hge, hq, hb⟩
  · have hread : readEscape (d :: s) = some (some c, s) := by rw [readEscape_short hu, hd, Option.map_some]
    rw [hc]
    exact readString_escape hread
  · rw [hc]
    exact readString_escape (readEscape_control hctl s)
  · rw [hc]
    exact readString_plain hge hq hb s

/-- A string is read back from behind its opening quote. -/
theorem readString_escapes (cs rest : List Char) :
    readString (cs.flatMap escapeChar ++ '"' :: rest) = some (cs.map some, rest) := by
  induction cs with
  | nil =>
    rw [List.flatMap_nil, List.nil_append, readString]
    rfl
  | cons c cs ih =>
    rw [List.flatMap_cons, List.append_assoc, readString_escapeChar, ih]
    rfl

/-! ## Tokens -/

theorem scan_punctuation {c : Char} {t : Token} (hblank : isBlank c = false) (ht : punctuation? c = some t)
    (s : List Char) : scan (c :: s) = (scan s).map (t :: ·) := by
  rw [scan, hblank, ht]
  rfl

theorem scan_quote {s r : List Char} {t : List (Option Char)} (h : readString s = some (t, r)) :
    scan ('"' :: s) = (scan r).map (.string ((t.mapM id).map String.ofList) :: ·) := by
  have hpunctuation : punctuation? '"' = none := rfl
  rw [scan, if_neg (by decide), hpunctuation]
  dsimp only
  rw [if_pos rfl]
  split
  · rename_i h'
    rw [h] at h'
    cases h'
    rfl
  · rename_i h'
    rw [h] at h'
    cases h'

theorem scan_string (k : String) (s : List Char) :
    scan (renderString k ++ s) = (scan s).map (.string (some k) :: ·) := by
  have hread : readString (k.toList.flatMap escapeChar ++ ['"'] ++ s) = some (k.toList.map some, s) := by
    rw [List.append_assoc]
    exact readString_escapes k.toList s
  have hchars : (k.toList.map some).mapM id = some k.toList := by
    rw [List.mapM_map]
    exact List.mapM_pure.trans (congrArg some (List.map_id _))
  rw [renderString, List.cons_append, List.cons_append, scan_quote hread, hchars, Option.map_some, String.ofList_toList]

/-- A number begins neither like a blank nor like any other token. -/
theorem begins_number {c : Char} (h : isNumeric c = true) :
    isBlank c = false ∧ punctuation? c = none ∧ c ≠ '"' := by
  refine ⟨?_, ?_, ?_⟩
  · simp only [isBlank, Bool.or_eq_false_iff, beq_eq_false_iff_ne]
    refine ⟨⟨⟨?_, ?_⟩, ?_⟩, ?_⟩ <;> rintro rfl <;> exact absurd h (by decide)
  · unfold punctuation?
    split
    · exact absurd h (by decide)
    · exact absurd h (by decide)
    · exact absurd h (by decide)
    · exact absurd h (by decide)
    · exact absurd h (by decide)
    · exact absurd h (by decide)
    · rfl
  · rintro rfl
    exact absurd h (by decide)

theorem scan_integer {i : Int} (h : fits64 i = true) {s : List Char} (hs : ∀ c ∈ s.head?, isNumeric c = false) :
    scan (renderInteger i ++ s) = (scan s).map (.scalar (some (.integer i)) :: ·) := by
  have hnumeric := isNumeric_renderInteger i
  have hread := readNumber?_renderInteger h
  obtain ⟨c, w, hw⟩ := List.exists_cons_of_ne_nil (renderInteger_ne_nil i)
  rw [hw] at hnumeric hread ⊢
  obtain ⟨htake, hdrop⟩ := split_run (fun d hd => hnumeric d (List.mem_cons_of_mem _ hd)) hs
  have hc := hnumeric c List.mem_cons_self
  obtain ⟨hblank, hpunct, hquote⟩ := begins_number hc
  rw [List.cons_append, scan, hblank, hpunct]
  dsimp only
  rw [if_neg hquote, hc, htake, hdrop, hread]
  rfl

theorem scan_null (s : List Char) :
    scan ('n' :: 'u' :: 'l' :: 'l' :: s) = (scan s).map (.scalar (some .null) :: ·) := by
  rw [scan]
  rfl

theorem scan_true (s : List Char) :
    scan ('t' :: 'r' :: 'u' :: 'e' :: s) = (scan s).map (.scalar (some (.bool true)) :: ·) := by
  rw [scan]
  rfl

theorem scan_false (s : List Char) :
    scan ('f' :: 'a' :: 'l' :: 's' :: 'e' :: s) = (scan s).map (.scalar (some (.bool false)) :: ·) := by
  rw [scan]
  rfl

/-! ## The machine -/

namespace State

/-- Where a text leads. -/
def reading (st : State) (s : List Char) : Option State := do (← scan s).foldlM (step (some maxDepth)) st

theorem reading_token {st st' : State} {t : Token} {w s : List Char}
    (hscan : scan (w ++ s) = (scan s).map (t :: ·)) (hstep : st.step (some maxDepth) t = some st') :
    st.reading (w ++ s) = st'.reading s := by
  unfold reading
  rw [hscan]
  rcases scan s with _ | ts
  · rfl
  · show (t :: ts).foldlM (step (some maxDepth)) st = _
    rw [List.foldlM_cons, hstep]
    rfl

theorem reading_punctuation {st st' : State} {c : Char} {t : Token} (hblank : isBlank c = false)
    (ht : punctuation? c = some t) (hstep : st.step (some maxDepth) t = some st') (s : List Char) :
    st.reading (c :: s) = st'.reading s :=
  reading_token (w := [c]) (scan_punctuation hblank ht s) hstep

/-- A value may begin here, to be handed to the frames `outer`. -/
def Awaits (st : State) (outer : List Frame) : Prop :=
  ∀ t st', beginValue (some maxDepth) outer t = some st' → st.step (some maxDepth) t = some st'

theorem awaits_value (outer : List Frame) : (value outer).Awaits outer := fun _ _ h => h

theorem awaits_firstItem (outer : List Frame) : (firstItem outer).Awaits (.array [] :: outer) := by
  intro t st' h
  cases t with
  | closeBracket => cases h
  | _ => exact h

/-- A key may come here, behind the members `done`. -/
def AwaitsKey (st : State) (done : List (String × Json)) (outer : List Frame) : Prop :=
  ∀ k, st.step (some maxDepth) (.string (some k)) = some (.colon done k outer)

theorem awaitsKey_firstKey (outer : List Frame) : (firstKey outer).AwaitsKey [] outer := fun _ => rfl

theorem awaitsKey_key (done : List (String × Json)) (outer : List Frame) : (key done outer).AwaitsKey done outer :=
  fun _ => rfl

theorem reading_scalar {st : State} {outer : List Frame} {v : Json} {w s : List Char} (hst : st.Awaits outer)
    (hscan : scan (w ++ s) = (scan s).map (.scalar (some v) :: ·)) :
    st.reading (w ++ s) = (deliver v outer).reading s :=
  reading_token hscan (hst _ _ rfl)

/-- A key and its colon lead to where the value of the member has to follow. -/
theorem reading_key {st : State} {done : List (String × Json)} {outer : List Frame} (hst : st.AwaitsKey done outer)
    (k : String) (s : List Char) :
    st.reading (renderString k ++ ':' :: s) = (value (.object done k :: outer)).reading s :=
  (reading_token (scan_string k (':' :: s)) (hst k)).trans (reading_punctuation rfl rfl rfl s)

end State

/-! ## Values -/

/-- Values that are found again in their text: without doubles, with integers of 64 bits, and with containers at most
`n` deep. -/
inductive Exact : ℕ → Json → Prop
  | null {n : ℕ} : Exact n .null
  | bool {n : ℕ} (b : Bool) : Exact n (.bool b)
  | integer {n : ℕ} {i : Int} (fits : fits64 i = true) : Exact n (.integer i)
  | string {n : ℕ} (s : String) : Exact n (.string s)
  | array {n : ℕ} {items : List Json} (all : ∀ v ∈ items, Exact n v) : Exact (n + 1) (.array items)
  | object {n : ℕ} {members : List (String × Json)} (all : ∀ m ∈ members, Exact n m.2) : Exact (n + 1) (.object members)

open State

/-- The text of `v`, with something behind it that is no part of a number, leads from where a value may begin to where
`v` has been delivered. -/
def Reads (v : Json) (outer : List Frame) : Prop :=
  ∀ (st : State) (rest : List Char), st.Awaits outer → (∀ c ∈ rest.head?, isNumeric c = false) →
    st.reading (renderChars v ++ rest) = (deliver v outer).reading rest

theorem renderItems_cons (v : Json) {vs : List Json} (h : vs ≠ []) :
    renderItems (v :: vs) = renderChars v ++ ',' :: renderItems vs := by
  rw [renderItems]
  exact h

theorem renderMembers_cons (k : String) (v : Json) {ms : List (String × Json)} (h : ms ≠ []) :
    renderMembers ((k, v) :: ms) = renderString k ++ ':' :: (renderChars v ++ ',' :: renderMembers ms) := by
  rw [renderMembers, List.append_assoc, List.cons_append]
  exact h

theorem reading_items {items : List Json} (hne : items ≠ []) {done : List Json} {outer : List Frame} {st : State}
    (hst : st.Awaits (.array done :: outer)) (h : ∀ v ∈ items, ∀ done, Reads v (.array done :: outer))
    (rest : List Char) :
    st.reading (renderItems items ++ rest) = (deliver (.array (done.reverse ++ items)) outer).reading rest := by
  induction items generalizing st done with
  | nil => exact absurd rfl hne
  | cons v items ih =>
    have hv := fun rest => h v List.mem_cons_self done st rest hst
    by_cases hlast : items = []
    · rw [hlast, renderItems, List.append_assoc, List.singleton_append, hv _ (by rintro _ ⟨⟩; rfl)]
      rw [deliver, reading_punctuation rfl rfl rfl, List.reverse_cons]
    · rw [renderItems_cons v hlast, List.append_assoc, List.cons_append, hv _ (by rintro _ ⟨⟩; rfl)]
      rw [deliver, reading_punctuation rfl rfl rfl]
      rw [ih hlast (awaits_value _) fun x hx => h x (List.mem_cons_of_mem _ hx)]
      rw [List.reverse_cons, List.append_assoc, List.singleton_append]

theorem reading_members {members : List (String × Json)} (hne : members ≠ []) {done : List (String × Json)}
    {outer : List Frame} {st : State} (hst : st.AwaitsKey done outer)
    (h : ∀ m ∈ members, ∀ done k, Reads m.2 (.object done k :: outer)) (rest : List Char) :
    st.reading (renderMembers members ++ rest) = (deliver (.object (done.reverse ++ members)) outer).reading rest := by
  induction members generalizing st done with
  | nil => exact absurd rfl hne
  | cons m members ih =>
    obtain ⟨k, v⟩ := m
    have hv := fun rest => h (k, v) List.mem_cons_self done k _ rest (awaits_value _)
    by_cases hlast : members = []
    · rw [hlast, renderMembers, List.append_assoc, List.append_assoc, List.cons_append, reading_key hst k]
      rw [List.singleton_append, hv _ (by rintro _ ⟨⟩; rfl)]
      rw [deliver, reading_punctuation rfl rfl rfl, List.reverse_cons]
    · rw [renderMembers_cons k v hlast, List.append_assoc, List.cons_append, reading_key hst k, List.append_assoc]
      rw [List.cons_append, hv _ (by rintro _ ⟨⟩; rfl)]
      rw [deliver, reading_punctuation rfl rfl rfl]
      rw [ih hlast (awaitsKey_key _ _) fun x hx => h x (List.mem_cons_of_mem _ hx)]
      rw [List.reverse_cons, List.append_assoc, List.singleton_append]

/-- A value is read wherever its containers fit. -/
theorem Exact.reads {n : ℕ} {v : Json} (h : Exact n v) {outer : List Frame} (hfits : outer.length + n ≤ maxDepth) :
    Reads v outer := by
  induction h generalizing outer with
  | null => exact fun st rest hst _ => reading_scalar hst (scan_null rest)
  | bool b =>
    cases b with
    | true => exact fun st rest hst _ => reading_scalar hst (scan_true rest)
    | false => exact fun st rest hst _ => reading_scalar hst (scan_false rest)
  | integer fits => exact fun st rest hst hrest => reading_scalar hst (scan_integer fits hrest)
  | string s => exact fun st rest hst _ => reading_token (scan_string s rest) (hst _ _ rfl)
  | @array n items _ ih =>
    intro st rest hst _
    have hopen : beginValue (some maxDepth) outer .openBracket = some (.firstItem outer) :=
      if_pos (decide_eq_true (by omega))
    have hinside : ∀ done, (Frame.array done :: outer).length + n ≤ maxDepth := fun done => by
      rw [List.length_cons]
      omega
    rw [renderChars, List.cons_append, reading_punctuation rfl rfl (hst _ _ hopen)]
    by_cases hne : items = []
    · rw [hne, renderItems, List.singleton_append, reading_punctuation rfl rfl rfl]
    · exact reading_items hne (awaits_firstItem outer)
        (fun v hv done => ih v hv (hinside done)) rest
  | @object n members _ ih =>
    intro st rest hst _
    have hopen : beginValue (some maxDepth) outer .openBrace = some (.firstKey outer) :=
      if_pos (decide_eq_true (by omega))
    have hinside : ∀ done k, (Frame.object done k :: outer).length + n ≤ maxDepth := fun done k => by
      rw [List.length_cons]
      omega
    rw [renderChars, List.cons_append, reading_punctuation rfl rfl (hst _ _ hopen)]
    by_cases hne : members = []
    · rw [hne, renderMembers, List.singleton_append, reading_punctuation rfl rfl rfl]
    · exact reading_members hne (awaitsKey_firstKey outer)
        (fun m hm done k => ih m hm (hinside done k)) rest

/-- A value is found again in its text. -/
theorem Exact.parseChars?_renderChars {v : Json} (h : Exact maxDepth v) : parseChars? (renderChars v) = some v := by
  have hempty : ([] : List Frame).length + maxDepth ≤ maxDepth := (Nat.zero_add maxDepth).le
  have hread := h.reads hempty (.value []) [] (awaits_value []) (by rintro _ ⟨⟩)
  rw [List.append_nil] at hread
  unfold State.reading at hread
  unfold parseChars?
  rcases hscan : scan (renderChars v) with _ | ts
  · rw [hscan, scan] at hread
    cases hread
  · rw [hscan, scan] at hread
    change ts.foldlM (State.step (some maxDepth)) (.value []) = some (.done v) at hread
    show ts.foldlM (State.step (some maxDepth)) (.value []) >>= _ = _
    rw [hread]
    rfl

/-! ## One line -/

/-- A text without control characters, line ends among them. -/
def NoControl (s : List Char) : Prop := ∀ c ∈ s, 0x20 ≤ c.toNat

theorem noControl_of_all {s : List Char} (h : (s.all fun c => 0x20 ≤ c.toNat) = true) : NoControl s := by
  intro c hc
  exact of_decide_eq_true (List.all_eq_true.1 h c hc)

theorem NoControl.append {s t : List Char} (hs : NoControl s) (ht : NoControl t) : NoControl (s ++ t) := by
  intro c hc
  rcases List.mem_append.1 hc with h | h
  · exact hs c h
  · exact ht c h

theorem NoControl.cons {c : Char} {s : List Char} (hc : 0x20 ≤ c.toNat) (hs : NoControl s) : NoControl (c :: s) := by
  intro d hd
  rcases List.mem_cons.1 hd with rfl | h
  · exact hc
  · exact hs d h

theorem noControl_nil : NoControl [] := fun _ h => absurd h List.not_mem_nil

theorem NoControl.notMem {c : Char} {s : List Char} (h : NoControl s) (hc : c.toNat < 0x20) : c ∉ s :=
  fun hmem => absurd (h c hmem) (by omega)

theorem noControl_hexDigit (n : ℕ) : 0x20 ≤ (hexDigit n).toNat := by
  have key : ∀ m < 16, 0x20 ≤ (Nat.digitChar m).toNat := by decide
  exact key _ (Nat.mod_lt n (by norm_num))

/-- Control characters are written with others. -/
theorem noControl_escapeChar (c : Char) : NoControl (escapeChar c) := by
  rcases escapeChar_cases c with ⟨d, hc, -, hd, -⟩ | ⟨hc, -⟩ | ⟨hc, hge, -, -⟩
  · rw [hc]
    exact .cons (by decide) (.cons hd noControl_nil)
  · rw [hc]
    have hdigits : NoControl [hexDigit (c.toNat / 16), hexDigit c.toNat] :=
      .cons (noControl_hexDigit _) (.cons (noControl_hexDigit _) noControl_nil)
    exact .append (s := ['\\', 'u', '0', '0']) (noControl_of_all rfl) hdigits
  · rw [hc]
    exact .cons hge noControl_nil

theorem noControl_renderString (k : String) : NoControl (renderString k) := by
  refine .append (.cons (by decide) fun d hd => ?_) (noControl_of_all rfl)
  obtain ⟨c, -, hc⟩ := List.mem_flatMap.1 hd
  exact noControl_escapeChar c d hc

theorem noControl_renderInteger (i : Int) : NoControl (renderInteger i) := by
  intro c hc
  have h := isNumeric_renderInteger i c hc
  simp only [isNumeric, Bool.or_eq_true, isDigit_iff, beq_iff_eq] at h
  rcases h with ((((⟨h, -⟩ | rfl) | rfl) | rfl) | rfl) | rfl
  · omega
  all_goals decide

theorem noControl_renderItems {items : List Json} (h : ∀ v ∈ items, NoControl (renderChars v)) :
    NoControl (renderItems items) := by
  induction items with
  | nil => exact noControl_of_all rfl
  | cons v items ih =>
    have hv := h v List.mem_cons_self
    by_cases hlast : items = []
    · rw [hlast, renderItems]
      exact hv.append (noControl_of_all rfl)
    · rw [renderItems_cons v hlast]
      exact hv.append (.cons (by decide) (ih fun w hw => h w (List.mem_cons_of_mem _ hw)))

theorem noControl_renderMembers {members : List (String × Json)} (h : ∀ m ∈ members, NoControl (renderChars m.2)) :
    NoControl (renderMembers members) := by
  induction members with
  | nil => exact noControl_of_all rfl
  | cons m members ih =>
    obtain ⟨k, v⟩ := m
    have hk := noControl_renderString k
    have hv := h (k, v) List.mem_cons_self
    by_cases hlast : members = []
    · rw [hlast, renderMembers]
      exact (hk.append (.cons (by decide) hv)).append (noControl_of_all rfl)
    · rw [renderMembers_cons k v hlast]
      refine hk.append (.cons (by decide) (hv.append (.cons (by decide) (ih fun m hm => ?_))))
      exact h m (List.mem_cons_of_mem _ hm)

/-- The text of a value stands on one line. -/
theorem Exact.noControl {n : ℕ} {v : Json} (h : Exact n v) : NoControl (renderChars v) := by
  induction h with
  | null => exact noControl_of_all rfl
  | bool b => cases b <;> exact noControl_of_all rfl
  | integer => exact noControl_renderInteger _
  | string s => exact noControl_renderString s
  | array _ ih => exact .cons (by decide) (noControl_renderItems ih)
  | object _ ih => exact .cons (by decide) (noControl_renderMembers ih)

/-- The text of an object is in braces. -/
theorem renderChars_object (members : List (String × Json)) :
    ∃ inside, renderChars (.object members) = '{' :: inside ++ ['}'] := by
  have hlast : ∃ inside, renderMembers members = inside ++ ['}'] := by
    induction members with
    | nil => exact ⟨[], rfl⟩
    | cons m members ih =>
      obtain ⟨k, v⟩ := m
      by_cases hlast : members = []
      · rw [hlast, renderMembers]
        exact ⟨_, rfl⟩
      · obtain ⟨inside, hinside⟩ := ih
        rw [renderMembers_cons k v hlast, hinside]
        exact ⟨renderString k ++ ':' :: (renderChars v ++ ',' :: inside), by simp⟩
  obtain ⟨inside, hinside⟩ := hlast
  exact ⟨inside, by rw [renderChars, hinside, List.cons_append]⟩

end Json

end SharedSheet
