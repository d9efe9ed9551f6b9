/-
UTF-8. Reading the bytes of a text gives its characters (`decode?_encode`): the first byte of a character says how
many follow and between which bounds the second one lies, and each of the others carries six bits. Any other bytes are
read as the text that they say (`decodeLossy_eq_iff`): what cannot be read is replaced, part by part (`Says`).
Characters of ASCII are one byte each, and no other character has a byte of ASCII (`utf8EncodeChar_cases`).
-/
import Mathlib.Data.List.Basic
import SharedSheet.Text.Utf8

namespace SharedSheet.Text

theorem toNat_ofNat_byte {n : ℕ} (h : n < 256) : (UInt8.ofNat n).toNat = n := by
  rw [UInt8.toNat_ofNat']
  exact Nat.mod_eq_of_lt h

theorem ofNat_byte_eq {b : Byte} {n : ℕ} (h : b.toNat = n) : UInt8.ofNat n = b := by
  rw [← h, UInt8.ofNat_toNat]

theorem toNat_ofNat_char {n : ℕ} (h : n.isValidChar) : (Char.ofNat n).val.toNat = n := by
  rw [Char.ofNat, dif_pos h]
  rfl

/-! ## Bytes that follow -/

/-- Bytes that can follow a first byte: one between two bounds, and behind it bytes of the form `10xxxxxx`. -/
def Follow (low high : Byte) : List Byte → Prop
  | [] => True
  | b :: s => (low ≤ b ∧ b ≤ high) ∧ Follow 0x80 0xBF s

/-- The bits of a first byte, and six more from each byte that follows. -/
def gather (bits : ℕ) (s : List Byte) : ℕ := s.foldl (fun n b => n * 64 + (b.toNat - 0x80)) bits

theorem gather_nil (bits : ℕ) : gather bits [] = bits := rfl

theorem gather_cons (bits : ℕ) (b : Byte) (s : List Byte) :
    gather bits (b :: s) = gather (bits * 64 + (b.toNat - 0x80)) s := List.foldl_cons ..

section

variable {low high : Byte} {p q t : List Byte}

theorem Follow.left : {low high : Byte} → {p : List Byte} → Follow low high (p ++ q) → Follow low high p
  | _, _, [], _ => trivial
  | _, _, _ :: _, h => ⟨h.1, h.2.left⟩

theorem follow_replicate (n : ℕ) : Follow 0x80 0xBF (List.replicate n 0x80) := by
  induction n with
  | zero => trivial
  | succ n ih => exact ⟨by decide, ih⟩

/-- Bytes that follow can be completed to any greater number of them. -/
theorem Follow.complete (hle : low ≤ high) {n : ℕ} (h : Follow low high p) (hlen : p.length < n) :
    ∃ q, q ≠ [] ∧ Follow low high (p ++ q) ∧ (p ++ q).length = n := by
  induction p generalizing low high n with
  | nil =>
    obtain ⟨n, rfl⟩ := Nat.exists_eq_add_one_of_ne_zero (Nat.ne_of_gt hlen)
    refine ⟨low :: List.replicate n 0x80, List.cons_ne_nil _ _, ⟨⟨UInt8.le_refl low, hle⟩, follow_replicate n⟩, ?_⟩
    simp
  | cons b p ih =>
    rw [List.length_cons] at hlen
    obtain ⟨q, hq, hfollow, hn⟩ := ih (n := n - 1) (by decide) h.2 (by omega)
    exact ⟨q, hq, ⟨h.1, hfollow⟩, by rw [List.cons_append, List.length_cons]; omega⟩

theorem readFollowing_append (h : Follow low high t) (bits : ℕ) (s : List Byte) :
    readFollowing low high bits t.length (t ++ s) = (some (Char.ofNat (gather bits t)), s) := by
  induction t generalizing low high bits with
  | nil => rfl
  | cons b t ih =>
    rw [List.length_cons, List.cons_append, readFollowing, if_pos h.1, ih h.2, gather_cons]

/-- Bytes that follow are read to the last, or up to the first that cannot follow. -/
theorem readFollowing_cases (low high : Byte) (bits n : ℕ) (s : List Byte) :
    ∃ p r, s = p ++ r ∧ Follow low high p ∧
      (p.length = n ∧ readFollowing low high bits n s = (some (Char.ofNat (gather bits p)), r) ∨
        p.length < n ∧ readFollowing low high bits n s = (none, r) ∧
          ∀ b later, r = b :: later → ¬Follow low high (p ++ [b])) := by
  induction n generalizing low high bits s with
  | zero => exact ⟨[], s, rfl, trivial, .inl ⟨rfl, rfl⟩⟩
  | succ n ih =>
    rcases s with _ | ⟨b, s⟩
    · refine ⟨[], [], rfl, trivial, .inr ⟨Nat.succ_pos n, by rw [readFollowing], ?_⟩⟩
      rintro b later ⟨⟩
    · by_cases hb : low ≤ b ∧ b ≤ high
      · obtain ⟨p, r, rfl, hp, hread⟩ := ih 0x80 0xBF (bits * 64 + (b.toNat - 0x80)) s
        refine ⟨b :: p, r, rfl, ⟨hb, hp⟩, ?_⟩
        rw [readFollowing, if_pos hb, gather_cons]
        rcases hread with ⟨hn, hr⟩ | ⟨hn, hr, hstop⟩
        · exact .inl ⟨congrArg (· + 1) hn, hr⟩
        · exact .inr ⟨Nat.succ_lt_succ hn, hr, fun x later hx hfollow => hstop x later hx hfollow.2⟩
      · refine ⟨[], b :: s, rfl, trivial, .inr ⟨Nat.succ_pos n, ?_, ?_⟩⟩
        · rw [readFollowing, if_neg hb]
        · rintro x later ⟨⟩ hfollow
          exact hb hfollow.1

end

theorem Follow.bounds {low high x : Byte} {t : List Byte} (h : Follow low high (x :: t)) :
    low.toNat ≤ x.toNat ∧ x.toNat ≤ high.toNat :=
  ⟨UInt8.le_iff_toNat_le.1 h.1.1, UInt8.le_iff_toNat_le.1 h.1.2⟩

theorem Follow.form {x : Byte} {t : List Byte} (h : Follow 0x80 0xBF (x :: t)) : 128 ≤ x.toNat ∧ x.toNat ≤ 191 :=
  h.bounds

theorem toNat_follow {n : ℕ} (h : n < 64) : (UInt8.ofNat (n + 128)).toNat = n + 128 := toNat_ofNat_byte (by omega)

theorem follow_cons {low high : Byte} {n : ℕ} {s : List Byte} (hn : n < 64) (hlow : low.toNat ≤ n + 128)
    (hhigh : n + 128 ≤ high.toNat) (hs : Follow 0x80 0xBF s) : Follow low high (UInt8.ofNat (n + 128) :: s) := by
  refine ⟨⟨?_, ?_⟩, hs⟩
  · rw [UInt8.le_iff_toNat_le, toNat_follow hn]
    exact hlow
  · rw [UInt8.le_iff_toNat_le, toNat_follow hn]
    exact hhigh

theorem follow_tail {n : ℕ} {s : List Byte} (hn : n < 64) (hs : Follow 0x80 0xBF s) :
    Follow 0x80 0xBF (UInt8.ofNat (n + 128) :: s) :=
  follow_cons hn (Nat.le_add_left 128 n) (show n + 128 ≤ 191 by omega) hs

theorem gather_follow (bits : ℕ) {n : ℕ} (hn : n < 64) (s : List Byte) :
    gather bits (UInt8.ofNat (n + 128) :: s) = gather (bits * 64 + n) s := by
  rw [gather_cons, toNat_follow hn, Nat.add_sub_cancel]

/-! ## First bytes -/

theorem lead?_ofNat {n : ℕ} (h : n < 256) :
    lead? (UInt8.ofNat n) =
      if n < 0x80 then some ⟨0, 0x80, 0xBF, n⟩
      else if n < 0xC2 then none
      else if n < 0xE0 then some ⟨1, 0x80, 0xBF, n - 0xC0⟩
      else if n = 0xE0 then some ⟨2, 0xA0, 0xBF, 0⟩
      else if n = 0xED then some ⟨2, 0x80, 0x9F, 0xD⟩
      else if n < 0xF0 then some ⟨2, 0x80, 0xBF, n - 0xE0⟩
      else if n = 0xF0 then some ⟨3, 0x90, 0xBF, 0⟩
      else if n < 0xF4 then some ⟨3, 0x80, 0xBF, n - 0xF0⟩
      else if n = 0xF4 then some ⟨3, 0x80, 0x8F, 4⟩
      else none := by
  unfold lead?
  rw [toNat_ofNat_byte h]

/-- With two bytes behind it the first byte carries four bits. The bounds of the second byte shut out overlong forms
and surrogates. -/
theorem lead?_three {x y : ℕ} (hx : x < 16) (hy : y < 64) (hlong : x = 0 → 32 ≤ y) (hsurrogate : x = 13 → y < 32) :
    ∃ low high : Byte, lead? (UInt8.ofNat (x + 224)) = some ⟨2, low, high, x⟩ ∧ low.toNat ≤ y + 128 ∧
      y + 128 ≤ high.toNat := by
  rw [lead?_ofNat (by omega), if_neg (by omega), if_neg (by omega), if_neg (by omega)]
  by_cases h0 : x = 0
  · subst h0
    exact ⟨0xA0, 0xBF, rfl, show 160 ≤ y + 128 by omega, show y + 128 ≤ 191 by omega⟩
  · rw [if_neg (by omega)]
    by_cases h13 : x = 13
    · subst h13
      exact ⟨0x80, 0x9F, rfl, Nat.le_add_left 128 y, show y + 128 ≤ 159 by omega⟩
    · rw [if_neg (by omega), if_pos (by omega), Nat.add_sub_cancel]
      exact ⟨0x80, 0xBF, rfl, Nat.le_add_left 128 y, show y + 128 ≤ 191 by omega⟩

/-- With three bytes behind it the first byte carries three bits. The bounds of the second byte shut out overlong
forms and numbers above the code space. -/
theorem lead?_four {w x : ℕ} (hw : w < 5) (hx : x < 64) (hlong : w = 0 → 16 ≤ x) (hspace : w = 4 → x < 16) :
    ∃ low high : Byte, lead? (UInt8.ofNat (w + 240)) = some ⟨3, low, high, w⟩ ∧ low.toNat ≤ x + 128 ∧
      x + 128 ≤ high.toNat := by
  rw [lead?_ofNat (by omega), if_neg (by omega), if_neg (by omega), if_neg (by omega), if_neg (by omega),
    if_neg (by omega), if_neg (by omega)]
  by_cases h0 : w = 0
  · subst h0
    exact ⟨0x90, 0xBF, rfl, show 144 ≤ x + 128 by omega, show x + 128 ≤ 191 by omega⟩
  · rw [if_neg (by omega)]
    by_cases h4 : w = 4
    · subst h4
      exact ⟨0x80, 0x8F, rfl, Nat.le_add_left 128 x, show x + 128 ≤ 143 by omega⟩
    · rw [if_pos (by omega), Nat.add_sub_cancel]
      exact ⟨0x80, 0xBF, rfl, Nat.le_add_left 128 x, show x + 128 ≤ 191 by omega⟩

/-- The first byte of a character says what stands behind it. -/
theorem exists_lead (c : Char) :
    ∃ (b : Byte) (t : List Byte) (l : Lead), String.utf8EncodeChar c = b :: t ∧ lead? b = some l ∧
      t.length = l.following ∧ Follow l.low l.high t ∧ gather l.bits t = c.toNat := by
  have hvalid : c.val.toNat < 0xD800 ∨ 0xDFFF < c.val.toNat ∧ c.val.toNat < 0x110000 := c.valid
  change ∃ (b : Byte) (t : List Byte) (l : Lead), _ ∧ _ ∧ _ ∧ _ ∧ gather l.bits t = c.val.toNat
  unfold String.utf8EncodeChar
  generalize c.val.toNat = v at hvalid
  dsimp only
  -- one byte, two, three or four
  split
  · have hlead := lead?_ofNat (n := v) (by omega)
    rw [if_pos (by omega)] at hlead
    exact ⟨_, _, _, rfl, hlead, rfl, trivial, rfl⟩
  · split
    · have hlead := lead?_ofNat (n := v / 64 % 32 + 192) (by omega)
      rw [if_neg (by omega), if_neg (by omega), if_pos (by omega), Nat.add_sub_cancel] at hlead
      refine ⟨_, _, _, rfl, hlead, rfl, follow_tail (by omega) trivial, ?_⟩
      rw [gather_follow _ (by omega)]
      show v / 64 % 32 * 64 + v % 64 = v
      omega
    · split
      · obtain ⟨low, high, hlead, hlow, hhigh⟩ := lead?_three (x := v / 4096 % 16) (y := v / 64 % 64) (by omega)
          (by omega) (by omega) (by omega)
        refine ⟨_, _, _, rfl, hlead, rfl, follow_cons (by omega) hlow hhigh (follow_tail (by omega) trivial), ?_⟩
        rw [gather_follow _ (by omega), gather_follow _ (by omega)]
        show (v / 4096 % 16 * 64 + v / 64 % 64) * 64 + v % 64 = v
        omega
      · obtain ⟨low, high, hlead, hlow, hhigh⟩ := lead?_four (w := v / 262144 % 8) (x := v / 4096 % 64) (by omega)
          (by omega) (by omega) (by omega)
        refine ⟨_, _, _, rfl, hlead, rfl, follow_cons (by omega) hlow hhigh
          (follow_tail (by omega) (follow_tail (by omega) trivial)), ?_⟩
        rw [gather_follow _ (by omega), gather_follow _ (by omega), gather_follow _ (by omega)]
        show ((v / 262144 % 8 * 64 + v / 4096 % 64) * 64 + v / 64 % 64) * 64 + v % 64 = v
        omega

/-- The forms of a first byte. The bounds of the byte behind it shut out overlong forms, surrogates and numbers above
the code space. -/
theorem lead?_cases {b : Byte} {l : Lead} (h : lead? b = some l) :
    (b.toNat = l.bits ∧ l.bits < 0x80 ∧ l.following = 0) ∨
    (b.toNat = l.bits + 192 ∧ 2 ≤ l.bits ∧ l.bits < 32 ∧ l.following = 1 ∧ l.low = 0x80 ∧ l.high = 0xBF) ∨
    (b.toNat = l.bits + 224 ∧ l.bits < 16 ∧ l.following = 2 ∧ 128 ≤ l.low.toNat ∧ l.high.toNat ≤ 191 ∧
      (l.bits = 0 → 160 ≤ l.low.toNat) ∧ (l.bits = 13 → l.high.toNat ≤ 159)) ∨
    (b.toNat = l.bits + 240 ∧ l.bits < 5 ∧ l.following = 3 ∧ 128 ≤ l.low.toNat ∧ l.high.toNat ≤ 191 ∧
      (l.bits = 0 → 144 ≤ l.low.toNat) ∧ (l.bits = 4 → l.high.toNat ≤ 143)) := by
  unfold lead? at h
  dsimp only at h
  repeat' split at h
  all_goals cases h
  all_goals simp
  all_goals omega

theorem Lead.low_le_high {b : Byte} {l : Lead} (h : lead? b = some l) : l.low ≤ l.high := by
  unfold lead? at h
  dsimp only at h
  repeat' split at h
  all_goals cases h
  all_goals dsimp only
  all_goals decide

/-- A first byte with what stands behind it is a character. -/
theorem utf8EncodeChar_gather {b : Byte} {l : Lead} {t : List Byte} (hl : lead? b = some l)
    (ht : Follow l.low l.high t) (hlen : t.length = l.following) :
    String.utf8EncodeChar (Char.ofNat (gather l.bits t)) = b :: t := by
  generalize hv : gather l.bits t = v
  unfold String.utf8EncodeChar
  dsimp only
  rcases lead?_cases hl with ⟨hb, hbits, hn⟩ | ⟨hb, hbits, hbits', hn, hlow, hhigh⟩ |
    ⟨hb, hbits, hn, hlow, hhigh, hlong, hsurrogate⟩ | ⟨hb, hbits, hn, hlow, hhigh, hlong, hspace⟩
  · obtain rfl := List.eq_nil_of_length_eq_zero (hlen.trans hn)
    rw [gather_nil] at hv
    rw [toNat_ofNat_char (.inl (by omega)), if_pos (by omega), ofNat_byte_eq (b := b) (by omega)]
  · obtain ⟨x, rfl⟩ := List.length_eq_one_iff.1 (hlen.trans hn)
    rw [hlow, hhigh] at ht
    have hx := ht.form
    rw [gather_cons, gather_nil] at hv
    rw [toNat_ofNat_char (.inl (by omega)), if_neg (by omega), if_pos (by omega), ofNat_byte_eq (b := b) (by omega),
      ofNat_byte_eq (b := x) (by omega)]
  · obtain ⟨x, y, rfl⟩ := List.length_eq_two.1 (hlen.trans hn)
    have hx := ht.bounds
    have hy := ht.2.form
    rw [gather_cons, gather_cons, gather_nil] at hv
    have hvalid : v < 0xD800 ∨ 0xDFFF < v ∧ v < 0x110000 := by omega
    rw [toNat_ofNat_char hvalid, if_neg (by omega), if_neg (by omega), if_pos (by omega),
      ofNat_byte_eq (b := b) (by omega), ofNat_byte_eq (b := x) (by omega), ofNat_byte_eq (b := y) (by omega)]
  · obtain ⟨x, y, z, rfl⟩ := List.length_eq_three.1 (hlen.trans hn)
    have hx := ht.bounds
    have hy := ht.2.form
    have hz := ht.2.2.form
    rw [gather_cons, gather_cons, gather_cons, gather_nil] at hv
    have hvalid : v < 0xD800 ∨ 0xDFFF < v ∧ v < 0x110000 := by omega
    rw [toNat_ofNat_char hvalid, if_neg (by omega), if_neg (by omega), if_neg (by omega),
      ofNat_byte_eq (b := b) (by omega), ofNat_byte_eq (b := x) (by omega), ofNat_byte_eq (b := y) (by omega),
      ofNat_byte_eq (b := z) (by omega)]

/-! ## Characters and texts -/

/-- The bytes of a character are read as the character, whatever follows them. -/
theorem readAll_utf8EncodeChar (c : Char) (s : List Byte) :
    readAll (String.utf8EncodeChar c ++ s) = some c :: readAll s := by
  obtain ⟨b, t, l, hc, hl, hlen, hfollow, hgather⟩ := exists_lead c
  have hread : readChar b (t ++ s) = (some c, s) := by
    unfold readChar
    rw [hl]
    dsimp only
    rw [← hlen, readFollowing_append hfollow, hgather, Char.ofNat_toNat]
  rw [hc, List.cons_append, readAll, hread]

theorem readAll_encode (s : List Char) : readAll (encode s) = s.map some := by
  induction s with
  | nil => rw [encode, List.flatMap_nil, readAll, List.map_nil]
  | cons c s ih =>
    rw [encode, List.flatMap_cons, readAll_utf8EncodeChar]
    exact congrArg (some c :: ·) ih

/-- Every text is read back from its bytes. -/
theorem decode?_encode (s : List Char) : decode? (encode s) = some s := by
  unfold decode?
  rw [readAll_encode]
  induction s with
  | nil => rfl
  | cons c s ih =>
    rw [List.map_cons, List.mapM_cons, ih]
    rfl

/-! ## What bytes say -/

/-- Bytes that begin a character and are not all of it. -/
def IsBeginning (part : List Byte) : Prop := ∃ c rest, rest ≠ [] ∧ String.utf8EncodeChar c = part ++ rest

/-- What bytes say as a text. Where no character stands, one part that cannot be read is replaced: the longest beginning
of a character, or else a single byte. -/
inductive Says : List Byte → List Char → Prop where
  | nil : Says [] []
  | char (c : Char) {s : List Byte} {t : List Char} (h : Says s t) : Says (String.utf8EncodeChar c ++ s) (c :: t)
  | unreadable {part s : List Byte} {t : List Char} (nonempty : part ≠ [])
      (form : part.length = 1 ∨ IsBeginning part) (char : ∀ c, ¬String.utf8EncodeChar c <+: part ++ s)
      (longest : ∀ p, p <+: part ++ s → IsBeginning p → p.length ≤ part.length) (h : Says s t) :
      Says (part ++ s) ('\uFFFD' :: t)

theorem isBeginning_cons {b : Byte} {p : List Byte} :
    IsBeginning (b :: p) ↔ ∃ l, lead? b = some l ∧ p.length < l.following ∧ Follow l.low l.high p := by
  constructor
  · rintro ⟨c, rest, hrest, hc⟩
    obtain ⟨b', t, l, ht, hl, hlen, hfollow, -⟩ := exists_lead c
    obtain ⟨rfl, rfl⟩ := List.cons.inj (ht.symm.trans hc)
    have hrest' := List.length_pos_iff.2 hrest
    have hsum : p.length + rest.length = l.following := by rw [← List.length_append]; exact hlen
    exact ⟨l, hl, by omega, hfollow.left⟩
  · rintro ⟨l, hl, hlen, hfollow⟩
    obtain ⟨q, hq, hpq, hn⟩ := hfollow.complete (Lead.low_le_high hl) hlen
    exact ⟨_, q, hq, utf8EncodeChar_gather hl hpq hn⟩

/-- Of what cannot be read the longest beginning of a character is taken, or else a single byte. -/
theorem readChar_cases (b : Byte) (s : List Byte) :
    (∃ c r, b :: s = String.utf8EncodeChar c ++ r ∧ readChar b s = (some c, r)) ∨
      ∃ part r, b :: s = part ++ r ∧ readChar b s = (none, r) ∧ part ≠ [] ∧ (part.length = 1 ∨ IsBeginning part) ∧
        ∀ p, p <+: b :: s → IsBeginning p → p.length ≤ part.length := by
  unfold readChar
  rcases hl : lead? b with _ | l
  · refine .inr ⟨[b], s, rfl, rfl, List.cons_ne_nil b [], .inl rfl, fun p hp hbegin => ?_⟩
    rcases p with _ | ⟨x, p⟩
    · exact Nat.zero_le _
    · obtain ⟨rfl, -⟩ := List.cons_prefix_cons.1 hp
      obtain ⟨l, hl', -⟩ := isBeginning_cons.1 hbegin
      cases hl.symm.trans hl'
  · dsimp only
    obtain ⟨q, r, rfl, hfollow, ⟨hlen, hread⟩ | ⟨hlen, hread, hstop⟩⟩ :=
      readFollowing_cases l.low l.high l.bits l.following s
    · exact .inl ⟨_, r, by rw [utf8EncodeChar_gather hl hfollow hlen, List.cons_append], hread⟩
    · refine .inr ⟨b :: q, r, rfl, hread, List.cons_ne_nil b q, .inr (isBeginning_cons.2 ⟨l, hl, hlen, hfollow⟩),
        fun p hp hbegin => ?_⟩
      rcases p with _ | ⟨x, p⟩
      · exact Nat.zero_le _
      · obtain ⟨rfl, hp'⟩ := List.cons_prefix_cons.1 hp
        obtain ⟨l', hl', -, hfollow'⟩ := isBeginning_cons.1 hbegin
        obtain rfl := Option.some.inj (hl.symm.trans hl')
        -- a longer beginning goes on with a byte that can follow
        refine Nat.not_lt.1 fun hlonger => ?_
        rw [List.length_cons, List.length_cons] at hlonger
        obtain ⟨w, rfl⟩ := List.prefix_of_prefix_length_le (List.prefix_append q r) hp' (by omega)
        rcases w with _ | ⟨y, w⟩
        · rw [List.append_nil] at hlonger
          exact Nat.lt_irrefl _ hlonger
        · obtain ⟨later, rfl⟩ := (List.prefix_append_right_inj q).1 hp'
          refine hstop y (w ++ later) rfl (Follow.left (q := w) ?_)
          rw [List.append_assoc]
          exact hfollow'

theorem decodeLossy_char (c : Char) (s : List Byte) :
    decodeLossy (String.utf8EncodeChar c ++ s) = c :: decodeLossy s := by
  unfold decodeLossy
  rw [readAll_utf8EncodeChar, List.map_cons]
  rfl

theorem decodeLossy_unreadable {b : Byte} {s r : List Byte} (h : readChar b s = (none, r)) :
    decodeLossy (b :: s) = '\uFFFD' :: decodeLossy r := by
  unfold decodeLossy
  rw [readAll, h, List.map_cons]
  rfl

theorem not_prefix_of_unreadable {b : Byte} {s r : List Byte} (h : readChar b s = (none, r)) (c : Char) :
    ¬String.utf8EncodeChar c <+: b :: s := by
  rintro ⟨rest, hrest⟩
  have hread := readAll_utf8EncodeChar c rest
  rw [hrest, readAll, h] at hread
  cases hread

theorem says_decodeLossy (s : List Byte) : Says s (decodeLossy s) := by
  induction s using readAll.induct with
  | case1 =>
    unfold decodeLossy
    rw [readAll]
    exact .nil
  | case2 b s ih =>
    rcases readChar_cases b s with ⟨c, r, hs, hread⟩ | ⟨part, r, hs, hread, hne, hform, hlongest⟩
    · rw [hread] at ih
      rw [hs, decodeLossy_char]
      exact .char c ih
    · rw [hread] at ih
      have hchar := not_prefix_of_unreadable hread
      rw [decodeLossy_unreadable hread]
      rw [hs] at hchar hlongest ⊢
      exact .unreadable hne hform hchar hlongest ih

theorem Says.eq {s : List Byte} {t : List Char} (h : Says s t) : t = decodeLossy s := by
  induction h with
  | nil =>
    unfold decodeLossy
    rw [readAll]
    rfl
  | char c _ ih => rw [decodeLossy_char, ih]
  | @unreadable part s t hne hform hchar hlongest _ ih =>
    obtain ⟨b, rest, hbytes⟩ := List.exists_cons_of_ne_nil (List.append_ne_nil_of_left_ne_nil hne s)
    rcases readChar_cases b rest with ⟨c, r, hs, -⟩ | ⟨part', r, hs, hread, hne', hform', hlongest'⟩
    · exact absurd ⟨r, (hbytes.trans hs).symm⟩ (hchar c)
    · -- both parts are the longest
      have heq : part ++ s = part' ++ r := hbytes.trans hs
      have hle : part'.length ≤ part.length := by
        rcases hform' with h1 | hbegin
        · rw [h1]
          exact List.length_pos_iff.2 hne
        · exact hlongest part' ⟨r, heq.symm⟩ hbegin
      have hge : part.length ≤ part'.length := by
        rcases hform with h1 | hbegin
        · rw [h1]
          exact List.length_pos_iff.2 hne'
        · exact hlongest' part ⟨s, hbytes⟩ hbegin
      obtain ⟨-, rfl⟩ := List.append_inj heq (Nat.le_antisymm hge hle)
      rw [hbytes, decodeLossy_unreadable hread, ih]

/-- Bytes are read as the one text that they say. -/
theorem decodeLossy_eq_iff {s : List Byte} {t : List Char} : decodeLossy s = t ↔ Says s t :=
  ⟨fun h => h ▸ says_decodeLossy s, fun h => h.eq.symm⟩

example : decodeLossy [0xE2, 0x82, 0x41, 0x80] = ['\uFFFD', 'A', '\uFFFD'] := by cbv

/-! ## ASCII -/

/-- A character of ASCII is one byte, and the bytes of any other one lie above ASCII. -/
theorem utf8EncodeChar_cases (c : Char) :
    (c.toNat < 128 ∧ String.utf8EncodeChar c = [UInt8.ofNat c.toNat]) ∨
      (128 ≤ c.toNat ∧ ∃ b bytes, String.utf8EncodeChar c = b :: bytes ∧ ∀ x ∈ b :: bytes, 128 ≤ x.toNat) := by
  have hvalid : c.toNat < 0x110000 := by
    have h : c.val.toNat < 0xD800 ∨ 0xDFFF < c.val.toNat ∧ c.val.toNat < 0x110000 := c.valid
    change c.val.toNat < _
    omega
  unfold String.utf8EncodeChar
  change c.val.toNat < _ at hvalid
  change (c.val.toNat < _ ∧ _) ∨ 128 ≤ c.val.toNat ∧ _
  change (_ ∧ _ = [UInt8.ofNat c.val.toNat]) ∨ _
  generalize c.val.toNat = v at hvalid
  dsimp only
  split
  · exact .inl ⟨by omega, rfl⟩
  · right
    refine ⟨by omega, ?_⟩
    split
    · refine ⟨_, _, rfl, ?_⟩
      simp only [List.forall_mem_cons, List.not_mem_nil, false_imp_iff, implies_true, and_true]
      rw [toNat_ofNat_byte (by omega), toNat_ofNat_byte (by omega)]
      omega
    · split
      · refine ⟨_, _, rfl, ?_⟩
        simp only [List.forall_mem_cons, List.not_mem_nil, false_imp_iff, implies_true, and_true]
        rw [toNat_ofNat_byte (by omega), toNat_ofNat_byte (by omega), toNat_ofNat_byte (by omega)]
        omega
      · refine ⟨_, _, rfl, ?_⟩
        simp only [List.forall_mem_cons, List.not_mem_nil, false_imp_iff, implies_true, and_true]
        rw [toNat_ofNat_byte (by omega), toNat_ofNat_byte (by omega), toNat_ofNat_byte (by omega),
          toNat_ofNat_byte (by omega)]
        omega

theorem encode_eq_nil_iff {s : List Char} : encode s = [] ↔ s = [] := by
  rcases s with _ | ⟨c, s⟩
  · exact iff_of_true rfl rfl
  · refine iff_of_false ?_ (List.cons_ne_nil c s)
    rw [encode, List.flatMap_cons, List.append_eq_nil_iff]
    rintro ⟨hc, -⟩
    rcases utf8EncodeChar_cases c with ⟨-, hbytes⟩ | ⟨-, b, bytes, hbytes, -⟩
    · rw [hbytes] at hc
      cases hc
    · rw [hbytes] at hc
      cases hc

end SharedSheet.Text
