/-
The grammar of formulas. A sum is a product, or a sum, `+` or `-`, and a product; a product is an atom, or a product,
`*` or `/`, and an atom; an atom is a number, a cell, or a sum in parentheses. Every phrase stands for a tree
(`Derives`). The check of the shape accepts exactly the sums of this grammar (`validate_eq_ok_iff`). They are also the
expressions of a simpler grammar, in which all operators have one rank (`Generates`).

The check reads tokens with nothing but a position and a depth, so what it accepts inside parentheses is the rest of
several phrases at once: `Completes` says what such a rest does for the phrase read so far.
-/
import Mathlib.Data.List.Basic
import SharedSheet.Formula.Shape

namespace SharedSheet.Formula

universe u

/-- Formulas as trees. -/
inductive Expr (ν : Type u) where
  | number (x : ν)
  | cell (name : CellName)
  | binary (o : BinOp) (left right : Expr ν)

/-- The phrases of the grammar. -/
inductive Phrase where
  | atom
  | product
  | sum

variable {ν : Type u}

/-- The grammar, each phrase with its tree. Operators of one kind are grouped from the left, because only the
left side of an operator may be a phrase of its kind. -/
inductive Derives : Phrase → List (Token ν) → Expr ν → Prop
  | number (x : ν) : Derives .atom [.number x] (.number x)
  | cell (name : CellName) : Derives .atom [.cell name] (.cell name)
  | parens {ts : List (Token ν)} {e : Expr ν} (inner : Derives .sum ts e) :
      Derives .atom (.opening :: (ts ++ [.closing])) e
  | ofAtom {ts : List (Token ν)} {e : Expr ν} (atom : Derives .atom ts e) : Derives .product ts e
  | product {o : BinOp} {ls rs : List (Token ν)} {l r : Expr ν} (kind : o.isProduct = true)
      (left : Derives .product ls l) (right : Derives .atom rs r) :
      Derives .product (ls ++ .op o :: rs) (.binary o l r)
  | ofProduct {ts : List (Token ν)} {e : Expr ν} (product : Derives .product ts e) : Derives .sum ts e
  | sum {o : BinOp} {ls rs : List (Token ν)} {l r : Expr ν} (kind : o.isSum = true)
      (left : Derives .sum ls l) (right : Derives .product rs r) : Derives .sum (ls ++ .op o :: rs) (.binary o l r)

/-! ## Reading on -/

/-- A formula, an operator and an atom are a formula again. A product operator takes in the last product
only, so the tree is not the one of the two parts side by side. -/
theorem Derives.snoc {ls rs : List (Token ν)} {l r : Expr ν} (hl : Derives .sum ls l) (o : BinOp)
    (hr : Derives .atom rs r) : ∃ e, Derives .sum (ls ++ .op o :: rs) e := by
  by_cases ho : o.isSum = true
  · exact ⟨_, .sum ho hl (.ofAtom hr)⟩
  · have hp : o.isProduct = true := by simp [BinOp.isProduct, ho]
    cases hl with
    | ofProduct hl => exact ⟨_, .ofProduct (.product hp hl hr)⟩
    | sum hk hl hm =>
      rw [List.append_assoc]
      exact ⟨_, .sum hk hl (.product hp hm hr)⟩

/-- What may stand before an operand, inside one pair of parentheses: nothing, or a formula and an operator. -/
def Awaits (ls : List (Token ν)) : Prop :=
  ls = [] ∨ ∃ ms e o, ls = ms ++ [.op o] ∧ Derives .sum ms e

theorem Awaits.atom {ls rs : List (Token ν)} {r : Expr ν} (h : Awaits ls) (hr : Derives .atom rs r) :
    ∃ e, Derives .sum (ls ++ rs) e := by
  obtain rfl | ⟨ms, e, o, rfl, hm⟩ := h
  · exact ⟨r, .ofProduct (.ofAtom hr)⟩
  · rw [List.append_assoc]
    exact hm.snoc o hr

/-- Behind `ls`, inside `depth` open parentheses, the tokens `ts` complete the formula that `ls` begins. Each
closing parenthesis ends a formula, and what follows it completes whatever formula the pair belongs to. -/
def Completes : Nat → List (Token ν) → List (Token ν) → Prop
  | 0, ls, ts => ∃ e, Derives .sum (ls ++ ts) e
  | depth + 1, ls, ts => ∃ us rest, ts = us ++ .closing :: rest ∧ (∃ e, Derives .sum (ls ++ us) e) ∧
      ∀ ms e, Derives .sum ms e → Completes depth ms rest

/-- Tokens may be counted to what was read or to what is to come. -/
theorem Completes.shift {depth : Nat} {ls ts : List (Token ν)} (us : List (Token ν)) (h : Completes depth (ls ++ us) ts) :
    Completes depth ls (us ++ ts) := by
  cases depth with
  | zero =>
    obtain ⟨e, he⟩ := h
    rw [List.append_assoc] at he
    exact ⟨e, he⟩
  | succ depth =>
    obtain ⟨vs, rest, rfl, ⟨e, he⟩, hrest⟩ := h
    rw [List.append_assoc] at he
    exact ⟨us ++ vs, rest, (List.append_assoc ..).symm, ⟨e, he⟩, hrest⟩

/-! ## The check -/

/-- One token of an accepted sequence, with the places before and behind it. -/
inductive Move : Position → Nat → Token ν → Position → Nat → Prop
  | op (o : BinOp) (depth : Nat) : Move .afterOperand depth (.op o) .afterOperator depth
  | opening {p : Position} (depth : Nat) (place : p ≠ .afterOperand) : Move p depth .opening .afterOperator (depth + 1)
  | closing {p : Position} (depth : Nat) (place : p ≠ .afterOperator) : Move p (depth + 1) .closing .afterOperand depth
  | cell {p : Position} (name : CellName) (depth : Nat) (place : p ≠ .afterOperand) :
      Move p depth (.cell name) .afterOperand depth
  | number {p : Position} (x : ν) (depth : Nat) (place : p ≠ .afterOperand) : Move p depth (.number x) .afterOperand depth

theorem exists_move_of_checkFrom {p : Position} {depth : Nat} {t : Token ν} {ts : List (Token ν)}
    (h : checkFrom p depth (t :: ts) = .ok ()) :
    ∃ p' depth', Move p depth t p' depth' ∧ checkFrom p' depth' ts = .ok () := by
  have hne : ∀ {e : ShapeError ν}, Except.error e ≠ .ok () := by simp
  rcases t with o | _ | _ | name | x <;> unfold checkFrom at h
  · rcases p with _ | _ | _
    · exact absurd h hne
    · exact absurd h hne
    · exact ⟨_, _, .op o depth, h⟩
  · split at h
    · exact absurd h hne
    · exact ⟨_, _, .opening depth ‹_›, h⟩
  · split at h
    · exact absurd h hne
    · rcases depth with _ | depth
      · exact absurd h hne
      · exact ⟨_, _, .closing depth ‹_›, h⟩
  · split at h
    · exact absurd h hne
    · exact ⟨_, _, .cell name depth ‹_›, h⟩
  · split at h
    · exact absurd h hne
    · exact ⟨_, _, .number x depth ‹_›, h⟩

theorem eq_of_checkFrom_nil {p : Position} {depth : Nat} (h : checkFrom p depth ([] : List (Token ν)) = .ok ()) :
    p = .afterOperand ∧ depth = 0 := by
  unfold checkFrom at h
  split at h
  · cases h
  · split at h
    · cases h
    · exact ⟨not_not.1 ‹_›, not_not.1 ‹_›⟩

/-- What may stand before a place of the check: a formula before an operator, what awaits an operand before an
operand. -/
def Fits : Position → List (Token ν) → Prop
  | .afterOperand, ls => ∃ e, Derives .sum ls e
  | _, ls => Awaits ls

theorem fits_iff_awaits {p : Position} (hp : p ≠ .afterOperand) {ls : List (Token ν)} : Fits p ls ↔ Awaits ls := by
  cases p with
  | afterOperand => exact absurd rfl hp
  | _ => rfl

/-- Tokens that pass the check complete a formula. The start is no place inside parentheses. -/
theorem completes_of_checkFrom {p : Position} {depth : Nat} {ts : List (Token ν)} (hstart : p = .start → depth = 0)
    (h : checkFrom p depth ts = .ok ()) : ∀ ls, Fits p ls → Completes depth ls ts := by
  induction ts generalizing p depth with
  | nil =>
    obtain ⟨rfl, rfl⟩ := eq_of_checkFrom_nil h
    rintro ls ⟨e, hl⟩
    exact ⟨e, by rwa [List.append_nil]⟩
  | cons t ts ih =>
    intro ls hls
    obtain ⟨p', depth', hmove, h⟩ := exists_move_of_checkFrom h
    cases hmove with
    | op o =>
      obtain ⟨e, hl⟩ := hls
      exact Completes.shift [.op o] (ih (by simp) h _ (.inr ⟨ls, e, o, rfl, hl⟩))
    | opening _ hp =>
      -- inside, a formula begins with nothing; once it is closed, the pair is an atom of the formula outside
      obtain ⟨us, rest, rfl, ⟨e, he⟩, hrest⟩ := ih (by simp) h [] (.inl rfl)
      obtain ⟨e', he'⟩ := ((fits_iff_awaits hp).1 hls).atom (.parens he)
      have hc := Completes.shift _ (hrest _ _ he')
      simpa using hc
    | closing depth hp =>
      rcases p with _ | _ | _
      · cases hstart rfl
      · exact absurd rfl hp
      · obtain ⟨e, hl⟩ := hls
        exact ⟨[], ts, rfl, ⟨e, by rwa [List.append_nil]⟩, fun ms e' hm => ih (by simp) h ms ⟨e', hm⟩⟩
    | cell name _ hp =>
      have hl := ((fits_iff_awaits hp).1 hls).atom (.cell name)
      exact Completes.shift [.cell name] (ih (by simp) h _ hl)
    | number x _ hp =>
      have hl := ((fits_iff_awaits hp).1 hls).atom (.number x)
      exact Completes.shift [.number x] (ih (by simp) h _ hl)

/-! ## The other way -/

/-- A phrase takes the check from before an operand to behind one, at any depth. -/
theorem Derives.checkFrom_append {q : Phrase} {ts : List (Token ν)} {e : Expr ν} (h : Derives q ts e) {p : Position}
    (hp : p ≠ .afterOperand) (depth : Nat) (rest : List (Token ν)) :
    checkFrom p depth (ts ++ rest) = checkFrom .afterOperand depth rest := by
  induction h generalizing p depth rest with
  | number x => rw [List.cons_append, checkFrom, if_neg hp, List.nil_append]
  | cell name => rw [List.cons_append, checkFrom, if_neg hp, List.nil_append]
  | parens _ ih =>
    rw [List.cons_append, checkFrom, if_neg hp, List.append_assoc, ih (by simp), List.cons_append, checkFrom,
      if_neg (by simp), List.nil_append]
  | ofAtom _ ih => exact ih hp depth rest
  | ofProduct _ ih => exact ih hp depth rest
  | product _ _ _ ihl ihr =>
    rw [List.append_assoc, ihl hp, List.cons_append, checkFrom]
    exact ihr (by simp) depth rest
  | sum _ _ _ ihl ihr =>
    rw [List.append_assoc, ihl hp, List.cons_append, checkFrom]
    exact ihr (by simp) depth rest

theorem Derives.ne_nil {q : Phrase} {ts : List (Token ν)} {e : Expr ν} (h : Derives q ts e) : ts ≠ [] := by
  induction h with
  | ofAtom _ ih => exact ih
  | ofProduct _ ih => exact ih
  | _ => simp

/-- The check accepts exactly the formulas of the grammar. -/
theorem validate_eq_ok_iff {ts : List (Token ν)} : validate ts = .ok () ↔ ∃ e, Derives .sum ts e := by
  unfold validate
  constructor
  · intro h
    split at h
    · cases h
    · exact completes_of_checkFrom (fun _ => rfl) h [] (.inl rfl)
  · rintro ⟨e, h⟩
    rw [if_neg (by simpa using h.ne_nil)]
    have hcheck := h.checkFrom_append (p := .start) (by simp) 0 []
    rwa [List.append_nil] at hcheck

/-! ## Operators of one rank -/

/-- The phrases of the grammar in which all operators have one rank. -/
inductive FlatPhrase where
  | term
  | expression

/-- The grammar in which all operators have one rank: an expression is a term, or an expression, an operator and a
term; a term is a number, a cell, or an expression in parentheses. -/
inductive Generates : FlatPhrase → List (Token ν) → Prop
  | number (x : ν) : Generates .term [.number x]
  | cell (name : CellName) : Generates .term [.cell name]
  | parens {ts : List (Token ν)} (inner : Generates .expression ts) : Generates .term (.opening :: (ts ++ [.closing]))
  | ofTerm {ts : List (Token ν)} (term : Generates .term ts) : Generates .expression ts
  | operation {ls rs : List (Token ν)} (o : BinOp) (left : Generates .expression ls) (right : Generates .term rs) :
      Generates .expression (ls ++ .op o :: rs)

/-- The phrase of the simpler grammar that has the same form. -/
def Phrase.flat : Phrase → FlatPhrase
  | .atom => .term
  | .product | .sum => .expression

/-- The widest phrase of the grammar with ranks that has the same form. -/
def FlatPhrase.ranked : FlatPhrase → Phrase
  | .term => .atom
  | .expression => .sum

/-- The right side of an operator may be an expression too: its terms are taken in one by one. -/
theorem Generates.append {ls rs : List (Token ν)} (hl : Generates .expression ls) (o : BinOp)
    (hr : Generates .expression rs) : Generates .expression (ls ++ .op o :: rs) := by
  generalize hq : FlatPhrase.expression = q at hr
  induction hr with
  | number x => cases hq
  | cell name => cases hq
  | parens _ _ => cases hq
  | ofTerm hr _ => exact .operation o hl hr
  | operation o' _ hr ih =>
    have h := Generates.operation o' (ih rfl) hr
    rwa [List.append_assoc] at h

theorem Derives.generates {q : Phrase} {ts : List (Token ν)} {e : Expr ν} (h : Derives q ts e) :
    Generates q.flat ts := by
  induction h with
  | number x => exact .number x
  | cell name => exact .cell name
  | parens _ ih => exact .parens ih
  | ofAtom _ ih => exact .ofTerm ih
  | ofProduct _ ih => exact ih
  | product _ _ _ ihl ihr => exact .operation _ ihl ihr
  | sum _ _ _ ihl ihr => exact ihl.append _ ihr

theorem Generates.exists_derives {q : FlatPhrase} {ts : List (Token ν)} (h : Generates q ts) :
    ∃ e, Derives q.ranked ts e := by
  induction h with
  | number x => exact ⟨_, .number x⟩
  | cell name => exact ⟨_, .cell name⟩
  | parens _ ih =>
    obtain ⟨e, he⟩ := ih
    exact ⟨e, .parens he⟩
  | ofTerm _ ih =>
    obtain ⟨e, he⟩ := ih
    exact ⟨e, .ofProduct (.ofAtom he)⟩
  | operation o _ _ ihl ihr =>
    obtain ⟨l, hl⟩ := ihl
    obtain ⟨r, hr⟩ := ihr
    exact hl.snoc o hr

/-- The check accepts exactly the expressions of the grammar in which all operators have one rank. -/
theorem validate_iff_generates (ts : List (Token ν)) : validate ts = .ok () ↔ Generates .expression ts := by
  rw [validate_eq_ok_iff]
  constructor
  · rintro ⟨e, he⟩
    exact he.generates
  · exact Generates.exists_derives

end SharedSheet.Formula
