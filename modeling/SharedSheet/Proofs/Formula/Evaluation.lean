/-
The two stacks compute the value of the tree. Reading a phrase of the grammar from any stacks has the effect of
computing its tree and pushing the value, errors included and in the order in which they come up
(`Derives.foldlM_step`); so a parsed formula has one tree, and its value is that of the tree, for every
arithmetic (`evaluate_parsed`).

An atom goes through `operand`, which multiplies at once if a product waits; a product begins where none waits,
and leaves its value; a sum begins where nothing waits inside its parentheses, and its last operation may be left
waiting, for whatever follows it to compute.
-/
import SharedSheet.Proofs.Formula.Canonical
import SharedSheet.Proofs.Formula.Grammar

namespace SharedSheet.Formula

universe u

variable {ν : Type u}

/-! ## The value of a tree -/

/-- The value of a tree: operands from left to right, then the operation. A cell without a value and a division
by zero are errors. -/
def Expr.value (a : Arithmetic ν) (lookup : CellName → Option ν) : Expr ν → Except EvalError ν
  | .number x => .ok x
  | .cell name =>
    match lookup name with
    | some v => .ok v
    | none => .error (.undefinedCell name)
  | .binary o left right => do
    let x ← left.value a lookup
    let y ← right.value a lookup
    match o with
    | .add => .ok (a.add x y)
    | .sub => .ok (a.sub x y)
    | .mul => .ok (a.mul x y)
    | .div => if a.isZero y then .error .divisionByZero else .ok (a.div x y)

variable {a : Arithmetic ν} {lookup : CellName → Option ν}

theorem Expr.value_binary (o : BinOp) (l r : Expr ν) :
    (Expr.binary o l r).value a lookup = l.value a lookup >>= fun x => r.value a lookup >>= a.apply o x := by
  rw [Expr.value]
  cases o <;> rfl

/-- A tree always has a value or one of the two errors. -/
theorem Expr.value_ne_malformed (e : Expr ν) : e.value a lookup ≠ .error .malformed := by
  induction e with
  | number x => simp [Expr.value]
  | cell name =>
    rw [Expr.value]
    split <;> simp
  | binary o l r ihl ihr =>
    rw [Expr.value_binary]
    rcases hl : l.value a lookup with el | x
    · rw [hl] at ihl
      exact ihl
    · rcases hr : r.value a lookup with er | y
      · rw [hr] at ihr
        exact ihr
      · show a.apply o x y ≠ _
        unfold Arithmetic.apply
        split
        · simp
        · simp
        · simp
        · split <;> simp

/-! ## Steps -/

theorem BinOp.isProduct_of_isSum {o : BinOp} (h : o.isSum = true) : o.isProduct = false := by
  simp [BinOp.isProduct, h]

theorem BinOp.isSum_of_isProduct {o : BinOp} (h : o.isProduct = true) : o.isSum = false := by
  simpa [BinOp.isProduct] using h

namespace Stacks

/-- The stacks with one more value. -/
def push (s : Stacks ν) (v : ν) : Stacks ν := { s with values := v :: s.values }

/-- No operator that satisfies `p` waits on top. -/
def Rests (s : Stacks ν) (p : BinOp → Bool) : Prop := ∀ o, s.pending.head? = some (.op o) → p o = false

theorem reduceIf_of_rests {s : Stacks ν} {p : BinOp → Bool} (h : s.Rests p) : s.reduceIf a p = .ok s := by
  unfold reduceIf
  split
  · rename_i o pending hp
    rw [if_neg]
    rw [h o (by rw [hp]; rfl)]
    simp
  · rfl

theorem operand_of_rests {s : Stacks ν} (h : s.Rests BinOp.isProduct) (v : ν) : s.operand a v = .ok (s.push v) :=
  reduceIf_of_rests (s := s.push v) h

/-- What waits on top is computed with the value below and the value pushed. -/
theorem reduceIf_wait {s : Stacks ν} {p : BinOp → Bool} {o : BinOp} (ho : p o = true) (x y : ν) :
    (((s.push x).wait (.op o)).push y).reduceIf a p = a.apply o x y >>= fun v => .ok (s.push v) := by
  show (if p o then _ else _) = _
  rw [if_pos ho]
  rfl

theorem step_sum {s : Stacks ν} {o : BinOp} (ho : o.isSum = true) :
    s.step a lookup (.op o) = s.reduceIf a BinOp.isSum >>= fun s => .ok (s.wait (.op o)) := by
  show (if o.isSum then _ else _) = _
  rw [if_pos ho]
  cases s.reduceIf a BinOp.isSum <;> rfl

theorem step_product {s : Stacks ν} {o : BinOp} (ho : o.isProduct = true) :
    s.step a lookup (.op o) = .ok (s.wait (.op o)) := by
  show (if o.isSum then _ else _) = _
  rw [if_neg (by simp [BinOp.isSum_of_isProduct ho])]

theorem step_closing (s : Stacks ν) :
    s.step a lookup .closing = s.reduceIf a BinOp.isSum >>= fun s =>
      match s.pending with
      | .opening :: pending => reduceIf a BinOp.isProduct { s with pending }
      | _ => .error .malformed := rfl

end Stacks

/-! ## Reading a phrase -/

open Stacks

/-- The effect of the tokens of a phrase on stacks that are ready for it, when `value` is that of its tree. -/
def Computes (a : Arithmetic ν) (lookup : CellName → Option ν) (ts : List (Token ν)) (value : Except EvalError ν) :
    Phrase → Prop
  | .atom => ∀ s, ts.foldlM (step a lookup) s = value >>= fun v => s.operand a v
  | .product => ∀ s, s.Rests BinOp.isProduct → ts.foldlM (step a lookup) s = value >>= fun v => .ok (s.push v)
  | .sum => ∀ s, s.Rests (fun _ => true) →
      ts.foldlM (step a lookup) s >>= reduceIf a BinOp.isSum = value >>= fun v => .ok (s.push v)

theorem ok_bind {ε : Type} {α β : Type u} (x : α) (f : α → Except ε β) : (Except.ok x >>= f) = f x := rfl

theorem Derives.foldlM_step {q : Phrase} {ts : List (Token ν)} {e : Expr ν} (h : Derives q ts e) (a : Arithmetic ν)
    (lookup : CellName → Option ν) : Computes a lookup ts (e.value a lookup) q := by
  induction h with
  | number x =>
    intro s
    rw [List.foldlM_cons, Expr.value, ok_bind]
    exact bind_pure _
  | cell name =>
    intro s
    rw [List.foldlM_cons, Expr.value, step]
    cases lookup name with
    | none => rfl
    | some v => exact bind_pure _
  | @parens ts e _ ih =>
    intro s
    -- the formula inside starts above the parenthesis, and the closing one computes what it left waiting
    have hinner := ih (s.wait .opening) (by rintro o ⟨⟩)
    rw [List.foldlM_cons, step, ok_bind, List.foldlM_append]
    simp only [List.foldlM_cons, List.foldlM_nil, bind_pure, step_closing]
    rw [← bind_assoc, hinner, bind_assoc]
    rfl
  | ofAtom _ ih =>
    intro s hs
    rw [ih s]
    simp only [operand_of_rests hs]
  | @product o ls rs l r kind _ _ ihl ihr =>
    intro s hs
    have hwait : ∀ x y, (((s.push x).wait (.op o)).operand a y) = a.apply o x y >>= fun v => .ok (s.push v) :=
      fun x y => reduceIf_wait kind x y
    rw [List.foldlM_append, ihl s hs, Expr.value_binary]
    simp only [List.foldlM_cons, bind_assoc, ok_bind, step_product kind, ihr _, hwait]
  | @ofProduct ts e _ ih =>
    intro s hs
    have hrests : ∀ v, (s.push v).reduceIf a BinOp.isSum = .ok (s.push v) := fun v =>
      reduceIf_of_rests fun o ho => absurd (hs o ho) (by simp)
    rw [ih s fun o ho => absurd (hs o ho) (by simp)]
    simp only [bind_assoc, ok_bind, hrests]
  | @sum o ls rs l r kind _ _ ihl ihr =>
    intro s hs
    -- the new operator computes the sum on its left; its own waits for what follows the product on its right
    have hright : ∀ x, rs.foldlM (step a lookup) ((s.push x).wait (.op o)) =
        r.value a lookup >>= fun y => .ok (((s.push x).wait (.op o)).push y) := by
      intro x
      refine ihr _ ?_
      rintro _ ⟨⟩
      exact BinOp.isProduct_of_isSum kind
    rw [List.foldlM_append, Expr.value_binary]
    simp only [List.foldlM_cons, step_sum kind]
    rw [bind_assoc]
    simp only [bind_assoc, ok_bind]
    rw [← bind_assoc, ihl s hs]
    simp only [bind_assoc, ok_bind, hright, reduceIf_wait kind]

/-- The value of a formula is that of its tree. -/
theorem Derives.evaluate_eq {ts : List (Token ν)} {e : Expr ν} (h : Derives .sum ts e) (a : Arithmetic ν)
    (lookup : CellName → Option ν) : evaluate a lookup ts = e.value a lookup := by
  have hread := h.foldlM_step a lookup Stacks.empty (by rintro o ⟨⟩)
  unfold evaluate Stacks.finish
  rw [← bind_assoc, hread, bind_assoc]
  exact bind_pure _

/-! ## One tree -/

/-- The tokens with their numbers changed. -/
def Token.map {μ : Type u} (f : ν → μ) : Token ν → Token μ
  | .op o => .op o
  | .opening => .opening
  | .closing => .closing
  | .cell name => .cell name
  | .number x => .number (f x)

def Expr.map {μ : Type u} (f : ν → μ) : Expr ν → Expr μ
  | .number x => .number (f x)
  | .cell name => .cell name
  | .binary o l r => .binary o (l.map f) (r.map f)

theorem Derives.map {μ : Type u} (f : ν → μ) {q : Phrase} {ts : List (Token ν)} {e : Expr ν} (h : Derives q ts e) :
    Derives q (ts.map (Token.map f)) (e.map f) := by
  induction h with
  | number x => exact .number (f x)
  | cell name => exact .cell name
  | parens _ ih =>
    rw [List.map_cons, List.map_append]
    exact .parens ih
  | ofAtom _ ih => exact .ofAtom ih
  | ofProduct _ ih => exact .ofProduct ih
  | product kind _ _ ihl ihr =>
    rw [List.map_append]
    exact .product kind ihl ihr
  | sum kind _ _ ihl ihr =>
    rw [List.map_append]
    exact .sum kind ihl ihr

/-- The arithmetic whose numbers are trees, and whose operations build them. -/
def Arithmetic.trees : Arithmetic (Expr ν) :=
  ⟨.binary .add, .binary .sub, .binary .mul, .binary .div, fun _ => false⟩

theorem Expr.value_trees (e : Expr ν) : (e.map Expr.number).value Arithmetic.trees (some ∘ Expr.cell) = .ok e := by
  induction e with
  | number x => rfl
  | cell name => rfl
  | binary o l r ihl ihr =>
    rw [Expr.map, Expr.value_binary, ihl, ok_bind, ihr, ok_bind]
    cases o <;> rfl

/-- A formula has one tree: the two stacks find it, as its value in the arithmetic of trees. -/
theorem Derives.unique {ts : List (Token ν)} {e e' : Expr ν} (h : Derives .sum ts e) (h' : Derives .sum ts e') :
    e = e' := by
  have hv := (h.map Expr.number).evaluate_eq Arithmetic.trees (some ∘ Expr.cell)
  rw [(h'.map Expr.number).evaluate_eq, Expr.value_trees, Expr.value_trees] at hv
  exact (Except.ok.inj hv).symm

/-! ## References -/

theorem mem_references {f : Formula} {r : CellName} : r ∈ f.references ↔ .cell r ∈ f.tokens := by
  unfold references
  rw [List.mem_eraseDups, List.mem_filterMap]
  constructor
  · rintro ⟨t, ht, hr⟩
    split at hr
    · cases hr
      exact ht
    · cases hr
  · intro h
    exact ⟨_, h, rfl⟩

/-- Evaluation asks for the values of the cells among the tokens only. -/
theorem evaluate_congr {lookup lookup' : CellName → Option ν} {ts : List (Token ν)}
    (h : ∀ r, .cell r ∈ ts → lookup r = lookup' r) : evaluate a lookup ts = evaluate a lookup' ts := by
  have hread : ∀ s, ts.foldlM (Stacks.step a lookup) s = ts.foldlM (Stacks.step a lookup') s := by
    induction ts with
    | nil => exact fun _ => rfl
    | cons t ts ih =>
      intro s
      have ht : s.step a lookup t = s.step a lookup' t := by
        rcases t with o | _ | _ | r | x
        · rfl
        · rfl
        · rfl
        · rw [step, step, h r List.mem_cons_self]
        · rfl
      rw [List.foldlM_cons, List.foldlM_cons, ht]
      simp only [ih fun r hr => h r (List.mem_cons_of_mem _ hr)]
  unfold evaluate
  rw [hread]

/-- A cell without a value is the error, unless one came up before it. -/
theorem evaluate_undefined {ts us : List (Token ν)} {r : CellName} {s : Stacks ν}
    (hread : ts.foldlM (step a lookup) Stacks.empty = .ok s) (hr : lookup r = none) :
    evaluate a lookup (ts ++ .cell r :: us) = .error (.undefinedCell r) := by
  unfold evaluate
  rw [List.foldlM_append, hread, ok_bind, List.foldlM_cons, step, hr]
  rfl

/-- A formula with a value has values for all its cells. -/
theorem exists_of_evaluate {ts : List (Token ν)} {v : ν} (h : evaluate a lookup ts = .ok v) {r : CellName}
    (hr : .cell r ∈ ts) : ∃ x, lookup r = some x := by
  obtain ⟨us, vs, rfl⟩ := List.append_of_mem hr
  unfold evaluate at h
  rw [List.foldlM_append] at h
  rcases hus : us.foldlM (step a lookup) Stacks.empty with e | s
  · rw [hus] at h
    cases h
  · rw [hus, ok_bind, List.foldlM_cons, step] at h
    rcases hl : lookup r with _ | x
    · rw [hl] at h
      cases h
    · exact ⟨x, rfl⟩

theorem value_congr {f : Formula} {lookup lookup' : CellName → Option Float}
    (h : ∀ r ∈ f.references, lookup r = lookup' r) : f.value lookup = f.value lookup' := by
  unfold Formula.value
  rw [evaluate_congr fun r hr => h r (mem_references.2 hr)]

theorem exists_of_value {f : Formula} {lookup : CellName → Option Float} {v : Float} (h : f.value lookup = .ok v)
    {r : CellName} (hr : r ∈ f.references) : ∃ x, lookup r = some x := by
  unfold Formula.value at h
  rcases he : evaluate Arithmetic.double lookup f.tokens with e | x
  · rw [he] at h
    cases h
  · exact exists_of_evaluate he (mem_references.1 hr)

/-- A formula is never found malformed when its value is computed. -/
theorem value_ne_parse {f : Formula} {lookup : CellName → Option Float} {e : ParseError} :
    f.value lookup ≠ .error (.parse e) := by
  obtain ⟨tree, htree⟩ := validate_eq_ok_iff.1 f.wellShaped
  unfold Formula.value
  rw [htree.evaluate_eq]
  intro h
  rcases hv : tree.value Arithmetic.double lookup with fault | x
  · rw [hv] at h
    rcases fault with _ | _ | name
    · exact tree.value_ne_malformed hv
    · cases h
    · cases h
  · rw [hv] at h
    cases h

end SharedSheet.Formula
