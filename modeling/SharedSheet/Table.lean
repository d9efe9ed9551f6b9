/-
Finite maps listed by key. The entries of a `Table` stand in strictly ascending key order, and the
type says so: two tables with the same lookups are equal, and a listing never depends on the order
of the insertions. A set of keys is a table of units.
-/

namespace SharedSheet

open Std

universe u v

/-- A finite map from `κ` to `β`, its entries strictly ascending by key. -/
structure Table (κ : Type u) (β : Type v) [Ord κ] where
  entries : List (κ × β)
  ascending : entries.Pairwise fun a b => compare a.1 b.1 = .lt

namespace Table

variable {κ : Type u} {β : Type v} {γ : Type v} [Ord κ]

@[ext]
theorem ext {s t : Table κ β} (h : s.entries = t.entries) : s = t := by
  cases s; cases t; cases h; rfl

instance [DecidableEq κ] [DecidableEq β] : DecidableEq (Table κ β) := fun s t =>
  decidable_of_iff (s.entries = t.entries) ⟨ext, fun h => h ▸ rfl⟩

/-- The map without entries. -/
def empty : Table κ β := ⟨[], .nil⟩

instance : Inhabited (Table κ β) := ⟨empty⟩

/-- The keys, ascending. -/
def keys (t : Table κ β) : List κ := t.entries.map (·.1)

/-- The values, by ascending key. -/
def values (t : Table κ β) : List β := t.entries.map (·.2)

def size (t : Table κ β) : Nat := t.entries.length

def isEmpty (t : Table κ β) : Bool := t.entries.isEmpty

/-- The value at a key. -/
def get? (t : Table κ β) (k : κ) : Option β :=
  (t.entries.find? fun e => compare e.1 k == .eq).map (·.2)

def contains (t : Table κ β) (k : κ) : Bool := (t.get? k).isSome

/-! ## Insertion -/

/-- Puts an entry at its place, over an entry with the same key. -/
def place (k : κ) (v : β) : List (κ × β) → List (κ × β)
  | [] => [(k, v)]
  | e :: es =>
    match compare k e.1 with
    | .lt => (k, v) :: e :: es
    | .eq => (k, v) :: es
    | .gt => e :: place k v es

theorem mem_place {k : κ} {v : β} {e : κ × β} {es : List (κ × β)} (h : e ∈ place k v es) :
    e = (k, v) ∨ e ∈ es := by
  induction es with
  | nil => simpa [place] using h
  | cons d es ih =>
    rw [place] at h
    split at h
    · simpa using h
    · rcases List.mem_cons.1 h with rfl | h
      · exact .inl rfl
      · exact .inr (List.mem_cons_of_mem _ h)
    · rcases List.mem_cons.1 h with rfl | h
      · exact .inr List.mem_cons_self
      · exact (ih h).imp_right (List.mem_cons_of_mem _)

theorem place_ascending [TransOrd κ] (k : κ) (v : β) {es : List (κ × β)}
    (h : es.Pairwise fun a b => compare a.1 b.1 = .lt) :
    (place k v es).Pairwise fun a b => compare a.1 b.1 = .lt := by
  induction es with
  | nil => simp [place]
  | cons d es ih =>
    obtain ⟨hd, hes⟩ := List.pairwise_cons.1 h
    rw [place]
    split
    · rename_i hlt
      refine List.pairwise_cons.2 ⟨fun e he => ?_, h⟩
      rcases List.mem_cons.1 he with rfl | he
      · exact hlt
      · exact TransCmp.lt_trans hlt (hd e he)
    · rename_i heq
      exact List.pairwise_cons.2 ⟨fun e he => TransCmp.lt_of_eq_of_lt heq (hd e he), hes⟩
    · rename_i hgt
      refine List.pairwise_cons.2 ⟨fun e he => ?_, ih hes⟩
      rcases mem_place he with rfl | he
      · exact OrientedCmp.lt_of_gt hgt
      · exact hd e he

/-- The map with `v` at `k`. -/
def insert [TransOrd κ] (t : Table κ β) (k : κ) (v : β) : Table κ β :=
  ⟨place k v t.entries, place_ascending k v t.ascending⟩

section Lookup

variable [LawfulEqOrd κ]

theorem find?_place_self (k : κ) (v : β) (es : List (κ × β)) :
    (place k v es).find? (fun e => compare e.1 k == .eq) = some (k, v) := by
  induction es with
  | nil => simp [place]
  | cons d es ih =>
    rw [place]
    split
    · simp
    · simp
    · rename_i hgt
      have : compare d.1 k ≠ .eq := fun h => by
        rw [LawfulEqOrd.eq_of_compare h] at hgt
        simp at hgt
      simpa [List.find?_cons, this] using ih

theorem find?_place_of_ne {k l : κ} (h : l ≠ k) (v : β) (es : List (κ × β)) :
    (place k v es).find? (fun e => compare e.1 l == .eq) = es.find? (fun e => compare e.1 l == .eq) := by
  have hk : compare k l ≠ .eq := fun hc => h (LawfulEqOrd.eq_of_compare hc).symm
  induction es with
  | nil => simp [place, hk]
  | cons d es ih =>
    rw [place]
    split
    · simp [hk]
    · rename_i heq
      obtain rfl := LawfulEqOrd.eq_of_compare heq
      simp [hk]
    · simp only [List.find?_cons, ih]

variable [TransOrd κ]

@[simp]
theorem get?_insert_self (t : Table κ β) (k : κ) (v : β) : (t.insert k v).get? k = some v := by
  simp [get?, insert, find?_place_self]

theorem get?_insert_of_ne (t : Table κ β) {k l : κ} (h : l ≠ k) (v : β) :
    (t.insert k v).get? l = t.get? l := by
  simp [get?, insert, find?_place_of_ne h]

theorem contains_insert (t : Table κ β) (k l : κ) (v : β) :
    (t.insert k v).contains l = (compare l k == .eq || t.contains l) := by
  by_cases h : l = k
  · subst h; simp [contains]
  · have : compare l k ≠ .eq := fun hc => h (LawfulEqOrd.eq_of_compare hc)
    simp [contains, get?_insert_of_ne t h, this]

end Lookup

theorem get?_eq_none_of_not_mem [LawfulEqOrd κ] {t : Table κ β} {k : κ} (h : k ∉ t.keys) :
    t.get? k = none := by
  simp only [get?, Option.map_eq_none_iff, List.find?_eq_none]
  intro e he hc
  exact h (List.mem_map.2 ⟨e, he, LawfulEqOrd.eq_of_compare (by simpa using hc)⟩)

/-- The map of a list of entries, the last one for a key counting. -/
def ofList [TransOrd κ] (es : List (κ × β)) : Table κ β :=
  es.foldl (fun t e => t.insert e.1 e.2) empty

/-! ## Removal and change in place -/

/-- The map of the entries that satisfy `p`. -/
def filter (t : Table κ β) (p : κ → β → Bool) : Table κ β :=
  ⟨t.entries.filter fun e => p e.1 e.2, t.ascending.filter _⟩

/-- The map without the key `k`. -/
def erase (t : Table κ β) (k : κ) : Table κ β := t.filter fun key _ => compare key k != .eq

/-- The map with every value changed by `f`. -/
def map (t : Table κ β) (f : κ → β → γ) : Table κ γ :=
  ⟨t.entries.map fun e => (e.1, f e.1 e.2), by
    simpa [List.pairwise_map] using t.ascending⟩

end Table

/-- A finite set of keys. -/
abbrev KeySet (κ : Type u) [Ord κ] := Table κ Unit

namespace KeySet

variable {κ : Type u} [Ord κ]

/-- The set with `k` in it. -/
def add [TransOrd κ] (s : KeySet κ) (k : κ) : KeySet κ := s.insert k ()

/-- The members of a list. -/
def ofList [TransOrd κ] (ks : List κ) : KeySet κ := ks.foldl add Table.empty

end KeySet

end SharedSheet
