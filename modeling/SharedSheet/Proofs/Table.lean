/-
Laws of finite maps and key sets. A map is determined by its lookups (`ext_get?`), and every operation
is described by what it does to them; a key set is determined by its members.
-/
import Mathlib.Data.List.Pairwise
import Mathlib.Tactic.Tauto
import SharedSheet.Table

namespace SharedSheet

open Std

universe u v

namespace Table

variable {κ : Type u} {β : Type v} [Ord κ]

theorem get?_empty (k : κ) : (Table.empty : Table κ β).get? k = none := rfl

theorem contains_empty (k : κ) : (Table.empty : Table κ β).contains k = false := rfl

theorem keys_empty : (Table.empty : Table κ β).keys = [] := rfl

theorem isEmpty_iff {t : Table κ β} : t.isEmpty = true ↔ t.entries = [] := by
  unfold isEmpty; exact List.isEmpty_iff

/-! ## Lookups and entries -/

section Lawful

variable [LawfulEqOrd κ]

/-- A lookup finds an entry of the map. -/
theorem mem_entries_of_get? {t : Table κ β} {k : κ} {v : β} (h : t.get? k = some v) : (k, v) ∈ t.entries := by
  unfold get? at h
  obtain ⟨⟨l, w⟩, hf, hw⟩ := Option.map_eq_some_iff.1 h
  have hl : compare l k = .eq := by simpa using List.find?_some hf
  obtain rfl := LawfulEqOrd.eq_of_compare hl
  cases hw
  exact List.mem_of_find?_eq_some hf

theorem compare_self_ne_lt (k : κ) : compare k k ≠ .lt := by simp [ReflCmp.compare_self]

theorem nodup_keys (t : Table κ β) : t.keys.Nodup := by
  unfold keys
  refine (List.pairwise_map.2 (t.ascending.imp fun {a b} h => ?_))
  intro he
  rw [he] at h
  exact compare_self_ne_lt _ h

/-- Two entries of one map with the same key are the same entry. -/
theorem entry_unique {t : Table κ β} {k : κ} {v w : β} (hv : (k, v) ∈ t.entries) (hw : (k, w) ∈ t.entries) :
    v = w := by
  have hp := t.ascending
  generalize t.entries = es at hp hv hw
  induction es with
  | nil => cases hv
  | cons e es ih =>
    obtain ⟨he, hes⟩ := List.pairwise_cons.1 hp
    rcases List.mem_cons.1 hv with hk | hv
    · rcases List.mem_cons.1 hw with hl | hw
      · rw [← hk] at hl; cases hl; rfl
      · rw [← hk] at he
        exact absurd (he _ hw) (compare_self_ne_lt k)
    · rcases List.mem_cons.1 hw with hl | hw
      · rw [← hl] at he
        exact absurd (he _ hv) (compare_self_ne_lt k)
      · exact ih hes hv hw

theorem get?_eq_some_iff {t : Table κ β} {k : κ} {v : β} : t.get? k = some v ↔ (k, v) ∈ t.entries := by
  refine ⟨mem_entries_of_get?, fun h => ?_⟩
  rcases hg : t.get? k with _ | w
  · unfold get? at hg
    rw [Option.map_eq_none_iff, List.find?_eq_none] at hg
    have := hg _ h
    simp [ReflCmp.compare_self] at this
  · rw [entry_unique h (mem_entries_of_get? hg)]

theorem get?_eq_none_iff {t : Table κ β} {k : κ} : t.get? k = none ↔ ∀ v, (k, v) ∉ t.entries := by
  constructor
  · intro h v hv
    rw [get?_eq_some_iff.2 hv] at h
    cases h
  · intro h
    rcases hg : t.get? k with _ | w
    · rfl
    · exact absurd (mem_entries_of_get? hg) (h w)

theorem mem_keys_iff {t : Table κ β} {k : κ} : k ∈ t.keys ↔ ∃ v, t.get? k = some v := by
  unfold keys
  simp only [List.mem_map, get?_eq_some_iff]
  constructor
  · rintro ⟨⟨l, v⟩, h, rfl⟩; exact ⟨v, h⟩
  · rintro ⟨v, h⟩; exact ⟨(k, v), h, rfl⟩

theorem mem_keys_iff_contains {t : Table κ β} {k : κ} : k ∈ t.keys ↔ t.contains k = true := by
  rw [mem_keys_iff, contains, Option.isSome_iff_exists]

/-! ## Operations -/

theorem get?_filter (t : Table κ β) (p : κ → β → Bool) (k : κ) :
    (t.filter p).get? k = (t.get? k).filter (p k) := by
  rcases hg : t.get? k with _ | v
  · rw [get?_eq_none_iff] at hg
    rw [Option.filter_none, get?_eq_none_iff]
    intro v hv
    exact hg v (List.mem_filter.1 hv).1
  · have hm := get?_eq_some_iff.1 hg
    simp only [Option.filter_some]
    split
    · rename_i hp
      exact get?_eq_some_iff.2 (List.mem_filter.2 ⟨hm, hp⟩)
    · rename_i hp
      rw [get?_eq_none_iff]
      intro w hw
      obtain ⟨hw, hpw⟩ := List.mem_filter.1 hw
      rw [entry_unique hw hm] at hpw
      exact hp hpw

theorem get?_map {γ : Type v} (t : Table κ β) (f : κ → β → γ) (k : κ) : (t.map f).get? k = (t.get? k).map (f k) := by
  rcases hg : t.get? k with _ | v
  · rw [get?_eq_none_iff] at hg
    rw [Option.map_none, get?_eq_none_iff]
    intro w hw
    obtain ⟨⟨l, v⟩, hmem, he⟩ := List.mem_map.1 hw
    cases he
    exact hg v hmem
  · rw [get?_eq_some_iff] at hg
    rw [Option.map_some, get?_eq_some_iff]
    exact List.mem_map.2 ⟨(k, v), hg, rfl⟩

theorem get?_erase [DecidableEq κ] (t : Table κ β) (k l : κ) :
    (t.erase k).get? l = if l = k then none else t.get? l := by
  unfold erase
  rw [get?_filter]
  split
  · rename_i h; subst h
    cases t.get? l <;> simp [ReflCmp.compare_self]
  · rename_i h
    have hc : (compare l k != .eq) = true := by
      rw [bne_iff_ne]; exact fun hc => h (LawfulEqOrd.eq_of_compare hc)
    rw [hc]
    cases t.get? l <;> rfl

theorem get?_erase_eq_some [DecidableEq κ] {t : Table κ β} {k l : κ} {v : β} :
    (t.erase k).get? l = some v ↔ l ≠ k ∧ t.get? l = some v := by
  rw [get?_erase]
  by_cases hl : l = k
  · simp [hl]
  · simp [hl]

/-! ## Extensionality -/

variable [TransOrd κ]

/-- Two ascending lists with the same members are equal. -/
theorem eq_of_ascending {es ds : List (κ × β)} (he : es.Pairwise fun a b => compare a.1 b.1 = .lt)
    (hd : ds.Pairwise fun a b => compare a.1 b.1 = .lt) (h : ∀ e, e ∈ es ↔ e ∈ ds) : es = ds := by
  induction es generalizing ds with
  | nil =>
    cases ds with
    | nil => rfl
    | cons d ds => exact absurd ((h d).2 List.mem_cons_self) (by simp)
  | cons e es ih =>
    cases ds with
    | nil => exact absurd ((h e).1 List.mem_cons_self) (by simp)
    | cons d ds =>
      obtain ⟨he₁, he₂⟩ := List.pairwise_cons.1 he
      obtain ⟨hd₁, hd₂⟩ := List.pairwise_cons.1 hd
      -- the least entry of the one list is the least entry of the other
      have hed : e = d := by
        rcases List.mem_cons.1 ((h e).1 List.mem_cons_self) with rfl | hm
        · rfl
        · rcases List.mem_cons.1 ((h d).2 List.mem_cons_self) with rfl | hm'
          · rfl
          · exact absurd (TransCmp.lt_trans (he₁ _ hm') (hd₁ _ hm)) (compare_self_ne_lt _)
      subst hed
      rw [ih he₂ hd₂ fun x => ?_]
      constructor
      · intro hx
        rcases List.mem_cons.1 ((h x).1 (List.mem_cons_of_mem _ hx)) with rfl | hx'
        · exact absurd (he₁ _ hx) (compare_self_ne_lt _)
        · exact hx'
      · intro hx
        rcases List.mem_cons.1 ((h x).2 (List.mem_cons_of_mem _ hx)) with rfl | hx'
        · exact absurd (hd₁ _ hx) (compare_self_ne_lt _)
        · exact hx'

theorem get?_insert [DecidableEq κ] (t : Table κ β) (k l : κ) (v : β) :
    (t.insert k v).get? l = if l = k then some v else t.get? l := by
  split
  · rename_i h; subst h; exact get?_insert_self t l v
  · rename_i h; exact get?_insert_of_ne t h v

/-- Two maps with the same lookups are the same map. -/
theorem ext_get? {s t : Table κ β} (h : ∀ k, s.get? k = t.get? k) : s = t := by
  refine Table.ext (eq_of_ascending s.ascending t.ascending ?_)
  rintro ⟨k, v⟩
  rw [← get?_eq_some_iff, ← get?_eq_some_iff, h]

theorem insert_eq_self [DecidableEq κ] {t : Table κ β} {k : κ} {v : β} (h : t.get? k = some v) : t.insert k v = t := by
  refine ext_get? fun l => ?_
  rw [get?_insert]
  split
  · rename_i hl
    rw [hl, h]
  · rfl

theorem erase_eq_self [DecidableEq κ] {t : Table κ β} {k : κ} (h : t.get? k = none) : t.erase k = t := by
  refine ext_get? fun l => ?_
  rw [get?_erase]
  split
  · rename_i hl
    rw [hl, h]
  · rfl

theorem insert_insert [DecidableEq κ] (t : Table κ β) (k : κ) (v w : β) : (t.insert k v).insert k w = t.insert k w := by
  refine ext_get? fun l => ?_
  rw [get?_insert, get?_insert, get?_insert]
  split
  · rfl
  · rfl

theorem erase_insert [DecidableEq κ] (t : Table κ β) (k : κ) (v : β) : (t.insert k v).erase k = t.erase k := by
  refine ext_get? fun l => ?_
  rw [get?_erase, get?_erase]
  split
  · rfl
  · rename_i hl
    rw [get?_insert, if_neg hl]

/-- Inserting entries with different keys puts each of them in place and leaves all other keys alone. -/
theorem get?_insertAll [DecidableEq κ] {es : List (κ × β)} (hd : (es.map Prod.fst).Nodup) (t : Table κ β) :
    (∀ e ∈ es, (es.foldl (fun t e => t.insert e.1 e.2) t).get? e.1 = some e.2) ∧
      ∀ k, k ∉ es.map Prod.fst → (es.foldl (fun t e => t.insert e.1 e.2) t).get? k = t.get? k := by
  induction es generalizing t with
  | nil => exact ⟨by simp, fun _ _ => rfl⟩
  | cons d es ih =>
    rw [List.map_cons] at hd
    obtain ⟨hkey, hd⟩ := List.nodup_cons.1 hd
    obtain ⟨hin, hout⟩ := ih hd (t.insert d.1 d.2)
    rw [List.foldl_cons]
    constructor
    · intro e he
      rcases List.mem_cons.1 he with rfl | he
      · rw [hout e.1 hkey, get?_insert, if_pos rfl]
      · exact hin e he
    · intro k hk
      rw [List.map_cons, List.mem_cons, not_or] at hk
      rw [hout k hk.2, get?_insert, if_neg hk.1]

/-- A map is found again in the list of its entries. -/
theorem ofList_entries [DecidableEq κ] (t : Table κ β) : Table.ofList t.entries = t := by
  obtain ⟨hin, hout⟩ := get?_insertAll t.nodup_keys Table.empty
  refine ext_get? fun k => ?_
  rcases hk : t.get? k with _ | v
  · refine (hout k fun hmem => ?_).trans rfl
    obtain ⟨v, hv⟩ := mem_keys_iff.1 hmem
    rw [hk] at hv
    cases hv
  · exact hin (k, v) (get?_eq_some_iff.1 hk)

end Lawful

end Table

/-! ## Key sets -/

namespace KeySet

variable {κ : Type u} [Ord κ]

theorem isEmpty_iff_keys {s : KeySet κ} : s.isEmpty = true ↔ s.keys = [] := by
  rw [Table.isEmpty_iff, Table.keys, List.map_eq_nil_iff]

theorem not_isEmpty_of_mem {s : KeySet κ} {k : κ} (h : k ∈ s.keys) : ¬s.isEmpty = true := by
  rw [isEmpty_iff_keys]
  exact List.ne_nil_of_mem h

variable [LawfulEqOrd κ]

theorem mem_keys_erase [DecidableEq κ] (s : KeySet κ) (k l : κ) :
    l ∈ Table.keys (s.erase k) ↔ l ≠ k ∧ l ∈ s.keys := by
  rw [Table.mem_keys_iff, Table.mem_keys_iff]
  simp only [Table.get?_erase]
  split <;> simp [*]

variable [TransOrd κ]

theorem mem_keys_add [DecidableEq κ] (s : KeySet κ) (k l : κ) : l ∈ (s.add k).keys ↔ l = k ∨ l ∈ s.keys := by
  rw [Table.mem_keys_iff, Table.mem_keys_iff, add]
  simp only [Table.get?_insert]
  split <;> simp [*]

theorem mem_keys_ofList [DecidableEq κ] (ks : List κ) (l : κ) : l ∈ (ofList ks).keys ↔ l ∈ ks := by
  have hfold : ∀ s : KeySet κ, l ∈ Table.keys (ks.foldl add s) ↔ l ∈ ks ∨ l ∈ s.keys := by
    induction ks with
    | nil => simp
    | cons k ks ih =>
      intro s
      rw [List.foldl_cons, ih, mem_keys_add, List.mem_cons, or_assoc, or_left_comm]
  rw [ofList, hfold, Table.keys_empty, or_iff_left List.not_mem_nil]

/-- A key set is determined by its members. -/
theorem ext_keys {s t : KeySet κ} (h : ∀ k, k ∈ s.keys ↔ k ∈ t.keys) : s = t := by
  refine Table.ext_get? fun k => ?_
  have hk := h k
  rw [Table.mem_keys_iff, Table.mem_keys_iff] at hk
  rcases hs : s.get? k with _ | ⟨⟩ <;> rcases ht : t.get? k with _ | ⟨⟩ <;> simp_all

end KeySet

end SharedSheet
