/-
The lines of the handshake. A listing of names that sheets can have is read back as it was (`parseListing_listing`),
because such a name is one line: it has no line endings in it, and it is not empty. What a line of a client says is not
changed by being said again, whatever blanks are around it then (`field?_padded`).
-/
import SharedSheet.Proofs.Text
import SharedSheet.Proofs.Text.Lines
import SharedSheet.Storage.Error
import SharedSheet.Wire.Message

namespace SharedSheet

open Text

/-- A name that a sheet can have is not empty and has no line endings in it. -/
theorem isSheetName_line {name : String} (h : isSheetName name = true) :
    name.toList ≠ [] ∧ '\n' ∉ name.toList ∧ '\r' ∉ name.toList := by
  simp only [isSheetName, Bool.and_eq_true, bne_iff_ne, List.all_eq_true, Bool.not_eq_true'] at h
  obtain ⟨⟨⟨hempty, -⟩, -⟩, hchars⟩ := h
  refine ⟨fun hnil => hempty (String.toList_eq_nil_iff.1 hnil), fun hmem => ?_, fun hmem => ?_⟩
  · have hcontrol := (hchars _ hmem).2
    cases hcontrol
  · have hcontrol := (hchars _ hmem).2
    cases hcontrol

namespace Handshake

/-! ## Listings -/

theorem dropReturn_eq_self {s : List Char} (h : '\r' ∉ s) : dropReturn s = s :=
  if_neg fun hlast => h (List.mem_of_getLast? hlast)

/-- Each name of a listing is one of its lines, and behind them is an empty one. -/
theorem lines_listing {names : List String} (h : ∀ name ∈ names, isSheetName name = true) :
    lines (listing names).toList = names.map String.toList ++ [[]] := by
  have hlines : ∀ l ∈ names.map String.toList ++ [[]], '\n' ∉ l ∧ '\r' ∉ l := by
    intro l hl
    rcases List.mem_append.1 hl with hl | hl
    · obtain ⟨name, hname, rfl⟩ := List.mem_map.1 hl
      exact (isSheetName_line (h name hname)).2
    · rw [List.mem_singleton.1 hl]
      exact ⟨List.not_mem_nil, List.not_mem_nil⟩
  have hparts := parts_flatMap (fun l hl => (hlines l hl).1) (List.not_mem_nil (a := '\n'))
  rw [List.flatMap_append, List.flatMap_map, List.append_nil] at hparts
  have hreturn : (names.map String.toList ++ [[]]).map dropReturn = names.map String.toList ++ [[]] :=
    (List.map_congr_left fun l hl => dropReturn_eq_self (hlines l hl).2).trans (List.map_id' _)
  rw [listing, String.toList_ofList, lines]
  change parts '\n' (names.flatMap (fun name => name.toList ++ ['\n']) ++ ['\n']) = _ at hparts
  rw [hparts, List.dropLast_concat, hreturn, List.getLast?_concat]
  exact List.append_nil _

/-- A listing is read back as it was. -/
theorem parseListing_listing {names : List String} (h : ∀ name ∈ names, isSheetName name = true) :
    parseListing (listing names) = names := by
  have hwhole : ∀ line ∈ names.map String.toList, (!line.isEmpty) = true := by
    intro line hline
    obtain ⟨name, hname, rfl⟩ := List.mem_map.1 hline
    simp [(isSheetName_line (h name hname)).1]
  unfold parseListing
  rw [lines_listing h, List.takeWhile_append_of_pos hwhole, List.takeWhile_cons_of_neg (by simp), List.append_nil,
    List.map_map]
  simp

/-! ## Fields -/

theorem field?_eq_some_iff {line s : String} :
    field? line = some s ↔ trim line.toList = s.toList ∧ s.toList ≠ [] := by
  unfold field? trimmed
  dsimp only
  rw [Option.ite_none_left_eq_some]
  constructor
  · rintro ⟨hne, hs⟩
    obtain rfl := Option.some.inj hs
    rw [String.toList_ofList]
    refine ⟨rfl, fun hnil => hne ?_⟩
    rw [hnil]
    rfl
  · rintro ⟨htrim, hne⟩
    rw [htrim, String.ofList_toList]
    refine ⟨fun hempty => hne ?_, rfl⟩
    rw [String.isEmpty_iff.1 hempty]
    rfl

/-- What a line has said is said again by a line with any blanks around it. -/
theorem field?_padded {line s : String} (h : field? line = some s) {before after : List Char}
    (hbefore : ∀ c ∈ before, isBlank c = true) (hafter : ∀ c ∈ after, isBlank c = true) :
    field? (String.ofList (before ++ s.toList ++ after)) = some s := by
  obtain ⟨htrim, hne⟩ := field?_eq_some_iff.1 h
  obtain ⟨hhead, hlast⟩ := trim_ends line.toList
  rw [htrim] at hhead hlast
  rw [field?_eq_some_iff, String.toList_ofList]
  exact ⟨trim_padded hbefore hafter hne hhead hlast, hne⟩

theorem field?_newline {line s : String} (h : field? line = some s) : field? (s ++ "\n") = some s := by
  have hline : String.ofList ([] ++ s.toList ++ ['\n']) = s ++ "\n" := by
    rw [List.nil_append, String.ofList_append, String.ofList_toList]
  rw [← hline]
  refine field?_padded h (fun _ hc => absurd hc List.not_mem_nil) fun c hc => ?_
  rw [List.mem_singleton.1 hc]
  rfl

end Handshake

end SharedSheet
