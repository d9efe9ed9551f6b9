/-
Requests and messages in lines. The text of a value has neither a newline nor a carriage return in it, whatever the
strings in the value are, so the newline that ends it is the only one, and values that were encoded one after the
other are found again line by line (`readBack`). Of a single line this is the round trip through its JSON value
(`ofJson?_toJson`) and through the text of that value (`Json.Exact`).
-/
import SharedSheet.Proofs.Json.Reading
import SharedSheet.Proofs.Text.Lines
import SharedSheet.Wire.Message
import SharedSheet.Wire.Request

namespace SharedSheet

namespace Wire

open Text

/-! ## Codes in lines -/

/-- A code in lines: an encoded value is one line, without other line ends than the newline it ends with, and a
sequence of values is found again in what is encoded when that is split at the newlines. -/
structure IsLineCode {α : Type} (encode : α → String) (decode? : String → Option α) : Prop where
  newline : ∀ a, (encode a).toList.count '\n' = 1
  last : ∀ a, (encode a).toList.getLast? = some '\n'
  no_return : ∀ a, '\r' ∉ (encode a).toList
  readBack : ∀ as : List α, ∃ lines, parts '\n' (String.join (as.map encode)).toList = lines ++ [[]] ∧
    lines.mapM (fun line => decode? (String.ofList line)) = some as

section

variable {α : Type} {toJson : α → Json} {decode? : String → Option α}

theorem toList_encode (v : Json) : (v.render ++ "\n").toList = v.renderChars ++ ['\n'] := by
  rw [String.toList_append, Json.render, String.toList_ofList]
  rfl

/-- What is encoded one after the other is the lines, each with its newline. -/
theorem toList_join (as : List α) :
    (String.join (as.map fun a => (toJson a).render ++ "\n")).toList =
      (as.map fun a => (toJson a).renderChars).flatMap (· ++ ['\n']) ++ [] := by
  rw [String.toList_join, List.flatMap_map, List.flatMap_map, List.append_nil]
  simp only [toList_encode]

/-- Values whose JSON is found again in its text are coded in lines. -/
theorem isLineCode_of_exact (hexact : ∀ a, Json.Exact Json.maxDepth (toJson a))
    (hdecode : ∀ a, decode? (String.ofList (toJson a).renderChars) = some a) :
    IsLineCode (fun a => (toJson a).render ++ "\n") decode? where
  newline a := by
    rw [toList_encode, List.count_append, List.count_eq_zero.2 ((hexact a).noControl.notMem (by decide))]
    rfl
  last a := by rw [toList_encode, List.getLast?_concat]
  no_return a := by
    rw [toList_encode, List.mem_append, not_or]
    exact ⟨(hexact a).noControl.notMem (by decide), by decide⟩
  readBack as := by
    refine ⟨as.map fun a => (toJson a).renderChars, ?_, ?_⟩
    · rw [toList_join]
      refine parts_flatMap (fun line hline => ?_) List.not_mem_nil
      obtain ⟨a, -, rfl⟩ := List.mem_map.1 hline
      exact (hexact a).noControl.notMem (by decide)
    · rw [List.mapM_map]
      have hline : (fun line => decode? (String.ofList line)) ∘ (fun a => (toJson a).renderChars) = pure :=
        funext hdecode
      rw [hline]
      exact List.mapM_pure.trans (congrArg some (List.map_id _))

end

end Wire

/-! ## Requests -/

namespace Action

open Text

theorem exact (a : Action) : Json.Exact Json.maxDepth a.toJson := by
  refine .object (List.forall_mem_cons.2 ⟨.string _, ?_⟩)
  cases a with
  | select cell => exact List.forall_mem_singleton.2 (.string cell)
  | edit cell content => exact List.forall_mem_cons.2 ⟨.string cell, List.forall_mem_singleton.2 (.string content)⟩
  | revert cell => exact List.forall_mem_singleton.2 (.string cell)
  | undo => exact List.forall_mem_nil _

theorem ofJson?_toJson (a : Action) : ofJson? a.toJson = some a := by
  cases a <;> rfl

/-- The line of a request is read back, with any blanks around it, such as the carriage return that some senders put
before the newline. -/
theorem decode?_padded (a : Action) {before after : List Char} (hbefore : ∀ c ∈ before, isBlank c = true)
    (hafter : ∀ c ∈ after, isBlank c = true) :
    decode? (String.ofList (before ++ a.toJson.renderChars ++ after)) = some a := by
  obtain ⟨inside, hinside⟩ : ∃ inside, a.toJson.renderChars = '{' :: inside ++ ['}'] := Json.renderChars_object _
  have htrim : trim (before ++ a.toJson.renderChars ++ after) = a.toJson.renderChars := by
    refine trim_padded hbefore hafter ?_ ?_ ?_
    · rw [hinside]
      exact List.cons_ne_nil _ _
    · rw [hinside]
      rintro _ ⟨⟩
      rfl
    · rw [hinside, List.getLast?_concat]
      rintro _ ⟨⟩
      rfl
  rw [decode?, String.toList_ofList, htrim, a.exact.parseChars?_renderChars]
  exact a.ofJson?_toJson

end Action

/-! ## Messages -/

theorem ErrorKind.ofCode?_code (k : ErrorKind) : ofCode? k.code = some k := by
  cases k <;> decide

namespace Message

/-- Every number of a client is read back, up to the greatest. -/
theorem ofJson?_clientJson (c : ClientId) : ClientId.ofJson? (clientJson c) = some c := by
  have hlt := c.toNat_lt_size
  unfold clientJson Json.ofNat ClientId.ofJson?
  dsimp only
  rw [if_pos ⟨Int.natCast_nonneg _, by exact_mod_cast hlt⟩, Int.toNat_natCast, UInt64.ofNat_toNat]

theorem exact_clientJson {n : ℕ} (c : ClientId) : Json.Exact n (clientJson c) := by
  refine .integer ?_
  have hlt := c.toNat_lt_size
  simp only [Json.fits64, Bool.and_eq_true, decide_eq_true_eq]
  refine ⟨?_, by exact_mod_cast hlt⟩
  have hmin : Int64.minValue.toInt ≤ 0 := by decide
  omega

theorem exact (m : Message) : Json.Exact Json.maxDepth m.toJson := by
  cases m with
  | cellUpdated cell contents =>
    exact .object (List.forall_mem_cons.2 ⟨.string _, List.forall_mem_cons.2 ⟨.string cell,
      List.forall_mem_singleton.2 (.string contents)⟩⟩)
  | cellSelected cell selector selectorName =>
    exact .object (List.forall_mem_cons.2 ⟨.string _, List.forall_mem_cons.2 ⟨.string cell,
      List.forall_mem_cons.2 ⟨exact_clientJson selector, List.forall_mem_singleton.2 (.string selectorName)⟩⟩⟩)
  | disconnected user =>
    exact .object (List.forall_mem_cons.2 ⟨.string _, List.forall_mem_singleton.2 (exact_clientJson user)⟩)
  | requestError cell message kind =>
    refine .object (List.forall_mem_append.2 ⟨?_, ?_⟩)
    · exact List.forall_mem_cons.2 ⟨.string _, List.forall_mem_cons.2 ⟨.string cell,
        List.forall_mem_singleton.2 (.string message)⟩⟩
    · cases kind with
      | none => exact List.forall_mem_nil _
      | some k => exact List.forall_mem_singleton.2 (.string k.code)
  | serverError message =>
    exact .object (List.forall_mem_cons.2 ⟨.string _, List.forall_mem_singleton.2 (.string message)⟩)

/-! The two kinds with a number are read for any value that is read as that number: the number itself, of 64 bits, is
better not computed with. -/

theorem ofJson?_cellSelected {number : Json} {c : ClientId} (hread : ClientId.ofJson? number = some c)
    (cell selectorName : String) :
    ofJson? (.object [("messageType", .string "cellSelected"), ("cellName", .string cell), ("selector", number),
      ("selectorName", .string selectorName)]) = some (.cellSelected cell c selectorName) := by
  have hselected : (do pure (cellSelected cell (← ClientId.ofJson? number) selectorName)) =
      some (cellSelected cell c selectorName) := by
    rw [hread]
    rfl
  exact hselected

theorem ofJson?_disconnected {number : Json} {c : ClientId} (hread : ClientId.ofJson? number = some c) :
    ofJson? (.object [("messageType", .string "disconnected"), ("user", number)]) = some (.disconnected c) := by
  have hdisconnected : (do pure (disconnected (← ClientId.ofJson? number))) = some (disconnected c) := by
    rw [hread]
    rfl
  exact hdisconnected

theorem ofJson?_toJson (m : Message) : ofJson? m.toJson = some m := by
  cases m with
  | cellUpdated cell contents => rfl
  | cellSelected cell selector selectorName => exact ofJson?_cellSelected (ofJson?_clientJson selector) cell selectorName
  | disconnected user => exact ofJson?_disconnected (ofJson?_clientJson user)
  | requestError cell message kind =>
    cases kind with
    | none => rfl
    | some k =>
      show ((ErrorKind.ofCode? k.code).map some).bind (fun kind => some (requestError cell message kind)) = _
      rw [ErrorKind.ofCode?_code]
      rfl
  | serverError message => rfl

theorem decode?_renderChars (m : Message) : decode? (String.ofList m.toJson.renderChars) = some m := by
  rw [decode?, Json.parse?, String.toList_ofList, m.exact.parseChars?_renderChars]
  exact m.ofJson?_toJson

end Message

/-! ## Both directions -/

/-- What clients send and what they are sent are coded in lines, whatever texts and numbers are in it: every encoded
value ends with its only newline and has no carriage return in it, and a sequence of values is found again line by
line. -/
theorem Wire.isLineCode :
    IsLineCode Action.encode Action.decode? ∧ IsLineCode Message.encode Message.decode? := by
  refine ⟨isLineCode_of_exact Action.exact fun a => ?_, isLineCode_of_exact Message.exact Message.decode?_renderChars⟩
  have hpadded := a.decode?_padded (List.forall_mem_nil _) (List.forall_mem_nil _)
  rwa [List.nil_append, List.append_nil] at hpadded

end SharedSheet
