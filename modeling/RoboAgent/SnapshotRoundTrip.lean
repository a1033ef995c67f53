import RoboAgent.Base64
import RoboAgent.FalliblePrograms
import RoboAgent.SnapshotCodec

/-! A snapshot that was encoded decodes to itself. Each kind of record is read back field by field:
the decoder asks for keys, so the order json.dumps gave the keys does not matter to it. -/

namespace RoboAgent.SnapshotRoundTrip
open RoboAgent.FrozenJson RoboAgent.KeyedLists RoboAgent.SortedJson RoboAgent.ToolErrors
open RoboAgent.ToolEffects RoboAgent.Messages RoboAgent.MessageChecks RoboAgent.SnapshotCodec
open RoboAgent.FalliblePrograms (bind_eq_ok ok_bind map_ok)

variable {α β : Type}

theorem mapM_round_trip (encode : α → Result JsonValue) {decode : JsonValue → Result α}
    {values : List α} {data : List JsonValue}
    (each : ∀ value ∈ values, ∀ record, encode value = .ok record →
      decode (sortKeys record) = .ok value)
    (encoded : values.mapM encode = .ok data) :
    (data.map sortKeys).mapM decode = .ok values := by
  induction values generalizing data with
  | nil =>
    cases encoded
    rfl
  | cons value values ih =>
    rw [List.mapM_cons] at encoded
    obtain ⟨record, first, encoded⟩ := bind_eq_ok encoded
    obtain ⟨records, rest, encoded⟩ := bind_eq_ok encoded
    cases encoded
    rw [List.map_cons, List.mapM_cons, each value List.mem_cons_self record first,
      ih (fun v member => each v (List.mem_cons_of_mem value member)) rest]
    rfl

@[simp] theorem sortKeys_str (text : String) : sortKeys (.str text) = .str text := by
  rw [sortKeys]

@[simp] theorem sortKeys_null : sortKeys .null = .null := by
  rw [sortKeys]

@[simp] theorem sortKeys_bool (value : Bool) : sortKeys (.bool value) = .bool value := by
  rw [sortKeys]

@[simp] theorem sortKeys_float (value : PyFloat) : sortKeys (.float value) = .float value := by
  rw [sortKeys]

@[simp] theorem sortKeys_int (value : Int) : sortKeys (.int value) = .int value := by
  rw [sortKeys]

theorem decodeAll_round_trip (lib : Library) {encode : α → Result JsonValue}
    {decode : String → JsonValue → Result α} {values : List α} {data : List JsonValue}
    (each : ∀ value ∈ values, ∀ record, encode value = .ok record →
      ∀ fresh, decode fresh (sortKeys record) = .ok value)
    (encoded : values.mapM encode = .ok data) (place : Nat) :
    decodeAll lib decode place (data.map sortKeys) = .ok values := by
  induction values generalizing data place with
  | nil =>
    cases encoded
    rfl
  | cons value values ih =>
    rw [List.mapM_cons] at encoded
    obtain ⟨record, first, encoded⟩ := bind_eq_ok encoded
    obtain ⟨records, rest, encoded⟩ := bind_eq_ok encoded
    cases encoded
    rw [List.map_cons, decodeAll, each value List.mem_cons_self record first, ok_bind,
      ih (fun v member => each v (List.mem_cons_of_mem value member)) rest]
    rfl

theorem decodeNullable_elim {encode : α → JsonValue} {decode : JsonValue → Result α}
    {value : Option α} (each : ∀ a, value = some a → decode (sortKeys (encode a)) = .ok a)
    (present : ∀ a, sortKeys (encode a) ≠ .null) :
    decodeNullable decode (sortKeys (value.elim .null encode)) = .ok value := by
  cases value with
  | none => rw [Option.elim_none, sortKeys_null, decodeNullable]
  | some a =>
    rw [Option.elim_some, decodeNullable, each a rfl]
    · rfl
    · exact present a

@[simp] theorem dict_obj (entries : Fields) : dict (sortKeys (.obj entries)) = .ok (sorted entries) := by
  rw [sortKeys_obj, dict]

theorem list_arr (items : List JsonValue) :
    list (sortKeys (.arr items)) = .ok (items.map sortKeys) := by
  rw [sortKeys_arr, list]

@[simp] theorem getField_nil (key : String) : getField [] key = .null := rfl

@[simp] theorem getField_cons (key other : String) (value : JsonValue) (rest : Fields) :
    getField ((other, value) :: rest) key = if key = other then value else getField rest key := by
  rw [getField, List.lookup_cons]
  by_cases same : key = other
  · rw [if_pos same, beq_iff_eq.mpr same]
    rfl
  · rw [if_neg same, beq_eq_false_iff_ne.mpr same]
    rfl

@[simp] theorem item_cons (key other : String) (value : JsonValue) (rest : Fields) :
    item ((other, value) :: rest) key = if key = other then .ok value else item rest key := by
  rw [item, List.lookup_cons]
  by_cases same : key = other
  · rw [if_pos same, beq_iff_eq.mpr same]
  · rw [if_neg same, beq_eq_false_iff_ne.mpr same]
    rfl

theorem getField_sorted {entries : Fields} (distinct : (keys entries).Nodup) (key : String) :
    getField (sorted entries) key = sortKeys (getField entries key) := by
  rw [getField, lookup_sorted distinct, getField]
  cases entries.lookup key with
  | none => rw [Option.map_none, Option.getD_none, sortKeys]
  | some value => rw [Option.map_some, Option.getD_some, Option.getD_some]

theorem item_sorted {entries : Fields} (distinct : (keys entries).Nodup) (key : String) :
    item (sorted entries) key = (item entries key).map sortKeys := by
  rw [item, lookup_sorted distinct, item]
  cases entries.lookup key with
  | none => rfl
  | some value => rfl

theorem keywords_sorted {names : List String} {entries : Fields}
    (named : (keys entries).all names.contains = true) :
    keywords names (sorted entries) = .ok () := by
  rw [keywords, all_keys_sorted, if_pos named]

theorem build_checked {checked : α → Bool} {value : α} (h : checked value = true) :
    build checked value = .ok value := by
  rw [build, if_pos h]

@[simp] theorem asOptionalString_orNull (text : Option String) :
    asOptionalString (sortKeys (orNull text)) = .ok text := by
  cases text with
  | none => rw [orNull, sortKeys, asOptionalString]
  | some text => rw [orNull, sortKeys, asOptionalString]

section Json

theorem decodeJson_scalar {value : Fields} (scalar : JsonValue)
    (type : getField value "type" = .str "scalar") (found : value.lookup "value" = some scalar) :
    decodeJson (.obj value) = freezeJson scalar := by
  rw [decodeJson, type]
  simp only [found]

theorem decodeJson_array {value : Fields} (items : List JsonValue)
    (type : getField value "type" = .str "array") (found : getField value "items" = .arr items) :
    decodeJson (.obj value) = (decodeItems items).map .arr := by
  rw [decodeJson, type]
  split
  case h_2 =>
    split
    · rename_i found'
      rw [found] at found'
      cases found'
      rfl
    · rename_i other
      exact absurd found (other items)
  all_goals simp_all

theorem decodeJson_object {value : Fields} (entries : List JsonValue)
    (type : getField value "type" = .str "object")
    (found : getField value "entries" = .arr entries)
    (pairs : entries.all isEntry = true) :
    decodeJson (.obj value) = (decodeEntries [] entries).map .obj := by
  rw [decodeJson, type]
  split
  case h_3 =>
    split
    · rename_i found'
      rw [found] at found'
      cases found'
      rw [if_pos pairs]
      rfl
    · rename_i other
      exact absurd found (other entries)
  all_goals simp_all

theorem all_isEntry (entries : Fields) :
    ((encodeEntries entries).map sortKeys).all isEntry = true := by
  induction entries with
  | nil => rfl
  | cons entry entries ih =>
    rw [encodeEntries, List.map_cons, List.all_cons, ih, sortKeys_arr]
    simp only [List.map_cons, sortKeys_str, List.map_nil, isEntry, Bool.and_true]

theorem decodeJson_encodeScalar {scalar : JsonValue} (same : sortKeys scalar = scalar)
    (h : wellFormed scalar = true) :
    decodeJson (sortKeys (.obj [("type", .str "scalar"), ("value", scalar)])) = .ok scalar := by
  rw [sortKeys_obj, decodeJson_scalar scalar]
  · exact build_checked h
  · simp (disch := simp [keys]) [getField_sorted]
  · simp (disch := simp [keys]) [lookup_sorted, List.lookup, same]

mutual
theorem decodeJson_encodeJson : (value : JsonValue) → wellFormed value = true →
    decodeJson (sortKeys (encodeJson value)) = .ok value
  | .obj entries, h => by
    rw [wellFormed, Bool.and_eq_true, decide_eq_true_eq] at h
    rw [encodeJson, sortKeys_obj,
      decodeJson_object ((encodeEntries entries).map sortKeys) _ _ (all_isEntry entries)]
    · rw [decodeEntries_encodeEntries entries [] h.2 h.1]
      rfl
    · simp (disch := simp [keys]) [getField_sorted]
    · simp (disch := simp [keys]) [getField_sorted, sortKeys_arr]
  | .arr items, h => by
    rw [wellFormed] at h
    rw [encodeJson, sortKeys_obj, decodeJson_array ((encodeItems items).map sortKeys)]
    · rw [decodeItems_encodeItems items h]
      rfl
    · simp (disch := simp [keys]) [getField_sorted]
    · simp (disch := simp [keys]) [getField_sorted, sortKeys_arr]
  | .null, h | .bool _, h | .int _, h | .float _, h | .str _, h => by
    rw [encodeJson, decodeJson_encodeScalar _ h]
    · rw [sortKeys]
    all_goals exact nofun

theorem decodeItems_encodeItems : (items : List JsonValue) → wellFormedItems items = true →
    decodeItems ((encodeItems items).map sortKeys) = .ok items
  | [], _ => by rw [encodeItems, List.map_nil, decodeItems]
  | item :: items, h => by
    rw [wellFormedItems, Bool.and_eq_true] at h
    rw [encodeItems, List.map_cons, decodeItems, decodeJson_encodeJson item h.1]
    simp only [decodeItems_encodeItems items h.2, bind, Except.bind]

theorem decodeEntries_encodeEntries : (entries : Fields) → (index : List String) →
    wellFormedEntries entries = true → (index.reverse ++ keys entries).Nodup →
    decodeEntries index ((encodeEntries entries).map sortKeys) = .ok entries
  | [], index, _, _ => by
    rw [encodeEntries, List.map_nil, decodeEntries]
    exact nofun
  | (key, value) :: entries, index, h, distinct => by
    rw [wellFormedEntries, Bool.and_eq_true] at h
    rw [keys, List.map_cons] at distinct
    have absent : index.contains key = false := by
      rw [List.contains_eq_mem, decide_eq_false_iff_not]
      intro present
      exact (List.nodup_append.mp distinct).2.2 key (List.mem_reverse.mpr present) key
        List.mem_cons_self rfl
    have later : ((key :: index).reverse ++ keys entries).Nodup := by
      rw [List.reverse_cons, List.append_assoc]
      exact distinct
    rw [encodeEntries, List.map_cons, sortKeys_arr, List.map_cons, List.map_cons, List.map_nil,
      sortKeys_str, decodeEntries, decodeJson_encodeJson value h.1]
    simp only [bind, Except.bind, absent,
      decodeEntries_encodeEntries entries (key :: index) h.2 later]
    rfl
end

end Json

variable {lib : Library} {maxInlineBytes : Nat}

theorem decodeSource_encodeSource (correct : lib.Correct) {source : MediaSource} {data : JsonValue}
    {value : Fields} (checked : sourceChecked lib source = true)
    (encoded : encodeSource lib maxInlineBytes source = .ok data)
    (found : item value "source" = .ok (sortKeys data)) :
    decodeSource lib maxInlineBytes value = .ok source := by
  rw [decodeSource, found]
  cases source with
  | bytes payload =>
    rw [encodeSource] at encoded
    split at encoded
    · cases encoded
    · rename_i within
      cases encoded
      simp (disch := simp [keys]) [getField_sorted, item_sorted, decodeBase64, correct.base64,
        within, build_checked checked]
  | file path =>
    cases encoded
    simp (disch := simp [keys]) [getField_sorted, item_sorted, asString, build_checked checked]
  | url url =>
    cases encoded
    simp (disch := simp [keys]) [getField_sorted, item_sorted, asString, build_checked checked]

theorem decodeMedia_encodeMedia (correct : lib.Correct) {kind field : String}
    (make : MediaSource → Option String → Option String → MessageContent) {source : MediaSource}
    {mediaType extra : Option String} {data : JsonValue}
    (distinct : ["type", "source", "media_type", field].Nodup)
    (checked : contentChecked lib (make source mediaType extra) = true)
    (sourceOk : sourceChecked lib source = true)
    (encoded : encodeMedia lib maxInlineBytes kind field source mediaType extra = .ok data) :
    ∃ entries, data = .obj entries ∧ getField (sorted entries) "type" = .str kind ∧
      decodeMedia lib maxInlineBytes (sorted entries) field make =
        .ok (make source mediaType extra) := by
  obtain ⟨record, written, made⟩ := bind_eq_ok encoded
  cases made
  have distinct' : (keys [("type", JsonValue.str kind), ("source", record),
    ("media_type", orNull mediaType), (field, orNull extra)]).Nodup := distinct
  refine ⟨_, rfl, ?_, ?_⟩
  · rw [getField_sorted distinct']
    simp
  · rw [decodeMedia, decodeSource_encodeSource correct sourceOk written]
    · have other : field ≠ "type" ∧ field ≠ "source" ∧ field ≠ "media_type" := by
        simpa [eq_comm] using distinct
      rw [getField_sorted distinct', getField_sorted distinct']
      simp [other, build_checked checked]
    · rw [item_sorted distinct']
      simp

theorem decodeContent_encodeContent (correct : lib.Correct) {content : MessageContent}
    {data : JsonValue} (checked : contentChecked lib content = true)
    (encoded : encodeContent lib maxInlineBytes content = .ok data) :
    decodeContent lib maxInlineBytes (sortKeys data) = .ok content := by
  cases content with
  | text text =>
    cases encoded
    simp (disch := simp [keys]) [decodeContent, getField_sorted, item_sorted, asString, guarded]
  | json value =>
    cases encoded
    simp (disch := simp [keys]) [decodeContent, getField_sorted, item_sorted, guarded,
      decodeJson_encodeJson value checked, build_checked checked]
  | image source mediaType detail =>
    obtain ⟨entries, rfl, type, decoded⟩ := decodeMedia_encodeMedia correct .image
      (by decide) checked (Bool.and_eq_true_iff.mp checked).1 encoded
    simp [decodeContent, type, decoded, guarded]
  | audio source mediaType transcript =>
    obtain ⟨entries, rfl, type, decoded⟩ := decodeMedia_encodeMedia correct .audio
      (by decide) checked (Bool.and_eq_true_iff.mp checked).1 encoded
    simp [decodeContent, type, decoded, guarded]
  | file source mediaType filename =>
    obtain ⟨entries, rfl, type, decoded⟩ := decodeMedia_encodeMedia correct .file
      (by decide) checked (Bool.and_eq_true_iff.mp checked).1 encoded
    simp [decodeContent, type, decoded, guarded]
  | artifact reference =>
    cases encoded
    simp (disch := simp [keys]) [decodeContent, decodeArtifact, getField_sorted, item_sorted,
      asString, asNatural, guarded, build_checked checked]

theorem decodeToolCall_encodeToolCall {call : ToolCall} (checked : toolCallChecked call = true) :
    decodeToolCall (sortKeys (encodeToolCall call)) = .ok call := by
  rw [encodeToolCall]
  simp (disch := simp [keys]) [decodeToolCall, item_sorted, asString,
    decodeJson_encodeJson (.obj call.arguments.entries) call.arguments.frozen,
    call.arguments.frozen, build_checked checked]

theorem decodeToolCalls_encodeToolCalls {calls : List ToolCall}
    (checked : calls.all toolCallChecked = true) :
    ((calls.map encodeToolCall).map sortKeys).mapM decodeToolCall = .ok calls := by
  apply mapM_round_trip fun call => .ok (encodeToolCall call)
  · intro call member record encoded
    cases encoded
    exact decodeToolCall_encodeToolCall (List.all_eq_true.mp checked call member)
  · induction calls with
    | nil => rfl
    | cons call calls ih =>
      rw [List.all_cons, Bool.and_eq_true] at checked
      rw [List.mapM_cons, ih checked.2]
      rfl

theorem decodeError_encodeError (error : ToolErrorInfo) :
    decodeError (sortKeys (encodeError error)) = .ok error := by
  rw [encodeError]
  simp (disch := simp [keys]) [decodeError, item_sorted, keywords_sorted, asString, lookup_sorted,
    List.lookup, error.new_self]

theorem decodeStatus_encodeStatus (status : ToolResultStatus) :
    decodeStatus (sortKeys (encodeStatus status)) = .ok status := by
  cases status with
  | success => simp [encodeStatus, decodeStatus]
  | error => simp [encodeStatus, decodeStatus]

theorem decodeContents_encodeContents (correct : lib.Correct) {contents : List MessageContent}
    {data : List JsonValue} (checked : contents.all (contentChecked lib) = true)
    (encoded : contents.mapM (encodeContent lib maxInlineBytes) = .ok data) :
    (data.map sortKeys).mapM (decodeContent lib maxInlineBytes) = .ok contents :=
  mapM_round_trip _ (fun content member _ => decodeContent_encodeContent correct
    (List.all_eq_true.mp checked content member)) encoded

/-- The fields every message has, read back. -/
theorem decodeMessage_messageFields (correct : lib.Correct) {kind messageId : String}
    {timestamp : PyFloat} {contents : List MessageContent} {data : List JsonValue} {own : Fields}
    (fresh : String)
    (distinct : (["type", "message_id", "timestamp", "content"] ++ keys own).Nodup)
    (checked : commonChecked lib contents timestamp messageId = true)
    (written : contents.mapM (encodeContent lib maxInlineBytes) = .ok data) :
    decodeMessage lib maxInlineBytes fresh
        (sortKeys (messageFields kind messageId timestamp data own)) =
      decodeFields lib (sorted ([("type", .str kind), ("message_id", .str messageId),
        ("timestamp", .float timestamp), ("content", .arr data)] ++ own))
        contents timestamp messageId := by
  simp only [commonChecked, Bool.and_eq_true, bne_iff_ne] at checked
  have read := decodeContents_encodeContents correct checked.1.1 written
  have distinct' : (keys ([("type", JsonValue.str kind), ("message_id", .str messageId),
      ("timestamp", .float timestamp), ("content", .arr data)] ++ own)).Nodup := distinct
  rw [messageFields, sortKeys_obj, decodeMessage]
  simp only [getField_sorted distinct']
  simp [sortKeys_arr, decodeTimestamp, checked, read, decodeMessageId]

theorem decodeMessage_encodeMessage (correct : lib.Correct) (message : AgentMessage)
    {data : JsonValue} (fresh : String) (checked : messageChecked lib message = true)
    (admitted : ({} : MediaLimits).admits message.content = true)
    (encoded : encodeMessage lib maxInlineBytes message = .ok data) :
    decodeMessage lib maxInlineBytes fresh (sortKeys data) = .ok message := by
  cases message with
  | user message =>
    obtain ⟨contents, written, made⟩ := bind_eq_ok encoded
    cases made
    have h := checked
    simp only [messageChecked, userChecked, Bool.and_eq_true] at h
    rw [decodeMessage_messageFields correct fresh (by decide) h.1 written]
    simp (disch := simp [keys]) [decodeFields, getField_sorted, decodeUser, guarded, build,
      admitted, checked]
  | assistant message =>
    obtain ⟨content, toolCalls, reasoning, timestamp, messageId⟩ := message
    obtain ⟨contents, written, made⟩ := bind_eq_ok encoded
    cases made
    have h := checked
    simp only [messageChecked, assistantChecked, Bool.and_eq_true] at h
    have calls := decodeToolCalls_encodeToolCalls h.1.2
    cases reasoning with
    | none =>
      rw [decodeMessage_messageFields correct fresh (by simp [keys]) h.1.1 written]
      simp (disch := simp [keys]) [-List.map_map, decodeFields, getField_sorted, decodeAssistant,
        lookup_sorted, List.lookup, list_arr, calls, decodeReasoning, guarded, build, admitted,
        checked]
    | some text =>
      rw [decodeMessage_messageFields correct fresh (by simp [keys]) h.1.1 written]
      simp (disch := simp [keys]) [-List.map_map, decodeFields, getField_sorted, decodeAssistant,
        lookup_sorted, List.lookup, list_arr, calls, decodeReasoning, guarded, build, admitted,
        checked]
  | toolResult message =>
    obtain ⟨toolCallId, toolName, status, content, error, timestamp, messageId⟩ := message
    obtain ⟨contents, written, made⟩ := bind_eq_ok encoded
    cases made
    have h := checked
    simp only [messageChecked, toolResultChecked, Bool.and_eq_true] at h
    rw [decodeMessage_messageFields correct fresh (by simp [keys]) h.1.1.1 written]
    have read : decodeNullable decodeError (sortKeys (error.elim .null encodeError)) = .ok error :=
      decodeNullable_elim (fun error _ => decodeError_encodeError error) (by simp [encodeError, sortKeys_obj])
    simp (disch := simp [keys]) [decodeFields, getField_sorted, item_sorted, decodeToolResult,
      decodeStatus_encodeStatus, read, asString, guarded, build, admitted, checked]

theorem decodeReceipt_encodeReceipt {receipt : InputReceipt}
    (checked : receiptChecked receipt = true) :
    decodeReceipt (sortKeys (encodeReceipt receipt)) = .ok receipt := by
  rw [encodeReceipt]
  simp (disch := simp [keys]) [decodeReceipt, item_sorted, keywords_sorted, asString, asNatural,
    build_checked checked]

theorem decodeKind_encodeKind (kind : InputKind) :
    decodeKind (sortKeys (encodeKind kind)) = .ok kind := by
  cases kind with
  | steer => simp [encodeKind, decodeKind]
  | followUp => simp [encodeKind, decodeKind]

theorem decodePending_encodePending (correct : lib.Correct) {pending : PendingInput}
    {data : JsonValue} (fresh : String) (checked : userChecked lib pending.message = true)
    (promised : receiptChecked pending.receipt = true)
    (admitted : ({} : MediaLimits).admits pending.message.content = true)
    (encoded : encodePending lib maxInlineBytes pending = .ok data) :
    decodePending lib maxInlineBytes fresh (sortKeys data) = .ok pending := by
  obtain ⟨record, written, made⟩ := bind_eq_ok encoded
  cases made
  have message := decodeMessage_encodeMessage correct (.user pending.message) fresh
    checked admitted written
  simp (disch := simp [keys]) [decodePending, item_sorted, message,
    decodeReceipt_encodeReceipt promised, decodeKind_encodeKind]

theorem sortKeys_of_scalarEqual {value : JsonValue} (zero : scalarEqual value (.int 0) = true) :
    sortKeys value = value := by
  cases value with
  | null => exact sortKeys_null
  | bool value => exact sortKeys_bool value
  | int value => exact sortKeys_int value
  | float value => exact sortKeys_float value
  | str text => exact sortKeys_str text
  | arr items => cases zero
  | obj entries => cases zero

theorem decodeCompaction_encodeCompaction {summary : ContextSummary}
    (checked : summaryChecked summary = true) :
    decodeCompaction (sortKeys (encodeCompaction summary)) = .ok summary := by
  have h := checked
  simp only [summaryChecked, Bool.and_eq_true] at h
  rw [encodeCompaction]
  simp (disch := simp [keys]) [decodeCompaction, item_sorted, getField_sorted, keywords_sorted,
    asString, asNatural, sortKeys_of_scalarEqual h.1.1.1, build_checked checked]

theorem decodeMessages_encodeMessages (correct : lib.Correct) {messages : List AgentMessage}
    {data : List JsonValue} (checked : ∀ message ∈ messages, messageChecked lib message = true)
    (admitted : ∀ message ∈ messages, ({} : MediaLimits).admits message.content = true)
    (encoded : messages.mapM (encodeMessage lib maxInlineBytes) = .ok data) (place : Nat) :
    decodeAll lib (decodeMessage lib maxInlineBytes) place (data.map sortKeys) = .ok messages :=
  decodeAll_round_trip lib (fun message member _ written fresh =>
    decodeMessage_encodeMessage correct message fresh (checked message member) (admitted message member)
      written) encoded place

theorem decodePendings_encodePendings (correct : lib.Correct) {pending : List PendingInput}
    {data : List JsonValue}
    (checked : ∀ item ∈ pending,
      userChecked lib item.message = true ∧ receiptChecked item.receipt = true)
    (admitted : ∀ item ∈ pending, ({} : MediaLimits).admits item.message.content = true)
    (encoded : pending.mapM (encodePending lib maxInlineBytes) = .ok data) (place : Nat) :
    decodeAll lib (decodePending lib maxInlineBytes) place (data.map sortKeys) = .ok pending :=
  decodeAll_round_trip lib (fun item member _ written fresh =>
    decodePending_encodePending correct fresh (checked item member).1 (checked item member).2
      (admitted item member) written) encoded place

/-- The dict that encode built, read back: only the messages can still be refused. -/
theorem decodeSnapshot_encodeData {snapshot : SessionSnapshot}
    {value : JsonValue} (constructed : Constructed lib snapshot)
    (schema : snapshot.schemaVersion = 2)
    (built : encodeData lib maxInlineBytes snapshot = .ok value) :
    ∃ entries records items, value = .obj entries ∧
      getField (sorted entries) "schema_version" = .int 2 ∧
      snapshot.messages.mapM (encodeMessage lib maxInlineBytes) = .ok records ∧
      snapshot.pending.mapM (encodePending lib maxInlineBytes) = .ok items ∧
      decodeSnapshot lib maxInlineBytes (sorted entries) = (do
        let messages ← decodeAll lib (decodeMessage lib maxInlineBytes) 0 (records.map sortKeys)
        let pending ← decodeAll lib (decodePending lib maxInlineBytes) messages.length
          (items.map sortKeys)
        .ok { snapshot with messages, pending }) := by
  obtain ⟨version, sessionId, revision, last, messages, pending, compaction, metadata⟩ := snapshot
  obtain rfl : version = 2 := schema
  obtain ⟨records, messagesWritten, built⟩ := bind_eq_ok built
  obtain ⟨items, pendingWritten, built⟩ := bind_eq_ok built
  cases built
  have readCompaction : decodeNullable decodeCompaction
      (sortKeys (compaction.elim .null encodeCompaction)) = .ok compaction :=
    decodeNullable_elim
      (fun summary present => decodeCompaction_encodeCompaction
        (constructed.compaction summary present))
      (by simp [encodeCompaction, sortKeys_obj])
  have readMetadata := decodeJson_encodeJson (.obj metadata.entries) metadata.frozen
  refine ⟨_, records, items, rfl, ?_, messagesWritten, pendingWritten, ?_⟩
  · simp (disch := simp [keys]) [getField_sorted]
  · have checked (messages : List AgentMessage) (pending : List PendingInput) :
        build snapshotChecked
          ⟨2, sessionId, revision, last, messages, pending, compaction, metadata⟩ = .ok _ :=
      build_checked constructed.snapshot
    simp (disch := simp [keys]) [getField_sorted, item_sorted, decodeSnapshot, list_arr,
      readCompaction, readMetadata, metadata.frozen, asString, asNatural, checked]

theorem loads_dumped (correct : lib.Correct) {value : JsonValue} {data : List UInt8}
    (dumped : (lib.dumps value).elim (.error .plain) .ok = (.ok data : Result (List UInt8))) :
    lib.loads data = some (sortKeys value) := by
  cases found : lib.dumps value with
  | none =>
    rw [found] at dumped
    cases dumped
  | some text =>
    rw [found] at dumped
    cases dumped
    exact correct.json value _ found

theorem decode_loaded {data : List UInt8} {entries : Fields}
    (loaded : lib.loads data = some (sortKeys (.obj entries)))
    (version : getField (sorted entries) "schema_version" = .int 2) :
    decode lib maxInlineBytes data =
      guarded "Invalid Session snapshot." (decodeSnapshot lib maxInlineBytes (sorted entries)) := by
  rw [decode, loaded]
  simp [version]

theorem decodeSnapshot_round_trip (correct : lib.Correct) {snapshot : SessionSnapshot}
    {value : JsonValue} (constructed : Constructed lib snapshot)
    (schema : snapshot.schemaVersion = 2)
    (admitted : ∀ content ∈ allContents snapshot, ({} : MediaLimits).admits content = true)
    (built : encodeData lib maxInlineBytes snapshot = .ok value) :
    ∃ entries, value = .obj entries ∧ getField (sorted entries) "schema_version" = .int 2 ∧
      decodeSnapshot lib maxInlineBytes (sorted entries) = .ok snapshot := by
  obtain ⟨entries, records, items, rfl, version, messagesWritten, pendingWritten, read⟩ :=
    decodeSnapshot_encodeData constructed schema built
  have readMessages := decodeMessages_encodeMessages correct constructed.messages
    (fun message member => admitted _ (List.mem_append_left _ (List.mem_map_of_mem member)))
    messagesWritten 0
  have readPending := decodePendings_encodePendings correct constructed.pending
    (fun item member => admitted _ (List.mem_append_right _
      (List.mem_map_of_mem (f := fun item : PendingInput => item.message.content) member)))
    pendingWritten snapshot.messages.length
  refine ⟨entries, rfl, version, ?_⟩
  rw [read, readMessages, ok_bind, readPending]
  rfl

/-- What encode succeeds on, decode gives back, every component as it was. -/
theorem decode_encode (lib : Library) (correct : lib.Correct) (maxInlineBytes : Nat)
    (snapshot : SessionSnapshot) (data : List UInt8) (constructed : Constructed lib snapshot)
    (schema : snapshot.schemaVersion = 2)
    (admitted : ∀ content ∈ allContents snapshot, ({} : MediaLimits).admits content = true)
    (encoded : encode lib maxInlineBytes snapshot = .ok data) :
    decode lib maxInlineBytes data = .ok snapshot := by
  obtain ⟨value, built, dumped⟩ := bind_eq_ok encoded
  obtain ⟨entries, rfl, version, read⟩ :=
    decodeSnapshot_round_trip correct constructed schema admitted built
  rw [decode_loaded (loads_dumped correct dumped) version, read]
  rfl

section Witness

/-- A library whose json knows one value and its text. -/
def libraryOf (value : JsonValue) (text : String) : Library where
  urlparse _ := none
  float _ := none
  uuid4 place := toString place
  b64encode := Base64.encode
  b64decode := Base64.decode
  dumps other := if other = value then some text.toUTF8.data.toList else none
  loads data := if data = text.toUTF8.data.toList then some (sortKeys value) else none

theorem libraryOf_correct (value : JsonValue) (text : String) :
    (libraryOf value text).Correct where
  base64 data := Base64.decode_encoded data
  json other data dumped := by
    simp only [libraryOf] at dumped ⊢
    split at dumped
    · rename_i same
      cases dumped
      rw [if_pos rfl, same]
    · cases dumped

def photographed : UserMessage where
  content := [.text "hi", .image (.bytes [104, 105]) (some "image/png") none]
  timestamp := ⟨0x41d954fc40000000⟩
  messageId := "m1"

def stored : SessionSnapshot where
  schemaVersion := 2
  sessionId := "s1"
  revision := 3
  lastPendingSequence := 1
  messages := [.user photographed]
  pending := []
  compaction := none
  metadata := ⟨[("tags", .arr [.bool true, .int 1]), ("a", .null)], by decide⟩

def storedData : JsonValue :=
  .obj [("schema_version", .int 2), ("session_id", .str "s1"), ("revision", .int 3),
    ("last_pending_sequence", .int 1),
    ("messages", .arr [.obj [("type", .str "user_message"), ("message_id", .str "m1"),
      ("timestamp", .float ⟨0x41d954fc40000000⟩),
      ("content", .arr [.obj [("type", .str "text"), ("text", .str "hi")],
        .obj [("type", .str "image"),
          ("source", .obj [("type", .str "bytes"), ("encoding", .str "base64"),
            ("data", .str "aGk=")]),
          ("media_type", .str "image/png"), ("detail", .null)]])]]),
    ("pending", .arr []), ("compaction", .null),
    ("metadata", .obj [("type", .str "object"), ("entries", .arr [
      .arr [.str "tags", .obj [("type", .str "array"), ("items", .arr [
        .obj [("type", .str "scalar"), ("value", .bool true)],
        .obj [("type", .str "scalar"), ("value", .int 1)]])]],
      .arr [.str "a", .obj [("type", .str "scalar"), ("value", .null)]]])])]

def storedText : String :=
  "\x7b\"compaction\":null,\"last_pending_sequence\":1,\"messages\":[\x7b\"content\":[" ++
  "\x7b\"text\":\"hi\",\"type\":\"text\"\x7d,\x7b\"detail\":null,\"media_type\":\"image/png\"," ++
  "\"source\":\x7b\"data\":\"aGk=\",\"encoding\":\"base64\",\"type\":\"bytes\"\x7d,\"type\":\"image\"\x7d]," ++
  "\"message_id\":\"m1\",\"timestamp\":1700000000.0,\"type\":\"user_message\"\x7d]," ++
  "\"metadata\":\x7b\"entries\":[[\"tags\",\x7b\"items\":[\x7b\"type\":\"scalar\",\"value\":true\x7d," ++
  "\x7b\"type\":\"scalar\",\"value\":1\x7d],\"type\":\"array\"\x7d],[\"a\",\x7b\"type\":\"scalar\"," ++
  "\"value\":null\x7d]],\"type\":\"object\"\x7d,\"pending\":[],\"revision\":3," ++
  "\"schema_version\":2,\"session_id\":\"s1\"\x7d"

theorem encodeData_stored :
    encodeData (libraryOf storedData storedText) 8388608 stored = .ok storedData := by
  rfl

theorem decode_encode_stored :
    decode (libraryOf storedData storedText) 8388608 storedText.toUTF8.data.toList =
      .ok stored := by
  apply decode_encode (libraryOf storedData storedText) (libraryOf_correct storedData storedText)
  · exact {
      messages := by decide
      pending := nofun
      compaction := nofun
      snapshot := by decide }
  · rfl
  · decide
  · rw [encode, encodeData_stored, ok_bind]
    simp [libraryOf]

end Witness

end RoboAgent.SnapshotRoundTrip
