import RoboAgent.SnapshotRoundTrip
import RoboAgent.SessionRestore
import RoboAgent.JsonIdentity

/-! Which snapshots can be stored and loaded. A Session checks its transcript against the media
limits of its Agent and its queue against nothing; the codec has limits of its own, and json.dumps
refuses long integers. -/

namespace RoboAgent.SnapshotStorage
open RoboAgent.FrozenJson RoboAgent.SortedJson RoboAgent.KeyedLists RoboAgent.JsonIdentity
open RoboAgent.ToolErrors RoboAgent.ToolEffects RoboAgent.Messages RoboAgent.MessageChecks
open RoboAgent.SnapshotCodec RoboAgent.SnapshotRoundTrip RoboAgent.SessionState
open RoboAgent.SessionWorld RoboAgent.SessionSteps RoboAgent.SessionTranscript RoboAgent.Runs
open RoboAgent.SessionRestore RoboAgent.ContextCompaction
open RoboAgent.FalliblePrograms (bind_eq_ok ok_bind map_eq_ok)

variable {α β : Type}

theorem mapM_eq_ok {f : α → Result β} {values : List α} {results : List β}
    (h : values.mapM f = .ok results) :
    ∀ value ∈ values, ∃ result ∈ results, f value = .ok result := by
  induction values generalizing results with
  | nil => exact nofun
  | cons value values ih =>
    rw [List.mapM_cons] at h
    obtain ⟨first, made, h⟩ := bind_eq_ok h
    obtain ⟨rest, later, h⟩ := bind_eq_ok h
    cases h
    intro other mem
    obtain rfl | mem := List.mem_cons.mp mem
    · exact ⟨first, List.mem_cons_self, made⟩
    · obtain ⟨result, inside, made⟩ := ih later other mem
      exact ⟨result, List.mem_cons_of_mem _ inside, made⟩

theorem mapM_ok {f : α → Result β} {values : List α}
    (h : ∀ value ∈ values, ∃ result, f value = .ok result) :
    ∃ results, values.mapM f = .ok results := by
  induction values with
  | nil => exact ⟨[], rfl⟩
  | cons value values ih =>
    obtain ⟨first, made⟩ := h value List.mem_cons_self
    obtain ⟨rest, later⟩ := ih fun other mem => h other (List.mem_cons_of_mem _ mem)
    exact ⟨first :: rest, by rw [List.mapM_cons, made, ok_bind, later]; rfl⟩

section Limits

/-- The part of the media limits that concerns one block. -/
def inlineWithin (maxInlineBytes : Nat) : MessageContent → Prop
  | .image (.bytes data) _ _ | .audio (.bytes data) _ _ | .file (.bytes data) _ _ =>
    data.length ≤ maxInlineBytes
  | _ => True

theorem admits_iff {limits : MediaLimits} {contents : List MessageContent} :
    limits.admits contents = true ↔ contents.length ≤ limits.maxContentsPerMessage ∧
      ∀ content ∈ contents, inlineWithin limits.maxInlineBytes content := by
  rw [MediaLimits.admits, Bool.and_eq_true, decide_eq_true_eq, List.all_eq_true]
  refine and_congr_right fun _ => forall₂_congr fun content _ => ?_
  rcases content with _ | _ | ⟨source, _, _⟩ | ⟨source, _, _⟩ | ⟨source, _, _⟩ | _
  case image | audio | file =>
    cases source with
    | bytes data => exact decide_eq_true_iff
    | _ => exact iff_of_true rfl trivial
  all_goals exact iff_of_true rfl trivial

variable {lib : Library} {maxInlineBytes : Nat}

theorem encodeSource_ok {source : MediaSource} :
    (∃ data, encodeSource lib maxInlineBytes source = .ok data) ↔
      ∀ data, source = .bytes data → data.length ≤ maxInlineBytes := by
  cases source with
  | bytes data =>
    rw [encodeSource]
    split_ifs with large
    · refine iff_of_false (by rintro ⟨_, ⟨⟩⟩) fun within => ?_
      exact absurd (within data rfl) (Nat.not_le.mpr large)
    · refine iff_of_true ⟨_, rfl⟩ fun other same => ?_
      cases same
      exact Nat.le_of_not_lt large
  | file path => exact iff_of_true ⟨_, rfl⟩ (by rintro _ ⟨⟩)
  | url url => exact iff_of_true ⟨_, rfl⟩ (by rintro _ ⟨⟩)

theorem encodeMedia_ok {kind field : String} {source : MediaSource}
    {mediaType extra : Option String} :
    (∃ data, encodeMedia lib maxInlineBytes kind field source mediaType extra = .ok data) ↔
      ∀ data, source = .bytes data → data.length ≤ maxInlineBytes := by
  rw [← @encodeSource_ok lib]
  constructor
  · rintro ⟨data, encoded⟩
    obtain ⟨record, made, -⟩ := bind_eq_ok encoded
    exact ⟨record, made⟩
  · rintro ⟨record, made⟩
    exact ⟨_, by rw [encodeMedia, made]; rfl⟩

theorem encodeContent_ok {content : MessageContent} :
    (∃ data, encodeContent lib maxInlineBytes content = .ok data) ↔
      inlineWithin maxInlineBytes content := by
  rcases content with _ | _ | ⟨source, _, _⟩ | ⟨source, _, _⟩ | ⟨source, _, _⟩ | _
  case image | audio | file =>
    refine encodeMedia_ok.trans ?_
    cases source with
    | bytes data => exact ⟨fun within => within data rfl, fun within _ same => by cases same; exact within⟩
    | _ => exact iff_of_true nofun trivial
  all_goals exact iff_of_true ⟨_, rfl⟩ trivial

theorem encodeMessage_ok {message : AgentMessage} :
    (∃ data, encodeMessage lib maxInlineBytes message = .ok data) ↔
      ∀ content ∈ message.content, inlineWithin maxInlineBytes content := by
  have contents : (∃ data, message.content.mapM (encodeContent lib maxInlineBytes) = .ok data) ↔
      ∀ content ∈ message.content, inlineWithin maxInlineBytes content := by
    refine ⟨fun ⟨data, written⟩ content mem => ?_, fun within => ?_⟩
    · obtain ⟨record, -, made⟩ := mapM_eq_ok written content mem
      exact encodeContent_ok.mp ⟨record, made⟩
    · exact mapM_ok fun content mem => encodeContent_ok.mpr (within content mem)
  rw [← contents]
  cases message with
  | _ message =>
    constructor
    · rintro ⟨data, encoded⟩
      obtain ⟨records, written, -⟩ := bind_eq_ok encoded
      exact ⟨records, written⟩
    · rintro ⟨records, written⟩
      exact ⟨_, by rw [encodeMessage]; exact congrArg (· >>= _) written⟩

end Limits

section Digits

/-- The integers of a snapshot that Python can print. -/
def printableContent : MessageContent → Bool
  | .json value => printable value
  | .artifact reference => printable (.int reference.size)
  | _ => true

def printableMessage : AgentMessage → Bool
  | .user message => message.content.all printableContent
  | .assistant message => message.content.all printableContent &&
      message.toolCalls.all fun call => printable (.obj call.arguments.entries)
  | .toolResult message => message.content.all printableContent

def printablePending (item : PendingInput) : Bool :=
  printable (.int item.receipt.sequence) && printableMessage (.user item.message)

def printableSummary (summary : ContextSummary) : Bool :=
  printable (.int summary.sourceEndExclusive) && printable (.int summary.summaryFormatVersion)

def printableSnapshot (snapshot : SessionSnapshot) : Bool :=
  printable (.int snapshot.revision) && printable (.int snapshot.lastPendingSequence) &&
    snapshot.messages.all printableMessage && snapshot.pending.all printablePending &&
    snapshot.compaction.all printableSummary && printable (.obj snapshot.metadata.entries)

theorem all_congr {p q : α → Bool} {values : List α} (h : ∀ value ∈ values, p value = q value) :
    values.all p = values.all q := by
  rw [Bool.eq_iff_iff, List.all_eq_true, List.all_eq_true]
  exact forall₂_congr fun value mem => by rw [h value mem]

theorem all_mapM {encode : α → Result JsonValue} {p : α → Bool} {values : List α}
    {data : List JsonValue}
    (each : ∀ value ∈ values, ∀ record, encode value = .ok record → printable record = p value)
    (encoded : values.mapM encode = .ok data) : printable (.arr data) = values.all p := by
  rw [printable_arr]
  induction values generalizing data with
  | nil =>
    cases encoded
    rfl
  | cons value values ih =>
    rw [List.mapM_cons] at encoded
    obtain ⟨record, first, encoded⟩ := bind_eq_ok encoded
    obtain ⟨records, rest, encoded⟩ := bind_eq_ok encoded
    cases encoded
    rw [List.all_cons, List.all_cons, each value List.mem_cons_self record first,
      ih (fun v member => each v (List.mem_cons_of_mem value member)) rest]

theorem encodeItems_eq_map (items : List JsonValue) : encodeItems items = items.map encodeJson := by
  induction items with
  | nil => rfl
  | cons item items ih => rw [encodeItems, ih, List.map_cons]

theorem encodeEntries_eq_map (entries : Fields) : encodeEntries entries =
    entries.map fun entry => .arr [.str entry.1, encodeJson entry.2] := by
  induction entries with
  | nil => rfl
  | cons entry entries ih => rw [encodeEntries, ih, List.map_cons]

@[simp] theorem printable_str (text : String) : printable (.str text) = true := rfl

@[simp] theorem printable_bool (value : Bool) : printable (.bool value) = true := rfl

@[simp] theorem printable_null : printable .null = true := rfl

@[simp] theorem printable_float (value : PyFloat) : printable (.float value) = true := rfl

@[simp] theorem printable_orNull (text : Option String) : printable (orNull text) = true := by
  cases text <;> rfl

theorem printable_encodeJson (value : JsonValue) : printable (encodeJson value) = printable value := by
  induction value using JsonValue.ofParts with
  | arr items ih =>
    rw [encodeJson, encodeItems_eq_map]
    simp only [printable_obj, List.all_cons, List.all_nil, printable_str, printable_arr,
      List.all_map, Bool.true_and, Bool.and_true]
    exact all_congr fun item mem => ih item mem
  | obj entries ih =>
    rw [encodeJson, encodeEntries_eq_map]
    simp only [printable_obj, List.all_cons, List.all_nil, printable_str, printable_arr,
      List.all_map, Bool.true_and, Bool.and_true]
    refine all_congr fun entry mem => ?_
    simp only [Function.comp_apply, printable_arr, List.all_cons, List.all_nil, printable_str,
      Bool.true_and, Bool.and_true, ih entry mem]
  | _ => simp [encodeJson, printable_obj]

variable {lib : Library} {maxInlineBytes : Nat}

theorem printable_encodeSource {source : MediaSource} {record : JsonValue}
    (encoded : encodeSource lib maxInlineBytes source = .ok record) : printable record = true := by
  cases source with
  | bytes data =>
    rw [encodeSource] at encoded
    split_ifs at encoded
    cases encoded
    simp [printable_obj]
  | file path =>
    cases encoded
    simp [printable_obj]
  | url url =>
    cases encoded
    simp [printable_obj]

theorem printable_encodeMedia {kind field : String} {source : MediaSource}
    {mediaType extra : Option String} {record : JsonValue}
    (encoded : encodeMedia lib maxInlineBytes kind field source mediaType extra = .ok record) :
    printable record = true := by
  obtain ⟨data, written, made⟩ := bind_eq_ok encoded
  cases made
  simp [printable_obj, printable_encodeSource written]

theorem printable_encodeContent {content : MessageContent} {record : JsonValue}
    (encoded : encodeContent lib maxInlineBytes content = .ok record) :
    printable record = printableContent content := by
  cases content with
  | text text =>
    cases encoded
    simp [printable_obj, printableContent]
  | json value =>
    cases encoded
    simp [printable_obj, printableContent, printable_encodeJson]
  | artifact reference =>
    cases encoded
    simp [printable_obj, printableContent]
  | image => exact printable_encodeMedia encoded
  | audio => exact printable_encodeMedia encoded
  | file => exact printable_encodeMedia encoded

theorem printable_encodeToolCall (call : ToolCall) :
    printable (encodeToolCall call) = printable (.obj call.arguments.entries) := by
  simp [encodeToolCall, printable_obj (_ :: _), printable_encodeJson]

theorem printable_encodeError (error : Option ToolErrorInfo) :
    printable (error.elim .null encodeError) = true := by
  cases error with
  | none => rfl
  | some error => simp [encodeError, printable_obj]

theorem printable_encodeMessage {message : AgentMessage} {record : JsonValue}
    (encoded : encodeMessage lib maxInlineBytes message = .ok record) :
    printable record = printableMessage message := by
  cases message with
  | user message =>
    obtain ⟨contents, written, made⟩ := bind_eq_ok encoded
    cases made
    have same := all_mapM (fun _ _ _ => printable_encodeContent) written
    simp [messageFields, printable_obj (_ :: _), printableMessage, same]
  | assistant message =>
    obtain ⟨contents, written, made⟩ := bind_eq_ok encoded
    cases made
    have same := all_mapM (fun _ _ _ => printable_encodeContent) written
    have calls : printable (.arr (message.toolCalls.map encodeToolCall)) =
        message.toolCalls.all fun call => printable (.obj call.arguments.entries) := by
      rw [printable_arr, List.all_map]
      exact all_congr fun call _ => printable_encodeToolCall call
    cases message.reasoningContent with
    | none => simp [messageFields, printable_obj (_ :: _), printableMessage, same, calls]
    | some text => simp [messageFields, printable_obj (_ :: _), printableMessage, same, calls]
  | toolResult message =>
    obtain ⟨contents, written, made⟩ := bind_eq_ok encoded
    cases made
    have same := all_mapM (fun _ _ _ => printable_encodeContent) written
    have status : printable (encodeStatus message.status) = true := by
      cases message.status <;> rfl
    simp [messageFields, printable_obj (_ :: _), printableMessage, same, status,
      printable_encodeError]

theorem printable_encodePending {item : PendingInput} {record : JsonValue}
    (encoded : encodePending lib maxInlineBytes item = .ok record) :
    printable record = printablePending item := by
  obtain ⟨data, written, made⟩ := bind_eq_ok encoded
  cases made
  have kind : printable (encodeKind item.kind) = true := by cases item.kind <;> rfl
  simp [printable_obj, printablePending, encodeReceipt, printable_encodeMessage written, kind]

theorem printable_of_scalarEqual {value : JsonValue} (zero : scalarEqual value (.int 0) = true) :
    printable value = true := by
  cases value with
  | int n =>
    obtain rfl : n = 0 := by simpa [scalarEqual, numeric] using zero
    decide
  | arr items => cases zero
  | obj entries => cases zero
  | _ => rfl

theorem printable_encodeCompaction {summary : ContextSummary}
    (checked : summaryChecked summary = true) :
    printable (encodeCompaction summary) = printableSummary summary := by
  simp only [summaryChecked, Bool.and_eq_true] at checked
  simp [encodeCompaction, printable_obj, printableSummary,
    printable_of_scalarEqual checked.1.1.1]

/-- What encode hands to json.dumps can be printed if the integers of the snapshot can. -/
theorem printable_encodeData {snapshot : SessionSnapshot} {value : JsonValue}
    (constructed : Constructed lib snapshot)
    (built : encodeData lib maxInlineBytes snapshot = .ok value)
    (version : printable (.int snapshot.schemaVersion) = true) :
    printable value = printableSnapshot snapshot := by
  obtain ⟨records, messagesWritten, built⟩ := bind_eq_ok built
  obtain ⟨items, pendingWritten, built⟩ := bind_eq_ok built
  cases built
  have messages := all_mapM (fun _ _ _ => printable_encodeMessage) messagesWritten
  have pending := all_mapM (fun _ _ _ => printable_encodePending) pendingWritten
  have compaction : printable (snapshot.compaction.elim .null encodeCompaction) =
      snapshot.compaction.all printableSummary := by
    cases present : snapshot.compaction with
    | none => rfl
    | some summary => exact printable_encodeCompaction (constructed.compaction summary present)
  simp [printable_obj (_ :: _), printable_encodeJson, printableSnapshot, messages, pending,
    compaction, version, Bool.and_assoc]

end Digits

section Reading
variable {lib : Library} {maxInlineBytes : Nat}

theorem guarded_eq_ok {message : String} {result : Result α} {value : α}
    (h : guarded message result = .ok value) : result = .ok value := by
  rcases result with (_ | _) | _
  · cases h
  · cases h
  · exact h

theorem admits_of_build {message other : AgentMessage}
    (h : build (fun message => ({} : MediaLimits).admits message.content &&
      messageChecked lib message) message = .ok other) :
    ({} : MediaLimits).admits message.content = true := by
  rw [build] at h
  split_ifs at h with valid
  exact (Bool.and_eq_true_iff.mp valid).1

/-- Every message the codec constructs keeps the default limits, not those of an Agent. -/
theorem admits_of_decodeFields {value : Fields} {contents : List MessageContent}
    {timestamp : PyFloat} {messageId : String} {message : AgentMessage}
    (h : decodeFields lib value contents timestamp messageId = .ok message) :
    ({} : MediaLimits).admits contents = true := by
  have made := guarded_eq_ok h
  split at made
  · exact admits_of_build made
  · obtain ⟨_, -, made⟩ := bind_eq_ok made
    obtain ⟨_, -, made⟩ := bind_eq_ok made
    obtain ⟨_, -, made⟩ := bind_eq_ok made
    exact admits_of_build made
  · obtain ⟨_, -, made⟩ := bind_eq_ok made
    obtain ⟨_, -, made⟩ := bind_eq_ok made
    obtain ⟨_, -, made⟩ := bind_eq_ok made
    obtain ⟨_, -, made⟩ := bind_eq_ok made
    obtain ⟨_, -, made⟩ := bind_eq_ok made
    obtain ⟨_, -, made⟩ := bind_eq_ok made
    obtain ⟨_, -, made⟩ := bind_eq_ok made
    exact admits_of_build made
  · cases made

theorem encodeMessage_fields {message : AgentMessage} {record : JsonValue}
    (checked : messageChecked lib message = true)
    (encoded : encodeMessage lib maxInlineBytes message = .ok record) :
    ∃ kind messageId timestamp data own,
      record = messageFields kind messageId timestamp data own ∧
      (["type", "message_id", "timestamp", "content"] ++ keys own).Nodup ∧
      commonChecked lib message.content timestamp messageId = true ∧
      message.content.mapM (encodeContent lib maxInlineBytes) = .ok data := by
  cases message with
  | user message =>
    obtain ⟨contents, written, made⟩ := bind_eq_ok encoded
    cases made
    simp only [messageChecked, userChecked, Bool.and_eq_true] at checked
    exact ⟨_, _, _, _, _, rfl, by decide, checked.1, written⟩
  | assistant message =>
    obtain ⟨contents, written, made⟩ := bind_eq_ok encoded
    cases made
    simp only [messageChecked, assistantChecked, Bool.and_eq_true] at checked
    refine ⟨_, _, _, _, _, rfl, ?_, checked.1.1, written⟩
    cases message.reasoningContent with
    | none => simp [keys]
    | some text => simp [keys]
  | toolResult message =>
    obtain ⟨contents, written, made⟩ := bind_eq_ok encoded
    cases made
    simp only [messageChecked, toolResultChecked, Bool.and_eq_true] at checked
    exact ⟨_, _, _, _, _, rfl, by simp [keys], checked.1.1.1, written⟩

theorem admits_of_decodeMessage (correct : lib.Correct) {message other : AgentMessage}
    {record : JsonValue} {fresh : String} (checked : messageChecked lib message = true)
    (encoded : encodeMessage lib maxInlineBytes message = .ok record)
    (read : decodeMessage lib maxInlineBytes fresh (sortKeys record) = .ok other) :
    ({} : MediaLimits).admits message.content = true := by
  obtain ⟨kind, messageId, timestamp, data, own, rfl, distinct, common, written⟩ :=
    encodeMessage_fields checked encoded
  rw [decodeMessage_messageFields correct fresh distinct common written] at read
  exact admits_of_decodeFields read

theorem admits_of_decodePending (correct : lib.Correct) {item other : PendingInput}
    {record : JsonValue} {fresh : String} (checked : userChecked lib item.message = true)
    (encoded : encodePending lib maxInlineBytes item = .ok record)
    (read : decodePending lib maxInlineBytes fresh (sortKeys record) = .ok other) :
    ({} : MediaLimits).admits item.message.content = true := by
  obtain ⟨data, written, made⟩ := bind_eq_ok encoded
  cases made
  rw [decodePending, dict_obj, ok_bind] at read
  obtain ⟨stored, found, read⟩ := bind_eq_ok read
  obtain ⟨message, made, -⟩ := bind_eq_ok read
  have same : sortKeys data = stored := by
    simpa (disch := simp [keys]) [item_sorted] using found
  rw [← same] at made
  have user : messageChecked lib (.user item.message) = true := checked
  exact admits_of_decodeMessage correct user written made

theorem decodeAll_eq_ok {decode : String → JsonValue → Result α} {place : Nat}
    {data : List JsonValue} {values : List α} (h : decodeAll lib decode place data = .ok values) :
    ∀ record ∈ data, ∃ fresh value, decode fresh record = .ok value := by
  induction data generalizing place values with
  | nil => exact List.forall_mem_nil _
  | cons first rest ih =>
    rw [decodeAll] at h
    obtain ⟨value, made, h⟩ := bind_eq_ok h
    obtain ⟨others, later, -⟩ := bind_eq_ok h
    intro record mem
    obtain rfl | mem := List.mem_cons.mp mem
    · exact ⟨_, value, made⟩
    · exact ih later record mem

end Reading

/-- The default of the codec's max_inline_bytes. -/
def defaultInlineBytes : Nat := 8 * 1024 * 1024

/-- Every message keeps the default media limits, and every integer can be printed. -/
def Storable (snapshot : SessionSnapshot) : Prop :=
  (∀ contents ∈ allContents snapshot, ({} : MediaLimits).admits contents = true) ∧
    printableSnapshot snapshot = true

section Storing
variable {lib : Library} {snapshot : SessionSnapshot}

theorem mem_allContents {contents : List MessageContent} :
    contents ∈ allContents snapshot ↔ (∃ message ∈ snapshot.messages, message.content = contents) ∨
      ∃ item ∈ snapshot.pending, item.message.content = contents := by
  rw [allContents, List.mem_append, List.mem_map, List.mem_map]

theorem encodeData_ok (admitted : ∀ contents ∈ allContents snapshot,
    ({} : MediaLimits).admits contents = true) :
    ∃ value, encodeData lib defaultInlineBytes snapshot = .ok value := by
  have within (message : AgentMessage) (mem : message.content ∈ allContents snapshot) :
      ∃ record, encodeMessage lib defaultInlineBytes message = .ok record :=
    encodeMessage_ok.mpr (admits_iff.mp (admitted _ mem)).2
  obtain ⟨records, messages⟩ := mapM_ok (f := encodeMessage lib defaultInlineBytes)
    fun message (mem : message ∈ snapshot.messages) =>
      within message (mem_allContents.mpr (.inl ⟨message, mem, rfl⟩))
  obtain ⟨items, pending⟩ := mapM_ok (f := encodePending lib defaultInlineBytes)
    fun item (mem : item ∈ snapshot.pending) => by
      obtain ⟨record, made⟩ := within (.user item.message)
        (mem_allContents.mpr (.inr ⟨item, mem, rfl⟩))
      exact ⟨_, by rw [encodePending, made]; rfl⟩
  exact ⟨_, by rw [encodeData, messages, ok_bind, pending]; rfl⟩

theorem admits_of_decode (correct : lib.Correct) (constructed : Constructed lib snapshot)
    (schema : snapshot.schemaVersion = 2) {data : List UInt8} {other : SessionSnapshot}
    (encoded : encode lib defaultInlineBytes snapshot = .ok data)
    (decoded : decode lib defaultInlineBytes data = .ok other) :
    ∀ contents ∈ allContents snapshot, ({} : MediaLimits).admits contents = true := by
  obtain ⟨value, built, dumped⟩ := bind_eq_ok encoded
  obtain ⟨entries, records, items, rfl, version, messagesWritten, pendingWritten, read⟩ :=
    decodeSnapshot_encodeData constructed schema built
  rw [decode_loaded (loads_dumped correct dumped) version, read] at decoded
  obtain ⟨messages, messagesRead, decoded⟩ := bind_eq_ok (guarded_eq_ok decoded)
  obtain ⟨pending, pendingRead, -⟩ := bind_eq_ok decoded
  intro contents mem
  obtain ⟨message, held, rfl⟩ | ⟨item, held, rfl⟩ := mem_allContents.mp mem
  · obtain ⟨record, inside, made⟩ := mapM_eq_ok messagesWritten message held
    obtain ⟨fresh, other, read⟩ := decodeAll_eq_ok messagesRead _ (List.mem_map_of_mem inside)
    exact admits_of_decodeMessage correct (constructed.messages message held) made read
  · obtain ⟨record, inside, made⟩ := mapM_eq_ok pendingWritten item held
    obtain ⟨fresh, other, read⟩ := decodeAll_eq_ok pendingRead _ (List.mem_map_of_mem inside)
    exact admits_of_decodePending correct (constructed.pending item held).1 made read

/-- What json.dumps does to the dict of this snapshot: it refuses long integers only. -/
def Dumps (lib : Library) (snapshot : SessionSnapshot) : Prop :=
  ∀ value, encodeData lib defaultInlineBytes snapshot = .ok value →
    (lib.dumps value).isSome = printable value

theorem printableVersion (schema : snapshot.schemaVersion = 2) :
    printable (.int snapshot.schemaVersion) = true := by
  rw [schema]
  decide

theorem stored_of_storable (correct : lib.Correct) (constructed : Constructed lib snapshot)
    (schema : snapshot.schemaVersion = 2) (dumps : Dumps lib snapshot)
    (storable : Storable snapshot) :
    ∃ data, encode lib defaultInlineBytes snapshot = .ok data ∧
      decode lib defaultInlineBytes data = .ok snapshot := by
  obtain ⟨admitted, digits⟩ := storable
  obtain ⟨value, built⟩ : ∃ value, encodeData lib defaultInlineBytes snapshot = .ok value :=
    encodeData_ok admitted
  have written := dumps value built
  rw [printable_encodeData constructed built (printableVersion schema), digits] at written
  obtain ⟨data, found⟩ := Option.isSome_iff_exists.mp written
  have dumped : (lib.dumps value).elim (.error .plain) .ok = (.ok data : Result (List UInt8)) := by
    rw [found]
    rfl
  obtain ⟨entries, rfl, version, read⟩ :=
    decodeSnapshot_round_trip correct constructed schema admitted built
  refine ⟨data, ?_, ?_⟩
  · rw [encode, built]
    exact dumped
  · rw [decode_loaded (loads_dumped correct dumped) version, read]
    rfl

/-- The codec stores a snapshot and loads it again exactly when it is storable. -/
theorem storable_iff (correct : lib.Correct) (constructed : Constructed lib snapshot)
    (schema : snapshot.schemaVersion = 2) (dumps : Dumps lib snapshot) :
    (∃ data other, encode lib defaultInlineBytes snapshot = .ok data ∧
      decode lib defaultInlineBytes data = .ok other) ↔ Storable snapshot := by
  constructor
  · rintro ⟨data, other, encoded, decoded⟩
    refine ⟨admits_of_decode correct constructed schema encoded decoded, ?_⟩
    obtain ⟨value, built, dumped⟩ := bind_eq_ok encoded
    rw [← printable_encodeData constructed built (printableVersion schema), ← dumps value built]
    cases found : lib.dumps value with
    | none =>
      rw [found] at dumped
      cases dumped
    | some text => rfl
  · intro storable
    obtain ⟨data, encoded, decoded⟩ := stored_of_storable correct constructed schema dumps storable
    exact ⟨data, snapshot, encoded, decoded⟩

end Storing

section Runs
variable {digest : List AgentMessage → String} {limits : MediaLimits}

theorem outcome_limits {s : Session} {run : Option Run} {operation : Operation} {x : Section}
    (outcome : operation.outcome s run = some (.ok x)) :
    x.session.mediaLimits = s.mediaLimits := by
  cases operation with
  | commitInitialInput cancelled =>
    obtain ⟨run, -, outcome⟩ := Option.map_eq_some_iff.mp outcome
    simp only [Session.commitInitialInput] at outcome
    split_ifs at outcome <;> cases outcome <;> rfl
  | consumePending cancelled =>
    obtain ⟨run, -, outcome⟩ := Option.map_eq_some_iff.mp outcome
    simp only [Session.consumePending] at outcome
    split_ifs at outcome <;> cases outcome <;> rfl
  | _ =>
    have made := Option.some.inj outcome
    simp only [Session.enqueue, Session.clearPending, Session.commitMessage,
      Session.commitExchange, Session.commitCompaction, Session.setMetadata, Session.persist]
      at made
    split_ifs at made <;> cases made <;> rfl

theorem step_limits {w w' : World} {action : Action} (h : step w action = some w') :
    w'.session.mediaLimits = w.session.mediaLimits := by
  obtain ⟨operation, x, -, outcome, same⟩ | ⟨-, same⟩ := stepped_session (stepped h)
  · rw [same]
    exact outcome_limits outcome
  · rw [same]

/-- The limits of a Session are those of its Agent, and stay so when it is reopened. -/
theorem hostStep_limits {h h' : Host} {action : HostAction}
    (same : h.world.session.mediaLimits = limits) (moved : hostStep digest h action = some h') :
    h'.world.session.mediaLimits = limits := by
  cases action with
  | act action =>
    rw [hostStep] at moved
    split_ifs at moved
    obtain ⟨world, made, rfl⟩ := Option.map_eq_some_iff.mp moved
    exact (step_limits made).trans same
  | prepare manager contextWindow maxOutputTokens world =>
    rw [hostStep] at moved
    split at moved <;> cases moved
    exact same
  | commitCompaction runId index =>
    obtain ⟨update, -, moved⟩ := Option.bind_eq_some_iff.mp moved
    obtain ⟨world, made, rfl⟩ := Option.map_eq_some_iff.mp moved
    exact (step_limits made).trans same
  | reopen hasRepository record =>
    rw [hostStep] at moved
    split at moved
    · rename_i session made
      cases moved
      unfold restore at made
      split_ifs at made
      cases made
      exact same
    · cases moved

theorem started_limits {session : Session} (started : Started digest limits session) :
    session.mediaLimits = limits := by
  cases started with
  | created made =>
    unfold create at made
    split_ifs at made
    cases made
    rfl
  | restored made =>
    unfold restore at made
    split_ifs at made
    cases made
    rfl

/-- In every state a host can reach, the snapshot of the Session can be encoded, decoded and
restored under the limits of its Agent exactly when it is storable. -/
theorem admitted_stored {session : Session} {record : Option SessionSnapshot}
    {actions : List HostAction} {h : Host} {lib : Library} (correct : lib.Correct)
    (started : Started digest limits session)
    (reached : run (hostStep digest) (Host.opened session record) actions = some h)
    (constructed : Constructed lib h.world.session.snapshot)
    (dumps : Dumps lib h.world.session.snapshot) (hasRepository : Bool) :
    (∃ data snapshot restored,
      encode lib defaultInlineBytes h.world.session.snapshot = .ok data ∧
      decode lib defaultInlineBytes data = .ok snapshot ∧
      restore digest limits hasRepository snapshot = .ok restored) ↔
    Storable h.world.session.snapshot := by
  have inv := run_invariant_all (I := Compacted digest) (fun _ _ _ => hostStep_compacted)
    (started_compacted started record) reached
  have same : h.world.session.mediaLimits = limits :=
    run_invariant_all (I := fun h => h.world.session.mediaLimits = limits)
      (fun _ _ _ => hostStep_limits) (started_limits started) reached
  constructor
  · rintro ⟨data, snapshot, restored, encoded, decoded, -⟩
    exact (storable_iff correct constructed rfl dumps).mp ⟨data, snapshot, encoded, decoded⟩
  · intro storable
    obtain ⟨data, encoded, decoded⟩ := stored_of_storable correct constructed rfl dumps storable
    obtain ⟨restored, made, -⟩ := inv.restore hasRepository
    exact ⟨data, _, restored, encoded, decoded, same ▸ made⟩

end Runs

section Witness

/-- A Run is started with a message, which it commits. -/
def committing (message : UserMessage) : List HostAction :=
  [.act (.start 7 (some message)), .act (.perform (.commitInitialInput false))]

def committed (message : UserMessage) : SessionSnapshot where
  schemaVersion := 2
  sessionId := "session"
  revision := 1
  lastPendingSequence := 0
  messages := [.user message]
  pending := []
  compaction := none
  metadata := ⟨[], wellFormed_empty⟩

/-- The dict of a snapshot with one message of text blocks, sent at time zero. -/
def committedData (texts : List String) : JsonValue :=
  .obj [("schema_version", .int 2), ("session_id", .str "session"), ("revision", .int 1),
    ("last_pending_sequence", .int 0),
    ("messages", .arr [.obj [("type", .str "user_message"), ("message_id", .str "message"),
      ("timestamp", .float ⟨0⟩),
      ("content", .arr (texts.map fun text => .obj [("type", .str "text"), ("text", .str text)]))]]),
    ("pending", .arr []), ("compaction", .null),
    ("metadata", .obj [("type", .str "object"), ("entries", .arr [])])]

def committedText (texts : List String) : String :=
  "\x7b\"compaction\":null,\"last_pending_sequence\":0,\"messages\":[\x7b\"content\":[" ++
  ",".intercalate (texts.map fun text => "\x7b\"text\":\"" ++ text ++ "\",\"type\":\"text\"\x7d") ++
  "],\"message_id\":\"message\",\"timestamp\":0.0,\"type\":\"user_message\"\x7d]," ++
  "\"metadata\":\x7b\"entries\":[],\"type\":\"object\"\x7d,\"pending\":[],\"revision\":1," ++
  "\"schema_version\":2,\"session_id\":\"session\"\x7d"

def committedLibrary (texts : List String) : Library :=
  libraryOf (committedData texts) (committedText texts)

theorem committed_dumps (texts : List String) {snapshot : SessionSnapshot}
    (built : encodeData (committedLibrary texts) defaultInlineBytes snapshot =
      .ok (committedData texts)) (digits : printable (committedData texts) = true) :
    Dumps (committedLibrary texts) snapshot := by
  intro value other
  cases built.symm.trans other
  simp [committedLibrary, libraryOf, digits]

theorem greeting_committed : (run (hostStep countDigest) (Host.opened newSession none)
    (committing greeting)).map (fun h => h.world.session.snapshot) = some (committed greeting) := by
  rfl

theorem admitted_stored_greeting : ∃ h,
    run (hostStep countDigest) (Host.opened newSession none) (committing greeting) = some h ∧
      ∃ data snapshot restored,
        encode (committedLibrary ["hello"]) defaultInlineBytes h.world.session.snapshot = .ok data ∧
        decode (committedLibrary ["hello"]) defaultInlineBytes data = .ok snapshot ∧
        restore countDigest {} true snapshot = .ok restored := by
  obtain ⟨h, reached, same⟩ := Option.map_eq_some_iff.mp greeting_committed
  refine ⟨h, reached, ?_⟩
  apply (admitted_stored (libraryOf_correct _ _) newSession_started reached _ _ true).mpr
  · rw [same]
    exact ⟨by decide, by decide⟩
  · rw [same]
    exact {
      messages := by decide
      pending := nofun
      compaction := nofun
      snapshot := by decide }
  · rw [same]
    exact committed_dumps ["hello"] rfl (by decide)

/-- An Agent that admits 32 blocks in a message, a Session of it, and a message of 17 blocks. -/
def wideLimits : MediaLimits := { maxContentsPerMessage := 32 }

def wideSession : Session := { newSession with mediaLimits := wideLimits }

def wide : UserMessage := ⟨List.replicate 17 (.text "x"), ⟨0⟩, "message"⟩

def wideLibrary : Library := committedLibrary (List.replicate 17 "x")

theorem wide_committed : (run (hostStep countDigest) (Host.opened wideSession none)
    (committing wide)).map (fun h => h.world.session.snapshot) = some (committed wide) := by
  rfl

theorem wideSession_started : Started countDigest wideLimits wideSession :=
  .created (show create "session" wideLimits true [] ⟨[], rfl⟩ = .ok wideSession from rfl)

theorem wide_constructed : Constructed wideLibrary (committed wide) where
  messages := by decide
  pending := nofun
  compaction := nofun
  snapshot := by decide

/-- The Session admits the message and stores it, and what it stored is refused for good. -/
theorem wide_message_unreadable : Started countDigest wideLimits wideSession ∧
    ∃ h, run (hostStep countDigest) (Host.opened wideSession none) (committing wide) = some h ∧
      Constructed wideLibrary h.world.session.snapshot ∧
      (∃ data, encode wideLibrary defaultInlineBytes h.world.session.snapshot = .ok data) ∧
      ¬∃ data snapshot restored,
        encode wideLibrary defaultInlineBytes h.world.session.snapshot = .ok data ∧
        decode wideLibrary defaultInlineBytes data = .ok snapshot ∧
        restore countDigest wideLimits true snapshot = .ok restored := by
  obtain ⟨h, reached, same⟩ := Option.map_eq_some_iff.mp wide_committed
  have built : encodeData wideLibrary defaultInlineBytes (committed wide) =
      .ok (committedData (List.replicate 17 "x")) := rfl
  refine ⟨wideSession_started, h, reached, ?_⟩
  rw [same]
  refine ⟨wide_constructed,
    ⟨(committedText (List.replicate 17 "x")).toUTF8.data.toList, ?_⟩, ?_⟩
  · rw [encode, built, ok_bind]
    simp [wideLibrary, committedLibrary, libraryOf]
  · rintro ⟨data, snapshot, restored, encoded, decoded, -⟩
    have storable := (storable_iff (libraryOf_correct _ _) wide_constructed rfl
      (committed_dumps _ built (by decide))).mp ⟨data, snapshot, encoded, decoded⟩
    exact absurd (storable.1 wide.content (List.mem_singleton.mpr rfl)) (by decide)

end Witness

end RoboAgent.SnapshotStorage
