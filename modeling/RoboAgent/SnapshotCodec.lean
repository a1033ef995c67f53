import RoboAgent.MessageChecks

/-! CanonicalMessageCodec and JsonSessionSnapshotCodec. The encoder writes JSON objects in the order
of the source; the decoder reads by key, and repeats the checks of the constructors. -/

namespace RoboAgent.SnapshotCodec
open RoboAgent.FrozenJson RoboAgent.ToolErrors RoboAgent.ToolEffects RoboAgent.Messages
open RoboAgent.MessageChecks RoboAgent.KeyedLists

inductive CodecError
  | persistence (message : String)
  | corrupted (message : String)
  | versionUnsupported (message : String)
deriving DecidableEq

/-- An error of the codec, or an exception of Python's own (KeyError, TypeError, ValueError). -/
inductive Raised
  | codec (error : CodecError)
  | plain
deriving DecidableEq

abbrev Result := Except Raised

variable {α : Type}

def corrupted (message : String) : Result α := .error (.codec (.corrupted message))

/-- A try block that turns plain exceptions into a corruption error. -/
def guarded (message : String) : Result α → Result α
  | .error .plain => corrupted message
  | .error (.codec error) => .error (.codec error)
  | .ok value => .ok value

/-- A constructor, which raises if its check fails. -/
def build (checked : α → Bool) (value : α) : Result α :=
  if checked value then .ok value else .error .plain

abbrev Fields := List (String × JsonValue)

mutual
/-- _encode_json: an object becomes a list of entries, so that sorting keys does not reorder it. -/
def encodeJson : JsonValue → JsonValue
  | .obj entries => .obj [("type", .str "object"), ("entries", .arr (encodeEntries entries))]
  | .arr items => .obj [("type", .str "array"), ("items", .arr (encodeItems items))]
  | scalar => .obj [("type", .str "scalar"), ("value", scalar)]

def encodeItems : List JsonValue → List JsonValue
  | [] => []
  | item :: items => encodeJson item :: encodeItems items

def encodeEntries : Fields → List JsonValue
  | [] => []
  | (key, value) :: entries => .arr [.str key, encodeJson value] :: encodeEntries entries
end

def orNull : Option String → JsonValue
  | none => .null
  | some text => .str text

section Encoder
variable (lib : Library) (maxInlineBytes : Nat)

def encodeSource : MediaSource → Result JsonValue
  | .bytes data =>
    if maxInlineBytes < data.length then
      .error (.codec (.persistence "Inline media exceeds snapshot limit."))
    else .ok (.obj [("type", .str "bytes"), ("encoding", .str "base64"),
      ("data", .str (lib.b64encode data))])
  | .file path => .ok (.obj [("type", .str "file"), ("path", .str path)])
  | .url url => .ok (.obj [("type", .str "url"), ("url", .str url)])

/-- Image, audio and file content differ in their type and in the name of one field. -/
def encodeMedia (kind field : String) (source : MediaSource)
    (mediaType extra : Option String) : Result JsonValue := do
  let source ← encodeSource lib maxInlineBytes source
  .ok (.obj [("type", .str kind), ("source", source), ("media_type", orNull mediaType),
    (field, orNull extra)])

def encodeContent : MessageContent → Result JsonValue
  | .text text => .ok (.obj [("type", .str "text"), ("text", .str text)])
  | .json value => .ok (.obj [("type", .str "json"), ("value", encodeJson value)])
  | .artifact reference => .ok (.obj [
      ("type", .str "artifact_reference"), ("uri", .str reference.uri),
      ("media_type", orNull reference.mediaType), ("size", .int reference.size),
      ("digest", .str reference.digest), ("preview", orNull reference.preview)])
  | .image source mediaType detail =>
    encodeMedia lib maxInlineBytes "image" "detail" source mediaType detail
  | .audio source mediaType transcript =>
    encodeMedia lib maxInlineBytes "audio" "transcript" source mediaType transcript
  | .file source mediaType filename =>
    encodeMedia lib maxInlineBytes "file" "filename" source mediaType filename

def encodeToolCall (call : ToolCall) : JsonValue :=
  .obj [("id", .str call.id), ("name", .str call.name),
    ("arguments", encodeJson (.obj call.arguments.entries))]

def encodeError (error : ToolErrorInfo) : JsonValue :=
  .obj [("code", .str error.code), ("message", .str error.message),
    ("retryable", .bool error.retryable)]

def encodeStatus : ToolResultStatus → JsonValue
  | .success => .str "success"
  | .error => .str "error"

/-- The fields every message has, then its own. -/
def messageFields (kind messageId : String) (timestamp : PyFloat) (content : List JsonValue)
    (own : Fields) : JsonValue :=
  .obj ([("type", .str kind), ("message_id", .str messageId), ("timestamp", .float timestamp),
    ("content", .arr content)] ++ own)

def encodeMessage : AgentMessage → Result JsonValue
  | .user message => do
    let content ← message.content.mapM (encodeContent lib maxInlineBytes)
    .ok (messageFields "user_message" message.messageId message.timestamp content [])
  | .assistant message => do
    let content ← message.content.mapM (encodeContent lib maxInlineBytes)
    .ok (messageFields "assistant_message" message.messageId message.timestamp content
      (("tool_calls", .arr (message.toolCalls.map encodeToolCall)) ::
        message.reasoningContent.toList.map fun text => ("reasoning_content", .str text)))
  | .toolResult message => do
    let content ← message.content.mapM (encodeContent lib maxInlineBytes)
    .ok (messageFields "tool_message" message.messageId message.timestamp content
      [("tool_call_id", .str message.toolCallId), ("tool_name", .str message.toolName),
        ("status", encodeStatus message.status), ("error", message.error.elim .null encodeError)])

def encodeReceipt (receipt : InputReceipt) : JsonValue :=
  .obj [("input_id", .str receipt.inputId), ("sequence", .int receipt.sequence),
    ("session_id", .str receipt.sessionId)]

def encodeKind : InputKind → JsonValue
  | .steer => .str "steer"
  | .followUp => .str "follow_up"

def encodePending (item : PendingInput) : Result JsonValue := do
  let message ← encodeMessage lib maxInlineBytes (.user item.message)
  .ok (.obj [("receipt", encodeReceipt item.receipt), ("message", message),
    ("kind", encodeKind item.kind)])

def encodeCompaction (summary : ContextSummary) : JsonValue :=
  .obj [("source_start", summary.sourceStart),
    ("source_end_exclusive", .int summary.sourceEndExclusive),
    ("source_digest", .str summary.sourceDigest), ("text", .str summary.text),
    ("summary_format_version", .int summary.summaryFormatVersion),
    ("summarizer_id", orNull summary.summarizerId)]

/-- The dict encode builds. -/
def encodeData (snapshot : SessionSnapshot) : Result JsonValue := do
  let messages ← snapshot.messages.mapM (encodeMessage lib maxInlineBytes)
  let pending ← snapshot.pending.mapM (encodePending lib maxInlineBytes)
  .ok (.obj [("schema_version", .int snapshot.schemaVersion),
    ("session_id", .str snapshot.sessionId), ("revision", .int snapshot.revision),
    ("last_pending_sequence", .int snapshot.lastPendingSequence), ("messages", .arr messages),
    ("pending", .arr pending), ("compaction", snapshot.compaction.elim .null encodeCompaction),
    ("metadata", encodeJson (.obj snapshot.metadata.entries))])

def encode (snapshot : SessionSnapshot) : Result (List UInt8) := do
  let data ← encodeData lib maxInlineBytes snapshot
  (lib.dumps data).elim (.error .plain) .ok

end Encoder

/-- The helper _dict. -/
def dict : JsonValue → Result Fields
  | .obj entries => .ok entries
  | _ => corrupted "Expected JSON object."

/-- The helper _list. -/
def list : JsonValue → Result (List JsonValue)
  | .arr items => .ok items
  | _ => corrupted "Expected JSON array."

/-- A lookup `value[key]`, which raises KeyError. -/
def item (value : Fields) (key : String) : Result JsonValue :=
  match value.lookup key with
  | some field => .ok field
  | none => .error .plain

/-- A lookup `value.get(key)`; an absent key reads as null. -/
def getField (value : Fields) (key : String) : JsonValue := (value.lookup key).getD .null

/-- The arguments of a call `f(**value)`: no name but these. -/
def keywords (names : List String) (value : Fields) : Result Unit :=
  if (keys value).all names.contains then .ok () else .error .plain

def asString : JsonValue → Result String
  | .str text => .ok text
  | _ => .error .plain

def asOptionalString : JsonValue → Result (Option String)
  | .null => .ok none
  | .str text => .ok (some text)
  | _ => .error .plain

/-- A non-negative integer, and no bool. -/
def asNatural : JsonValue → Result Nat
  | .int (.ofNat n) => .ok n
  | _ => .error .plain

def freezeJson (value : JsonValue) : Result JsonValue := build wellFormed value

theorem sizeOf_getField_le (value : Fields) (key : String) :
    sizeOf (getField value key) ≤ sizeOf value := by
  rw [getField]
  cases found : value.lookup key with
  | none =>
    cases value with
    | nil => exact le_rfl
    | cons first rest =>
      simp only [Option.getD_none, JsonValue.null.sizeOf_spec, List.cons.sizeOf_spec]
      omega
  | some field =>
    have small := List.sizeOf_lt_of_mem (mem_of_lookup found)
    simp only [Prod.mk.sizeOf_spec] at small
    simp only [Option.getD_some]
    omega

def isEntry : JsonValue → Bool
  | .arr [.str _, _] => true
  | _ => false

mutual
/-- _decode_json. -/
def decodeJson : JsonValue → Result JsonValue
  | .obj value =>
    match getField value "type" with
    | .str "scalar" =>
      match value.lookup "value" with
      | some scalar => freezeJson scalar
      | none => corrupted "Scalar JSON value is missing its value field."
    | .str "array" =>
      match found : getField value "items" with
      | .arr items => do .ok (.arr (← decodeItems items))
      | _ => corrupted "Expected JSON array."
    | .str "object" =>
      match found : getField value "entries" with
      | .arr entries =>
        if entries.all isEntry then do
          .ok (.obj (← decodeEntries [] entries))
        else corrupted "Invalid ordered JSON object entries."
      | _ => corrupted "Expected JSON array."
    | _ => corrupted "Unknown JSON value type."
  | _ => corrupted "Expected JSON object."
termination_by value => sizeOf value
decreasing_by
  · have small := sizeOf_getField_le value "items"
    simp only [found, JsonValue.arr.sizeOf_spec] at small
    simp only [JsonValue.obj.sizeOf_spec]
    omega
  · have small := sizeOf_getField_le value "entries"
    simp only [found, JsonValue.arr.sizeOf_spec] at small
    simp only [JsonValue.obj.sizeOf_spec]
    omega

def decodeItems : List JsonValue → Result (List JsonValue)
  | [] => .ok []
  | item :: items => do
    let item ← decodeJson item
    .ok (item :: (← decodeItems items))
termination_by items => sizeOf items

/-- The entries of an object; a key that comes twice raises. -/
def decodeEntries (index : List String) : List JsonValue → Result Fields
  | .arr [.str key, value] :: entries => do
    let value ← decodeJson value
    if index.contains key then .error .plain
    else .ok ((key, value) :: (← decodeEntries (key :: index) entries))
  | _ => .ok []
termination_by entries => sizeOf entries
end

/-- A record, or null in its place. -/
def decodeNullable (decode : JsonValue → Result α) : JsonValue → Result (Option α)
  | .null => .ok none
  | data => do .ok (some (← decode data))

section Decoder
variable (lib : Library) (maxInlineBytes : Nat)

def decodeBase64 : JsonValue → Result (List UInt8)
  | .str text => (lib.b64decode text).elim (.error .plain) .ok
  | _ => .error .plain

def decodeSource (value : Fields) : Result MediaSource := do
  let source ← dict (← item value "source")
  match getField source "type" with
  | .str "bytes" =>
    if getField source "encoding" ≠ .str "base64" then corrupted "Unknown bytes encoding."
    else do
      let payload ← decodeBase64 lib (← item source "data")
      if maxInlineBytes < payload.length then corrupted "Inline media exceeds snapshot limit."
      else build (sourceChecked lib) (.bytes payload)
  | .str "file" => do build (sourceChecked lib) (.file (← asString (← item source "path")))
  | .str "url" => do build (sourceChecked lib) (.url (← asString (← item source "url")))
  | _ => corrupted "Unknown media source type."

/-- Image, audio and file content. -/
def decodeMedia (value : Fields) (field : String)
    (make : MediaSource → Option String → Option String → MessageContent) :
    Result MessageContent := do
  let source ← decodeSource lib maxInlineBytes value
  let mediaType ← asOptionalString (getField value "media_type")
  let extra ← asOptionalString (getField value field)
  build (contentChecked lib) (make source mediaType extra)

def decodeArtifact (value : Fields) : Result MessageContent := do
  let uri ← asString (← item value "uri")
  let mediaType ← asOptionalString (getField value "media_type")
  let size ← asNatural (← item value "size")
  let digest ← asString (← item value "digest")
  let preview ← asOptionalString (getField value "preview")
  build (contentChecked lib) (.artifact ⟨uri, mediaType, size, digest, preview⟩)

def decodeContent (data : JsonValue) : Result MessageContent := do
  let value ← dict data
  guarded "Invalid content fields." <|
    match getField value "type" with
    | .str "text" => do .ok (.text (← asString (← item value "text")))
    | .str "json" => do build (contentChecked lib) (.json (← decodeJson (← item value "value")))
    | .str "artifact_reference" => decodeArtifact lib value
    | .str "image" => decodeMedia lib maxInlineBytes value "detail" .image
    | .str "audio" => decodeMedia lib maxInlineBytes value "transcript" .audio
    | .str "file" => decodeMedia lib maxInlineBytes value "filename" .file
    -- A list or dict is not hashable, so looking it up in a set raises TypeError.
    | .arr _ | .obj _ => .error .plain
    | _ => corrupted "Unknown content type."

def decodeToolCall (data : JsonValue) : Result ToolCall := do
  let value ← dict data
  match ← decodeJson (← item value "arguments") with
  | .obj entries =>
    let id ← asString (← item value "id")
    let name ← asString (← item value "name")
    if frozen : wellFormed (.obj entries) = true then
      build toolCallChecked ⟨id, name, ⟨entries, frozen⟩⟩
    else .error .plain
  | _ => corrupted "ToolCall arguments must be a JSON object."

/-- A call `ToolErrorInfo(**value)`. -/
def decodeError (data : JsonValue) : Result ToolErrorInfo := do
  let value ← dict data
  keywords ["code", "message", "retryable"] value
  let code ← asString (← item value "code")
  let message ← asString (← item value "message")
  match value.lookup "retryable" with
  | none => (ToolErrorInfo.new code message false).elim (.error .plain) .ok
  | some (.bool retryable) => (ToolErrorInfo.new code message retryable).elim (.error .plain) .ok
  | some _ => .error .plain

def decodeStatus : JsonValue → Result ToolResultStatus
  | .str "success" => .ok .success
  | .str "error" => .ok .error
  | _ => .error .plain

def decodeTimestamp : JsonValue → Result PyFloat
  | .int n => (lib.float n).elim (.error .plain) .ok
  | .float x => if x.isFinite then .ok x else corrupted "Invalid message timestamp."
  | _ => corrupted "Invalid message timestamp."

/-- The stored message id, or the one allocated for the message if the field is absent. -/
def decodeMessageId (fresh : String) : JsonValue → Result String
  | .null => .ok fresh
  | .str id => if id = "" then corrupted "Invalid message_id." else .ok id
  | _ => corrupted "Invalid message_id."

def decodeUser (content : List MessageContent) (timestamp : PyFloat) (messageId : String) :
    Result AgentMessage :=
  build (fun message => ({} : MediaLimits).admits message.content && messageChecked lib message)
    (.user ⟨content, timestamp, messageId⟩)

def decodeReasoning : JsonValue → Result (Option String)
  | .null => .ok none
  | .str text => .ok (some text)
  | _ => corrupted "Invalid assistant reasoning_content."

def decodeAssistant (value : Fields) (content : List MessageContent) (timestamp : PyFloat)
    (messageId : String) : Result AgentMessage := do
  let calls ← ((value.lookup "tool_calls").elim (.ok []) list)
  let calls ← calls.mapM decodeToolCall
  let reasoning ← decodeReasoning (getField value "reasoning_content")
  build (fun message => ({} : MediaLimits).admits message.content && messageChecked lib message)
    (.assistant ⟨content, calls, reasoning, timestamp, messageId⟩)

def decodeToolResult (value : Fields) (content : List MessageContent) (timestamp : PyFloat)
    (messageId : String) : Result AgentMessage := do
  let status ← decodeStatus (← item value "status")
  let error ← decodeNullable decodeError (getField value "error")
  let toolCallId ← asString (← item value "tool_call_id")
  let toolName ← asString (← item value "tool_name")
  build (fun message => ({} : MediaLimits).admits message.content && messageChecked lib message)
    (.toolResult ⟨toolCallId, toolName, status, content, error, timestamp, messageId⟩)

/-- The try block of decode, which constructs the message. -/
def decodeFields (value : Fields) (content : List MessageContent) (timestamp : PyFloat)
    (messageId : String) : Result AgentMessage :=
  guarded "Invalid message fields." <|
    match getField value "type" with
    | .str "user_message" => decodeUser lib content timestamp messageId
    | .str "assistant_message" => decodeAssistant lib value content timestamp messageId
    | .str "tool_message" => decodeToolResult lib value content timestamp messageId
    | _ => corrupted "Unknown message type."

def decodeMessage (fresh : String) (data : JsonValue) : Result AgentMessage :=
  match data with
  | .obj value =>
    match getField value "content" with
    | .arr content => do
      let timestamp ← decodeTimestamp lib (getField value "timestamp")
      let content ← content.mapM (decodeContent lib maxInlineBytes)
      let messageId ← decodeMessageId fresh (getField value "message_id")
      decodeFields lib value content timestamp messageId
    | _ => corrupted "Invalid message record."
  | _ => corrupted "Invalid message record."

/-- A call `InputReceipt(**value)`. -/
def decodeReceipt (data : JsonValue) : Result InputReceipt := do
  let value ← dict data
  keywords ["input_id", "sequence", "session_id"] value
  let inputId ← asString (← item value "input_id")
  let sequence ← asNatural (← item value "sequence")
  let sessionId ← asString (← item value "session_id")
  build receiptChecked ⟨inputId, sequence, sessionId⟩

def decodeKind : JsonValue → Result InputKind
  | .str "steer" => .ok .steer
  | .str "follow_up" => .ok .followUp
  | _ => .error .plain

def decodePending (fresh : String) (data : JsonValue) : Result PendingInput := do
  let value ← dict data
  match ← decodeMessage lib maxInlineBytes fresh (← item value "message") with
  | .user message =>
    let receipt ← decodeReceipt (← item value "receipt")
    let kind ← decodeKind (← item value "kind")
    .ok ⟨receipt, message, kind⟩
  | .assistant _ | .toolResult _ => corrupted "Pending messages must be UserMessage values."

/-- A call `ContextSummary(**value)`. -/
def decodeCompaction (data : JsonValue) : Result ContextSummary := do
  let value ← dict data
  keywords ["source_start", "source_end_exclusive", "source_digest", "text",
    "summary_format_version", "summarizer_id"] value
  let sourceStart ← item value "source_start"
  let sourceEndExclusive ← asNatural (← item value "source_end_exclusive")
  let sourceDigest ← asString (← item value "source_digest")
  let text ← asString (← item value "text")
  let version ← asNatural (← item value "summary_format_version")
  let summarizerId ← asOptionalString (getField value "summarizer_id")
  build summaryChecked
    ⟨sourceStart, sourceEndExclusive, sourceDigest, text, version, summarizerId⟩

/-- Decode the records one after the other, each with its place among the messages. -/
def decodeAll (decode : String → JsonValue → Result α) : Nat → List JsonValue → Result (List α)
  | _, [] => .ok []
  | place, data :: rest => do
    let value ← decode (lib.uuid4 place) data
    .ok (value :: (← decodeAll decode (place + 1) rest))

/-- The part of decode_with_migration that builds the snapshot. -/
def decodeSnapshot (value : Fields) : Result SessionSnapshot := do
  let records ← list (← item value "messages")
  let messages ← decodeAll lib (decodeMessage lib maxInlineBytes) 0 records
  let records ← list (← item value "pending")
  let pending ← decodeAll lib (decodePending lib maxInlineBytes) messages.length records
  let compaction ← decodeNullable decodeCompaction (getField value "compaction")
  match ← decodeJson (← item value "metadata") with
  | .obj entries =>
    let sessionId ← asString (← item value "session_id")
    let revision ← asNatural (← item value "revision")
    let last ← asNatural (← item value "last_pending_sequence")
    if frozen : wellFormed (.obj entries) = true then
      build snapshotChecked
        ⟨2, sessionId, revision, last, messages, pending, compaction, ⟨entries, frozen⟩⟩
    else .error .plain
  | _ => corrupted "Session metadata must be a JSON object."

def decode (data : List UInt8) : Result SessionSnapshot :=
  match lib.loads data with
  | none => corrupted "Snapshot is not valid JSON."
  | some raw => do
    let value ← dict raw
    match getField value "schema_version" with
    | .int version =>
      if 1 ≤ version ∧ version ≤ 2 then
        guarded "Invalid Session snapshot." (decodeSnapshot lib maxInlineBytes value)
      else .error (.codec (.versionUnsupported "Unsupported Session snapshot version."))
    | _ => .error (.codec (.versionUnsupported "Unsupported Session snapshot version."))

end Decoder

end RoboAgent.SnapshotCodec
