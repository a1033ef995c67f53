import RoboAgent.Base64
import RoboAgent.JsonSameness
import RoboAgent.ContextCompaction

/-! Canonical digests. What is digested of a value or of messages is a text with sorted keys, and it
identifies them: up to the order of keys, and for messages up to their identities. -/

namespace RoboAgent.CanonicalDigests
open RoboAgent.FrozenJson RoboAgent.SortedJson RoboAgent.JsonText RoboAgent.JsonIdentity
open RoboAgent.KeyedLists RoboAgent.ToolErrors RoboAgent.ToolEffects RoboAgent.Messages
open RoboAgent.WorldStore (Library)

section
variable (lib : Library)

/-- json.dumps with sorted keys; it raises on an integer of too many digits. -/
def payload (value : JsonValue) : Option (List Char) :=
  if printable value then some (write lib.floatText (sortKeys value)) else none

def canonicalJsonDigest (value : JsonValue) : Option String := (payload lib value).map lib.sha256

end

abbrev Fields := List (String × JsonValue)

def orNull : Option String → JsonValue
  | none => .null
  | some text => .str text

def sourceData : MediaSource → JsonValue
  | .bytes data => .obj [("type", .str "bytes"), ("data", .str (Base64.encode data))]
  | .file path => .obj [("type", .str "file"), ("path", .str path)]
  | .url url => .obj [("type", .str "url"), ("url", .str url)]

/-- Image, audio and file content differ in their type and in the name of one field. -/
def mediaData (kind field : String) (source : MediaSource) (mediaType extra : Option String) :
    JsonValue :=
  .obj [("type", .str kind), ("source", sourceData source), ("media_type", orNull mediaType),
    (field, orNull extra)]

def contentData : MessageContent → JsonValue
  | .text text => .obj [("type", .str "text"), ("text", .str text)]
  | .json value => .obj [("type", .str "json"), ("value", value)]
  | .artifact reference => .obj [("type", .str "artifact_reference"), ("uri", .str reference.uri),
      ("media_type", orNull reference.mediaType), ("size", .int reference.size),
      ("digest", .str reference.digest), ("preview", orNull reference.preview)]
  | .image source mediaType detail => mediaData "image" "detail" source mediaType detail
  | .audio source mediaType transcript => mediaData "audio" "transcript" source mediaType transcript
  | .file source mediaType filename => mediaData "file" "filename" source mediaType filename

def callData (call : ToolCall) : JsonValue :=
  .obj [("id", .str call.id), ("name", .str call.name), ("arguments", .obj call.arguments.entries)]

def statusValue : ToolResultStatus → String
  | .success => "success"
  | .error => "error"

def errorData : Option ToolErrorInfo → JsonValue
  | none => .null
  | some error => .obj [("code", .str error.code), ("message", .str error.message),
      ("retryable", .bool error.retryable)]

/-- The fields every message has, then its own. -/
def messageData (role : String) (content : List MessageContent) (timestamp : PyFloat)
    (own : Fields) : JsonValue :=
  .obj ([("type", .str role), ("content", .arr (content.map contentData)),
    ("timestamp", .float timestamp)] ++ own)

def canonicalMessageData : AgentMessage → JsonValue
  | .user message => messageData "user" message.content message.timestamp []
  | .assistant message => messageData "assistant" message.content message.timestamp
      (("tool_calls", .arr (message.toolCalls.map callData)) ::
        message.reasoningContent.toList.map fun text => ("reasoning_content", .str text))
  | .toolResult message => messageData "tool" message.content message.timestamp
      [("tool_call_id", .str message.toolCallId), ("tool_name", .str message.toolName),
        ("status", .str (statusValue message.status)), ("error", errorData message.error)]

def messagesPayload (lib : Library) (messages : List AgentMessage) : Option (List Char) :=
  payload lib (.arr (messages.map canonicalMessageData))

def canonicalMessageDigest (lib : Library) (messages : List AgentMessage) : Option String :=
  (messagesPayload lib messages).map lib.sha256

/-- JSON content up to the order of keys, any other content as it is. -/
def AgreeContent : MessageContent → MessageContent → Prop
  | .json value, .json other => same value other = true
  | content, other => content = other

def AgreeCall (call other : ToolCall) : Prop :=
  call.id = other.id ∧ call.name = other.name ∧
    same (.obj call.arguments.entries) (.obj other.arguments.entries) = true

/-- The same kind of message, with everything the same but its identity and the order of keys. -/
def Agree : AgentMessage → AgentMessage → Prop
  | .user message, .user other =>
    List.Forall₂ AgreeContent message.content other.content ∧ message.timestamp = other.timestamp
  | .assistant message, .assistant other =>
    List.Forall₂ AgreeContent message.content other.content ∧ message.timestamp = other.timestamp ∧
      List.Forall₂ AgreeCall message.toolCalls other.toolCalls ∧
      message.reasoningContent = other.reasoningContent
  | .toolResult message, .toolResult other =>
    List.Forall₂ AgreeContent message.content other.content ∧ message.timestamp = other.timestamp ∧
      message.toolCallId = other.toolCallId ∧ message.toolName = other.toolName ∧
      message.status = other.status ∧ message.error = other.error
  | _, _ => False

theorem forall₂_iff {α β : Type} {R S : α → β → Prop} (h : ∀ a b, R a b ↔ S a b)
    {left : List α} {right : List β} : List.Forall₂ R left right ↔ List.Forall₂ S left right :=
  ⟨List.Forall₂.imp fun a b => (h a b).mp, List.Forall₂.imp fun a b => (h a b).mpr⟩

theorem same_str {text other : String} : same (.str text) (.str other) = true ↔ text = other := by
  rw [same, beq_iff_eq, JsonValue.str.injEq, eq_comm]

theorem same_size {size other : Nat} : same (.int size) (.int other) = true ↔ size = other := by
  rw [same, beq_iff_eq, JsonValue.int.injEq, Int.natCast_inj, eq_comm]

theorem same_bool {flag other : Bool} : same (.bool flag) (.bool other) = true ↔ flag = other := by
  rw [same, beq_iff_eq, JsonValue.bool.injEq, eq_comm]

theorem same_float {number other : PyFloat} :
    same (.float number) (.float other) = true ↔ number = other := by
  rw [same, beq_iff_eq, JsonValue.float.injEq, eq_comm]

theorem same_orNull {text other : Option String} :
    same (orNull text) (orNull other) = true ↔ text = other := by
  cases text with
  | none => cases other <;> simp [orNull, same]
  | some text =>
    cases other with
    | none => exact iff_of_false Bool.false_ne_true (Option.some_ne_none _)
    | some other => rw [orNull, orNull, same_str, Option.some_inj]

theorem found_iff_forall₂ {fields others : Fields} (distinct : (keys fields).Nodup)
    (named : keys fields = keys others) :
    (∀ field ∈ fields, ∃ other, others.lookup field.1 = some other ∧ same field.2 other = true) ↔
      List.Forall₂ (fun field other => same field.2 other.2 = true) fields others := by
  induction fields generalizing others with
  | nil =>
    cases others with
    | nil => exact iff_of_true nofun .nil
    | cons other others => cases named
  | cons field fields ih =>
    obtain ⟨key, value⟩ := field
    cases others with
    | nil => cases named
    | cons other others =>
      obtain ⟨key', found⟩ := other
      obtain ⟨rfl, rest⟩ := List.cons.inj named
      obtain ⟨fresh, distinct⟩ := List.nodup_cons.mp distinct
      rw [List.forall_mem_cons, List.forall₂_cons, ← ih distinct rest]
      refine and_congr ?_ (forall₂_congr fun field mem => ?_)
      · simp
      · have differs : field.1 ≠ key := by
          intro equal
          exact fresh (List.mem_map.mpr ⟨field, mem, equal⟩)
        rw [List.lookup_cons, beq_eq_false_iff_ne.mpr differs]

/-- Objects with the same keys in the same order are the same if their values are, one by one. -/
theorem same_fields {names : List String} (distinct : names.Nodup) {fields others : Fields}
    (named : keys fields = names) (named' : keys others = names) :
    same (.obj fields) (.obj others) = true ↔
      List.Forall₂ (fun field other => same field.2 other.2 = true) fields others := by
  have equal : keys fields = keys others := named.trans named'.symm
  have length := congrArg List.length equal
  rw [keys, keys, List.length_map, List.length_map] at length
  rw [same_obj, and_iff_right length, found_iff_forall₂ (named ▸ distinct) equal]

/-- Objects that are the same have the same type. -/
theorem same_type {value other : JsonValue} {fields others : Fields}
    (h : same (.obj (("type", value) :: fields)) (.obj (("type", other) :: others)) = true) :
    same value other = true := by
  obtain ⟨found, here, equal⟩ := (same_obj.mp h).2 _ List.mem_cons_self
  cases here
  exact equal

theorem encode_injective {data other : List UInt8} :
    Base64.encode data = Base64.encode other ↔ data = other := by
  refine ⟨fun h => ?_, congrArg _⟩
  have read := Base64.decode_encoded data
  rw [h, Base64.decode_encoded] at read
  exact (Option.some.inj read).symm

theorem same_sourceData {source other : MediaSource} :
    same (sourceData source) (sourceData other) = true ↔ source = other := by
  have differs {kind kind' : String} {fields others : Fields} (h : kind ≠ kind') :
      ¬same (.obj (("type", .str kind) :: fields)) (.obj (("type", .str kind') :: others)) = true :=
    fun equal => h (same_str.mp (same_type equal))
  cases source with
  | bytes data =>
    cases other with
    | bytes data' =>
      rw [sourceData, sourceData, same_fields (by decide : ["type", "data"].Nodup) rfl rfl]
      simp [same_str, encode_injective]
    | file path => exact iff_of_false (differs (by decide)) nofun
    | url url => exact iff_of_false (differs (by decide)) nofun
  | file path =>
    cases other with
    | bytes data => exact iff_of_false (differs (by decide)) nofun
    | file path' =>
      rw [sourceData, sourceData, same_fields (by decide : ["type", "path"].Nodup) rfl rfl]
      simp [same_str]
    | url url => exact iff_of_false (differs (by decide)) nofun
  | url url =>
    cases other with
    | bytes data => exact iff_of_false (differs (by decide)) nofun
    | file path => exact iff_of_false (differs (by decide)) nofun
    | url url' =>
      rw [sourceData, sourceData, same_fields (by decide : ["type", "url"].Nodup) rfl rfl]
      simp [same_str]

theorem same_mediaData {kind field : String} {source other : MediaSource}
    {mediaType extra mediaType' extra' : Option String}
    (distinct : ["type", "source", "media_type", field].Nodup) :
    same (mediaData kind field source mediaType extra)
        (mediaData kind field other mediaType' extra') = true ↔
      source = other ∧ mediaType = mediaType' ∧ extra = extra' := by
  rw [mediaData, mediaData, same_fields distinct rfl rfl]
  simp [same_str, same_sourceData, same_orNull]

/-- The type of a content, as it is written. -/
def contentType : MessageContent → String
  | .text _ => "text"
  | .json _ => "json"
  | .artifact _ => "artifact_reference"
  | .image _ _ _ => "image"
  | .audio _ _ _ => "audio"
  | .file _ _ _ => "file"

theorem contentData_type (content : MessageContent) :
    ∃ fields, contentData content = .obj (("type", .str (contentType content)) :: fields) := by
  cases content <;> exact ⟨_, rfl⟩

theorem contentType_of_same {content other : MessageContent}
    (h : same (contentData content) (contentData other) = true) :
    contentType content = contentType other := by
  obtain ⟨fields, left⟩ := contentData_type content
  obtain ⟨others, right⟩ := contentData_type other
  rw [left, right] at h
  exact same_str.mp (same_type h)

theorem same_contentData {content other : MessageContent} :
    same (contentData content) (contentData other) = true ↔ AgreeContent content other := by
  by_cases typed : contentType content = contentType other
  swap
  · refine iff_of_false (fun h => typed (contentType_of_same h)) fun h => typed ?_
    cases content <;> cases other <;> first | rfl | cases h
  cases content with
  | text text =>
    cases other with
    | text other =>
      rw [contentData, contentData, same_fields (by decide : ["type", "text"].Nodup) rfl rfl]
      simp [same_str, AgreeContent]
    | _ => exact absurd typed (by simp [contentType])
  | json value =>
    cases other with
    | json other =>
      rw [contentData, contentData, same_fields (by decide : ["type", "value"].Nodup) rfl rfl]
      simp [same_str, AgreeContent]
    | _ => exact absurd typed (by simp [contentType])
  | artifact reference =>
    cases other with
    | artifact other =>
      obtain ⟨uri, mediaType, size, digest, preview⟩ := reference
      obtain ⟨uri', mediaType', size', digest', preview'⟩ := other
      rw [contentData, contentData, same_fields
        (by decide : ["type", "uri", "media_type", "size", "digest", "preview"].Nodup) rfl rfl]
      simp [same_str, same_orNull, same_size, AgreeContent]
    | _ => exact absurd typed (by simp [contentType])
  | image source mediaType detail =>
    cases other with
    | image other mediaType' detail' =>
      rw [contentData, contentData, same_mediaData (by decide), AgreeContent,
        MessageContent.image.injEq]
      exact nofun
    | _ => exact absurd typed (by simp [contentType])
  | audio source mediaType transcript =>
    cases other with
    | audio other mediaType' transcript' =>
      rw [contentData, contentData, same_mediaData (by decide), AgreeContent,
        MessageContent.audio.injEq]
      exact nofun
    | _ => exact absurd typed (by simp [contentType])
  | file source mediaType filename =>
    cases other with
    | file other mediaType' filename' =>
      rw [contentData, contentData, same_mediaData (by decide), AgreeContent,
        MessageContent.file.injEq]
      exact nofun
    | _ => exact absurd typed (by simp [contentType])

theorem same_contents {content other : List MessageContent} :
    same (.arr (content.map contentData)) (.arr (other.map contentData)) = true ↔
      List.Forall₂ AgreeContent content other := by
  rw [same_arr, List.forall₂_map_left_iff, List.forall₂_map_right_iff]
  exact forall₂_iff fun _ _ => same_contentData

theorem same_callData {call other : ToolCall} :
    same (callData call) (callData other) = true ↔ AgreeCall call other := by
  rw [callData, callData, same_fields (by decide : ["id", "name", "arguments"].Nodup) rfl rfl]
  simp [same_str, AgreeCall]

theorem same_calls {calls others : List ToolCall} :
    same (.arr (calls.map callData)) (.arr (others.map callData)) = true ↔
      List.Forall₂ AgreeCall calls others := by
  rw [same_arr, List.forall₂_map_left_iff, List.forall₂_map_right_iff]
  exact forall₂_iff fun _ _ => same_callData

theorem same_errorData {error other : Option ToolErrorInfo} :
    same (errorData error) (errorData other) = true ↔ error = other := by
  cases error with
  | none => cases other <;> simp [errorData, same]
  | some error =>
    cases other with
    | none => exact iff_of_false Bool.false_ne_true (Option.some_ne_none _)
    | some other =>
      obtain ⟨code, message, retryable⟩ := error
      obtain ⟨code', message', retryable'⟩ := other
      rw [errorData, errorData,
        same_fields (by decide : ["code", "message", "retryable"].Nodup) rfl rfl]
      simp [same_str, same_bool]

theorem same_status {status other : ToolResultStatus} :
    statusValue status = statusValue other ↔ status = other := by
  cases status <;> cases other <;> decide

/-- The role of a message, as it is written. -/
def role : AgentMessage → String
  | .user _ => "user"
  | .assistant _ => "assistant"
  | .toolResult _ => "tool"

theorem canonicalMessageData_role (message : AgentMessage) :
    ∃ fields, canonicalMessageData message = .obj (("type", .str (role message)) :: fields) := by
  cases message <;> exact ⟨_, rfl⟩

theorem role_of_same {message other : AgentMessage}
    (h : same (canonicalMessageData message) (canonicalMessageData other) = true) :
    role message = role other := by
  obtain ⟨fields, left⟩ := canonicalMessageData_role message
  obtain ⟨others, right⟩ := canonicalMessageData_role other
  rw [left, right] at h
  exact same_str.mp (same_type h)

theorem same_assistant {message other : AssistantMessage} :
    same (canonicalMessageData (.assistant message)) (canonicalMessageData (.assistant other)) =
      true ↔ Agree (.assistant message) (.assistant other) := by
  obtain ⟨content, calls, reasoning, timestamp, messageId⟩ := message
  obtain ⟨content', calls', reasoning', timestamp', messageId'⟩ := other
  have fields : ["type", "content", "timestamp", "tool_calls", "reasoning_content"].Nodup := by
    decide
  have fewer : ["type", "content", "timestamp", "tool_calls"].Nodup := by decide
  rw [canonicalMessageData, canonicalMessageData, messageData, messageData, Agree]
  cases reasoning with
  | none =>
    cases reasoning' with
    | none =>
      refine (same_fields fewer rfl rfl).trans ?_
      simp [same_str, same_float, same_contents, same_calls]
    | some reasoning' =>
      refine iff_of_false (fun h => absurd (same_obj.mp h).1 ?_) fun h => nomatch h.2.2.2
      simp
  | some reasoning =>
    cases reasoning' with
    | none =>
      refine iff_of_false (fun h => absurd (same_obj.mp h).1 ?_) fun h => nomatch h.2.2.2
      simp
    | some reasoning' =>
      refine (same_fields fields rfl rfl).trans ?_
      simp [same_str, same_float, same_contents, same_calls]

theorem same_canonicalMessageData {message other : AgentMessage} :
    same (canonicalMessageData message) (canonicalMessageData other) = true ↔
      Agree message other := by
  cases message with
  | user message =>
    cases other with
    | user other =>
      rw [canonicalMessageData, canonicalMessageData, messageData, messageData, Agree]
      refine (same_fields (by decide : ["type", "content", "timestamp"].Nodup) rfl rfl).trans ?_
      simp [same_float, same_contents, same_str]
    | _ => exact iff_of_false (fun h => absurd (role_of_same h) (by simp [role])) id
  | assistant message =>
    cases other with
    | assistant other => exact same_assistant
    | _ => exact iff_of_false (fun h => absurd (role_of_same h) (by simp [role])) id
  | toolResult message =>
    cases other with
    | toolResult other =>
      rw [canonicalMessageData, canonicalMessageData, messageData, messageData, Agree]
      refine (same_fields (by decide : ["type", "content", "timestamp", "tool_call_id",
        "tool_name", "status", "error"].Nodup) rfl rfl).trans ?_
      simp [same_float, same_contents, same_str, same_status, same_errorData]
    | _ => exact iff_of_false (fun h => absurd (role_of_same h) (by simp [role])) id

/-- What the constructors guarantee of the values in a message. -/
def frozenContent : MessageContent → Bool
  | .json value => wellFormed value
  | _ => true

def frozen (message : AgentMessage) : Bool :=
  message.content.all frozenContent &&
    match message with
    | .user message => message.timestamp.isFinite
    | .assistant message => message.timestamp.isFinite
    | .toolResult message => message.timestamp.isFinite

theorem wellFormed_fields {names : List String} (distinct : names.Nodup) {fields : Fields}
    (named : keys fields = names) (each : ∀ field ∈ fields, wellFormed field.2 = true) :
    wellFormed (.obj fields) = true :=
  wellFormed_obj.mpr ⟨named ▸ distinct, each⟩

theorem wellFormed_orNull (text : Option String) : wellFormed (orNull text) = true := by
  cases text <;> rfl

theorem wellFormed_sourceData (source : MediaSource) : wellFormed (sourceData source) = true := by
  cases source with
  | bytes data =>
    exact wellFormed_fields (by decide : ["type", "data"].Nodup) rfl (by simp [wellFormed])
  | file path =>
    exact wellFormed_fields (by decide : ["type", "path"].Nodup) rfl (by simp [wellFormed])
  | url url =>
    exact wellFormed_fields (by decide : ["type", "url"].Nodup) rfl (by simp [wellFormed])

theorem wellFormed_mediaData {kind field : String}
    (distinct : ["type", "source", "media_type", field].Nodup) (source : MediaSource)
    (mediaType extra : Option String) :
    wellFormed (mediaData kind field source mediaType extra) = true :=
  wellFormed_fields distinct rfl (by
    simp [wellFormed_sourceData, wellFormed_orNull, wellFormed])

theorem wellFormed_contentData {content : MessageContent} (h : frozenContent content = true) :
    wellFormed (contentData content) = true := by
  cases content with
  | text text =>
    exact wellFormed_fields (by decide : ["type", "text"].Nodup) rfl (by simp [wellFormed])
  | json value =>
    have valid : wellFormed value = true := h
    exact wellFormed_fields (by decide : ["type", "value"].Nodup) rfl (by simp [wellFormed, valid])
  | artifact reference =>
    exact wellFormed_fields
      (by decide : ["type", "uri", "media_type", "size", "digest", "preview"].Nodup) rfl
      (by simp [wellFormed, wellFormed_orNull])
  | image source mediaType detail => exact wellFormed_mediaData (by decide) _ _ _
  | audio source mediaType transcript => exact wellFormed_mediaData (by decide) _ _ _
  | file source mediaType filename => exact wellFormed_mediaData (by decide) _ _ _

theorem wellFormed_callData (call : ToolCall) : wellFormed (callData call) = true :=
  wellFormed_fields (by decide : ["id", "name", "arguments"].Nodup) rfl (by
    rw [List.forall_mem_cons, List.forall_mem_cons, List.forall_mem_singleton]
    exact ⟨rfl, rfl, call.arguments.frozen⟩)

theorem wellFormed_errorData (error : Option ToolErrorInfo) :
    wellFormed (errorData error) = true := by
  cases error with
  | none => rfl
  | some error =>
    exact wellFormed_fields (by decide : ["code", "message", "retryable"].Nodup) rfl
      (by simp [wellFormed])

theorem wellFormed_canonicalMessageData {message : AgentMessage} (h : frozen message = true) :
    wellFormed (canonicalMessageData message) = true := by
  obtain ⟨contents, finite⟩ := Bool.and_eq_true_iff.mp h
  have content : wellFormed (.arr (message.content.map contentData)) = true := by
    refine wellFormedItems_iff.mpr (List.forall_mem_map.mpr fun content mem => ?_)
    exact wellFormed_contentData (List.all_eq_true.mp contents content mem)
  cases message with
  | user message =>
    refine wellFormed_fields (by decide : ["type", "content", "timestamp"].Nodup) rfl ?_
    exact List.forall_mem_cons.mpr ⟨rfl, List.forall_mem_cons.mpr ⟨content,
      List.forall_mem_singleton.mpr finite⟩⟩
  | assistant message =>
    obtain ⟨items, calls, reasoning, timestamp, messageId⟩ := message
    have called : wellFormed (.arr (calls.map callData)) = true :=
      wellFormedItems_iff.mpr (List.forall_mem_map.mpr fun call _ => wellFormed_callData call)
    cases reasoning with
    | none =>
      refine wellFormed_fields
        (by decide : ["type", "content", "timestamp", "tool_calls"].Nodup) rfl ?_
      exact List.forall_mem_cons.mpr ⟨rfl, List.forall_mem_cons.mpr ⟨content,
        List.forall_mem_cons.mpr ⟨finite, List.forall_mem_singleton.mpr called⟩⟩⟩
    | some reasoning =>
      refine wellFormed_fields
        (by decide : ["type", "content", "timestamp", "tool_calls", "reasoning_content"].Nodup) rfl
        ?_
      exact List.forall_mem_cons.mpr ⟨rfl, List.forall_mem_cons.mpr ⟨content,
        List.forall_mem_cons.mpr ⟨finite, List.forall_mem_cons.mpr ⟨called,
          List.forall_mem_singleton.mpr rfl⟩⟩⟩⟩
  | toolResult message =>
    refine wellFormed_fields (by decide : ["type", "content", "timestamp", "tool_call_id",
      "tool_name", "status", "error"].Nodup) rfl ?_
    have own : ∀ field ∈ [("tool_call_id", JsonValue.str message.toolCallId),
        ("tool_name", .str message.toolName), ("status", .str (statusValue message.status)),
        ("error", errorData message.error)], wellFormed field.2 = true := by
      simp [wellFormed, wellFormed_errorData]
    exact List.forall_mem_cons.mpr ⟨rfl, List.forall_mem_cons.mpr ⟨content,
      List.forall_mem_cons.mpr ⟨finite, own⟩⟩⟩

section
variable {lib : Library}

theorem payload_eq_some {value : JsonValue} {text : List Char} :
    payload lib value = some text ↔
      printable value = true ∧ write lib.floatText (sortKeys value) = text := by
  rw [payload]
  split_ifs with prints
  · rw [Option.some_inj, and_iff_right prints]
  · exact iff_of_false nofun fun h => prints h.1

theorem payload_eq_iff (floats : FloatText lib.floatText) {value other : JsonValue}
    (valid : wellFormed value = true) (valid' : wellFormed other = true) {text text' : List Char}
    (written : payload lib value = some text) (written' : payload lib other = some text') :
    text = text' ↔ same value other = true := by
  obtain ⟨-, rfl⟩ := payload_eq_some.mp written
  obtain ⟨-, rfl⟩ := payload_eq_some.mp written'
  constructor
  · intro equal
    have sorted := write_injective floats (wellFormed_sortKeys valid) (wellFormed_sortKeys valid')
      equal
    exact same_of_sortKeys_eq valid valid' sorted
  · intro equal
    rw [sortKeys_eq_of_same valid valid' equal]

theorem wellFormed_messages {messages : List AgentMessage}
    (h : ∀ message ∈ messages, frozen message = true) :
    wellFormed (.arr (messages.map canonicalMessageData)) = true :=
  wellFormedItems_iff.mpr (List.forall_mem_map.mpr fun message mem =>
    wellFormed_canonicalMessageData (h message mem))

theorem messagesPayload_eq_iff (floats : FloatText lib.floatText)
    {messages others : List AgentMessage}
    (valid : ∀ message ∈ messages, frozen message = true)
    (valid' : ∀ message ∈ others, frozen message = true) {text text' : List Char}
    (written : messagesPayload lib messages = some text)
    (written' : messagesPayload lib others = some text') :
    text = text' ↔ List.Forall₂ Agree messages others := by
  rw [payload_eq_iff floats (wellFormed_messages valid) (wellFormed_messages valid') written
    written', same_arr, List.forall₂_map_left_iff, List.forall₂_map_right_iff]
  exact forall₂_iff fun _ _ => same_canonicalMessageData

/-- Of two valid things of which something is made, it is equal just if the things are the same. -/
def Identifies {α β : Type} (valid : α → Prop) (make : α → Option β) (Same : α → α → Prop) : Prop :=
  ∀ a b, valid a → valid b → ∀ x y, make a = some x → make b = some y → (x = y ↔ Same a b)

theorem Identifies.map {α β γ : Type} {valid : α → Prop} {make : α → Option β}
    {Same : α → α → Prop} (identifies : Identifies valid make Same) {f : β → γ}
    (injective : Function.Injective f) : Identifies valid (fun a => (make a).map f) Same := by
  intro a b valid valid' x y made made'
  obtain ⟨x, here, rfl⟩ := Option.map_eq_some_iff.mp made
  obtain ⟨y, there, rfl⟩ := Option.map_eq_some_iff.mp made'
  exact injective.eq_iff.trans (identifies a b valid valid' x y here there)

theorem messagesPayload_identifies (floats : FloatText lib.floatText) :
    Identifies (fun messages => ∀ message ∈ messages, frozen message = true) (messagesPayload lib)
      (List.Forall₂ Agree) :=
  fun _ _ valid valid' _ _ made made' => messagesPayload_eq_iff floats valid valid' made made'

/-- Payloads and digests identify what they are made of: values up to the order of keys, messages
up to their identities and that order. -/
theorem digests_identify (lib : Library) (correct : lib.Correct) :
    Identifies (wellFormed · = true) (payload lib) (same · · = true) ∧
      Identifies (wellFormed · = true) (canonicalJsonDigest lib) (same · · = true) ∧
      Identifies (fun messages => ∀ message ∈ messages, frozen message = true) (messagesPayload lib)
        (List.Forall₂ Agree) ∧
      Identifies (fun messages => ∀ message ∈ messages, frozen message = true)
        (canonicalMessageDigest lib) (List.Forall₂ Agree) := by
  have values : Identifies (wellFormed · = true) (payload lib) (same · · = true) :=
    fun _ _ valid valid' _ _ made made' => payload_eq_iff correct.floats valid valid' made made'
  have lists := messagesPayload_identifies correct.floats
  exact ⟨values, values.map correct.collisionFree, lists, lists.map correct.collisionFree⟩

theorem digests_identify_flags :
    "015abd7f5cc57a2dd94b7590f04ad8084273905ee33ec5cebeae62276a97f862" =
        "5daa0644c4a1c43ea018f7f1ef2944b90e0165ef1f2d5669ca89e5d4f69ac597" ↔
      same (.obj JsonSameness.counted.entries) (.obj JsonSameness.flagged.entries) = true :=
  (digests_identify JsonSameness.flagLibrary JsonSameness.flagLibrary_correct).2.1 _ _
    JsonSameness.counted.frozen JsonSameness.flagged.frozen _ _ (by decide +kernel)
    (by decide +kernel)

/-- A summary is valid for two transcripts only if what it covers is the same in both. -/
theorem validSummary_agrees (correct : lib.Correct) {m : ContextCompaction.CompactingContextManager}
    {digest : List AgentMessage → String} {summary : ContextSummary}
    {transcript other : List AgentMessage} {boundaries boundaries' : List Nat}
    (digested : ∀ messages made, canonicalMessageDigest lib messages = some made →
      digest messages = made)
    (h : m.validSummary digest summary transcript boundaries = true)
    (h' : m.validSummary digest summary other boundaries' = true)
    (frozen₁ : ∀ message ∈ transcript, frozen message = true)
    (frozen₂ : ∀ message ∈ other, frozen message = true)
    {made made' : String}
    (here : canonicalMessageDigest lib (transcript.take summary.sourceEndExclusive) = some made)
    (there : canonicalMessageDigest lib (other.take summary.sourceEndExclusive) = some made') :
    List.Forall₂ Agree (transcript.take summary.sourceEndExclusive)
      (other.take summary.sourceEndExclusive) := by
  have first := beq_iff_eq.mp (Bool.and_eq_true_iff.mp h).2
  have second := beq_iff_eq.mp (Bool.and_eq_true_iff.mp h').2
  rw [digested _ _ here] at first
  rw [digested _ _ there] at second
  have lists := messagesPayload_identifies correct.floats
  refine ((lists.map correct.collisionFree) _ _ ?_ ?_ _ _ here there).mp (first.symm.trans second)
  · exact fun message mem => frozen₁ message (List.mem_of_mem_take mem)
  · exact fun message mem => frozen₂ message (List.mem_of_mem_take mem)

end

end RoboAgent.CanonicalDigests
