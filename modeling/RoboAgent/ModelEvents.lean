import RoboAgent.Messages

/-! The canonical events of a model stream, with the checks their constructors make, and the chunks
an OpenAI-compatible provider streams. Text is valid Unicode. -/

namespace RoboAgent.ModelEvents
open RoboAgent.FrozenJson RoboAgent.Messages

structure Usage where
  inputTokens : Option Int
  outputTokens : Option Int
  totalTokens : Option Int
deriving DecidableEq

/-- What the constructor asks of its values. -/
def Usage.checked (usage : Usage) : Bool :=
  [usage.inputTokens, usage.outputTokens, usage.totalTokens].all fun value => value.all (0 ≤ ·)

/-- What a chunk reports; its names are the provider's. -/
structure RawUsage where
  promptTokens : Option Int
  completionTokens : Option Int
  totalTokens : Option Int
deriving DecidableEq

def RawUsage.normalized (raw : RawUsage) : Usage :=
  ⟨raw.promptTokens, raw.completionTokens, raw.totalTokens⟩

inductive FinishReason
  | stop
  | toolCall
  | length
  | contentFilter
  | other
deriving DecidableEq

structure ModelResponse where
  message : AssistantMessage
  finishReason : FinishReason
  usage : Option Usage
deriving DecidableEq

/-- The response under the identity that a caller allocated, if there is one. -/
def identifiedAs (messageId : Option String) (response : ModelResponse) : ModelResponse :=
  { response with message := { response.message with
    messageId := messageId.getD response.message.messageId } }

inductive Modality
  | text
  | image
  | audio
  | file
deriving DecidableEq

def modality : MessageContent → Modality
  | .text _ | .json _ => .text
  | .artifact _ | .file _ _ _ => .file
  | .image _ _ _ => .image
  | .audio _ _ _ => .audio

structure ModelCapabilities where
  outputModalities : List Modality := [.text]
  toolCalling : Bool := false
  parallelToolCalls : Bool := false

/-- The codes of ModelProtocolError and ModelCapabilityError that a stream can end with. -/
inductive ErrorCode
  | invalidStreamSequence
  | duplicateResponseStarted
  | duplicateToolCallStarted
  | duplicateToolCallId
  | invalidToolCallDeltaState
  | duplicateToolCallCompleted
  | incompleteToolCall
  | toolCallResponseMismatch
  | invalidProviderResponse
  | missingTerminalResponse
  | invalidToolArguments
  | emptyModelResponse
  | unsupportedOutputModality
  | modelDoesNotSupportTools
  | parallelToolCallsUnsupported
deriving DecidableEq

/-- What a stream or its collection raises: a ValueError of a constructor, a ProtocolError of a
message, an exception of json.loads that is not a JSONDecodeError, or an error with a code. -/
inductive Failure
  | valueError (message : String)
  | messageProtocol (message : String)
  | arguments (exception : String)
  | modelProtocol (code : ErrorCode) (message : String)
  | modelCapability (code : ErrorCode) (message : String)
deriving DecidableEq

inductive Kind
  | valueError
  | messageProtocol
  | arguments (exception : String)
  | modelProtocol (code : ErrorCode)
  | modelCapability (code : ErrorCode)
deriving DecidableEq

def Failure.kind : Failure → Kind
  | .valueError _ => .valueError
  | .messageProtocol _ => .messageProtocol
  | .arguments exception => .arguments exception
  | .modelProtocol code _ => .modelProtocol code
  | .modelCapability code _ => .modelCapability code

inductive ModelEvent
  | responseStarted (sequence : Nat) (responseId : String)
  | textDelta (sequence : Nat) (text : String)
  | toolCallStarted (sequence : Nat) (callIndex : Int) (callId : String) (name : Option String)
  | toolCallArgumentsDelta (sequence : Nat) (callIndex : Int) (callId delta : String)
  | toolCallCompleted (sequence : Nat) (callIndex : Int) (call : ToolCall)
  | usageUpdated (sequence : Nat) (usage : Usage)
  | responseCompleted (sequence : Nat) (response : ModelResponse)
deriving DecidableEq

namespace ModelEvent

def sequence : ModelEvent → Nat
  | responseStarted sequence _ | textDelta sequence _ | toolCallStarted sequence _ _ _
  | toolCallArgumentsDelta sequence _ _ _ | toolCallCompleted sequence _ _
  | usageUpdated sequence _ | responseCompleted sequence _ => sequence

/-- The index _stream_identity checks; the sequence of an event is never negative here. -/
def callIndex? : ModelEvent → Option Int
  | toolCallStarted _ callIndex _ _ | toolCallArgumentsDelta _ callIndex _ _
  | toolCallCompleted _ callIndex _ => some callIndex
  | _ => none

/-- The ValueError of an event's constructor. -/
def refused (event : ModelEvent) : Option String :=
  if event.callIndex?.any (· < 0) then
    some "Tool call index must be a non-negative integer."
  else
    match event with
    | responseStarted _ responseId =>
      if responseId = "" then some "response_id must be non-empty." else none
    | toolCallStarted _ _ callId name =>
      if callId = "" then some "ToolCallStarted requires call_id."
      else if name = some "" then some "ToolCallStarted.name must be non-empty or None."
      else none
    | toolCallArgumentsDelta _ _ callId _ =>
      if callId = "" then some "Invalid ToolCall arguments delta." else none
    | _ => none

def text? : ModelEvent → Option String
  | textDelta _ text => some text
  | _ => none

def completedCall? : ModelEvent → Option (Int × ToolCall)
  | toolCallCompleted _ callIndex call => some (callIndex, call)
  | _ => none

def usage? : ModelEvent → Option Usage
  | usageUpdated _ usage => some usage
  | _ => none

end ModelEvent

/-- AssistantMessage.__init__, with the default limits. -/
def assistantMessage (content : List MessageContent) (toolCalls : List ToolCall)
    (reasoningContent : Option String) (timestamp : PyFloat) (messageId : String) :
    Except Failure AssistantMessage :=
  let limits : MediaLimits := {}
  if limits.maxContentsPerMessage < content.length then
    .error (.messageProtocol "Too many content blocks.")
  else if ¬limits.admits content then .error (.messageProtocol "Inline media exceeds limit.")
  else if ¬(toolCalls.map ToolCall.id).Nodup then
    .error (.messageProtocol "Duplicate ToolCall ID.")
  else if ¬timestamp.isFinite then .error (.messageProtocol "Message timestamp must be finite.")
  else if messageId = "" then .error (.messageProtocol "message_id must be a non-empty string.")
  else .ok ⟨content, toolCalls, reasoningContent, timestamp, messageId⟩

theorem assistantMessage_ok {content : List MessageContent} {toolCalls : List ToolCall}
    {reasoningContent : Option String} {timestamp : PyFloat} {messageId : String}
    (few : content.length ≤ 16) (admitted : ({} : MediaLimits).admits content = true)
    (distinct : (toolCalls.map ToolCall.id).Nodup) (finite : timestamp.isFinite = true)
    (identified : messageId ≠ "") :
    assistantMessage content toolCalls reasoningContent timestamp messageId =
      .ok ⟨content, toolCalls, reasoningContent, timestamp, messageId⟩ := by
  rw [assistantMessage]
  dsimp only
  rw [if_neg (not_lt.mpr few), if_neg (not_not.mpr admitted), if_neg (not_not.mpr distinct),
    if_neg (not_not.mpr finite), if_neg identified]

/-- A message that was made is made with any other identity. -/
theorem assistantMessage_eq_ok {content : List MessageContent} {toolCalls : List ToolCall}
    {reasoningContent : Option String} {timestamp : PyFloat} {messageId : String}
    {message : AssistantMessage}
    (h : assistantMessage content toolCalls reasoningContent timestamp messageId = .ok message) :
    message = ⟨content, toolCalls, reasoningContent, timestamp, messageId⟩ ∧
      ∀ other ≠ "", assistantMessage content toolCalls reasoningContent timestamp other =
        .ok ⟨content, toolCalls, reasoningContent, timestamp, other⟩ := by
  rw [assistantMessage] at h
  split_ifs at h with many admitted distinct finite unidentified
  exact ⟨(Except.ok.inj h).symm, fun other identified =>
    assistantMessage_ok (not_lt.mp many) admitted distinct finite identified⟩

/-- The function of a fragment. -/
structure FunctionFragment where
  name : Option String
  arguments : Option String
deriving DecidableEq

structure ToolCallFragment where
  index : Int
  id : Option String
  function : Option FunctionFragment
deriving DecidableEq

structure Delta where
  reasoningContent : Option String
  content : Option String
  toolCalls : List ToolCallFragment
deriving DecidableEq

structure Choice where
  finishReason : Option String
  delta : Delta
deriving DecidableEq

structure Chunk where
  id : Option String
  usage : Option RawUsage
  choices : List Choice
deriving DecidableEq

/-- A text that Python takes for true. -/
def given (text : Option String) : Option String := text.filter (· ≠ "")

@[simp] theorem given_none : given none = none := rfl

theorem given_eq_some {text : Option String} {s : String} :
    given text = some s ↔ text = some s ∧ s ≠ "" := by
  rw [given, Option.filter_eq_some_iff, decide_eq_true_eq]

/-- The text, or an empty one for None and for an empty text. -/
def orEmpty (text : Option String) : String := text.getD ""

theorem given_eq_none {text : Option String} : given text = none ↔ orEmpty text = "" := by
  cases text with
  | none => exact iff_of_true rfl rfl
  | some s => simp [given, orEmpty]

end RoboAgent.ModelEvents
