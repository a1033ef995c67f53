import RoboAgent.ToolEffects

/-! Canonical messages and the values a Session stores. The fields are those of the source; what
the constructors check beyond their types is stated with the codec that repeats the checks. -/

namespace RoboAgent.Messages
open RoboAgent.FrozenJson RoboAgent.ToolErrors RoboAgent.ToolEffects

inductive MediaSource
  | bytes (data : List UInt8)
  | file (path : String)
  | url (url : String)
deriving DecidableEq

inductive MessageContent
  | text (text : String)
  | json (value : JsonValue)
  | image (source : MediaSource) (mediaType : Option String) (detail : Option String)
  | audio (source : MediaSource) (mediaType : Option String) (transcript : Option String)
  | file (source : MediaSource) (mediaType : Option String) (filename : Option String)
  | artifact (reference : ArtifactReferenceContent)
deriving DecidableEq

structure ToolCall where
  id : String
  name : String
  arguments : FrozenJsonObject
deriving DecidableEq

structure UserMessage where
  content : List MessageContent
  timestamp : PyFloat
  messageId : String
deriving DecidableEq

structure AssistantMessage where
  content : List MessageContent
  toolCalls : List ToolCall
  reasoningContent : Option String
  timestamp : PyFloat
  messageId : String
deriving DecidableEq

inductive ToolResultStatus
  | success
  | error
deriving DecidableEq

structure ToolResultMessage where
  toolCallId : String
  toolName : String
  status : ToolResultStatus
  content : List MessageContent
  error : Option ToolErrorInfo
  timestamp : PyFloat
  messageId : String
deriving DecidableEq

inductive AgentMessage
  | user (message : UserMessage)
  | assistant (message : AssistantMessage)
  | toolResult (message : ToolResultMessage)
deriving DecidableEq

def AgentMessage.content : AgentMessage → List MessageContent
  | .user message => message.content
  | .assistant message => message.content
  | .toolResult message => message.content

structure MediaLimits where
  maxInlineBytes : Nat := 8 * 1024 * 1024
  maxContentsPerMessage : Nat := 16

/-- normalize_content accepts the blocks; what it accepts it returns as it is. -/
def MediaLimits.admits (limits : MediaLimits) (content : List MessageContent) : Bool :=
  content.length ≤ limits.maxContentsPerMessage &&
    content.all fun
      | .image (.bytes data) _ _ | .audio (.bytes data) _ _ | .file (.bytes data) _ _ =>
        data.length ≤ limits.maxInlineBytes
      | _ => true

/-- TranscriptValidator.validate, past the checks on each message alone: `pending` are the calls
of the open exchange that have no result yet. -/
def validateExchanges : List ToolCall → List AgentMessage → Bool
  | [], [] => true
  | _ :: _, [] => false
  | [], .user _ :: rest => validateExchanges [] rest
  | [], .assistant message :: rest => validateExchanges message.toolCalls rest
  | [], .toolResult _ :: _ => false
  | call :: calls, .toolResult message :: rest =>
    message.toolCallId == call.id && message.toolName == call.name &&
      validateExchanges calls rest
  | _ :: _, .user _ :: _ => false
  | _ :: _, .assistant _ :: _ => false

def validateTranscript (limits : MediaLimits) (messages : List AgentMessage) : Bool :=
  messages.all (fun message => limits.admits message.content) && validateExchanges [] messages

structure InputReceipt where
  inputId : String
  sequence : Nat
  sessionId : String
deriving DecidableEq

inductive InputKind
  | steer
  | followUp
deriving DecidableEq

structure PendingInput where
  receipt : InputReceipt
  message : UserMessage
  kind : InputKind
deriving DecidableEq

/-- The constructor compares sourceStart with 0 and keeps whatever equals it. -/
structure ContextSummary where
  sourceStart : JsonValue
  sourceEndExclusive : Nat
  sourceDigest : String
  text : String
  summaryFormatVersion : Nat
  summarizerId : Option String
deriving DecidableEq

structure SessionSnapshot where
  schemaVersion : Nat
  sessionId : String
  revision : Nat
  lastPendingSequence : Nat
  messages : List AgentMessage
  pending : List PendingInput
  compaction : Option ContextSummary
  metadata : FrozenJsonObject
deriving DecidableEq

end RoboAgent.Messages
