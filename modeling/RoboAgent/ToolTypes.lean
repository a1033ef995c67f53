import RoboAgent.Messages
import RoboAgent.Interactions

/-! What the tool executor reads and asks. Its program for one call asks the host: the policy, the
approval provider, the hooks, the handler, the materializer. An answer is what the awaited object
returned or raised. The execution scope of the call answers the rest. -/

namespace RoboAgent.ToolTypes
open RoboAgent.FrozenJson RoboAgent.ToolErrors RoboAgent.ToolEffects RoboAgent.Messages
open RoboAgent.Interactions

/-- A call whose constructor has checked its identity. -/
structure CanonicalCall extends ToolCall where
  named : id ≠ "" ∧ name ≠ ""

structure RunError where
  code : String
  message : String
  retryable : Bool := false
  causeType : Option String := none
  codeValid : isErrorCode code = true := by decide
  messageNonempty : message ≠ "" := by decide

theorem RunError.ext_iff (error other : RunError) :
    (error.code = other.code ∧ error.message = other.message ∧ error.retryable = other.retryable ∧
      error.causeType = other.causeType) ↔ error = other := by
  obtain ⟨code, message, retryable, causeType, _, _⟩ := error
  obtain ⟨code', message', retryable', causeType', _, _⟩ := other
  simp only [RunError.mk.injEq]

instance : DecidableEq RunError :=
  fun error other => decidable_of_iff _ (RunError.ext_iff error other)

inductive ToolExecutionMode
  | serial
  | concurrent
deriving DecidableEq

inductive ToolEffectReporting
  | leaf
  | composite
deriving DecidableEq

inductive ToolDecision
  | allow
  | reject
  | failRun
  | requireApproval
deriving DecidableEq

structure ToolPolicyDecision where
  action : ToolDecision
  reason : Option String := none
deriving DecidableEq

inductive HookDecision
  | continue_
  | failRun
deriving DecidableEq

inductive ApprovalDecision
  | approve
  | reject
deriving DecidableEq

structure ApprovalRequest where
  approvalId : String
  toolCallId : String
  toolName : String
  arguments : FrozenJsonObject
  argumentsDigest : String
  reason : Option String
  effectCapability : ToolEffectKind
deriving DecidableEq

structure ApprovalResponse where
  approvalId : String
  argumentsDigest : String
  decision : ApprovalDecision
deriving DecidableEq

/-- A registered tool. Validating arguments returns a verdict or raises something else than a
ValidationError, named by its type. -/
structure Tool where
  effectKind : ToolEffectKind
  effectReporting : ToolEffectReporting
  executionMode : ToolExecutionMode
  timeout : Option Rat
  resolvesTimeout : Bool
  validate : FrozenJsonObject → Except String Bool

inductive RawToolContent
  | text (text : String) (truncated : Bool)
  | json (value : JsonValue)
  | binary (data : List UInt8) (mediaType : String)
  | resource (uri : String) (data : Option (List UInt8)) (mediaType : Option String)
deriving DecidableEq

/-- The effects and records a composite tool settled; none where a value is not canonical. -/
structure CompositeEvidence where
  effects : Option (List ToolEffectRecord)
  records : Option (List SupplementalExecutionRecord)
deriving DecidableEq

structure CompositeToolOutcome where
  content : Option (List ToolContent)
  evidence : CompositeEvidence
deriving DecidableEq

/-- What a handler returned: a composite outcome or a raw result, if it is canonical. -/
inductive Returned
  | composite (outcome : CompositeToolOutcome)
  | raw (content : Option (List RawToolContent))
deriving DecidableEq

/-- The exceptions the executor tells apart. -/
inductive Raised
  | batchAborted (reason : RunError) (effects : List ToolEffectRecord)
  | batchCancelled (effects : List ToolEffectRecord)
  | compositeCancellation (evidence : CompositeEvidence)
  | effectUnknown (error : ToolErrorInfo)
  | compositeFailure (error : ToolErrorInfo) (evidence : CompositeEvidence)
  | failure (error : ToolErrorInfo)
  | contract (message : String)
  | settlement (code : String)
  | materialization (code : String)
  | timeout
  | cancelled
  | other (typeName : String)
deriving DecidableEq

/-- asyncio.CancelledError, of which ToolBatchCancelled is a subclass. -/
def Raised.isCancelled : Raised → Bool
  | .cancelled | .batchCancelled _ => true
  | _ => false

def Raised.typeName : Raised → String
  | .batchAborted _ _ => "ToolBatchAborted"
  | .batchCancelled _ => "ToolBatchCancelled"
  | .compositeCancellation _ => "_CompositeToolCancellation"
  | .effectUnknown _ => "ToolEffectUnknown"
  | .compositeFailure _ _ => "CompositeToolExecutionFailure"
  | .failure _ => "ToolExecutionFailure"
  | .contract _ => "ToolContractError"
  | .settlement _ => "SettlementError"
  | .materialization _ => "ToolMaterializationError"
  | .timeout => "TimeoutError"
  | .cancelled => "CancelledError"
  | .other typeName => typeName

/-- Exactly one of content and error. -/
structure ToolExecutionResult where
  callId : String
  name : String
  outcome : Except ToolErrorInfo (List ToolContent)
deriving DecidableEq

abbrev CallResult := ToolExecutionResult × List ToolEffectRecord

/-- The evidence of a terminal record: the error, or how many blocks the content has. -/
inductive RecordEvidence
  | error (message : String) (retryable : Bool)
  | contentBlocks (count : Nat)
deriving DecidableEq

/-- A TOOL execution record. -/
structure ToolRecord where
  toolCallId : String
  toolName : String
  status : ExecutionRecordStatus
  errorCode : Option String
  evidence : RecordEvidence
deriving DecidableEq

structure ToolEvent where
  type : String
  toolCallId : String
  toolName : String
  errorCode : Option String := none
  outcome : Option String := none
  approval : Option (String × String) := none
deriving DecidableEq

/-- What a tool's requested_timeout returned; invalid is no number. -/
inductive RequestedTimeout
  | absent
  | seconds (value : Rat)
  | invalid
deriving DecidableEq

/-- How the wait for an approval ended: the token was cancelled, the time was up, the provider
returned (none is no ApprovalResponse) or raised, or the waiting task itself was cancelled. -/
inductive ApprovalWait
  | cancelled
  | timedOut
  | settled (response : Except Raised (Option ApprovalResponse))
  | interrupted
deriving DecidableEq

/-- How the wait for a handler ended. -/
inductive HandlerWait
  | cancelled
  | timedOut
  | settled (outcome : Except Raised Returned)
  | interrupted
deriving DecidableEq

/-- How the wait for a handler that was cancelled ended; expired is the end of the grace period. -/
inductive SettleWait
  | settled (outcome : Except Raised Returned)
  | expired
deriving DecidableEq

inductive Signal
  | completed
  | cancelled
deriving DecidableEq

inductive Question
  | check
  | policy
  | emit (event : ToolEvent)
  | approvalId
  | approval (request : ApprovalRequest)
  | beforeTool (hook : Nat)
  | afterTool (hook : Nat) (result : ToolExecutionResult)
  | requestedTimeout
  | start
  | handler (timeout : Option Rat)
  | cancelToken
  | settle
  | effectId
  | contribute (effects : List ToolEffectRecord) (records : List SupplementalExecutionRecord)
  | materialize (raw : List RawToolContent)
  | record (entry : ToolRecord)
  | close
deriving DecidableEq

/-- For check, whether the token is cancelled; for contribute, whether the scope accepted. None is a
value of the wrong type. -/
abbrev Answer : Question → Type
  | .check => Bool
  | .policy => Except Raised (Option ToolPolicyDecision)
  | .emit _ => Unit
  | .approvalId => String
  | .approval _ => ApprovalWait
  | .beforeTool _ => Except Raised (Option HookDecision)
  | .afterTool _ _ => Except Raised Unit
  | .requestedTimeout => Except Raised RequestedTimeout
  | .start => Unit
  | .handler _ => HandlerWait
  | .cancelToken => Unit
  | .settle => SettleWait
  | .effectId => EffectIdentity
  | .contribute _ _ => Bool
  | .materialize _ => Except Raised (List ToolContent)
  | .record _ => Unit
  | .close => Signal

abbrev Program := Interaction Question Answer Raised

abbrev ask (question : Question) : Program (Answer question) := Interaction.request question

end RoboAgent.ToolTypes
