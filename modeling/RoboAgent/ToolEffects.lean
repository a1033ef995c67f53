import RoboAgent.FrozenJson
import RoboAgent.ToolErrors

/-! Tool effect records and the retry verdict drawn from them. A record carries its constructor's
checks: exactly one of content and error, and a certainty its status allows. -/

namespace RoboAgent.ToolEffects
open RoboAgent.FrozenJson RoboAgent.ToolErrors

structure ArtifactReferenceContent where
  uri : String
  mediaType : Option String
  size : Nat
  digest : String
  preview : Option String
deriving DecidableEq

inductive ToolContent
  | text (text : String) (truncated : Bool)
  | json (value : JsonValue)
  | artifact (reference : ArtifactReferenceContent)
deriving DecidableEq

inductive ToolEffectKind
  | readOnly
  | sideEffecting
deriving DecidableEq

inductive ToolEffectStatus
  | succeeded
  | failed
  | timedOut
  | cancelled
  | unknown
deriving DecidableEq

inductive EffectCertainty
  | certain
  | certainNoEffect
  | unknown
deriving DecidableEq

structure EffectIdentity where
  scopeId : Nat
  sequence : Nat
deriving DecidableEq

def ToolEffectStatus.defaultCertainty : ToolEffectStatus → EffectCertainty
  | .succeeded => .certain
  | .unknown => .unknown
  | .failed | .timedOut | .cancelled => .certainNoEffect

def ToolEffectStatus.allows : ToolEffectStatus → EffectCertainty → Bool
  | .succeeded, .certain => true
  | .unknown, .unknown => true
  | .failed, .certainNoEffect | .failed, .unknown => true
  | .cancelled, .certainNoEffect | .cancelled, .unknown => true
  | .timedOut, .certainNoEffect | .timedOut, .unknown => true
  | _, _ => false

/-- The checks ToolEffectRecord makes on construction, past the identity of the call. -/
def recordChecks (status : ToolEffectStatus) (content : Option ToolContent)
    (error : Option ToolErrorInfo) (certainty : EffectCertainty) : Bool :=
  (content.isSome != error.isSome) &&
  (status != .succeeded || content.isSome) &&
  (status == .succeeded || error.isSome) &&
  (status != .timedOut || error.all fun e => e.code == "timeout") &&
  (status != .cancelled || error.all fun e => e.code == "cancelled") &&
  status.allows certainty

structure ToolEffectRecord where
  callId : String
  toolName : String
  effectKind : ToolEffectKind
  status : ToolEffectStatus
  content : Option ToolContent := none
  error : Option ToolErrorInfo := none
  transcriptCommitted : Bool := false
  effectId : Option EffectIdentity := none
  certainty : EffectCertainty := status.defaultCertainty
  identified : callId ≠ "" ∧ toolName ≠ ""
  checked : recordChecks status content error certainty = true
deriving DecidableEq

/-- One effect does not forbid a retry: a read, a certain success that the transcript holds, or a
certain absence of effect. -/
def ToolEffectRecord.allowsRetry (effect : ToolEffectRecord) : Bool :=
  match effect.effectKind with
  | .readOnly => true
  | .sideEffecting =>
    match effect.status with
    | .succeeded => effect.certainty == .certain && effect.transcriptCommitted
    | .failed | .cancelled | .timedOut => effect.certainty == .certainNoEffect
    | .unknown => false

inductive RetryBlockerCode
  | settlementUncertain
  | trustedExecution
  | cleanupUncertain
deriving DecidableEq

structure RetryBlocker where
  code : RetryBlockerCode
  scopeId : Nat
  message : String
deriving DecidableEq

def retrySafe (effects : List ToolEffectRecord) (retryBlockers : List RetryBlocker) : Bool :=
  retryBlockers.isEmpty && effects.all ToolEffectRecord.allowsRetry

theorem retrySafe_iff (effects : List ToolEffectRecord) (retryBlockers : List RetryBlocker) :
    retrySafe effects retryBlockers = true ↔
      retryBlockers = [] ∧ ∀ effect ∈ effects, effect.allowsRetry = true := by
  rw [retrySafe, Bool.and_eq_true, List.isEmpty_iff, List.all_eq_true]

/-- A side-effecting record that allows a retry is a committed certain success or a certain
absence of effect. -/
theorem allowsRetry_sideEffecting {effect : ToolEffectRecord}
    (kind : effect.effectKind = .sideEffecting) (h : effect.allowsRetry = true) :
    (effect.status = .succeeded ∧ effect.certainty = .certain ∧
        effect.transcriptCommitted = true) ∨
      effect.certainty = .certainNoEffect := by
  rw [ToolEffectRecord.allowsRetry, kind] at h
  cases status : effect.status <;> simp_all

inductive ExecutionRecordStatus
  | succeeded
  | failed
  | cancelled
  | unknown
deriving DecidableEq

structure SupplementalExecutionRecord where
  status : ExecutionRecordStatus
  errorCode : Option String
  evidence : Option FrozenJsonObject
deriving DecidableEq

end RoboAgent.ToolEffects
