import RoboAgent.Messages

/-! The Session's own state and its critical sections. Each section is what one method does between
two awaits: no section awaits while it holds the queue, transcript or compaction lock, so these
locks are never contended and a section is one step. Persisting what a section changed comes after
it and is modelled with the repository. -/

namespace RoboAgent.SessionState
open RoboAgent.Messages RoboAgent.FrozenJson

structure Session where
  sessionId : String
  mediaLimits : MediaLimits
  hasRepository : Bool
  messages : List AgentMessage
  activeRun : Option Nat
  closed : Bool
  sequence : Nat
  pending : List PendingInput
  currentCompaction : Option ContextSummary
  metadata : FrozenJsonObject
  runtimeRevision : Nat
  durableRevision : Option Nat

inductive SessionError
  | busy
  | closed
  | ownership
  | cancelled
  | protocol
  | persistence
  | conflict
  | corrupted
  | versionUnsupported
deriving DecidableEq

/-- What a method returns once its change is persisted. -/
inductive Reply
  | receipt (receipt : InputReceipt)
  | inputs (inputs : List PendingInput)
  | receipts (receipts : List InputReceipt)
  | committed (accepted : Bool)
  | revision
  | done
deriving DecidableEq

/-- The end of a critical section: the state, what the method will return, and the runtime revision
its change must be persisted to; none if it changed nothing. -/
structure Section where
  session : Session
  reply : Reply
  required : Option Nat

structure CompactionUpdate where
  summary : Option ContextSummary
  expectedSummaryDigest : Option String

abbrev Outcome := Except SessionError Section

def userMessages (inputs : List PendingInput) : List AgentMessage :=
  inputs.map fun item => .user item.message

/-- The fields of a Run that its first commit reads, and whether that commit was made. -/
structure Run where
  runId : Nat
  initialMessage : Option UserMessage
  initialPendingSequence : Nat
  committed : Bool

namespace Session

variable (s : Session)

def validate (messages : List AgentMessage) : Bool := validateTranscript s.mediaLimits messages

/-- A section that changed the state: the runtime revision moves on. -/
def changed (reply : Reply) : Outcome :=
  .ok {
    session := { s with runtimeRevision := s.runtimeRevision + 1 }
    reply
    required := some (s.runtimeRevision + 1) }

def unchanged (reply : Reply) : Outcome := .ok ⟨s, reply, none⟩

def enqueue (kind : InputKind) (message : UserMessage) (inputId : String) : Outcome :=
  if s.closed then .error .closed
  else
    let sequence := s.sequence + 1
    let receipt : InputReceipt := ⟨inputId, sequence, s.sessionId⟩
    changed { s with sequence, pending := s.pending ++ [⟨receipt, message, kind⟩] }
      (.receipt receipt)

def consumePending (runId : Nat) (cancelled : Bool) : Outcome :=
  if s.activeRun ≠ some runId then .error .ownership
  else if cancelled then .error .cancelled
  else if s.pending = [] then s.unchanged (.inputs [])
  else
    let prospective := s.messages ++ userMessages s.pending
    if s.validate prospective then
      changed { s with messages := prospective, pending := [] } (.inputs s.pending)
    else .error .protocol

/-- The pending inputs up to the sequence number a Run saw when it was started. -/
def pendingThrough (throughSequence : Nat) : List PendingInput :=
  s.pending.takeWhile fun item => item.receipt.sequence ≤ throughSequence

def commitInitialInput (runId : Nat) (message : Option UserMessage) (throughSequence : Nat)
    (cancelled : Bool) : Outcome :=
  if s.activeRun ≠ some runId then .error .ownership
  else if cancelled then .error .cancelled
  else
    let pending := s.pendingThrough throughSequence
    let block := userMessages pending ++ message.toList.map .user
    if block = [] then s.unchanged (.inputs pending)
    else if s.validate (s.messages ++ block) then
      changed { s with
        messages := s.messages ++ block, pending := s.pending.drop pending.length }
        (.inputs pending)
    else .error .protocol

def clearPending : Outcome :=
  if s.activeRun.isSome then .error .busy
  else if s.pending = [] then s.unchanged (.receipts [])
  else changed { s with pending := [] } (.receipts (s.pending.map PendingInput.receipt))

def commitMessage (runId : Nat) (message : AssistantMessage) : Outcome :=
  if s.activeRun ≠ some runId then .error .ownership
  else if s.validate (s.messages ++ [.assistant message]) then
    changed { s with messages := s.messages ++ [.assistant message] } .done
  else .error .protocol

def commitExchange (runId : Nat) (assistant : AssistantMessage)
    (results : List ToolResultMessage) : Outcome :=
  let block := .assistant assistant :: results.map .toolResult
  if s.activeRun ≠ some runId then .error .ownership
  else if s.validate (s.messages ++ block) then
    changed { s with messages := s.messages ++ block } .done
  else .error .protocol

def commitCompaction (runId : Nat) (update : CompactionUpdate) : Outcome :=
  if s.activeRun ≠ some runId then .error .ownership
  else if s.currentCompaction.map ContextSummary.sourceDigest ≠ update.expectedSummaryDigest then
    s.unchanged (.committed false)
  else changed { s with currentCompaction := update.summary } (.committed true)

def setMetadata (metadata : FrozenJsonObject) : Outcome :=
  if metadata.equal s.metadata then s.unchanged .done
  else changed { s with metadata } .done

/-- Session.persist asks for the current runtime revision; it has nothing to change first. -/
def persist : Outcome :=
  if s.hasRepository then .ok ⟨s, .revision, some s.runtimeRevision⟩ else .error .persistence

def snapshot : SessionSnapshot where
  schemaVersion := 2
  sessionId := s.sessionId
  revision := s.runtimeRevision
  lastPendingSequence := s.sequence
  messages := s.messages
  pending := s.pending
  compaction := s.currentCompaction
  metadata := s.metadata

def close : Except SessionError (Session × List InputReceipt) :=
  if s.activeRun.isSome then .error .busy
  else .ok ({ s with closed := true }, s.pending.map PendingInput.receipt)

def start (runId : Nat) (message : Option UserMessage) : Except SessionError (Session × Run) :=
  if s.closed then .error .closed
  else if s.activeRun.isSome then .error .busy
  else if message.all fun m => s.validate (s.messages ++ [.user m]) then
    .ok ({ s with activeRun := some runId }, ⟨runId, message, s.sequence, false⟩)
  else .error .protocol

def releaseRun (runId : Nat) : Except SessionError Session :=
  if s.activeRun ≠ some runId then .error .ownership else .ok { s with activeRun := none }

end Session

/-- The constructor, on a transcript it accepts. -/
def create (sessionId : String) (mediaLimits : MediaLimits) (hasRepository : Bool)
    (messages : List AgentMessage) (metadata : FrozenJsonObject) : Except SessionError Session :=
  if validateTranscript mediaLimits messages then
    .ok {
      sessionId, mediaLimits, hasRepository, messages, metadata
      activeRun := none
      closed := false
      sequence := 0
      pending := []
      currentCompaction := none
      runtimeRevision := 0
      durableRevision := none }
  else .error .protocol

/-- The compaction record a restored Session keeps: one whose digest is that of a valid prefix. -/
def restoredCompaction (digest : List AgentMessage → String) (limits : MediaLimits)
    (messages : List AgentMessage) (compaction : Option ContextSummary) : Option ContextSummary :=
  compaction.filter fun summary =>
    let source := messages.take summary.sourceEndExclusive
    validateTranscript limits source && summary.sourceEndExclusive ≤ messages.length &&
      digest source == summary.sourceDigest

def sequences (inputs : List PendingInput) : List Nat :=
  inputs.map fun item => item.receipt.sequence

def restore (digest : List AgentMessage → String) (limits : MediaLimits) (hasRepository : Bool)
    (snapshot : SessionSnapshot) : Except SessionError Session :=
  if !(1 ≤ snapshot.schemaVersion && snapshot.schemaVersion ≤ 2) then .error .versionUnsupported
  else if !validateTranscript limits snapshot.messages then .error .protocol
  else if snapshot.pending.any fun item => item.receipt.sessionId != snapshot.sessionId then
    .error .corrupted
  else if ¬(sequences snapshot.pending).Pairwise (· < ·) then .error .corrupted
  else if (sequences snapshot.pending).any fun n => snapshot.lastPendingSequence < n then
    .error .corrupted
  else .ok {
    sessionId := snapshot.sessionId
    mediaLimits := limits
    hasRepository
    messages := snapshot.messages
    activeRun := none
    closed := false
    sequence := snapshot.lastPendingSequence
    pending := snapshot.pending
    currentCompaction := restoredCompaction digest limits snapshot.messages snapshot.compaction
    metadata := snapshot.metadata
    runtimeRevision := snapshot.revision
    durableRevision := some snapshot.revision }

/-- A Session as its constructor or restore leaves it. -/
inductive Fresh (session : Session) : Prop
  | created {sessionId : String} {mediaLimits : MediaLimits} {hasRepository : Bool}
    {messages : List AgentMessage} {metadata : FrozenJsonObject}
    (made : create sessionId mediaLimits hasRepository messages metadata = .ok session)
  | restored {digest : List AgentMessage → String} {limits : MediaLimits} {hasRepository : Bool}
    {snapshot : SessionSnapshot} (made : restore digest limits hasRepository snapshot = .ok session)

theorem create_eq_ok {sessionId : String} {mediaLimits : MediaLimits} {hasRepository : Bool}
    {messages : List AgentMessage} {metadata : FrozenJsonObject} {session : Session}
    (made : create sessionId mediaLimits hasRepository messages metadata = .ok session) :
    session.activeRun = none ∧ session.pending = [] ∧ session.sequence = 0 ∧
      session.durableRevision = none := by
  unfold create at made
  split_ifs at made
  cases made
  exact ⟨rfl, rfl, rfl, rfl⟩

theorem restore_eq_ok {digest : List AgentMessage → String} {limits : MediaLimits}
    {hasRepository : Bool} {snapshot : SessionSnapshot} {session : Session}
    (made : restore digest limits hasRepository snapshot = .ok session) :
    session.activeRun = none ∧ (sequences session.pending).Pairwise (· < ·) ∧
      (∀ n ∈ sequences session.pending, n ≤ session.sequence) ∧
      session.runtimeRevision = snapshot.revision ∧
      session.durableRevision = some snapshot.revision := by
  unfold restore at made
  split_ifs at made with version transcript owner increasing stale
  cases made
  refine ⟨rfl, increasing, fun n mem => ?_, rfl, rfl⟩
  by_contra above
  exact stale (List.any_eq_true.mpr ⟨n, mem, decide_eq_true (Nat.lt_of_not_le above)⟩)

end RoboAgent.SessionState
