import RoboAgent.SessionTranscript
import RoboAgent.FalliblePrograms

/-! The four methods that append to a transcript, statement by statement: what they have changed by
the time they raise stays changed. Each comes to its critical section: it raises before its first
change, or makes all of them. -/

namespace RoboAgent.SessionCommits
open RoboAgent.Messages RoboAgent.FrozenJson RoboAgent.SessionState RoboAgent.SessionWorld
open RoboAgent.SessionTranscript RoboAgent.FalliblePrograms RoboAgent.Runs

/-- A method under its locks: its reply, and the revision it must persist. -/
abbrev Method := Program Session SessionError

def requireOwner (runId : Nat) : Method Unit := do
  let s ← get
  if s.activeRun ≠ some runId then throw .ownership

def raiseIfCancelled (cancelled : Bool) : Method Unit :=
  if cancelled then throw .cancelled else pure ()

/-- Validate the transcript with a block after it. -/
def validateBlock (block : List AgentMessage) : Method Unit := do
  let s ← get
  if s.validate (s.messages ++ block) then pure () else throw .protocol

def extendMessages (block : List AgentMessage) : Method Unit :=
  modify fun s => { s with messages := s.messages ++ block }

def raiseRevision : Method (Option Nat) := do
  modify fun s => { s with runtimeRevision := s.runtimeRevision + 1 }
  let s ← get
  pure (some s.runtimeRevision)

def consumePending (runId : Nat) (cancelled : Bool) : Method (Reply × Option Nat) := do
  requireOwner runId
  raiseIfCancelled cancelled
  let s ← get
  let pending := s.pending
  if pending = [] then pure (.inputs pending, none)
  else
    validateBlock (userMessages pending)
    extendMessages (userMessages pending)
    modify fun s => { s with pending := [] }
    let revision ← raiseRevision
    pure (.inputs pending, revision)

def commitInitialInput (runId : Nat) (message : Option UserMessage) (throughSequence : Nat)
    (cancelled : Bool) : Method (Reply × Option Nat) := do
  requireOwner runId
  raiseIfCancelled cancelled
  let s ← get
  let pending := s.pendingThrough throughSequence
  let block := userMessages pending ++ message.toList.map .user
  if block = [] then pure (.inputs pending, none)
  else
    validateBlock block
    extendMessages block
    modify fun s => { s with pending := s.pending.drop pending.length }
    let revision ← raiseRevision
    pure (.inputs pending, revision)

def commitMessage (runId : Nat) (message : AssistantMessage) : Method (Reply × Option Nat) := do
  requireOwner runId
  validateBlock [.assistant message]
  extendMessages [.assistant message]
  let revision ← raiseRevision
  pure (.done, revision)

def commitExchange (runId : Nat) (assistant : AssistantMessage)
    (results : List ToolResultMessage) : Method (Reply × Option Nat) := do
  let block := .assistant assistant :: results.map .toolResult
  requireOwner runId
  validateBlock block
  extendMessages block
  let revision ← raiseRevision
  pure (.done, revision)

section Exec
variable (s : Session)

@[simp] theorem exec_requireOwner (runId : Nat) :
    exec (requireOwner runId) s =
      if s.activeRun ≠ some runId then (.error .ownership, s) else (.ok (), s) := by
  simp only [requireOwner, exec_bind, exec_get, exec_ite, exec_throw, exec_pure]

@[simp] theorem exec_raiseIfCancelled (cancelled : Bool) :
    exec (raiseIfCancelled cancelled) s =
      if cancelled then (.error .cancelled, s) else (.ok (), s) := by
  simp only [raiseIfCancelled, exec_ite, exec_throw, exec_pure]

@[simp] theorem exec_validateBlock (block : List AgentMessage) :
    exec (validateBlock block) s =
      if s.validate (s.messages ++ block) then (.ok (), s) else (.error .protocol, s) := by
  simp only [validateBlock, exec_bind, exec_get, exec_ite, exec_throw, exec_pure]

@[simp] theorem exec_extendMessages (block : List AgentMessage) :
    exec (extendMessages block) s = (.ok (), { s with messages := s.messages ++ block }) := rfl

@[simp] theorem exec_raiseRevision :
    exec raiseRevision s = (.ok (some (s.runtimeRevision + 1)),
      { s with runtimeRevision := s.runtimeRevision + 1 }) := rfl

end Exec

inductive Commit
  | initialInput (runId : Nat) (message : Option UserMessage) (throughSequence : Nat)
    (cancelled : Bool)
  | pending (runId : Nat) (cancelled : Bool)
  | reply (runId : Nat) (message : AssistantMessage)
  | exchange (runId : Nat) (assistant : AssistantMessage) (results : List ToolResultMessage)

namespace Commit

def method : Commit → Method (Reply × Option Nat)
  | .initialInput runId message throughSequence cancelled =>
    commitInitialInput runId message throughSequence cancelled
  | .pending runId cancelled => consumePending runId cancelled
  | .reply runId message => commitMessage runId message
  | .exchange runId assistant results => commitExchange runId assistant results

/-- The critical section of the method. -/
def outcome (s : Session) : Commit → Outcome
  | .initialInput runId message throughSequence cancelled =>
    s.commitInitialInput runId message throughSequence cancelled
  | .pending runId cancelled => s.consumePending runId cancelled
  | .reply runId message => s.commitMessage runId message
  | .exchange runId assistant results => s.commitExchange runId assistant results

/-- What the commit brings into the transcript. -/
def block (s : Session) : Commit → List AgentMessage
  | .initialInput _ message throughSequence _ =>
    userMessages (s.pendingThrough throughSequence) ++ message.toList.map .user
  | .pending _ _ => userMessages s.pending
  | .reply _ message => [.assistant message]
  | .exchange _ assistant results => .assistant assistant :: results.map .toolResult

/-- What it leaves in the queue. -/
def remaining (s : Session) : Commit → List PendingInput
  | .initialInput _ _ throughSequence _ => s.pending.drop (s.pendingThrough throughSequence).length
  | .pending _ _ => []
  | .reply _ _ | .exchange _ _ _ => s.pending

end Commit

/-- How a method that comes to a critical section ends, and the state it leaves. -/
def settled (s : Session) : Outcome → Except SessionError (Reply × Option Nat) × Session
  | .ok x => (.ok (x.reply, x.required), x.session)
  | .error error => (.error error, s)

theorem exec_method (s : Session) (commit : Commit) :
    exec commit.method s = settled s (commit.outcome s) := by
  cases commit with
  | initialInput runId message throughSequence cancelled =>
    simp only [Commit.method, Commit.outcome, commitInitialInput, Session.commitInitialInput,
      exec_bind, exec_get, exec_ite, exec_pure, exec_requireOwner, exec_raiseIfCancelled,
      exec_validateBlock, exec_extendMessages, exec_modify, exec_raiseRevision]
    split_ifs <;> simp_all [settled, Session.unchanged, Session.changed]
  | pending runId cancelled =>
    simp only [Commit.method, Commit.outcome, consumePending, Session.consumePending,
      exec_bind, exec_get, exec_ite, exec_pure, exec_requireOwner, exec_raiseIfCancelled,
      exec_validateBlock, exec_extendMessages, exec_modify, exec_raiseRevision]
    split_ifs <;> simp_all [settled, Session.unchanged, Session.changed]
  | reply runId message =>
    simp only [Commit.method, Commit.outcome, commitMessage, Session.commitMessage,
      exec_bind, exec_pure, exec_requireOwner, exec_validateBlock, exec_extendMessages,
      exec_raiseRevision]
    split_ifs <;> simp_all [settled, Session.unchanged, Session.changed]
  | exchange runId assistant results =>
    simp only [Commit.method, Commit.outcome, commitExchange, Session.commitExchange,
      exec_bind, exec_pure, exec_requireOwner, exec_validateBlock, exec_extendMessages,
      exec_raiseRevision]
    split_ifs <;> simp_all [settled, Session.unchanged, Session.changed]

/-- A commit made its changes, all of them and no others. -/
def Made (s : Session) (commit : Commit) (s' : Session) : Prop :=
  s' = { s with
    messages := s.messages ++ commit.block s
    pending := commit.remaining s
    runtimeRevision := s.runtimeRevision + 1 }

/-- A commit that returns made its changes, or had nothing to commit; one that raises, with an error
of validation, ownership or cancellation, leaves the Session as it was. -/
def AllOrNothing (s : Session) (commit : Commit) : Prop :=
  match exec commit.method s with
  | (.ok _, s') =>
    commit.block s ≠ [] ∧ Made s commit s' ∨ commit.block s = [] ∧ s' = s
  | (.error error, s') => error ∈ [.protocol, .ownership, .cancelled] ∧ s' = s

theorem userMessages_eq_nil {inputs : List PendingInput} : userMessages inputs = [] ↔ inputs = [] :=
  List.map_eq_nil_iff

theorem all_or_nothing (s : Session) (commit : Commit) : AllOrNothing s commit := by
  rw [AllOrNothing, exec_method]
  cases commit with
  | initialInput runId message throughSequence cancelled =>
    simp only [Commit.outcome, Session.commitInitialInput]
    split_ifs with owner stop empty valid
    · exact ⟨by decide, rfl⟩
    · exact ⟨by decide, rfl⟩
    · exact .inr ⟨empty, rfl⟩
    · exact .inl ⟨empty, rfl⟩
    · exact ⟨by decide, rfl⟩
  | pending runId cancelled =>
    simp only [Commit.outcome, Session.consumePending]
    split_ifs with owner stop empty valid
    · exact ⟨by decide, rfl⟩
    · exact ⟨by decide, rfl⟩
    · exact .inr ⟨userMessages_eq_nil.mpr empty, rfl⟩
    · exact .inl ⟨fun none => empty (userMessages_eq_nil.mp none), rfl⟩
    · exact ⟨by decide, rfl⟩
  | reply runId message =>
    simp only [Commit.outcome, Session.commitMessage]
    split_ifs with owner valid
    · exact ⟨by decide, rfl⟩
    · exact .inl ⟨List.cons_ne_nil _ _, rfl⟩
    · exact ⟨by decide, rfl⟩
  | exchange runId assistant results =>
    simp only [Commit.outcome, Session.commitExchange]
    split_ifs with owner valid
    · exact ⟨by decide, rfl⟩
    · exact .inl ⟨List.cons_ne_nil _ _, rfl⟩
    · exact ⟨by decide, rfl⟩

variable {w : World}

/-- In every reachable state: the grammar of the transcript, the order of the queue, and what any
commit would do next. -/
theorem transcript_kept {session : Session} {record : Option SessionSnapshot}
    {actions : List Action} (fresh : Fresh session)
    (h : run step (opened session record) actions = some w) :
    Grammar w.session.messages ∧ (sequences w.session.pending).Pairwise (· < ·) ∧
      (∀ n ∈ sequences w.session.pending, n ≤ w.session.sequence) ∧
      ∀ commit, AllOrNothing w.session commit := by
  have sound := run_sound fresh h
  exact ⟨(validateTranscript_iff.mp sound.transcript).2, sound.increasing, sound.bounded,
    all_or_nothing w.session⟩

def calling : AssistantMessage where
  content := []
  toolCalls := [⟨"call", "read", ⟨[], wellFormed_empty⟩⟩]
  reasoningContent := none
  timestamp := ⟨0⟩
  messageId := "reply"

def answered : ToolResultMessage where
  toolCallId := "call"
  toolName := "read"
  status := .success
  content := [.text "done"]
  error := none
  timestamp := ⟨0⟩
  messageId := "result"

/-- A Run commits its message and one exchange, with an input queued behind it. -/
def exchangeRun : List Action := [
  .start 7 (some greeting), .perform (.commitInitialInput false),
  .perform (.commitExchange 7 calling [answered]), .perform (.enqueue .steer greeting "input")]

theorem transcript_kept_exchange :
    ∃ w, run step (opened newSession none) exchangeRun = some w ∧
      w.session.messages.length = 3 ∧ Grammar w.session.messages :=
  ⟨_, rfl, rfl, (transcript_kept newSession_fresh
    (show run step (opened newSession none) exchangeRun = some _ from rfl)).1⟩

/-- A Run with nothing to commit returns from its first commit, and the revision does not rise. -/
theorem empty_commit_returns :
    ∃ w, run step (opened newSession none) [.start 7 none] = some w ∧
      ¬∀ commit : Commit, match exec commit.method w.session with
        | (.ok _, s') => s'.messages = w.session.messages ++ commit.block w.session ∧
          s'.runtimeRevision = w.session.runtimeRevision + 1
        | (.error error, s') => error ∈ [.protocol, .ownership, .cancelled] ∧ s' = w.session := by
  refine ⟨_, rfl, fun commits => ?_⟩
  have first := (commits (.initialInput 7 none 0 false)).2
  cases first

end RoboAgent.SessionCommits
