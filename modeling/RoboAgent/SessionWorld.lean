import RoboAgent.SessionState
import RoboAgent.SessionRepository

/-! One Session on its repository key, with every call on it in flight. A call that changed the
Session parks on the persistence lock, and under the lock either finds its change covered or hands
a snapshot to a worker thread. The thread goes on when its caller is cancelled; its rename is the
commit point, and it may still raise after it. Other handles on the key appear as foreign writes.
The last group of fields of a world is a record of what happened; no step reads it. -/

namespace RoboAgent.SessionWorld
open RoboAgent.Messages RoboAgent.FrozenJson RoboAgent.SessionState RoboAgent.SessionRepository

/-- Where a call is suspended. -/
inductive Phase
  | parked (required : Nat)
  | saving (required : Nat)
  | notifying (required : Nat) (error : Option SessionError)
  | locating
  | deleting
deriving DecidableEq

structure Call where
  reply : Reply
  phase : Phase
deriving DecidableEq

inductive JobKind
  | save (snapshot : SessionSnapshot) (expected : Option Nat)
  | load
  | delete (expected : Nat)
deriving DecidableEq

/-- A worker thread's call into the repository: not yet at its commit point, past it, or done. -/
inductive JobState
  | queued
  | committed
  | finished (result : Except SessionError (Option Nat))

structure Job where
  kind : JobKind
  state : JobState

/-- Where a message of the transcript came from. -/
inductive Origin
  | initial
  | input (item : PendingInput)
  | run (runId throughSequence : Nat)
  | turn
deriving DecidableEq

structure Entry where
  origin : Origin
  message : AgentMessage

structure World where
  session : Session
  run : Option Run
  record : Option SessionSnapshot
  lock : Option Nat
  calls : Nat → Option Call
  jobs : Nat → Option Job
  nextCall : Nat
  /-- What happened: inputs admitted, where each message came from, what each clear_pending took,
  the logical state at each revision, snapshots handed over, records stored, replies returned,
  calls that raised, a delete that returned, and whose write the record is. -/
  admitted : List PendingInput
  entries : List Entry
  withdrawn : List (Nat × List PendingInput)
  history : Nat → Option SessionSnapshot
  handed : List SessionSnapshot
  stored : List SessionSnapshot
  returned : List (Nat × Reply × Option Nat)
  raised : List Nat
  deleted : Bool
  foreign : Bool

/-- The methods with a critical section. The two that only a Run calls take its own fields. -/
inductive Operation
  | enqueue (kind : InputKind) (message : UserMessage) (inputId : String)
  | commitInitialInput (cancelled : Bool)
  | consumePending (cancelled : Bool)
  | clearPending
  | commitMessage (runId : Nat) (message : AssistantMessage)
  | commitExchange (runId : Nat) (assistant : AssistantMessage) (results : List ToolResultMessage)
  | commitCompaction (runId : Nat) (update : CompactionUpdate)
  | setMetadata (metadata : FrozenJsonObject)
  | persist

/-- A Run makes its first commit once, before it consumes pending input. -/
def Operation.outcome (session : Session) (run : Option Run) : Operation → Option Outcome
  | .enqueue kind message inputId => some (session.enqueue kind message inputId)
  | .commitInitialInput cancelled =>
    (run.filter fun run => !run.committed).map fun run =>
      session.commitInitialInput run.runId run.initialMessage run.initialPendingSequence cancelled
  | .consumePending cancelled =>
    (run.filter fun run => run.committed).map fun run =>
      session.consumePending run.runId cancelled
  | .clearPending => some (session.clearPending)
  | .commitMessage runId message => some (session.commitMessage runId message)
  | .commitExchange runId assistant results =>
    some (session.commitExchange runId assistant results)
  | .commitCompaction runId update => some (session.commitCompaction runId update)
  | .setMetadata metadata => some (session.setMetadata metadata)
  | .persist => some (session.persist)

inductive Action
  | perform (operation : Operation)
  | start (runId : Nat) (message : Option UserMessage)
  | release
  | close
  | delete
  | skipSave (call : Nat)
  | beginSave (call : Nat)
  | commitJob (call : Nat)
  | failJob (call : Nat) (error : SessionError)
  | finishJob (call : Nat) (raises : Bool)
  | resume (call : Nat)
  | notify (call : Nat) (raises : Bool)
  | cancel (call : Nat) (dropped : Bool)
  | foreignSave (snapshot : SessionSnapshot)
  | foreignDelete

namespace World

variable (w : World)

def setCall (id : Nat) (call : Option Call) : World :=
  { w with calls := Function.update w.calls id call }

def setJob (id : Nat) (job : Option Job) : World :=
  { w with jobs := Function.update w.jobs id job }

def recordRevision : Option Nat := w.record.map SessionSnapshot.revision

/-- The inputs and the message a section brought into the transcript, with their origins. -/
def entered (operation : Operation) (inputs : List PendingInput) : List Entry :=
  let items := inputs.map fun item => ⟨.input item, .user item.message⟩
  match operation, w.run with
  | .commitInitialInput _, some run =>
    items ++ run.initialMessage.toList.map fun message =>
      ⟨.run run.runId run.initialPendingSequence, .user message⟩
  | _, _ => items

/-- Note in the record of what happened what a section did. -/
def noted (operation : Operation) (section_ : Section) : World :=
  match operation, section_.reply with
  | .enqueue kind message _, .receipt receipt =>
    { w with admitted := w.admitted ++ [⟨receipt, message, kind⟩] }
  | .commitInitialInput _, .inputs inputs | .consumePending _, .inputs inputs =>
    { w with entries := w.entries ++ w.entered operation inputs }
  | .clearPending, _ =>
    if w.session.pending = [] then w
    else { w with withdrawn := w.withdrawn ++ [(w.nextCall, w.session.pending)] }
  | .commitMessage _ message, _ =>
    { w with entries := w.entries ++ [⟨.turn, .assistant message⟩] }
  | .commitExchange _ assistant results, _ =>
    { w with entries := w.entries ++
        (.assistant assistant :: results.map .toolResult).map (Entry.mk .turn) }
  | _, _ => w

/-- The Run, once the section of its first commit is over. -/
def runAfter (operation : Operation) : Option Run :=
  match operation with
  | .commitInitialInput _ => w.run.map fun run => { run with committed := true }
  | _ => w.run

/-- The rest of a call after its critical section: it returns at once or parks. -/
def enter (operation : Operation) (section_ : Section) : World :=
  let noted := w.noted operation section_
  let after := { noted with
    session := section_.session
    run := w.runAfter operation
    nextCall := w.nextCall + 1
    history := Function.update w.history section_.session.runtimeRevision
      (some section_.session.snapshot) }
  match section_.required with
  | some revision =>
    if section_.session.hasRepository then
      after.setCall w.nextCall (some ⟨section_.reply, .parked revision⟩)
    else { after with returned := w.returned ++ [(w.nextCall, section_.reply, some revision)] }
  | none => { after with returned := w.returned ++ [(w.nextCall, section_.reply, none)] }

def perform (operation : Operation) : Option World :=
  match operation.outcome w.session w.run with
  | some (.ok section_) => some (w.enter operation section_)
  | _ => none

/-- Session.delete up to its first await. -/
def delete : Option World :=
  if w.session.activeRun.isSome || !w.session.hasRepository then none
  else
    let id := w.nextCall
    let next := { w with nextCall := id + 1 }
    match w.session.durableRevision with
    | some revision =>
      some (({ next with session := { w.session with closed := true } }.setCall id
        (some ⟨.done, .deleting⟩)).setJob id (some ⟨.delete revision, .queued⟩))
    | none => some ((next.setCall id (some ⟨.done, .locating⟩)).setJob id (some ⟨.load, .queued⟩))

/-- A call ends; it gives the lock back if it held it. -/
def endCall (id : Nat) : World :=
  { w.setCall id none with lock := if w.lock = some id then none else w.lock }

def returnCall (id : Nat) (reply : Reply) (required : Option Nat) : World :=
  { w.endCall id with returned := w.returned ++ [(id, reply, required)] }

def raiseCall (id : Nat) : World := { w.endCall id with raised := w.raised ++ [id] }

/-- A cancelled call raises. Its thread goes on, unless it was dropped before it began. -/
def cancelCall (id : Nat) (dropped : Bool) : World :=
  match w.jobs id with
  | some ⟨_, .queued⟩ => if dropped then (w.setJob id none).raiseCall id else w.raiseCall id
  | _ => w.raiseCall id

/-- A call whose change is not covered takes the lock and hands the current snapshot over. -/
def beginSave (id : Nat) (reply : Reply) (required : Nat) : World :=
  ({ w with lock := some id, handed := w.handed ++ [w.session.snapshot] }.setCall id
    (some ⟨reply, .saving required⟩)).setJob id
      (some ⟨.save w.session.snapshot w.session.durableRevision, .queued⟩)

/-- The commit point of a thread, or the conflict it finds there. A load only reads. -/
def commitJob (id : Nat) (kind : JobKind) : World :=
  match kind with
  | .save snapshot expected =>
    if casConflict w.recordRevision expected snapshot.revision then
      w.setJob id (some ⟨kind, .finished (.error .conflict)⟩)
    else
      { w.setJob id (some ⟨kind, .committed⟩) with
        record := some snapshot, stored := w.stored ++ [snapshot], foreign := false }
  | .load => w.setJob id (some ⟨kind, .finished (.ok w.recordRevision)⟩)
  | .delete expected =>
    if deleteConflict w.recordRevision expected then
      w.setJob id (some ⟨kind, .finished (.error .conflict)⟩)
    else { w.setJob id (some ⟨kind, .committed⟩) with record := none }

def jobResult : JobKind → Option Nat
  | .save snapshot _ => some snapshot.revision
  | .load | .delete _ => none

/-- A call sees the result of its thread. -/
def resume (id : Nat) (call : Call) (result : Except SessionError (Option Nat)) : Option World :=
  let seen := w.setJob id none
  match call.phase, result with
  | .saving required, .ok (some revision) =>
    some ({ seen with session := { w.session with durableRevision := some revision } }.setCall id
      (some ⟨call.reply, .notifying required none⟩))
  | .saving required, .error error =>
    some (seen.setCall id (some ⟨call.reply, .notifying required (some error)⟩))
  | .locating, .ok found =>
    if w.session.activeRun.isSome then some (seen.raiseCall id)
    else
      let closed := { seen with session := { w.session with closed := true } }
      match found with
      | none => some { closed.returnCall id call.reply none with deleted := true }
      | some revision =>
        some ((closed.setCall id (some ⟨call.reply, .deleting⟩)).setJob id
          (some ⟨.delete revision, .queued⟩))
  | .deleting, .ok _ =>
    some { { seen with session := { w.session with durableRevision := none } }.returnCall id
      call.reply none with deleted := true }
  | .locating, .error _ | .deleting, .error _ => some (seen.raiseCall id)
  | _, _ => none

end World

open World

/-- A Session with a repository and nothing in it, and one message for it. -/
def newSession : Session where
  sessionId := "session"
  mediaLimits := {}
  hasRepository := true
  messages := []
  activeRun := none
  closed := false
  sequence := 0
  pending := []
  currentCompaction := none
  metadata := ⟨[], wellFormed_empty⟩
  runtimeRevision := 0
  durableRevision := none

def greeting : UserMessage := ⟨[.text "hello"], ⟨0⟩, "message"⟩

theorem newSession_fresh : Fresh newSession :=
  .created (show create "session" {} true [] ⟨[], rfl⟩ = .ok newSession from rfl)

/-- A handle just made on its key: its own inputs and messages are the first ones on record. -/
def opened (session : Session) (record : Option SessionSnapshot) : World where
  session
  run := none
  record
  lock := none
  calls _ := none
  jobs _ := none
  nextCall := 0
  admitted := session.pending
  entries := session.messages.map (Entry.mk .initial)
  withdrawn := []
  history := Function.update (fun _ => none) session.runtimeRevision (some session.snapshot)
  handed := []
  stored := record.toList
  returned := []
  raised := []
  deleted := false
  foreign := false

/-- One step of one party: a critical section, a worker thread, an awaiting call, another handle.
A step that raises without changing anything is refused. -/
def step (w : World) : Action → Option World
  | .perform operation => w.perform operation
  | .start runId message =>
    match w.session.start runId message with
    | .ok (session, run) => some { w with session, run := some run }
    | .error _ => none
  | .release => w.session.activeRun.map fun _ =>
    { w with session := { w.session with activeRun := none }, run := none }
  | .close =>
    match w.session.close with
    | .ok (session, _) => some { w with session }
    | .error _ => none
  | .delete => w.delete
  | .skipSave id =>
    match w.calls id, w.lock with
    | some ⟨reply, .parked required⟩, none =>
      if w.session.durableRevision.any fun durable => required ≤ durable then
        some (w.returnCall id reply (some required))
      else none
    | _, _ => none
  | .beginSave id =>
    match w.calls id, w.lock with
    | some ⟨reply, .parked required⟩, none =>
      if w.session.durableRevision.any fun durable => required ≤ durable then none
      else some (w.beginSave id reply required)
    | _, _ => none
  | .commitJob id =>
    match w.jobs id with
    | some ⟨kind, .queued⟩ => some (w.commitJob id kind)
    | _ => none
  | .failJob id error =>
    match w.jobs id with
    | some ⟨kind, .queued⟩ =>
      if error = .persistence ∨ error = .corrupted then
        some (w.setJob id (some ⟨kind, .finished (.error error)⟩))
      else none
    | _ => none
  | .finishJob id raises =>
    match w.jobs id with
    | some ⟨kind, .committed⟩ =>
      some (w.setJob id (some ⟨kind, .finished
        (if raises then .error .persistence else .ok (jobResult kind))⟩))
    | _ => none
  | .resume id =>
    match w.calls id, w.jobs id with
    | some call, some ⟨_, .finished result⟩ => w.resume id call result
    | _, _ => none
  | .notify id raises =>
    match w.calls id with
    | some ⟨reply, .notifying required error⟩ =>
      some (if error.isSome || raises then w.raiseCall id
        else w.returnCall id reply (some required))
    | _ => none
  | .cancel id dropped => (w.calls id).map fun _ => w.cancelCall id dropped
  | .foreignSave snapshot =>
    if w.record.any fun record => snapshot.revision ≤ record.revision then none
    else some { w with
      record := some snapshot, stored := w.stored ++ [snapshot], foreign := true }
  | .foreignDelete => w.record.map fun _ => { w with record := none }

end RoboAgent.SessionWorld
