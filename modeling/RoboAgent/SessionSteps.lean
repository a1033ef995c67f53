import RoboAgent.SessionWorld
import RoboAgent.Runs

/-! What a step can do, said once. `Stepped` has one constructor for every way a step of the world
can go, guards included; the invariants of the world are proved by cases on it. -/

namespace RoboAgent.SessionSteps
open RoboAgent.Messages RoboAgent.FrozenJson RoboAgent.SessionState
open RoboAgent.SessionRepository (casConflict deleteConflict)
open RoboAgent.SessionWorld RoboAgent.SessionWorld.World

/-- What every critical section leaves alone, and how it moves the runtime revision. -/
structure SectionSpec (s : Session) (x : Section) : Prop where
  durable : x.session.durableRevision = s.durableRevision
  closed : x.session.closed = s.closed
  activeRun : x.session.activeRun = s.activeRun
  hasRepository : x.session.hasRepository = s.hasRepository
  moved : (x.session = s ∧
      (x.required = none ∨ x.required = some s.runtimeRevision ∧ x.reply = .revision)) ∨
    (x.session.runtimeRevision = s.runtimeRevision + 1 ∧
      x.required = some (s.runtimeRevision + 1))

theorem unchanged_spec {s : Session} {reply : Reply} {x : Section}
    (h : s.unchanged reply = .ok x) : SectionSpec s x := by
  cases h
  exact ⟨rfl, rfl, rfl, rfl, .inl ⟨rfl, .inl rfl⟩⟩

theorem changed_spec {s t : Session} {reply : Reply} {x : Section}
    (h : t.changed reply = .ok x) (durable : t.durableRevision = s.durableRevision)
    (closed : t.closed = s.closed) (activeRun : t.activeRun = s.activeRun)
    (hasRepository : t.hasRepository = s.hasRepository)
    (revision : t.runtimeRevision = s.runtimeRevision) : SectionSpec s x := by
  cases h
  exact ⟨durable, closed, activeRun, hasRepository, .inr ⟨congrArg (· + 1) revision,
    congrArg (fun r => some (r + 1)) revision⟩⟩

theorem outcome_spec {s : Session} {run : Option Run} {operation : Operation} {x : Section}
    (h : operation.outcome s run = some (.ok x)) : SectionSpec s x := by
  cases operation with
  | enqueue kind message inputId =>
    simp only [Operation.outcome, Option.some.injEq, Session.enqueue] at h
    split at h
    · cases h
    · exact changed_spec h rfl rfl rfl rfl rfl
  | commitInitialInput cancelled =>
    obtain ⟨run, -, h⟩ := Option.map_eq_some_iff.mp h
    simp only [Session.commitInitialInput] at h
    split_ifs at h
    · exact unchanged_spec h
    · exact changed_spec h rfl rfl rfl rfl rfl
  | consumePending cancelled =>
    obtain ⟨run, -, h⟩ := Option.map_eq_some_iff.mp h
    simp only [Session.consumePending] at h
    split_ifs at h
    · exact unchanged_spec h
    · exact changed_spec h rfl rfl rfl rfl rfl
  | clearPending =>
    simp only [Operation.outcome, Option.some.injEq, Session.clearPending] at h
    split_ifs at h
    · exact unchanged_spec h
    · exact changed_spec h rfl rfl rfl rfl rfl
  | commitMessage runId message =>
    simp only [Operation.outcome, Option.some.injEq, Session.commitMessage] at h
    split_ifs at h
    exact changed_spec h rfl rfl rfl rfl rfl
  | commitExchange runId assistant results =>
    simp only [Operation.outcome, Option.some.injEq, Session.commitExchange] at h
    split_ifs at h
    exact changed_spec h rfl rfl rfl rfl rfl
  | commitCompaction runId update =>
    simp only [Operation.outcome, Option.some.injEq, Session.commitCompaction] at h
    split_ifs at h
    · exact unchanged_spec h
    · exact changed_spec h rfl rfl rfl rfl rfl
  | setMetadata metadata =>
    simp only [Operation.outcome, Option.some.injEq, Session.setMetadata] at h
    split_ifs at h
    · exact unchanged_spec h
    · exact changed_spec h rfl rfl rfl rfl rfl
  | persist =>
    simp only [Operation.outcome, Option.some.injEq, Session.persist] at h
    split_ifs at h
    cases h
    exact ⟨rfl, rfl, rfl, rfl, .inl ⟨rfl, .inr ⟨rfl, rfl⟩⟩⟩

/-- The world with another Session record. -/
abbrev withSession (w : World) (session : Session) : World := { w with session }

inductive Stepped (w : World) : Action → World → Prop
  | perform {operation : Operation} {x : Section}
    (outcome : operation.outcome w.session w.run = some (.ok x)) :
    Stepped w (.perform operation) (w.enter operation x)
  | start {runId : Nat} {message : Option UserMessage} {session : Session} {run : Run}
    (started : w.session.start runId message = .ok (session, run)) :
    Stepped w (.start runId message) { w with session, run := some run }
  | release {runId : Nat} (active : w.session.activeRun = some runId) :
    Stepped w .release { w with session := { w.session with activeRun := none }, run := none }
  | close (idle : w.session.activeRun = none) :
    Stepped w .close { w with session := { w.session with closed := true } }
  | deleteKnown {revision : Nat} (idle : w.session.activeRun = none)
    (repository : w.session.hasRepository = true)
    (durable : w.session.durableRevision = some revision) :
    Stepped w .delete (({ w with
      nextCall := w.nextCall + 1
      session := { w.session with closed := true } }.setCall w.nextCall
        (some ⟨.done, .deleting⟩)).setJob w.nextCall (some ⟨.delete revision, .queued⟩))
  | deleteUnknown (idle : w.session.activeRun = none)
    (repository : w.session.hasRepository = true) (durable : w.session.durableRevision = none) :
    Stepped w .delete (({ w with nextCall := w.nextCall + 1 }.setCall w.nextCall
      (some ⟨.done, .locating⟩)).setJob w.nextCall (some ⟨.load, .queued⟩))
  | skipSave {id required durable : Nat} {reply : Reply}
    (call : w.calls id = some ⟨reply, .parked required⟩) (free : w.lock = none)
    (known : w.session.durableRevision = some durable) (covered : required ≤ durable) :
    Stepped w (.skipSave id) (w.returnCall id reply (some required))
  | beginSave {id required : Nat} {reply : Reply}
    (call : w.calls id = some ⟨reply, .parked required⟩) (free : w.lock = none)
    (uncovered : ∀ durable, w.session.durableRevision = some durable → durable < required) :
    Stepped w (.beginSave id) (w.beginSave id reply required)
  | commitSave {id : Nat} {snapshot : SessionSnapshot} {expected : Option Nat}
    (job : w.jobs id = some ⟨.save snapshot expected, .queued⟩)
    (current : w.recordRevision = expected)
    (newer : ∀ revision, w.recordRevision = some revision → revision < snapshot.revision) :
    Stepped w (.commitJob id) { w.setJob id (some ⟨.save snapshot expected, .committed⟩) with
      record := some snapshot, stored := w.stored ++ [snapshot], foreign := false }
  | refuseSave {id : Nat} {snapshot : SessionSnapshot} {expected : Option Nat}
    (job : w.jobs id = some ⟨.save snapshot expected, .queued⟩)
    (conflict : casConflict w.recordRevision expected snapshot.revision = true) :
    Stepped w (.commitJob id)
      (w.setJob id (some ⟨.save snapshot expected, .finished (.error .conflict)⟩))
  | load {id : Nat} (job : w.jobs id = some ⟨.load, .queued⟩) :
    Stepped w (.commitJob id) (w.setJob id (some ⟨.load, .finished (.ok w.recordRevision)⟩))
  | commitDelete {id expected : Nat} (job : w.jobs id = some ⟨.delete expected, .queued⟩)
    (current : w.recordRevision = some expected) :
    Stepped w (.commitJob id)
      { w.setJob id (some ⟨.delete expected, .committed⟩) with record := none }
  | refuseDelete {id expected : Nat} (job : w.jobs id = some ⟨.delete expected, .queued⟩)
    (stale : w.recordRevision ≠ some expected) :
    Stepped w (.commitJob id) (w.setJob id (some ⟨.delete expected, .finished (.error .conflict)⟩))
  | failJob {id : Nat} {kind : JobKind} {error : SessionError}
    (job : w.jobs id = some ⟨kind, .queued⟩) :
    Stepped w (.failJob id error) (w.setJob id (some ⟨kind, .finished (.error error)⟩))
  | finishJob {id : Nat} {kind : JobKind} {raises : Bool}
    (job : w.jobs id = some ⟨kind, .committed⟩) :
    Stepped w (.finishJob id raises) (w.setJob id (some ⟨kind, .finished
      (if raises then .error .persistence else .ok (jobResult kind))⟩))
  | saved {id required revision : Nat} {reply : Reply} {kind : JobKind}
    (call : w.calls id = some ⟨reply, .saving required⟩)
    (job : w.jobs id = some ⟨kind, .finished (.ok (some revision))⟩) :
    Stepped w (.resume id) ({ w.setJob id none with
      session := { w.session with durableRevision := some revision } }.setCall id
        (some ⟨reply, .notifying required none⟩))
  | saveFailed {id required : Nat} {reply : Reply} {kind : JobKind} {error : SessionError}
    (call : w.calls id = some ⟨reply, .saving required⟩)
    (job : w.jobs id = some ⟨kind, .finished (.error error)⟩) :
    Stepped w (.resume id)
      ((w.setJob id none).setCall id (some ⟨reply, .notifying required (some error)⟩))
  | locatedBusy {id : Nat} {reply : Reply} {kind : JobKind} {found : Option Nat}
    (call : w.calls id = some ⟨reply, .locating⟩)
    (job : w.jobs id = some ⟨kind, .finished (.ok found)⟩) :
    Stepped w (.resume id) ((w.setJob id none).raiseCall id)
  | locatedNone {id : Nat} {reply : Reply} {kind : JobKind}
    (call : w.calls id = some ⟨reply, .locating⟩)
    (job : w.jobs id = some ⟨kind, .finished (.ok none)⟩)
    (idle : w.session.activeRun = none) :
    Stepped w (.resume id) { (withSession (w.setJob id none)
      { w.session with closed := true }).returnCall id reply none with deleted := true }
  | located {id revision : Nat} {reply : Reply} {kind : JobKind}
    (call : w.calls id = some ⟨reply, .locating⟩)
    (job : w.jobs id = some ⟨kind, .finished (.ok (some revision))⟩)
    (idle : w.session.activeRun = none) :
    Stepped w (.resume id) (((withSession (w.setJob id none)
      { w.session with closed := true }).setCall id (some ⟨reply, .deleting⟩)).setJob id
        (some ⟨.delete revision, .queued⟩))
  | deleted {id : Nat} {reply : Reply} {kind : JobKind} {found : Option Nat}
    (call : w.calls id = some ⟨reply, .deleting⟩)
    (job : w.jobs id = some ⟨kind, .finished (.ok found)⟩) :
    Stepped w (.resume id) { (withSession (w.setJob id none)
      { w.session with durableRevision := none }).returnCall id reply none with deleted := true }
  | deleteFailed {id : Nat} {reply : Reply} {phase : Phase} {kind : JobKind} {error : SessionError}
    (call : w.calls id = some ⟨reply, phase⟩) (deleting : phase = .locating ∨ phase = .deleting)
    (job : w.jobs id = some ⟨kind, .finished (.error error)⟩) :
    Stepped w (.resume id) ((w.setJob id none).raiseCall id)
  | notified {id required : Nat} {reply : Reply}
    (call : w.calls id = some ⟨reply, .notifying required none⟩) :
    Stepped w (.notify id false) (w.returnCall id reply (some required))
  | notifiedFailure {id required : Nat} {reply : Reply} {error : Option SessionError}
    {raises : Bool} (call : w.calls id = some ⟨reply, .notifying required error⟩) :
    Stepped w (.notify id raises) (w.raiseCall id)
  | cancel {id : Nat} {dropped : Bool} {call : Call} (call : w.calls id = some call) :
    Stepped w (.cancel id dropped) (w.cancelCall id dropped)
  | foreignSave {snapshot : SessionSnapshot}
    (newer : ∀ revision, w.recordRevision = some revision → revision < snapshot.revision) :
    Stepped w (.foreignSave snapshot)
      { w with record := some snapshot, stored := w.stored ++ [snapshot], foreign := true }
  | foreignDelete {record : SessionSnapshot} (present : w.record = some record) :
    Stepped w .foreignDelete { w with record := none }

variable {w w' : World}

/-- A critical section touches the Session, its Run and the record of what happened; then the call
parks, or returns. -/
structure EnterSpec (w : World) (operation : Operation) (x : Section) (w' : World) : Prop where
  session : w'.session = x.session
  run : w'.run = w.runAfter operation
  record : w'.record = w.record
  lock : w'.lock = w.lock
  jobs : w'.jobs = w.jobs
  nextCall : w'.nextCall = w.nextCall + 1
  ledger : (w'.admitted, w'.entries, w'.withdrawn) = ((w.noted operation x).admitted,
    (w.noted operation x).entries, (w.noted operation x).withdrawn)
  history : w'.history =
    Function.update w.history x.session.runtimeRevision (some x.session.snapshot)
  handed : w'.handed = w.handed
  stored : w'.stored = w.stored
  raised : w'.raised = w.raised
  deleted : w'.deleted = w.deleted
  foreign : w'.foreign = w.foreign
  rest : (∃ required, x.required = some required ∧ w'.returned = w.returned ∧
      w'.calls = Function.update w.calls w.nextCall (some ⟨x.reply, .parked required⟩)) ∨
    ((x.required = none ∨ x.session.hasRepository = false) ∧ w'.calls = w.calls ∧
      w'.returned = w.returned ++ [(w.nextCall, x.reply, x.required)])

theorem noted_eq (w : World) (operation : Operation) (x : Section) :
    ∃ admitted entries withdrawn,
      w.noted operation x = { w with admitted, entries, withdrawn } := by
  unfold World.noted
  split
  · exact ⟨_, _, _, rfl⟩
  · exact ⟨_, _, _, rfl⟩
  · exact ⟨_, _, _, rfl⟩
  · split <;> exact ⟨_, _, _, rfl⟩
  · exact ⟨_, _, _, rfl⟩
  · exact ⟨_, _, _, rfl⟩
  · exact ⟨_, _, _, rfl⟩

theorem enter_spec (w : World) (operation : Operation) (x : Section) :
    EnterSpec w operation x (w.enter operation x) := by
  obtain ⟨admitted, entries, withdrawn, noted⟩ := noted_eq w operation x
  unfold World.enter
  have ledger := congrArg (fun n => (n.admitted, n.entries, n.withdrawn)) noted.symm
  split
  · rename_i required asked
    split
    · rw [noted]
      constructor <;> try rfl
      · exact ledger
      · exact .inl ⟨required, asked, rfl, rfl⟩
    · rename_i absent
      rw [noted]
      constructor <;> try rfl
      · exact ledger
      · exact .inr ⟨.inr (Bool.not_eq_true _ |>.mp absent), rfl, by rw [asked]⟩
  · rename_i unasked
    rw [noted]
    constructor <;> try rfl
    · exact ledger
    · exact .inr ⟨.inl unasked, rfl, by rw [unasked]⟩

/-- A cancelled call raises, and its thread is dropped only if it had not begun. -/
theorem cancelCall_eq (w : World) (id : Nat) (dropped : Bool) :
    w.cancelCall id dropped = w.raiseCall id ∨
      (∃ kind, w.jobs id = some ⟨kind, .queued⟩) ∧
        w.cancelCall id dropped = (w.setJob id none).raiseCall id := by
  unfold World.cancelCall
  split
  · split
    · exact .inr ⟨⟨_, by assumption⟩, rfl⟩
    · exact .inl rfl
  · exact .inl rfl

theorem close_eq_ok {s s' : Session} {receipts : List InputReceipt}
    (h : s.close = .ok (s', receipts)) :
    s.activeRun = none ∧ s' = { s with closed := true } := by
  unfold Session.close at h
  split_ifs at h with busy
  cases h
  exact ⟨Option.not_isSome_iff_eq_none.mp busy, rfl⟩

theorem start_eq_ok {s s' : Session} {runId : Nat} {message : Option UserMessage} {run : Run}
    (h : s.start runId message = .ok (s', run)) :
    s.activeRun = none ∧ s' = { s with activeRun := some runId } ∧
      run = ⟨runId, message, s.sequence, false⟩ := by
  unfold Session.start at h
  split_ifs at h with closed busy
  cases h
  exact ⟨Option.not_isSome_iff_eq_none.mp busy, rfl, rfl⟩

theorem stepped_delete (h : w.delete = some w') : Stepped w .delete w' := by
  unfold World.delete at h
  split_ifs at h with guard
  rw [Bool.or_eq_true, not_or, Option.not_isSome_iff_eq_none, Bool.not_eq_true',
    Bool.not_eq_false] at guard
  split at h <;> cases h
  · exact .deleteKnown guard.1 guard.2 (by assumption)
  · exact .deleteUnknown guard.1 guard.2 (by assumption)

theorem stepped_commitJob {id : Nat} {kind : JobKind} (job : w.jobs id = some ⟨kind, .queued⟩) :
    Stepped w (.commitJob id) (w.commitJob id kind) := by
  cases kind with
  | save snapshot expected =>
    rw [World.commitJob]
    split
    · apply Stepped.refuseSave job
      assumption
    · rename_i accepted
      rw [casConflict, Bool.or_eq_true, not_or, bne_iff_ne, not_not] at accepted
      refine .commitSave job accepted.1 fun revision current => ?_
      rw [current, Option.any_some, decide_eq_true_eq] at accepted
      omega
  | load => exact .load job
  | delete expected =>
    rw [World.commitJob, deleteConflict]
    by_cases current : w.recordRevision = some expected
    · rw [current, bne_self_eq_false, if_neg Bool.false_ne_true]
      exact .commitDelete job current
    · rw [if_pos (bne_iff_ne.mpr current)]
      exact .refuseDelete job current

theorem stepped_resume {id : Nat} {call : Call} {kind : JobKind}
    {result : Except SessionError (Option Nat)} (found : w.calls id = some call)
    (job : w.jobs id = some ⟨kind, .finished result⟩) (h : w.resume id call result = some w') :
    Stepped w (.resume id) w' := by
  obtain ⟨reply, phase⟩ := call
  cases phase with
  | parked required | notifying required error => cases result <;> cases h
  | saving required =>
    cases result with
    | error error => cases h; exact .saveFailed found job
    | ok found' =>
      cases found' with
      | none => cases h
      | some revision => cases h; exact .saved found job
  | locating =>
    cases result with
    | error error => cases h; exact .deleteFailed found (.inl rfl) job
    | ok found' =>
      simp only [World.resume] at h
      split at h
      · cases h
        exact .locatedBusy found job
      · rename_i idle
        rw [Option.not_isSome_iff_eq_none] at idle
        cases found' with
        | none => cases h; exact .locatedNone found job idle
        | some revision => cases h; exact .located found job idle
  | deleting =>
    cases result with
    | error error => cases h; exact .deleteFailed found (.inr rfl) job
    | ok found' => cases h; exact .deleted found job

theorem stepped {a : Action} (h : step w a = some w') : Stepped w a w' := by
  cases a with
  | perform operation =>
    simp only [step, World.perform] at h
    split at h <;> cases h
    exact .perform (by assumption)
  | start runId message =>
    simp only [step] at h
    split at h <;> cases h
    exact .start (by assumption)
  | release =>
    obtain ⟨runId, active, rfl⟩ := Option.map_eq_some_iff.mp h
    exact .release active
  | close =>
    simp only [step] at h
    split at h <;> cases h
    rename_i closed
    obtain ⟨idle, rfl⟩ := close_eq_ok closed
    exact .close idle
  | delete => exact stepped_delete h
  | skipSave id =>
    simp only [step] at h
    split at h
    · split at h
      · rename_i call free covered
        obtain ⟨durable, known, covered⟩ := Option.any_eq_true _ _ |>.mp covered
        cases h
        exact .skipSave call free known (of_decide_eq_true covered)
      · cases h
    · cases h
  | beginSave id =>
    simp only [step] at h
    split at h
    · split at h
      · cases h
      · rename_i call free uncovered
        cases h
        refine .beginSave call free fun durable known => ?_
        rw [known, Option.any_some, decide_eq_true_eq] at uncovered
        omega
    · cases h
  | commitJob id =>
    simp only [step] at h
    split at h <;> cases h
    exact stepped_commitJob (by assumption)
  | failJob id error =>
    simp only [step] at h
    split at h
    · split at h <;> cases h
      exact .failJob (by assumption)
    · cases h
  | finishJob id raises =>
    simp only [step] at h
    split at h <;> cases h
    exact .finishJob (by assumption)
  | resume id =>
    simp only [step] at h
    split at h
    · rename_i call job
      exact stepped_resume call job h
    · cases h
  | notify id raises =>
    simp only [step] at h
    split at h
    · rename_i reply required error call
      cases h
      split
      · exact .notifiedFailure call
      · rename_i fine
        cases error with
        | some error => exact absurd rfl fine
        | none =>
          cases raises with
          | true => exact absurd rfl fine
          | false => exact .notified call
    · cases h
  | cancel id dropped =>
    obtain ⟨call, found, rfl⟩ := Option.map_eq_some_iff.mp h
    exact .cancel found
  | foreignSave snapshot =>
    simp only [step] at h
    split at h
    · cases h
    · rename_i newer
      cases h
      refine .foreignSave fun revision current => ?_
      obtain ⟨record, present, rfl⟩ := Option.map_eq_some_iff.mp current
      rw [present, Option.any_some, decide_eq_true_eq] at newer
      omega
  | foreignDelete =>
    obtain ⟨record, present, rfl⟩ := Option.map_eq_some_iff.mp h
    exact .foreignDelete present

end RoboAgent.SessionSteps
