import Mathlib
import RoboAgent.FalliblePrograms
import RoboAgent.ToolEffects

/-! The settlement of apply_patch: commit, rollback, cleanup, the barrier that drives them and the
outcome the tool reports. Every file-system primitive may raise, as an arbitrary fault pattern over
the sequence of primitive calls says; a primitive that raises has no effect. Temporary names are
created exclusively, so they are serial numbers. Parsing, planning and staging come before. -/

namespace RoboAgent.PatchSettlement
open RoboAgent.FalliblePrograms RoboAgent.ToolEffects RoboAgent.ToolErrors RoboAgent.FrozenJson

inductive Path
  | target (path : String)
  | temporary (serial : Nat)
deriving DecidableEq

abbrev Bytes := List UInt8

structure File where
  data : Bytes
  mode : Nat
deriving DecidableEq

/-- The OSErrors the code tells apart. TimeoutError and FileNotFoundError are subclasses. -/
inductive OsError
  | timeout
  | notFound
  | other
deriving DecidableEq

inductive Raised
  | os (error : OsError)
  | assertion
  | rollbackIncomplete
  | settlement (code : String)
deriving DecidableEq

inductive Change
  | added (after : Bytes)
  | modified (before after : Bytes) (mode : Nat)
  | deleted (before : Bytes) (mode : Nat)
deriving DecidableEq

structure Plan where
  path : String
  change : Change
deriving DecidableEq

namespace Plan

def target (plan : Plan) : Path := .target plan.path

def operation (plan : Plan) : String :=
  match plan.change with
  | .added _ => "added"
  | .modified .. => "modified"
  | .deleted .. => "deleted"

/-- The file a target holds before the patch, with its mode. -/
def beforeFile (plan : Plan) : Option File :=
  match plan.change with
  | .added _ => none
  | .modified before _ mode | .deleted before mode => some ⟨before, mode⟩

def before (plan : Plan) : Option Bytes := plan.beforeFile.map File.data

def after (plan : Plan) : Option Bytes :=
  match plan.change with
  | .added after | .modified _ after _ => some after
  | .deleted .. => none

def beforeDigest (digest : Bytes → String) (plan : Plan) : Option String := plan.before.map digest

def afterDigest (digest : Bytes → String) (plan : Plan) : Option String := plan.after.map digest

end Plan

inductive TargetState
  | committed
  | unknown
  | restored
  | unchanged
deriving DecidableEq

def TargetState.text : TargetState → String
  | .committed => "committed"
  | .unknown => "unknown"
  | .restored => "restored"
  | .unchanged => "unchanged"

/-- A rollback leaves a target in one of these two states when its bytes were put back. -/
def TargetState.settled : TargetState → Bool
  | .restored | .unchanged => true
  | .committed | .unknown => false

/-- The files, the primitive calls made so far, and the fields of _PatchSettlement. -/
structure Settlement where
  disk : Path → Option File
  calls : Nat
  temporaries : Nat
  staged : String → Option Nat
  committed : List Plan
  failure : Option Raised
  states : String → Option TargetState
  forced : Bool
  uncertain : Bool

abbrev Patch (α : Type) := Program Settlement Raised α

section Primitives

variable (faults : Nat → Option OsError)

def primitive : Patch Unit := do
  let s ← get
  set { s with calls := s.calls + 1 }
  match faults s.calls with
  | some error => throw (.os error)
  | none => pure ()

def setFile (path : Path) (file : Option File) : Patch Unit :=
  modify fun s => { s with disk := Function.update s.disk path file }

/-- Path.exists answers False to the errors that say the name is not there. -/
def pathExists (path : Path) : Patch Bool :=
  tryCatch
    (do
      primitive faults
      return ((← get).disk path).isSome)
    fun
      | .os .notFound => pure false
      | error => throw error

def readBytes (path : Path) : Patch Bytes := do
  primitive faults
  match (← get).disk path with
  | some file => return file.data
  | none => throw (.os .notFound)

/-- An absent name is reported as such before anything else can go wrong. -/
def unlink (path : Path) : Patch Unit := do
  match (← get).disk path with
  | none => throw (.os .notFound)
  | some _ =>
    primitive faults
    setFile path none

def unlinkMissingOk (path : Path) : Patch Unit :=
  tryCatch (unlink faults path) fun
    | .os .notFound => pure ()
    | error => throw error

def link (source target : Path) : Patch Unit := do
  primitive faults
  let s ← get
  match s.disk source, s.disk target with
  | some file, none => setFile target (some file)
  | some _, some _ => throw (.os .other)
  | none, _ => throw (.os .notFound)

def replace (source target : Path) : Patch Unit := do
  primitive faults
  match (← get).disk source with
  | some file =>
    setFile source none
    setFile target (some file)
  | none => throw (.os .notFound)

def mkstemp : Patch Path := do
  primitive faults
  let s ← get
  let path := Path.temporary s.temporaries
  set { s with temporaries := s.temporaries + 1 }
  setFile path (some ⟨[], 0o600⟩)
  return path

def changeFile (path : Path) (change : File → File) : Patch Unit := do
  primitive faults
  modify fun s => { s with disk := Function.update s.disk path ((s.disk path).map change) }

/-- Write, flush and fsync the open temporary. -/
def writeFile (path : Path) (data : Bytes) : Patch Unit :=
  changeFile faults path fun file => { file with data }

def chmod (path : Path) (mode : Nat) : Patch Unit :=
  changeFile faults path fun file => { file with mode }

def restore (target : Path) (data : Bytes) (mode : Nat) : Patch Unit := do
  let path ← mkstemp faults
  ensuring
    (do
      writeFile faults path data
      chmod faults path mode
      replace faults path target)
    (unlinkMissingOk faults path)

end Primitives

section Handler

variable (digest : Bytes → String) (faults : Nat → Option OsError)

def stagedPath (plan : Plan) : Patch Path := do
  match (← get).staged plan.path with
  | some serial => return .temporary serial
  | none => throw .assertion

def clearStaged (plan : Plan) : Patch Unit :=
  modify fun s => { s with staged := Function.update s.staged plan.path none }

def record (plan : Plan) (state : TargetState) : Patch Unit :=
  modify fun s => { s with states := Function.update s.states plan.path (some state) }

def commitChange (plan : Plan) : Patch Unit := do
  match plan.change with
  | .added _ =>
    let staged ← stagedPath plan
    link faults staged plan.target
    unlink faults staged
    clearStaged plan
  | .modified .. =>
    let staged ← stagedPath plan
    replace faults staged plan.target
    clearStaged plan
  | .deleted .. => unlink faults plan.target

def commitPlan (plan : Plan) : Patch Unit := do
  commitChange faults plan
  modify fun s => { s with committed := s.committed ++ [plan] }

def commit (plans : List Plan) : Patch Unit := plans.forM (commitPlan faults)

def targetHasDigest (plan : Plan) (expected : Option String) : Patch Bool := do
  if ← pathExists faults plan.target then
    return some (digest (← readBytes faults plan.target)) == expected
  else
    return false

/-- Undo one committed plan; the body of the rollback's try. -/
def undo (plan : Plan) : Patch Unit := do
  match plan.change with
  | .added _ =>
    if ← targetHasDigest digest faults plan (plan.afterDigest digest) then
      unlink faults plan.target
      record plan .restored
    else
      record plan .unknown
  | .modified before _ mode =>
    if ← targetHasDigest digest faults plan (plan.afterDigest digest) then
      restore faults plan.target before mode
      record plan .restored
    else
      record plan .unknown
  | .deleted before mode =>
    if ← pathExists faults plan.target then
      if some (digest (← readBytes faults plan.target)) == plan.beforeDigest digest then
        record plan .unchanged
      else
        record plan .unknown
    else
      restore faults plan.target before mode
      record plan .restored

/-- A try whose only clause is `except OSError`. -/
def exceptOs (body handler : Patch Unit) : Patch Unit :=
  tryCatch body fun
    | .os _ => handler
    | error => throw error

/-- What the rollback records for a plan whose undoing raised. -/
def observe (plan : Plan) : Patch Unit :=
  exceptOs
    (do
      let current ← (do
        if ← pathExists faults plan.target then
          return some (digest (← readBytes faults plan.target))
        else
          return none)
      record plan (if current == plan.afterDigest digest then .committed else .unknown))
    (record plan .unknown)

def rollbackPlan (plan : Plan) : Patch Unit := do
  if ((← get).states plan.path).any TargetState.settled then
    pure ()
  else
    exceptOs (undo digest faults plan) (observe digest faults plan)

def defaultUnchanged (plan : Plan) : Patch Unit := do
  if ((← get).states plan.path).isNone then
    record plan .unchanged

def rollback (plans : List Plan) : Patch Unit := do
  (← get).committed.reverse.forM (rollbackPlan digest faults)
  plans.forM defaultUnchanged

def cleanupStaged (plans : List Plan) : Patch Unit :=
  plans.forM fun plan => do
    match (← get).staged plan.path with
    | some serial =>
      unlinkMissingOk faults (.temporary serial)
      clearStaged plan
    | none => pure ()

/-- Some target is recorded as committed or unknown. -/
def Settlement.incomplete (s : Settlement) (plans : List Plan) : Bool :=
  plans.any fun plan => (s.states plan.path).any fun state => !state.settled

def raiseIfIncomplete (plans : List Plan) : Patch Unit := do
  if (← get).incomplete plans then
    throw .rollbackIncomplete

def settle (plans : List Plan) : Patch Unit := do
  if (← get).failure.isSome then
    rollback digest faults plans
  cleanupStaged faults plans
  raiseIfIncomplete plans

def forceSettle (plans : List Plan) : Patch Unit := do
  modify fun s => { s with forced := true }
  rollback digest faults plans
  cleanupStaged faults plans
  raiseIfIncomplete plans

def markUncertain : Patch Unit := modify fun s => { s with uncertain := true }

/-- The settlement driver of the barrier. A stalled settle is one that its wait gives up on before
it has run; an OSError that is a TimeoutError looks the same to the driver. -/
def driveSettlement (stalled : Bool) (plans : List Plan) : Patch Unit :=
  tryCatch (if stalled then throw (.os .timeout) else settle digest faults plans) fun
    | .os .timeout =>
      tryCatch (forceSettle digest faults plans) fun _ => do
        markUncertain
        throw (.settlement "settlement_timeout")
    | _ => do
      tryCatch (forceSettle digest faults plans) fun _ => markUncertain
      throw (.settlement "settlement_failed")

end Handler

section Outcome

variable (digest : Bytes → String) (toolCallId : Option String)

/-- An effect record with the plan it is reported for; an UNKNOWN record names no path. -/
structure ReportedEffect where
  plan : Plan
  effect : ToolEffectRecord

def callId : String :=
  match toolCallId with
  | some id => if id = "" then "apply_patch" else id
  | none => "apply_patch"

theorem callId_ne_empty : callId toolCallId ≠ "" := by
  unfold callId
  split
  · split <;> simp_all
  · decide

def targetUnknown : ToolErrorInfo where
  code := "patch_rollback_failed"
  message := "Patch target state is unknown."

def failureEffect (s : Settlement) (plan : Plan) : Option ReportedEffect :=
  match (s.states plan.path).getD .unknown with
  | .committed => some ⟨plan, {
      callId := callId toolCallId
      toolName := "apply_patch"
      effectKind := .sideEffecting
      status := .succeeded
      content := some (.json (.obj
        [("path", .str plan.path), ("rollback_state", .str TargetState.committed.text)]))
      certainty := .certain
      identified := ⟨callId_ne_empty toolCallId, by decide⟩
      checked := rfl }⟩
  | .unknown => some ⟨plan, {
      callId := callId toolCallId
      toolName := "apply_patch"
      effectKind := .sideEffecting
      status := .unknown
      error := some targetUnknown
      certainty := .unknown
      identified := ⟨callId_ne_empty toolCallId, by decide⟩
      checked := rfl }⟩
  | .restored | .unchanged => none

def failureEffects (s : Settlement) (plans : List Plan) : List ReportedEffect :=
  plans.filterMap (failureEffect toolCallId s)

def digestJson : Option String → JsonValue
  | some text => .str text
  | none => .null

def successEffect (plan : Plan) : ReportedEffect where
  plan
  effect := {
    callId := callId toolCallId
    toolName := "apply_patch"
    effectKind := .sideEffecting
    status := .succeeded
    content := some (.json (.obj
      [("path", .str plan.path), ("operation", .str plan.operation),
        ("before_digest", digestJson (plan.beforeDigest digest)),
        ("after_digest", digestJson (plan.afterDigest digest))]))
    certainty := .certain
    identified := ⟨callId_ne_empty toolCallId, by decide⟩
    checked := rfl }

def targetStateJson (s : Settlement) (plan : Plan) : JsonValue :=
  .obj [("path", .str plan.path),
    ("state", .str ((s.states plan.path).getD .unknown).text)]

theorem wellFormed_targetStates (s : Settlement) (plans : List Plan) :
    wellFormed (.obj [("patch_target_states", .arr (plans.map (targetStateJson s)))]) = true := by
  have items : wellFormedItems (plans.map (targetStateJson s)) = true := by
    induction plans with
    | nil => rfl
    | cons plan rest ih =>
      rw [List.map_cons, wellFormedItems, ih, Bool.and_true]
      rfl
  simp [wellFormed, wellFormedEntries, items]

def rollbackRecord (s : Settlement) (plans : List Plan) : SupplementalExecutionRecord where
  status := .unknown
  errorCode := some "patch_rollback_failed"
  evidence := some ⟨_, wellFormed_targetStates s plans⟩

/-- How apply ends: it returns a CompositeToolOutcome, raises a tool failure, raises a composite
cancellation, or lets the SettlementError through. -/
inductive Outcome
  | completed (effects : List ReportedEffect)
  | failed (error : ToolErrorInfo) (effects : List ReportedEffect)
      (records : List SupplementalExecutionRecord)
  | cancelled (effects : List ReportedEffect) (records : List SupplementalExecutionRecord)
  | settlementFailed (error : Raised)

def Outcome.effects : Outcome → List ReportedEffect
  | .completed effects | .failed _ effects _ | .cancelled effects _ => effects
  | .settlementFailed _ => []

def rollbackFailed : ToolErrorInfo where
  code := "patch_rollback_failed"
  message := "Patch rollback was incomplete."

def commitFailed : ToolErrorInfo where
  code := "patch_commit_failed"
  message := "Patch commit failed."

def forcedRollback : ToolErrorInfo where
  code := "patch_commit_failed"
  message := "Patch settlement required a forced rollback."

def rollbackFailedOutcome (s : Settlement) (plans : List Plan) : Outcome :=
  .failed rollbackFailed (failureEffects toolCallId s plans) [rollbackRecord s plans]

def settlementErrorOutcome (s : Settlement) (plans : List Plan) (error : Raised) : Outcome :=
  if s.incomplete plans then rollbackFailedOutcome toolCallId s plans
  else if s.failure.isSome then .failed commitFailed [] []
  else .settlementFailed error

def cancelledOutcome (s : Settlement) (plans : List Plan) : Outcome :=
  if s.failure.isNone && !s.forced && s.committed.length == plans.length then
    .cancelled (plans.map (successEffect digest toolCallId)) []
  else if s.incomplete plans then
    .cancelled (failureEffects toolCallId s plans) [rollbackRecord s plans]
  else .cancelled [] []

def finishedOutcome (s : Settlement) (plans : List Plan) : Outcome :=
  if s.incomplete plans then rollbackFailedOutcome toolCallId s plans
  else if s.forced then .failed forcedRollback [] []
  else if s.failure.isSome then .failed commitFailed [] []
  else .completed (plans.map (successEffect digest toolCallId))

variable (faults : Nat → Option OsError) (stalled cancelled : Bool)

/-- Leave the barrier and report. A cancellation of the caller is seen only when the driver has
converged, and only if the driver did not raise. -/
def settleAndReport (plans : List Plan) : Patch Outcome := do
  let settlement ← attempt (driveSettlement digest faults stalled plans)
  let s ← get
  match settlement with
  | .error error => return settlementErrorOutcome toolCallId s plans error
  | .ok () =>
    if cancelled then
      return cancelledOutcome digest toolCallId s plans
    else
      return finishedOutcome digest toolCallId s plans

/-- The part of apply from the settlement barrier on. -/
def applyPlans (plans : List Plan) : Patch Outcome := do
  tryCatch (commit faults plans) fun error => modify fun s => { s with failure := some error }
  settleAndReport digest toolCallId faults stalled cancelled plans

end Outcome

end RoboAgent.PatchSettlement
