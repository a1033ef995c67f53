import Mathlib

/-! The tree of execution scopes. A scope is named by its sequence number: a parent comes before its
children. The tasks that share the tree interleave; a close_scope call goes through the subtree one
scope at a time, and any other task may act between two of its steps. -/

namespace RoboAgent.ExecutionTree

inductive ScopeState
  | opened
  | closing
  | frozen
deriving DecidableEq

/-- How far a scope has come: it never goes back. -/
def ScopeState.rank : ScopeState → Nat
  | .opened => 0
  | .closing => 1
  | .frozen => 2

structure Resource where
  id : Nat
  typeName : String
deriving DecidableEq

structure ExecutionScope where
  parent : Option Nat
  agentDepth : Nat
  state : ScopeState := .opened
  resources : List Resource := []
  activeSettlements : Nat := 0
  /-- All that was ever registered, in order. -/
  registered : List Resource := []

structure ExecutionBudgetConfig where
  maxAgentDepth : Nat := 4
  maxChildRuns : Nat := 32
  maxNestedToolCalls : Nat := 256

/-- What close or force_close raises: TimeoutError, or any other BaseException, CancelledError
included. -/
inductive Fault
  | timeout
  | failure
deriving DecidableEq

structure CleanupError where
  scope : Nat
  resource : String
  code : String
  message : String
  forced : Bool
deriving DecidableEq

inductive RetryBlockerCode
  | settlementUncertain
  | cleanupUncertain
deriving DecidableEq

structure RetryBlocker where
  code : RetryBlockerCode
  scope : Nat
  message : String
deriving DecidableEq

/-- How the cleanup of a resource ended: it closed; its close raised and its forced close returned;
both raised. -/
inductive Ending
  | closed
  | forced (fault : Fault)
  | failed (fault : Fault)
deriving DecidableEq

structure Disposal where
  scope : Nat
  resource : Resource
  ending : Ending
deriving DecidableEq

/-- Where a close_scope call is: in its loop over the settlements, in its loop over the cleanups, in
the cleanup of one scope with the resources still to close, or at its end. -/
inductive Stage
  | settling (left : List Nat)
  | sweeping (left : List Nat)
  | draining (scope : Nat) (pending : List Resource) (raised : Option Fault) (left : List Nat)
  | returned
  | raised
deriving DecidableEq

structure Closer where
  root : Nat
  descendants : List Nat
  stage : Stage
deriving DecidableEq

structure Tree where
  budget : ExecutionBudgetConfig
  scopes : List ExecutionScope
  childRunsUsed : Nat := 0
  nestedToolsUsed : Nat := 0
  cleanupErrors : List CleanupError := []
  retryBlockers : List RetryBlocker := []
  closers : List Closer := []
  /-- The cleanups that have finished, in order. -/
  disposed : List Disposal := []

inductive ExecutionError
  | invariant (message : String)
  | request (code message : String)
deriving DecidableEq

/-- The tree of a root Run. -/
def Tree.create (budget : ExecutionBudgetConfig) : Tree where
  budget
  scopes := [{ parent := none, agentDepth := 0 }]

/-- Walks up from the scope. A parent has the smaller number, so the walk ends. -/
def isDescendant (scopes : List ExecutionScope) (ancestor scope : Nat) : Bool :=
  match scopes[scope]? with
  | none => false
  | some s =>
    scope == ancestor ||
      match s.parent with
      | none => false
      | some parent => if parent < scope then isDescendant scopes ancestor parent else false
termination_by scope

def cleanupMessage : String := "Execution resource cleanup did not settle."

def Fault.code : Fault → String
  | .timeout => "cleanup_timeout"
  | .failure => "cleanup_failed"

def cleanupError (scope : Nat) (resource : Resource) (fault : Fault) : CleanupError where
  scope
  resource := resource.typeName
  code := fault.code
  message := cleanupMessage
  forced := true

def cleanupBlocker (scope : Nat) : RetryBlocker where
  code := .cleanupUncertain
  scope
  message := cleanupMessage

namespace Tree

variable (t : Tree)

def requireOpen (scope : Nat) (operation : String) : Except ExecutionError ExecutionScope :=
  match t.scopes[scope]?.filter fun s => s.state = .opened with
  | some s => .ok s
  | none => .error (.invariant ("Cannot " ++ operation ++ " outside an OPEN scope."))

def modifyScope (scope : Nat) (f : ExecutionScope → ExecutionScope) : Tree :=
  { t with scopes := t.scopes.modify scope f }

def newScope (parent agentDepth : Nat) : Tree :=
  { t with scopes := t.scopes ++ [{ parent := some parent, agentDepth }] }

/-- ExecutionScope.child_tool -/
def childTool (parent : Nat) : Except ExecutionError Tree := do
  let s ← t.requireOpen parent "create child scope"
  .ok (t.newScope parent s.agentDepth)

def newChildRunScope (parent : Nat) : Except ExecutionError Tree := do
  let s ← t.requireOpen parent "create child Run"
  if t.budget.maxAgentDepth < s.agentDepth + 1 then
    .error (.request "agent_depth_exceeded" "Agent delegation depth exceeded.")
  else if t.budget.maxChildRuns ≤ t.childRunsUsed then
    .error (.request "child_run_budget_exceeded" "Child Run budget exceeded.")
  else
    .ok { t.newScope parent (s.agentDepth + 1) with childRunsUsed := t.childRunsUsed + 1 }

def acceptNestedTool : Bool × Tree :=
  if t.budget.maxNestedToolCalls ≤ t.nestedToolsUsed then (false, t)
  else (true, { t with nestedToolsUsed := t.nestedToolsUsed + 1 })

def registerResource (scope : Nat) (resource : Resource) : Except ExecutionError Tree := do
  let _ ← t.requireOpen scope "register resource"
  .ok (t.modifyScope scope fun s => { s with
    resources := s.resources ++ [resource]
    registered := s.registered ++ [resource] })

def enterSettlement (scope : Nat) : Except ExecutionError Tree := do
  let _ ← t.requireOpen scope "enter settlement barrier"
  .ok (t.modifyScope scope fun s => { s with activeSettlements := s.activeSettlements + 1 })

def leaveSettlement (scope : Nat) : Except ExecutionError Tree :=
  if ∀ s ∈ t.scopes[scope]?, s.activeSettlements = 0 then
    .error (.invariant "Settlement barrier lifecycle underflow.")
  else .ok (t.modifyScope scope fun s => { s with activeSettlements := s.activeSettlements - 1 })

end Tree

def ExecutionScope.beginClosing (s : ExecutionScope) : ExecutionScope :=
  if s.state = .opened then { s with state := .closing } else s

namespace Tree

variable (t : Tree)

def freeze (scope : Nat) : Except ExecutionError Tree :=
  if ∀ s ∈ t.scopes[scope]?, s.state = .opened then
    .error (.invariant "OPEN scope cannot be frozen directly.")
  else .ok (t.modifyScope scope fun s => { s with state := .frozen })

/-- The scopes below one, the latest first. -/
def descendants (root : Nat) : List Nat :=
  (List.range t.scopes.length).reverse.filter (isDescendant t.scopes root)

def beginClosing (scopes : List Nat) : Tree :=
  scopes.foldl (fun t scope => t.modifyScope scope ExecutionScope.beginClosing) t

/-- ExecutionTree.close_scope up to its first await. -/
def closeScope (root : Nat) : Tree :=
  let descendants := t.descendants root
  let t := t.beginClosing descendants
  { t with closers := t.closers ++ [{ root, descendants, stage := .settling descendants }] }

def setStage (closer : Nat) (stage : Stage) : Tree :=
  { t with closers := t.closers.modify closer fun c => { c with stage } }

def addRetryBlocker (blocker : RetryBlocker) : Tree :=
  if blocker ∈ t.retryBlockers then t
  else { t with retryBlockers := t.retryBlockers ++ [blocker] }

def dispose (scope : Nat) (resource : Resource) (ending : Ending) : Tree :=
  { t with disposed := t.disposed ++ [⟨scope, resource, ending⟩] }

def addCleanupError (error : CleanupError) : Tree :=
  { t with cleanupErrors := t.cleanupErrors ++ [error] }

/-- The first resource is closed: its close was awaited and returned or raised, or its forced close
was, after its close had raised. -/
def drain (closer scope : Nat) (resource : Resource) (rest : List Resource)
    (raised : Option Fault) (left : List Nat) (outcome : Option Fault) : Tree :=
  match raised, outcome with
  | none, none =>
    (t.dispose scope resource .closed).setStage closer (.draining scope rest none left)
  | none, some fault =>
    t.setStage closer (.draining scope (resource :: rest) (some fault) left)
  | some fault, none =>
    ((t.addCleanupError (cleanupError scope resource fault)).dispose scope resource
      (.forced fault)).setStage closer (.draining scope rest none left)
  | some _, some fault =>
    (((t.addCleanupError (cleanupError scope resource fault)).addRetryBlocker
      (cleanupBlocker scope)).dispose scope resource (.failed fault)).setStage closer
        (.draining scope rest none left)

def isIdle (scope : Nat) : Bool := t.scopes[scope]?.all fun s => s.activeSettlements = 0

/-- The next step of a close_scope call; an outcome is that of the close that it awaits. -/
def advance (closer : Nat) (outcome : Option Fault) : Option Tree := do
  let c ← t.closers[closer]?
  match c.stage with
  | .settling [] => some (t.setStage closer (.sweeping c.descendants))
  | .settling (scope :: left) =>
    if t.isIdle scope then some (t.setStage closer (.settling left)) else none
  | .sweeping [] => some (t.setStage closer .returned)
  | .sweeping (scope :: left) => do
    let s ← t.scopes[scope]?
    some ((t.modifyScope scope fun s => { s with resources := [] }).setStage closer
      (.draining scope s.resources.reverse none left))
  | .draining scope [] _ left =>
    match t.freeze scope with
    | .ok t => some (t.setStage closer (.sweeping left))
    | .error _ => some (t.setStage closer .raised)
  | .draining scope (resource :: rest) raised left =>
    some (t.drain closer scope resource rest raised left outcome)
  | .returned => none
  | .raised => none

/-- A cancellation ends the call only while it waits for a settlement; the cleanup treats it as the
failure of what it awaits. -/
def cancelCloser (closer : Nat) : Option Tree := do
  let c ← t.closers[closer]?
  match c.stage with
  | .settling _ => some (t.setStage closer .raised)
  | _ => none

end Tree

inductive Action
  | childTool (parent : Nat)
  | newChildRunScope (parent : Nat)
  | acceptNestedTool
  | registerResource (scope : Nat) (resource : Resource)
  | enterSettlement (scope : Nat)
  | leaveSettlement (scope : Nat)
  | closeScope (root : Nat)
  | advance (closer : Nat) (outcome : Option Fault)
  | cancel (closer : Nat)

/-- An operation that raises changes nothing and is no step. -/
def step (t : Tree) : Action → Option Tree
  | .childTool parent => (t.childTool parent).toOption
  | .newChildRunScope parent => (t.newChildRunScope parent).toOption
  | .acceptNestedTool => some t.acceptNestedTool.2
  | .registerResource scope resource => (t.registerResource scope resource).toOption
  | .enterSettlement scope => (t.enterSettlement scope).toOption
  | .leaveSettlement scope => (t.leaveSettlement scope).toOption
  | .closeScope root => if root < t.scopes.length then some (t.closeScope root) else none
  | .advance closer outcome => t.advance closer outcome
  | .cancel closer => t.cancelCloser closer

end RoboAgent.ExecutionTree
