import RoboAgent.ScopeLifecycle
import RoboAgent.ToolEffects
import RoboAgent.Dicts

/-! The facts that the scopes of a tree contribute: usage, effects, records and cleanup errors. A
contribution is merged field by field and may raise on the way. What the code only compares and
passes on of an effect, a summary record or a tool record is a type of its own. -/

namespace RoboAgent.Contributions
open RoboAgent.KeyedLists RoboAgent.Dicts RoboAgent.Runs RoboAgent.ExecutionTree
open RoboAgent.ToolEffects (EffectIdentity)

structure ContributionId where
  scopeId : Nat
  sequence : Nat
deriving DecidableEq

@[ext] structure Usage where
  inputTokens : Option Nat := none
  outputTokens : Option Nat := none
  totalTokens : Option Nat := none
deriving DecidableEq

/-- A known contribution has a usage and an unknown one has none. -/
inductive UsageContribution
  | known (usage : Usage)
  | unknown
deriving DecidableEq

/-- The accumulator: its state, absent at first, and its usage. -/
inductive UsageState
  | absent
  | known (usage : Usage)
  | unknown
deriving DecidableEq

structure Effect (E : Type) where
  effectId : Option EffectIdentity
  transcriptCommitted : Bool := false
  content : E
deriving DecidableEq

structure ExecutionContribution (E R : Type) where
  contributionId : ContributionId
  usage : Option UsageContribution := none
  effects : List (Effect E) := []
  records : List R := []
  cleanupErrors : List CleanupError := []
deriving DecidableEq

inductive Recorded (R T : Type)
  | tool (record : T)
  | summary (record : R)
  | overflow
deriving DecidableEq

structure ExecutionRecord (R T : Type) where
  sequence : Nat
  scopeId : Nat
  recorded : Recorded R T
deriving DecidableEq

structure Records (R T : Type) where
  maxExecutionRecords : Nat
  records : List (ExecutionRecord R T) := []
  complete : Bool := true
  nextSequence : Nat := 0

/-- The tree of scopes with the facts that were contributed. -/
structure FactTree (E R T : Type) extends Tree where
  contributions : Dict ContributionId (ExecutionContribution E R) := .empty
  usage : UsageState := .absent
  effects : Dict EffectIdentity (Effect E) := .empty
  recorded : Records R T

def mergeTokens : Option Nat → Option Nat → Option Nat
  | some a, some b => some (a + b)
  | _, _ => none

def mergeKnownUsage (left right : Usage) : Usage where
  inputTokens := mergeTokens left.inputTokens right.inputTokens
  outputTokens := mergeTokens left.outputTokens right.outputTokens
  totalTokens := mergeTokens left.totalTokens right.totalTokens

def mergeUsage : UsageState → UsageContribution → UsageState
  | .unknown, _ => .unknown
  | _, .unknown => .unknown
  | .absent, .known usage => .known usage
  | .known total, .known usage => .known (mergeKnownUsage total usage)

section
variable {E R T : Type} [DecidableEq E] [DecidableEq R]

/-- The place of the last record is kept for the note that there were more. -/
def Records.append (r : Records R T) (scopeId : Nat) (recorded : Recorded R T) : Records R T :=
  let sequence := r.nextSequence
  if r.complete = false then { r with nextSequence := sequence + 1 }
  else if r.records.length < r.maxExecutionRecords - 1 then
    { r with
      records := r.records ++ [⟨sequence, scopeId, recorded⟩]
      nextSequence := sequence + 1 }
  else
    let overflow : ExecutionRecord R T := ⟨sequence + 1, scopeId, .overflow⟩
    { r with
      complete := false
      nextSequence := sequence + 2
      records :=
        if r.records.length = r.maxExecutionRecords then r.records.dropLast ++ [overflow]
        else r.records ++ [overflow] }

/-- The effects one after the other, up to the first that raises. -/
def addEffects (effects : Dict EffectIdentity (Effect E)) :
    List (Effect E) → Except ExecutionError Unit × Dict EffectIdentity (Effect E)
  | [] => (.ok (), effects)
  | effect :: rest =>
    match effect.effectId with
    | none => (.error (.invariant "Runtime effects require EffectIdentity."), effects)
    | some effectId =>
      if (effects.get effectId).any fun previous => previous ≠ effect then
        (.error (.invariant "Effect identity was reused with different content."), effects)
      else addEffects (effects.put effectId effect) rest

/-- ExecutionTree.contribute; bounded cuts the evidence of a record to its limit. -/
def contribute (bounded : R → R) (t : FactTree E R T) (contribution : ExecutionContribution E R)
    (settlement : Bool) : Except ExecutionError Unit × FactTree E R T :=
  match t.scopes[contribution.contributionId.scopeId]? with
  | none => (.error (.invariant "Contribution references an unknown scope."), t)
  | some scope =>
    if scope.state = .frozen ∨ scope.state = .closing ∧ settlement = false then
      (.error (.invariant "ExecutionScope no longer accepts this contribution."), t)
    else
      match t.contributions.get contribution.contributionId with
      | some previous =>
        if previous = contribution then (.ok (), t)
        else
          (.error (.invariant "Contribution identity was reused with different content."), t)
      | none =>
        let contributions := t.contributions.put contribution.contributionId contribution
        let usage := contribution.usage.elim t.usage (mergeUsage t.usage)
        match addEffects t.effects contribution.effects with
        | (.error error, effects) => (.error error, { t with contributions, usage, effects })
        | (.ok _, effects) => (.ok (), { t with
            contributions, usage, effects
            recorded := contribution.records.foldl (fun recorded record =>
              recorded.append contribution.contributionId.scopeId (.summary (bounded record)))
                t.recorded
            cleanupErrors := t.cleanupErrors ++ contribution.cleanupErrors })

def commitEffect (effects : Dict EffectIdentity (Effect E)) (effectId : EffectIdentity) :
    Dict EffectIdentity (Effect E) :=
  match effects.get effectId with
  | none => effects
  | some effect => effects.put effectId { effect with transcriptCommitted := true }

def markEffectsCommitted (t : FactTree E R T) (effectIds : List EffectIdentity) : FactTree E R T :=
  { t with effects := effectIds.foldl commitEffect t.effects }

/-- The two ways of marking effects differ in the effects they choose. -/
inductive FactAction (E R T : Type)
  | scopes (action : Action)
  | contribute (contribution : ExecutionContribution E R) (settlement : Bool)
  | addToolRecord (scope : Nat) (record : T)
  | addRetryBlocker (blocker : RetryBlocker)
  | markCommitted (effectIds : List EffectIdentity)

/-- A contribution that raises is a step: the tree keeps what was done before the raise. -/
def factStep (bounded : R → R) (t : FactTree E R T) : FactAction E R T → Option (FactTree E R T)
  | .scopes action => (step t.toTree action).map fun tree => { t with toTree := tree }
  | .contribute contribution settlement => some (contribute bounded t contribution settlement).2
  | .addToolRecord scope record =>
    some { t with recorded := t.recorded.append scope (.tool record) }
  | .addRetryBlocker blocker => some { t with toTree := t.toTree.addRetryBlocker blocker }
  | .markCommitted effectIds => some (markEffectsCommitted t effectIds)

def FactTree.create (budget : ExecutionBudgetConfig) (maxExecutionRecords : Nat) :
    FactTree E R T where
  toTree := Tree.create budget
  recorded := { maxExecutionRecords }

end

end RoboAgent.Contributions
