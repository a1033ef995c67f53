import RoboAgent.ScopeLifecycle

/-! Settlement barriers. Leaving a barrier starts a driver task that settles, and settles by force if
that fails; the caller awaits it behind a shield and may be cancelled any number of times meanwhile.
A step is what one task does between two awaits, and the steps of all tasks interleave. -/

namespace RoboAgent.SettlementBarriers
open RoboAgent.ExecutionTree RoboAgent.ExecutionTree.Tree RoboAgent.ScopeLifecycle RoboAgent.Runs
open RoboAgent.FalliblePrograms (bind_eq_ok)

/-- How awaiting settle or force_settle ends: TimeoutError is raised by the clock or by the handler;
any other BaseException is one failure, a cancellation of the driver included. -/
inductive Awaited
  | returned
  | timedOut
  | raised
deriving DecidableEq

/-- How the driver task is done. -/
inductive DriverResult
  | returned
  | settlementError (code : String)
  | cancelled
deriving DecidableEq

inductive DriverStage
  | created
  | settling
  | forcing (timedOut : Bool)
  | done (result : DriverResult)
deriving DecidableEq

/-- What leaving the barrier shows the caller; if it is `returned`, what the body ended in. -/
inductive Seen
  | returned
  | cancelled
  | settlementError (code : String)
  | underflow
deriving DecidableEq

inductive CallerStage
  | inside
  | exiting (cancellationPending : Bool)
  | left (seen : Seen)
deriving DecidableEq

/-- One entry of a barrier: where its caller is, its driver once there is one, and whether the caller
has been cancelled since it last ran. How settling ended, plainly and by force, is for the record. -/
structure Barrier where
  scope : Nat
  caller : CallerStage := .inside
  driver : Option DriverStage := none
  interrupt : Bool := false
  settle : Option Awaited := none
  force : Option Awaited := none
deriving DecidableEq

/-- What happens at a barrier. An exit may come with the cancellation already delivered to the body. A
driver is stopped before its first step; it may end in a cancellation asked for during its last. -/
inductive Event
  | exit (delivered : Bool)
  | cancel
  | start
  | stop
  | settled (outcome : Awaited) (interrupted : Bool)
  | forced (outcome : Awaited) (interrupted : Bool)
  | resume
deriving DecidableEq

/-- What an event makes of a barrier, whether it marks the settlement as uncertain, and what the
caller sees if it leaves. -/
structure Transition where
  barrier : Barrier
  marks : Bool := false
  leaves : Option Seen := none

def finish (interrupted : Bool) : DriverStage :=
  .done (if interrupted then .cancelled else .returned)

namespace Barrier

variable (b : Barrier)

/-- _drive_settlement from the end of settle to its next await. -/
def settled (outcome : Awaited) (interrupted : Bool) : Barrier :=
  let b := { b with settle := some outcome }
  match outcome with
  | .returned => { b with driver := some (finish interrupted) }
  | .timedOut => { b with driver := some (.forcing true) }
  | .raised => { b with driver := some (.forcing false) }

/-- _drive_settlement from the end of force_settle on. An exception of the driver goes before a
cancellation that was asked for. -/
def forced (timedOut : Bool) (outcome : Awaited) (interrupted : Bool) : Transition :=
  let b := { b with force := some outcome }
  match timedOut, outcome with
  | true, .returned => { barrier := { b with driver := some (finish interrupted) } }
  | false, .returned =>
    { barrier := { b with driver := some (.done (.settlementError "settlement_failed")) } }
  | true, _ =>
    { barrier := { b with driver := some (.done (.settlementError "settlement_timeout")) }
      marks := true }
  | false, _ =>
    { barrier := { b with driver := some (.done (.settlementError "settlement_failed")) }
      marks := true }

/-- The await of the shielded driver, with no cancellation on its way: it suspends the caller, or the
driver is done. -/
def await (cancellationPending : Bool) : Transition :=
  let b := { b with caller := .exiting cancellationPending }
  match b.driver with
  | some (.done .returned) =>
    { barrier := b, leaves := some (if cancellationPending then .cancelled else .returned) }
  | some (.done (.settlementError code)) =>
    { barrier := b, leaves := some (.settlementError code) }
  | some (.done .cancelled) =>
    { barrier := b, marks := true, leaves := some (.settlementError "settlement_failed") }
  | _ => { barrier := b }

def isDone : Bool :=
  match b.driver with
  | some (.done _) => true
  | _ => false

/-- The caller runs again. A cancellation that finds the driver cancelled ends the loop as the
driver's own would; any other is remembered, and the driver awaited again. -/
def resume (cancellationPending : Bool) : Option Transition :=
  if b.interrupt then
    let b := { b with interrupt := false }
    if b.driver = some (.done .cancelled) then
      some { barrier := b, marks := true, leaves := some (.settlementError "settlement_failed") }
    else some (b.await true)
  else if b.isDone then some (b.await cancellationPending)
  else none

def next : Event → Option Transition
  | .exit delivered =>
    match b.caller with
    | .inside => some { barrier := { b with
        caller := .exiting false
        driver := some .created
        interrupt := b.interrupt && !delivered } }
    | _ => none
  | .cancel =>
    match b.caller with
    | .left _ => none
    | _ => some { barrier := { b with interrupt := true } }
  | .start =>
    if b.driver = some .created then some { barrier := { b with driver := some .settling } }
    else none
  | .stop =>
    if b.driver = some .created then some { barrier := { b with driver := some (.done .cancelled) } }
    else none
  | .settled outcome interrupted =>
    if b.driver = some .settling then some { barrier := b.settled outcome interrupted } else none
  | .forced outcome interrupted =>
    match b.driver with
    | some (.forcing timedOut) => some (b.forced timedOut outcome interrupted)
    | _ => none
  | .resume =>
    match b.caller with
    | .exiting cancellationPending => b.resume cancellationPending
    | _ => none

end Barrier

def settlementBlocker (scope : Nat) : RetryBlocker where
  code := .settlementUncertain
  scope
  message := "Settlement could not be confirmed."

/-- The tree of scopes and the barriers entered on it so far. The entries whose leaving has taken one
off the counter are recorded in order. -/
structure World where
  tree : Tree
  barriers : List Barrier := []
  leaves : List Nat := []

namespace World

variable (w : World)

def mark (scope : Nat) (marks : Bool) : Tree :=
  if marks then w.tree.addRetryBlocker (settlementBlocker scope) else w.tree

/-- A caller that leaves does so through the finally clause, which may raise in its turn. -/
def take (i : Nat) (t : Transition) : World :=
  let tree := w.mark t.barrier.scope t.marks
  match t.leaves with
  | none => { w with tree, barriers := w.barriers.set i t.barrier }
  | some seen =>
    match tree.leaveSettlement t.barrier.scope with
    | .ok tree => {
        tree
        barriers := w.barriers.set i { t.barrier with caller := .left seen }
        leaves := w.leaves ++ [i] }
    | .error _ =>
      { w with tree, barriers := w.barriers.set i { t.barrier with caller := .left .underflow } }

end World

inductive Action
  | tree (action : ExecutionTree.Action)
  | enter (scope : Nat)
  | barrier (i : Nat) (event : Event)

def isSettlement : ExecutionTree.Action → Bool
  | .enterSettlement _ | .leaveSettlement _ => true
  | _ => false

/-- The counters are moved by the barriers only. -/
def step (w : World) : Action → Option World
  | .tree action =>
    if isSettlement action then none
    else (ExecutionTree.step w.tree action).map fun tree => { w with tree }
  | .enter scope =>
    match w.tree.enterSettlement scope with
    | .ok tree => some { w with tree, barriers := w.barriers ++ [{ scope }] }
    | .error _ => none
  | .barrier i event => do
    let b ← w.barriers[i]?
    let t ← b.next event
    some (w.take i t)

namespace Barrier

variable (b : Barrier)

def active : Bool :=
  match b.caller with
  | .left _ => false
  | _ => true

/-- Settle did not finish, and neither did the forced settlement. -/
def ForceFailed : Prop :=
  b.settle ≠ some .returned ∧ (b.force = some .timedOut ∨ b.force = some .raised)

/-- The driver task itself ended in a cancellation. -/
def Interrupted : Prop := b.driver = some (.done .cancelled)

/-- The settlement is known to be uncertain: from the driver, or, where the driver was interrupted,
from the caller once it has left. -/
def Uncertain : Prop := b.ForceFailed ∨ b.Interrupted ∧ b.active = false

/-- What the driver has on record at each of its stages. -/
def Logged : Prop :=
  match b.driver with
  | none | some .created | some .settling => b.settle = none ∧ b.force = none
  | some (.forcing _) => b.settle ≠ some .returned ∧ b.force = none
  | some (.done _) => True

structure Sound : Prop where
  entered : b.caller = .inside ↔ b.driver = none
  finished : ∀ seen, b.caller = .left seen → seen ≠ .underflow ∧ b.isDone = true
  logged : b.Logged

end Barrier

/-- The barrier after a transition, if leaving it raises nothing of its own. -/
def Transition.after (t : Transition) : Barrier :=
  match t.leaves with
  | none => t.barrier
  | some seen => { t.barrier with caller := .left seen }

structure Follows (b : Barrier) (t : Transition) : Prop where
  sound : t.after.Sound
  scope : t.barrier.scope = b.scope
  active : b.active = true
  leaving : t.after.active = t.leaves.isNone
  uncertain : t.after.Uncertain ↔ b.Uncertain ∨ t.marks = true

variable {b : Barrier} {t : Transition}

namespace Barrier

theorem uncertain_active (active : b.active = true) : b.Uncertain ↔ b.ForceFailed := by
  rw [Uncertain, active]
  exact or_iff_left fun h => nomatch h.2

theorem uncertain_left (seen : Seen) :
    ({ b with caller := .left seen } : Barrier).Uncertain ↔ b.ForceFailed ∨ b.Interrupted :=
  or_congr Iff.rfl (and_iff_left rfl)

theorem sound_left {result : DriverResult} (done : b.driver = some (.done result)) {seen : Seen}
    (proper : seen ≠ .underflow) : ({ b with caller := .left seen } : Barrier).Sound := by
  obtain ⟨scope, caller, driver, interrupt, settle, force⟩ := b
  cases done
  refine ⟨⟨nofun, nofun⟩, fun other left => ?_, trivial⟩
  cases left
  exact ⟨proper, rfl⟩

theorem Sound.active_of_running (h : b.Sound) (running : b.isDone = false) : b.active = true := by
  unfold active
  split
  · rename_i seen left
    rw [(h.finished seen left).2] at running
    cases running
  · rfl

/-- A barrier whose caller is on its way out, past its entry. -/
theorem sound_exiting {stage : DriverStage} (driver : b.driver = some stage) (logged : b.Logged)
    {pending : Bool} : ({ b with caller := .exiting pending } : Barrier).Sound where
  entered := ⟨nofun, fun none => nomatch driver.symm.trans none⟩
  finished := nofun
  logged := logged

/-- A step of the driver while the caller is there. -/
theorem Sound.driven (h : b.Sound) (active : b.active = true) {stage stage' : DriverStage}
    (driver : b.driver = some stage) {b' : Barrier} (caller : b'.caller = b.caller)
    (driver' : b'.driver = some stage') (logged : b'.Logged) : b'.Sound where
  entered := by
    rw [caller, h.entered, driver, driver']
    exact iff_of_false nofun nofun
  finished seen left := by
    rw [Barrier.active, ← caller, left] at active
    cases active
  logged := logged

theorem not_forceFailed (h : b.force = none) : ¬b.ForceFailed := by
  rintro ⟨-, timedOut | raised⟩
  · exact nomatch h.symm.trans timedOut
  · exact nomatch h.symm.trans raised

end Barrier

/-- A transition that lets the caller stay. -/
theorem Follows.stay {b' : Barrier} {marks : Bool} (sound : b'.Sound) (scope : b'.scope = b.scope)
    (active : b.active = true) (active' : b'.active = true)
    (failed : b'.ForceFailed ↔ b.ForceFailed ∨ marks = true) :
    Follows b { barrier := b', marks } where
  sound := sound
  scope := scope
  active := active
  leaving := active'
  uncertain := by
    rw [Transition.after, Barrier.uncertain_active active', Barrier.uncertain_active active, failed]

theorem unmarked {p : Prop} : p ↔ p ∨ false = true := (or_iff_left Bool.false_ne_true).symm

/-- A caller that leaves once the driver is done. -/
theorem Follows.leave {b' : Barrier} {result : DriverResult} {seen : Seen} {marks : Bool}
    (done : b'.driver = some (.done result)) (proper : seen ≠ .underflow)
    (scope : b'.scope = b.scope) (active : b.active = true)
    (failed : b'.ForceFailed ↔ b.ForceFailed) (marked : b'.Interrupted ↔ marks = true) :
    Follows b { barrier := b', marks, leaves := some seen } where
  sound := Barrier.sound_left done proper
  scope := scope
  active := active
  leaving := rfl
  uncertain := by
    rw [Transition.after, Barrier.uncertain_left, Barrier.uncertain_active active, failed, marked]

theorem follows_await (h : b.Sound) {before : Bool} (exiting : b.caller = .exiting before)
    (pending : Bool) : Follows b (b.await pending) := by
  have active : b.active = true := by rw [Barrier.active, exiting]
  have entered : b.driver ≠ none := fun none => nomatch exiting.symm.trans (h.entered.mpr none)
  obtain ⟨stage, driver⟩ := Option.ne_none_iff_exists'.mp entered
  have stays : Follows b { barrier := { b with caller := .exiting pending } } :=
    .stay (Barrier.sound_exiting driver h.logged) rfl active rfl unmarked
  obtain ⟨scope, caller, _, interrupt, settle, force⟩ := b
  cases driver
  cases stage with
  | created => exact stays
  | settling => exact stays
  | forcing timedOut => exact stays
  | done result =>
    cases result with
    | returned =>
      refine .leave rfl ?_ rfl active Iff.rfl (iff_of_false nofun nofun)
      cases pending <;> exact nofun
    | settlementError code => exact .leave rfl nofun rfl active Iff.rfl (iff_of_false nofun nofun)
    | cancelled => exact .leave rfl nofun rfl active Iff.rfl (iff_of_true rfl rfl)

/-- The end of settle: the forced settlement has not begun. -/
theorem follows_settled (h : b.Sound) (driver : b.driver = some .settling) (outcome : Awaited)
    (interrupted : Bool) : Follows b { barrier := b.settled outcome interrupted } := by
  have active := h.active_of_running (by rw [Barrier.isDone, driver])
  have force : b.force = none := by
    have logged := h.logged
    rw [Barrier.Logged, driver] at logged
    exact logged.2
  have stay {b' : Barrier} {stage : DriverStage} (caller : b'.caller = b.caller)
      (driver' : b'.driver = some stage) (logged : b'.Logged) (scope : b'.scope = b.scope)
      (same : b'.force = b.force) : Follows b { barrier := b' } := by
    have active' : b'.active = true := by rw [Barrier.active, caller, ← Barrier.active, active]
    have failed := iff_of_false (Barrier.not_forceFailed (same.trans force))
      (Barrier.not_forceFailed force)
    exact .stay (h.driven active driver caller driver' logged) scope active active'
      (failed.trans unmarked)
  cases outcome with
  | returned =>
    have driver' : (b.settled .returned interrupted).driver = some (finish interrupted) := rfl
    exact stay rfl driver' trivial rfl rfl
  | timedOut => exact stay rfl rfl ⟨nofun, force⟩ rfl rfl
  | raised => exact stay rfl rfl ⟨nofun, force⟩ rfl rfl

theorem follows_forced (h : b.Sound) {timedOut : Bool} (driver : b.driver = some (.forcing timedOut))
    (outcome : Awaited) (interrupted : Bool) :
    Follows b (b.forced timedOut outcome interrupted) := by
  have active := h.active_of_running (by rw [Barrier.isDone, driver])
  have logged := h.logged
  rw [Barrier.Logged, driver] at logged
  obtain ⟨unsettled, force⟩ := logged
  have stay {b' : Barrier} {result : DriverResult} {marks : Bool} (caller : b'.caller = b.caller)
      (driver' : b'.driver = some (.done result)) (scope : b'.scope = b.scope)
      (settle : b'.settle = b.settle) (forced : b'.force = some outcome)
      (marked : outcome ≠ .returned ↔ marks = true) : Follows b { barrier := b', marks } := by
    have active' : b'.active = true := by rw [Barrier.active, caller, ← Barrier.active, active]
    have sound := h.driven active driver caller driver' (by rw [Barrier.Logged, driver']; trivial)
    have failed : b'.ForceFailed ↔ outcome ≠ .returned := by
      rw [Barrier.ForceFailed, settle, forced, and_iff_right unsettled]
      cases outcome <;> decide
    exact .stay sound scope active active'
      ((failed.trans marked).trans (or_iff_right (Barrier.not_forceFailed force)).symm)
  cases timedOut with
  | false =>
    cases outcome with
    | returned => exact stay rfl rfl rfl rfl rfl (by decide)
    | timedOut => exact stay rfl rfl rfl rfl rfl (by decide)
    | raised => exact stay rfl rfl rfl rfl rfl (by decide)
  | true =>
    cases outcome with
    | returned =>
      have driver' : (b.forced true .returned interrupted).barrier.driver =
          some (.done (if interrupted then .cancelled else .returned)) := rfl
      exact stay rfl driver' rfl rfl rfl (by decide)
    | timedOut => exact stay rfl rfl rfl rfl rfl (by decide)
    | raised => exact stay rfl rfl rfl rfl rfl (by decide)

theorem follows_resume (h : b.Sound) {pending : Bool} (exiting : b.caller = .exiting pending)
    (resumed : b.resume pending = some t) : Follows b t := by
  have active : b.active = true := by rw [Barrier.active, exiting]
  simp only [Barrier.resume] at resumed
  split_ifs at resumed with interrupt cancelled done
  · cases resumed
    exact .leave cancelled nofun rfl active Iff.rfl (iff_of_true cancelled rfl)
  · cases resumed
    have sound : ({ b with interrupt := false } : Barrier).Sound :=
      ⟨h.entered, h.finished, h.logged⟩
    obtain ⟨sound, scope, active, leaving, uncertain⟩ := follows_await sound exiting true
    exact ⟨sound, scope, active, leaving, uncertain⟩
  · cases resumed
    exact follows_await h exiting pending

/-- What any event does at a barrier that is sound. -/
theorem follows_next (h : b.Sound) {event : Event} (stepped : b.next event = some t) :
    Follows b t := by
  cases event with
  | exit delivered =>
    simp only [Barrier.next] at stepped
    split at stepped
    · rename_i inside
      cases stepped
      have fresh := h.entered.mp inside
      have logged := h.logged
      rw [Barrier.Logged, fresh] at logged
      refine .stay ⟨⟨nofun, nofun⟩, nofun, logged⟩ rfl (by rw [Barrier.active, inside]) rfl unmarked
    · cases stepped
  | cancel =>
    simp only [Barrier.next] at stepped
    split at stepped
    · cases stepped
    · rename_i staying
      cases stepped
      have active : b.active = true := by
        unfold Barrier.active
        split
        · rename_i left
          exact absurd left (staying _)
        · rfl
      exact .stay ⟨h.entered, h.finished, h.logged⟩ rfl active active unmarked
  | start =>
    obtain ⟨driver, made⟩ := Option.ite_none_right_eq_some.mp stepped
    cases made
    have active := h.active_of_running (by rw [Barrier.isDone, driver])
    have logged := h.logged
    rw [Barrier.Logged, driver] at logged
    exact .stay (h.driven active driver rfl rfl logged) rfl active active unmarked
  | stop =>
    obtain ⟨driver, made⟩ := Option.ite_none_right_eq_some.mp stepped
    cases made
    have active := h.active_of_running (by rw [Barrier.isDone, driver])
    exact .stay (h.driven active driver rfl rfl trivial) rfl active active unmarked
  | settled outcome interrupted =>
    obtain ⟨driver, made⟩ := Option.ite_none_right_eq_some.mp stepped
    cases made
    exact follows_settled h driver outcome interrupted
  | forced outcome interrupted =>
    simp only [Barrier.next] at stepped
    split at stepped
    · rename_i timedOut driver
      cases stepped
      exact follows_forced h driver outcome interrupted
    · cases stepped
  | resume =>
    simp only [Barrier.next] at stepped
    split at stepped
    · rename_i pending exiting
      exact follows_resume h exiting stepped
    · cases stepped

/-- The counter of a scope; a scope that is not there counts as idle. -/
def activeAt (t : Tree) (scope : Nat) : Nat :=
  (t.scopes[scope]?.map ExecutionScope.activeSettlements).getD 0

/-- What the rest of the tree leaves of the settlements. -/
structure Apart (t t' : Tree) : Prop where
  active : ∀ scope, activeAt t' scope = activeAt t scope
  blockers : ∀ scope, settlementBlocker scope ∈ t'.retryBlockers ↔
    settlementBlocker scope ∈ t.retryBlockers

variable {tree tree' : Tree}

theorem Apart.of_scopes (scopes : tree'.scopes = tree.scopes)
    (blockers : tree'.retryBlockers = tree.retryBlockers) : Apart tree tree' where
  active scope := by rw [activeAt, activeAt, scopes]
  blockers scope := by rw [blockers]

theorem Apart.trans {tree'' : Tree} (first : Apart tree tree') (second : Apart tree' tree'') :
    Apart tree tree'' where
  active scope := (second.active scope).trans (first.active scope)
  blockers scope := (second.blockers scope).trans (first.blockers scope)

theorem Apart.modify {x : Nat} {f : ExecutionScope → ExecutionScope}
    (same : ∀ s, (f s).activeSettlements = s.activeSettlements) :
    Apart tree (tree.modifyScope x f) where
  active scope := by
    rw [activeAt, activeAt, getElem?_modifyScope]
    split_ifs
    · rw [Option.map_map]
      exact congrArg (fun g => (tree.scopes[scope]?.map g).getD 0) (funext same)
    · rfl
  blockers _ := Iff.rfl

theorem Apart.newScope (parent depth : Nat) : Apart tree (tree.newScope parent depth) where
  active scope := by
    rw [activeAt, activeAt, Tree.newScope, List.getElem?_append]
    split_ifs with old
    · rfl
    · rw [List.getElem?_eq_none (Nat.le_of_not_lt old)]
      rcases scope - tree.scopes.length with _ | _ <;> rfl
  blockers _ := Iff.rfl

theorem Apart.blocker (scope : Nat) : Apart tree (tree.addRetryBlocker (cleanupBlocker scope)) where
  active _ := by
    unfold addRetryBlocker
    split_ifs <;> rfl
  blockers x := by
    unfold addRetryBlocker
    split_ifs
    · rfl
    · rw [List.mem_append, List.mem_singleton]
      exact or_iff_left nofun

theorem Apart.beginClosing (scopes : List Nat) : Apart tree (tree.beginClosing scopes) := by
  induction scopes generalizing tree with
  | nil => exact .of_scopes rfl rfl
  | cons x scopes ih => exact .trans (.modify fun s => (beginClosing_spec s).2.2.1) ih

theorem Apart.drain (closer x : Nat) (resource : Resource) (rest : List Resource)
    (raised : Option Fault) (left : List Nat) (outcome : Option Fault) :
    Apart tree (tree.drain closer x resource rest raised left outcome) := by
  cases raised with
  | none => cases outcome <;> exact .of_scopes rfl rfl
  | some fault =>
    cases outcome with
    | none => exact .of_scopes rfl rfl
    | some last =>
      have recorded : Apart tree (tree.addCleanupError (cleanupError x resource last)) :=
        .of_scopes rfl rfl
      exact recorded.trans ((Apart.blocker x).trans (.of_scopes rfl rfl))

theorem apart_advance {closer : Nat} {outcome : Option Fault}
    (stepped : tree.advance closer outcome = some tree') : Apart tree tree' := by
  obtain ⟨c, -, stepped⟩ := Option.bind_eq_some_iff.mp stepped
  cases here : c.stage with
  | settling left =>
    rw [here] at stepped
    cases left with
    | nil =>
      cases stepped
      exact .of_scopes rfl rfl
    | cons x left =>
      dsimp only at stepped
      split_ifs at stepped
      cases stepped
      exact .of_scopes rfl rfl
  | sweeping left =>
    rw [here] at stepped
    cases left with
    | nil =>
      cases stepped
      exact .of_scopes rfl rfl
    | cons x left =>
      obtain ⟨s, -, stepped⟩ := Option.bind_eq_some_iff.mp stepped
      cases stepped
      have taken : Apart tree (tree.modifyScope x fun s => { s with resources := [] }) :=
        .modify fun _ => rfl
      exact taken.trans (.of_scopes rfl rfl)
  | draining x pending raised left =>
    rw [here] at stepped
    cases pending with
    | nil =>
      dsimp only at stepped
      split at stepped
      · rename_i u froze
        cases stepped
        unfold Tree.freeze at froze
        split_ifs at froze
        cases froze
        have frozen : Apart tree (tree.modifyScope x fun s => { s with state := .frozen }) :=
          .modify fun _ => rfl
        exact frozen.trans (.of_scopes rfl rfl)
      · cases stepped
        exact .of_scopes rfl rfl
    | cons resource rest =>
      cases stepped
      exact .drain ..
  | returned =>
    rw [here] at stepped
    cases stepped
  | raised =>
    rw [here] at stepped
    cases stepped

theorem apart_step {a : ExecutionTree.Action} (stepped : ExecutionTree.step tree a = some tree')
    (other : ¬isSettlement a = true) : Apart tree tree' := by
  cases a with
  | childTool parent =>
    obtain ⟨s, -, made⟩ := bind_eq_ok (toOption_eq_some.mp stepped)
    cases made
    exact .newScope ..
  | newChildRunScope parent =>
    obtain ⟨s, -, made⟩ := bind_eq_ok (toOption_eq_some.mp stepped)
    split_ifs at made
    cases made
    exact .trans (.newScope ..) (.of_scopes rfl rfl)
  | acceptNestedTool =>
    cases stepped
    unfold acceptNestedTool
    split_ifs <;> exact .of_scopes rfl rfl
  | registerResource x resource =>
    obtain ⟨s, -, made⟩ := bind_eq_ok (toOption_eq_some.mp stepped)
    cases made
    exact .modify fun _ => rfl
  | enterSettlement x => exact absurd rfl other
  | leaveSettlement x => exact absurd rfl other
  | closeScope root =>
    obtain ⟨-, made⟩ := Option.ite_none_right_eq_some.mp stepped
    cases made
    exact .trans (.beginClosing _) (.of_scopes rfl rfl)
  | advance closer outcome => exact apart_advance stepped
  | cancel closer =>
    obtain ⟨c, -, stepped⟩ := Option.bind_eq_some_iff.mp stepped
    split at stepped
    · cases stepped
      exact .of_scopes rfl rfl
    · cases stepped

/-- The entries of a scope whose callers have not left. -/
def inside (w : World) (scope : Nat) : Nat :=
  w.barriers.countP fun b => b.active && b.scope == scope

/-- The invariant of the barriers and of what they share. -/
structure Kept (w : World) : Prop where
  sound : ∀ b ∈ w.barriers, b.Sound
  counted : ∀ scope, activeAt w.tree scope = inside w scope
  once : w.leaves.Nodup
  recorded : ∀ i, i ∈ w.leaves ↔ ∃ b, w.barriers[i]? = some b ∧ b.active = false
  blocked : ∀ scope, settlementBlocker scope ∈ w.tree.retryBlockers ↔
    ∃ b ∈ w.barriers, b.scope = scope ∧ b.Uncertain

variable {w w' : World}

theorem Kept.apart (h : Kept w) (apart : Apart w.tree tree) : Kept { w with tree } where
  sound := h.sound
  counted scope := (apart.active scope).trans (h.counted scope)
  once := h.once
  recorded := h.recorded
  blocked scope := (apart.blockers scope).trans (h.blocked scope)

theorem activeAt_enterSettlement {x : Nat} (entered : tree.enterSettlement x = .ok tree')
    (scope : Nat) : activeAt tree' scope = activeAt tree scope + if x = scope then 1 else 0 := by
  obtain ⟨s, required, made⟩ := bind_eq_ok entered
  cases made
  obtain ⟨found, -⟩ := requireOpen_eq_ok.mp required
  rw [activeAt, activeAt, getElem?_modifyScope]
  split_ifs with here
  · cases here
    rw [found]
    rfl
  · rfl

/-- Leaving finds the counter positive and takes one off it. -/
theorem leaveSettlement_positive {x : Nat} (positive : activeAt tree x ≠ 0) :
    ∃ tree', tree.leaveSettlement x = .ok tree' ∧ tree'.retryBlockers = tree.retryBlockers ∧
      ∀ scope, activeAt tree' scope = activeAt tree scope - if x = scope then 1 else 0 := by
  have busy : ¬∀ s ∈ tree.scopes[x]?, s.activeSettlements = 0 := by
    intro idle
    apply positive
    rw [activeAt]
    cases found : tree.scopes[x]? with
    | none => rfl
    | some s => exact idle s found
  refine ⟨_, if_neg busy, rfl, fun scope => ?_⟩
  rw [activeAt, activeAt, getElem?_modifyScope]
  split_ifs with here
  · cases tree.scopes[scope]? <;> rfl
  · rfl

theorem activeAt_mark (scope x : Nat) (marks : Bool) :
    activeAt (w.mark x marks) scope = activeAt w.tree scope := by
  unfold World.mark addRetryBlocker
  split_ifs <;> rfl

theorem mem_mark {scope x : Nat} {marks : Bool} :
    settlementBlocker scope ∈ (w.mark x marks).retryBlockers ↔
      settlementBlocker scope ∈ w.tree.retryBlockers ∨ x = scope ∧ marks = true := by
  unfold World.mark addRetryBlocker
  split_ifs with marked known
  · refine (or_iff_left_of_imp ?_).symm
    rintro ⟨rfl, -⟩
    exact known
  · rw [List.mem_append, List.mem_singleton]
    refine or_congr Iff.rfl ⟨fun same => ⟨?_, marked⟩, fun ⟨same, _⟩ => same ▸ rfl⟩
    exact (congrArg RetryBlocker.scope same).symm
  · exact (or_iff_left fun both => marked both.2).symm

section Set
variable {entries : List Barrier} {i : Nat} {b b' : Barrier}

theorem exists_mem_set (found : entries[i]? = some b) {p : Barrier → Prop} {q : Prop}
    (h : p b' ↔ p b ∨ q) : (∃ x ∈ entries.set i b', p x) ↔ (∃ x ∈ entries, p x) ∨ q := by
  obtain ⟨bound, here⟩ := List.getElem?_eq_some_iff.mp found
  have placed : b' ∈ entries.set i b' := List.mem_set bound b'
  constructor
  · rintro ⟨x, mem, hx⟩
    obtain old | rfl := List.mem_or_eq_of_mem_set mem
    · exact .inl ⟨x, old, hx⟩
    · exact (h.mp hx).imp_left fun hb => ⟨b, List.mem_of_getElem? found, hb⟩
  · rintro (⟨x, mem, hx⟩ | hq)
    · obtain ⟨j, at_⟩ := List.mem_iff_getElem?.mp mem
      by_cases same : i = j
      · cases same
        cases found.symm.trans at_
        exact ⟨b', placed, h.mpr (.inl hx)⟩
      · refine ⟨x, List.mem_iff_getElem?.mpr ⟨j, ?_⟩, hx⟩
        rw [List.getElem?_set_ne same, at_]
    · exact ⟨b', placed, h.mpr (.inr hq)⟩

/-- Replacing one entry by another of its scope. -/
theorem countP_set_active (found : entries[i]? = some b) (active : b.active = true)
    (scope : b'.scope = b.scope) (x : Nat) :
    (entries.set i b').countP (fun b => b.active && b.scope == x) =
      entries.countP (fun b => b.active && b.scope == x) -
        if b'.active = false ∧ b.scope = x then 1 else 0 := by
  obtain ⟨bound, here⟩ := List.getElem?_eq_some_iff.mp found
  have counted : b.scope = x → 0 < entries.countP fun b => b.active && b.scope == x := by
    intro same
    refine List.countP_pos_iff.mpr ⟨b, List.mem_of_getElem? found, ?_⟩
    rw [active, same, beq_self_eq_true, Bool.and_self]
  rw [List.countP_set bound, here, active, scope]
  by_cases same : b.scope = x
  · have := counted same
    cases b'.active with
    | true =>
      simp only [same, beq_self_eq_true, Bool.and_self, if_true, Bool.true_eq_false, false_and,
        if_false]
      omega
    | false => simp [same]
  · simp [same]

end Set

theorem Kept.take (h : Kept w) {i : Nat} {b : Barrier} {t : Transition}
    (found : w.barriers[i]? = some b) (follows : Follows b t) : Kept (w.take i t) := by
  have member := List.mem_of_getElem? found
  obtain ⟨sound, scope, active, leaving, uncertain⟩ := follows
  have afterScope : t.after.scope = b.scope := by
    rw [← scope, Transition.after]
    cases t.leaves <;> rfl
  have sounds : ∀ x ∈ w.barriers.set i t.after, x.Sound := by
    intro x mem
    obtain old | rfl := List.mem_or_eq_of_mem_set mem
    · exact h.sound x old
    · exact sound
  have blocked (x : Nat) : settlementBlocker x ∈ (w.mark b.scope t.marks).retryBlockers ↔
      ∃ b ∈ w.barriers.set i t.after, b.scope = x ∧ b.Uncertain := by
    rw [mem_mark, h.blocked]
    refine (exists_mem_set found ?_).symm
    rw [afterScope, uncertain, and_or_left]
  have others (j : Nat) (different : i ≠ j) :
      (∃ x, (w.barriers.set i t.after)[j]? = some x ∧ x.active = false) ↔ j ∈ w.leaves := by
    rw [List.getElem?_set_ne different, h.recorded]
  have placed : (w.barriers.set i t.after)[i]? = some t.after :=
    List.getElem?_set_self (List.getElem?_eq_some_iff.mp found).1
  have unrecorded : i ∉ w.leaves := by
    rw [h.recorded]
    rintro ⟨x, again, idle⟩
    cases found.symm.trans again
    rw [active] at idle
    cases idle
  have counted (x : Nat) := countP_set_active found active afterScope x
  rw [leaving] at counted
  unfold World.take
  rw [scope]
  cases leaves : t.leaves with
  | none =>
    have same : t.after = t.barrier := by rw [Transition.after, leaves]
    rw [leaves] at leaving counted
    rw [same] at sounds blocked others placed counted leaving
    refine ⟨sounds, fun x => ?_, h.once, fun j => ?_, blocked⟩
    · have unchanged := counted x
      rw [if_neg fun both => nomatch both.1, Nat.sub_zero] at unchanged
      rw [activeAt_mark, h.counted]
      exact unchanged.symm
    · by_cases here : i = j
      · cases here
        refine iff_of_false unrecorded ?_
        rintro ⟨x, again, idle⟩
        cases placed.symm.trans again
        rw [leaving] at idle
        cases idle
      · exact (others j here).symm
  | some seen =>
    have same : t.after = { t.barrier with caller := .left seen } := by
      rw [Transition.after, leaves]
    rw [leaves] at leaving counted
    rw [same] at sounds blocked others placed counted leaving
    have positive : activeAt (w.mark b.scope t.marks) b.scope ≠ 0 := by
      rw [activeAt_mark, h.counted]
      refine Nat.pos_iff_ne_zero.mp (List.countP_pos_iff.mpr ⟨b, member, ?_⟩)
      rw [active, beq_self_eq_true, Bool.and_self]
    obtain ⟨tree', left, blockers, moved⟩ := leaveSettlement_positive positive
    simp only [left]
    refine ⟨sounds, fun x => ?_, ?_, fun j => ?_, fun x => blockers ▸ blocked x⟩
    · rw [moved, activeAt_mark, h.counted]
      simpa only [inside, Option.isNone_some, true_and] using (counted x).symm
    · refine List.nodup_append.mpr ⟨h.once, List.pairwise_singleton .., fun j mem k single => ?_⟩
      rw [List.mem_singleton.mp single]
      rintro rfl
      exact unrecorded mem
    · rw [List.mem_append, List.mem_singleton]
      by_cases here : i = j
      · cases here
        exact iff_of_true (.inr rfl) ⟨_, placed, leaving⟩
      · rw [← others j here]
        exact or_iff_left fun last => here last.symm

theorem sound_entered (scope : Nat) : ({ scope } : Barrier).Sound where
  entered := iff_of_true rfl rfl
  finished := nofun
  logged := ⟨rfl, rfl⟩

theorem Kept.enter (h : Kept w) {scope : Nat} (entered : w.tree.enterSettlement scope = .ok tree) :
    Kept { w with tree, barriers := w.barriers ++ [{ scope }] } where
  sound b mem := by
    obtain old | new := List.mem_append.mp mem
    · exact h.sound b old
    · rw [List.mem_singleton.mp new]
      exact sound_entered scope
  counted x := by
    rw [activeAt_enterSettlement entered, h.counted, inside, inside, List.countP_append,
      List.countP_singleton]
    simp [Barrier.active]
  once := h.once
  recorded i := by
    rw [h.recorded, List.getElem?_append]
    split_ifs with old
    · rfl
    · refine iff_of_false ?_ ?_
      · rintro ⟨b, found, -⟩
        exact old (List.getElem?_eq_some_iff.mp found).1
      · rintro ⟨b, found, idle⟩
        rw [List.mem_singleton.mp (List.mem_of_getElem? found)] at idle
        cases idle
  blocked x := by
    have blockers : tree.retryBlockers = w.tree.retryBlockers := by
      obtain ⟨s, -, made⟩ := bind_eq_ok entered
      cases made
      rfl
    rw [blockers, h.blocked]
    constructor
    · rintro ⟨b, mem, here, uncertain⟩
      exact ⟨b, List.mem_append_left _ mem, here, uncertain⟩
    · rintro ⟨b, mem, here, uncertain⟩
      obtain old | new := List.mem_append.mp mem
      · exact ⟨b, old, here, uncertain⟩
      · rw [List.mem_singleton.mp new] at uncertain
        obtain ⟨-, never | never⟩ | ⟨never, -⟩ := uncertain <;> cases never

theorem kept_step (h : Kept w) {a : Action} (stepped : step w a = some w') : Kept w' := by
  cases a with
  | tree action =>
    obtain ⟨other, moved⟩ := Option.ite_none_left_eq_some.mp stepped
    obtain ⟨tree, made, rfl⟩ := Option.map_eq_some_iff.mp moved
    exact h.apart (apart_step made other)
  | enter scope =>
    rw [step] at stepped
    split at stepped
    · rename_i tree entered
      cases stepped
      exact h.enter entered
    · cases stepped
  | barrier i event =>
    obtain ⟨b, found, stepped⟩ := Option.bind_eq_some_iff.mp stepped
    obtain ⟨t, next, made⟩ := Option.bind_eq_some_iff.mp stepped
    cases made
    exact h.take found (follows_next (h.sound b (List.mem_of_getElem? found)) next)

/-- The tree of a root Run, with no barrier entered. -/
def opened (budget : ExecutionBudgetConfig) : World where
  tree := Tree.create budget

theorem kept_opened (budget : ExecutionBudgetConfig) : Kept (opened budget) where
  sound := List.forall_mem_nil _
  counted
    | 0 => rfl
    | _ + 1 => rfl
  once := List.nodup_nil
  recorded i := by
    refine iff_of_false List.not_mem_nil ?_
    rintro ⟨b, found, -⟩
    exact absurd (List.getElem?_nil.symm.trans found) (Option.some_ne_none b).symm
  blocked scope := by
    refine iff_of_false List.not_mem_nil ?_
    rintro ⟨b, mem, -⟩
    exact List.not_mem_nil mem

/-- In every run: a caller that has left its barrier left it with the driver done and without an
underflow; each entry has taken one off the counter of its scope exactly if it has left, so that
the counter is the number of entries still inside; and the scope has a settlement blocker if and only
if one of its settlements neither finished nor was forced, or had its driver interrupted. -/
theorem settlement_barriers {budget : ExecutionBudgetConfig} {actions : List Action}
    (h : run step (opened budget) actions = some w) :
    (∀ b ∈ w.barriers, ∀ seen, b.caller = .left seen →
      seen ≠ .underflow ∧ ∃ result, b.driver = some (.done result)) ∧
    (w.leaves.Nodup ∧ ∀ i b, w.barriers[i]? = some b → (i ∈ w.leaves ↔ b.active = false)) ∧
    (∀ scope, activeAt w.tree scope = inside w scope) ∧
    ∀ scope, settlementBlocker scope ∈ w.tree.retryBlockers ↔
      ∃ b ∈ w.barriers, b.scope = scope ∧ (b.ForceFailed ∨ b.Interrupted ∧ b.active = false) := by
  have kept : Kept w := run_invariant_all (fun _ _ _ inv stepped => kept_step inv stepped)
    (kept_opened budget) h
  refine ⟨fun b mem seen left => ?_, ⟨kept.once, fun i b found => ?_⟩, kept.counted, kept.blocked⟩
  · obtain ⟨proper, done⟩ := (kept.sound b mem).finished seen left
    refine ⟨proper, ?_⟩
    unfold Barrier.isDone at done
    split at done
    · exact ⟨_, ‹_›⟩
    · cases done
  · rw [kept.recorded]
    constructor
    · rintro ⟨_, again, idle⟩
      cases found.symm.trans again
      exact idle
    · exact fun idle => ⟨b, found, idle⟩

/-- A settlement that times out and fails by force, with its caller cancelled before and after. -/
def forcedRun : List Action := [
  .tree (.childTool 0), .enter 1, .barrier 0 (.exit false), .barrier 0 .cancel, .barrier 0 .start,
  .barrier 0 .resume, .barrier 0 (.settled .timedOut false), .barrier 0 .cancel,
  .barrier 0 (.forced .raised false), .barrier 0 .resume]

theorem settlement_barriers_forced :
    ∃ w, run step (opened {}) forcedRun = some w ∧ w.leaves = [0] ∧
      settlementBlocker 1 ∈ w.tree.retryBlockers :=
  ⟨_, rfl, rfl, ((settlement_barriers
    (show run step (opened {}) forcedRun = some _ from rfl)).2.2.2 1).mpr
      ⟨_, List.mem_cons_self, rfl, .inl ⟨by decide, .inr rfl⟩⟩⟩

end RoboAgent.SettlementBarriers
