import Mathlib
import RoboAgent.Messages
import RoboAgent.Runs

/-! Compare-and-swap on a Session record, and the handles that race for one key. Both repositories
decide a save and a delete from the stored revision alone, under a lock. Each committed record gets
a serial number, so two records of equal revision are told apart; no code reads it. -/

namespace RoboAgent.SessionRepository
open RoboAgent.Messages RoboAgent.Runs

/-- _check_cas raises. -/
def casConflict (current expected : Option Nat) (new : Nat) : Bool :=
  current != expected || current.any fun revision => new ≤ revision

/-- The test of a delete raises. -/
def deleteConflict (current : Option Nat) (expected : Nat) : Bool := current != some expected

structure Committed where
  serial : Nat
  snapshot : SessionSnapshot
deriving DecidableEq

def Committed.revision (record : Committed) : Nat := record.snapshot.revision

/-- A Session over the key: its durable revision, and the revision a Session.delete has loaded. The
records these two revisions came from are kept beside them. -/
structure Handle where
  durable : Option Nat := none
  found : Option Nat := none
  durableRecord : Option Committed := none
  foundRecord : Option Committed := none

/-- The revision Session.delete passes to the repository. -/
def Handle.deleteRevision (handle : Handle) : Option Nat := handle.durable.or handle.found

def Handle.deleteRecord (handle : Handle) : Option Committed :=
  handle.durableRecord.or handle.foundRecord

def Handle.expects (handle : Handle) (revision : Nat) : Prop :=
  handle.durable = some revision ∨ handle.found = some revision

structure World where
  stored : Option Committed
  commits : Nat
  handles : Nat → Handle

def World.revision (w : World) : Option Nat := w.stored.map Committed.revision

/-- A call that commits may still raise in its caller, which then does not learn of the commit: the
directory sync fails after the rename, or the awaiting task is cancelled. -/
inductive Action
  | open_ (handle : Nat)
  | save (handle : Nat) (snapshot : SessionSnapshot) (learned : Bool)
  | loadForDelete (handle : Nat)
  | delete (handle : Nat) (learned : Bool)

def setHandle (w : World) (id : Nat) (handle : Handle) : World :=
  { w with handles := Function.update w.handles id handle }

/-- One repository call; a call that raises a conflict changes nothing and is refused. -/
def step (w : World) : Action → Option World
  | .open_ id => w.stored.map fun record => setHandle w id
      { durable := some record.revision, durableRecord := some record }
  | .save id snapshot learned =>
    let handle := w.handles id
    if casConflict w.revision handle.durable snapshot.revision then none
    else
      let record : Committed := ⟨w.commits, snapshot⟩
      let committed := { w with stored := some record, commits := w.commits + 1 }
      some (if learned then setHandle committed id
        { handle with durable := some record.revision, durableRecord := some record }
      else committed)
  | .loadForDelete id => w.stored.map fun record => setHandle w id
      { w.handles id with found := some record.revision, foundRecord := some record }
  | .delete id learned =>
    (w.handles id).deleteRevision.bind fun expected =>
      if deleteConflict w.revision expected then none
      else
        let deleted := { w with stored := none }
        some (if learned then setHandle deleted id {} else deleted)

/-- A save stores no revision that some handle already expects. -/
def storesFreshRevision (w : World) : Action → Prop
  | .save _ snapshot _ => ∀ id, ¬(w.handles id).expects snapshot.revision
  | .open_ _ | .loadForDelete _ | .delete .. => True

/-- A handle's expectation of a revision is one of a record: if it matches the stored revision then
the record it came from is the stored one. -/
def Recognises (stored : Option Committed) (expected : Option Nat) (record : Option Committed) :
    Prop :=
  expected = record.map Committed.revision ∧
    ∀ known, record = some known → stored.map Committed.revision = some known.revision →
      stored = some known

/-- Both expectations of a handle are ones of records. -/
structure Handle.Sighted (stored : Option Committed) (handle : Handle) : Prop where
  durable : Recognises stored handle.durable handle.durableRecord
  found : Recognises stored handle.found handle.foundRecord

def Sighted (w : World) : Prop := ∀ id, (w.handles id).Sighted w.stored

theorem Recognises.self (record : Committed) :
    Recognises (some record) (some record.revision) (some record) :=
  ⟨rfl, fun _ h _ => h⟩

theorem Recognises.absent (stored : Option Committed) : Recognises stored none none :=
  ⟨rfl, nofun⟩

theorem Recognises.deleted {stored record : Option Committed} {expected : Option Nat}
    (h : Recognises stored expected record) : Recognises none expected record :=
  ⟨h.1, fun _ _ same => by cases same⟩

theorem Recognises.replaced {stored record : Option Committed} {expected : Option Nat}
    (h : Recognises stored expected record) {new : Committed} (fresh : expected ≠ some new.revision) :
    Recognises (some new) expected record := by
  refine ⟨h.1, fun known hk same => absurd ?_ fresh⟩
  rw [h.1, hk]
  exact same.symm

/-- An expectation that the stored revision meets, absence included, is one of the stored record. -/
theorem Recognises.eq {stored record : Option Committed} {expected : Option Nat}
    (h : Recognises stored expected record) (met : stored.map Committed.revision = expected) :
    record = stored := by
  rw [h.1] at met
  cases record with
  | none => exact (Option.map_eq_none_iff.mp met).symm
  | some known => exact (h.2 known rfl met).symm

theorem Handle.Sighted.delete_recognises {stored : Option Committed} {handle : Handle}
    (h : handle.Sighted stored) : Recognises stored handle.deleteRevision handle.deleteRecord := by
  have durable := h.durable.1
  cases record : handle.durableRecord with
  | none =>
    rw [record] at durable
    simpa [Handle.deleteRevision, Handle.deleteRecord, durable, record] using h.found
  | some known =>
    rw [record] at durable
    have kept := h.durable
    rw [durable, record] at kept
    simpa [Handle.deleteRevision, Handle.deleteRecord, durable, record] using kept

theorem sighted_setHandle {w : World} (h : Sighted w) {id : Nat} {handle : Handle}
    (new : handle.Sighted w.stored) : Sighted (setHandle w id handle) := by
  intro other
  by_cases same : other = id
  · subst same
    simpa only [setHandle, Function.update_self] using new
  · simpa only [setHandle, Function.update_of_ne same] using h other

/-- A save that the repository accepts finds the stored revision its handle expects. -/
theorem step_save {w w' : World} {id : Nat} {snapshot : SessionSnapshot} {learned : Bool}
    (h : step w (.save id snapshot learned) = some w') :
    w.revision = (w.handles id).durable ∧
      (∀ revision, w.revision = some revision → revision < snapshot.revision) ∧
      w' = (let record : Committed := ⟨w.commits, snapshot⟩
        let committed := { w with stored := some record, commits := w.commits + 1 }
        if learned then setHandle committed id
          { w.handles id with durable := some record.revision, durableRecord := some record }
        else committed) := by
  rw [step] at h
  split at h
  · cases h
  · rename_i accepted
    rw [casConflict, Bool.or_eq_true, not_or, bne_iff_ne, not_not] at accepted
    refine ⟨accepted.1, fun revision current => ?_, (Option.some.inj h).symm⟩
    rw [current, Option.any_some, decide_eq_true_eq] at accepted
    omega

theorem step_delete {w w' : World} {id : Nat} {learned : Bool}
    (h : step w (.delete id learned) = some w') :
    w.revision = (w.handles id).deleteRevision ∧ w.revision ≠ none ∧
      w' = (let deleted := { w with stored := none }
        if learned then setHandle deleted id {} else deleted) := by
  obtain ⟨expected, found, rest⟩ := Option.bind_eq_some_iff.mp h
  split at rest
  · cases rest
  · rename_i accepted
    rw [deleteConflict, bne_iff_ne, not_not] at accepted
    exact ⟨accepted.trans found.symm, by simp [accepted], (Option.some.inj rest).symm⟩

theorem sighted_step (w : World) (a : Action) (w' : World) (sighted : Sighted w)
    (fresh : storesFreshRevision w a) (h : step w a = some w') : Sighted w' := by
  cases a with
  | open_ id =>
    obtain ⟨record, stored, rfl⟩ := Option.map_eq_some_iff.mp h
    refine sighted_setHandle sighted ⟨?_, Recognises.absent _⟩
    rw [stored]
    exact Recognises.self record
  | loadForDelete id =>
    obtain ⟨record, stored, rfl⟩ := Option.map_eq_some_iff.mp h
    refine sighted_setHandle sighted ⟨(sighted id).durable, ?_⟩
    rw [stored]
    exact Recognises.self record
  | save id snapshot learned =>
    obtain ⟨-, -, rfl⟩ := step_save h
    have others : Sighted { w with
        stored := some ⟨w.commits, snapshot⟩, commits := w.commits + 1 } := fun other =>
      ⟨(sighted other).durable.replaced fun h => fresh other (.inl h),
        (sighted other).found.replaced fun h => fresh other (.inr h)⟩
    cases learned with
    | false => exact others
    | true => exact sighted_setHandle others ⟨Recognises.self _, (others id).found⟩
  | delete id learned =>
    obtain ⟨-, -, rfl⟩ := step_delete h
    have others : Sighted { w with stored := none } := fun other =>
      ⟨(sighted other).durable.deleted, (sighted other).found.deleted⟩
    cases learned with
    | false => exact others
    | true => exact sighted_setHandle others ⟨Recognises.absent _, Recognises.absent _⟩

/-- No writer overwrites or removes a record it never saw. -/
def NeverBlind (w : World) : Prop :=
  ∀ id, (∀ snapshot learned w', step w (.save id snapshot learned) = some w' →
      (w.handles id).durableRecord = w.stored) ∧
    ∀ learned w', step w (.delete id learned) = some w' → (w.handles id).deleteRecord = w.stored

theorem neverBlind_of_sighted {w : World} (h : Sighted w) : NeverBlind w := fun id =>
  ⟨fun _ _ _ saved => (h id).durable.eq (step_save saved).1,
    fun _ _ deleted => (h id).delete_recognises.eq (step_delete deleted).1⟩

/-- A key with any record, and handles that have loaded nothing. -/
def initial (stored : Option SessionSnapshot) : World where
  stored := stored.map (Committed.mk 0)
  commits := 1
  handles _ := {}

theorem sighted_initial (stored : Option SessionSnapshot) : Sighted (initial stored) := fun _ =>
  ⟨Recognises.absent _, Recognises.absent _⟩

/-- No update is lost in any run whose saves store no revision that some handle still expects. -/
theorem neverBlind_run (stored : Option SessionSnapshot) (actions : List Action) (w : World)
    (along : Along step storesFreshRevision (initial stored) actions)
    (h : run step (initial stored) actions = some w) : NeverBlind w :=
  neverBlind_of_sighted (run_invariant sighted_step (sighted_initial stored) along h)

/-- A Session snapshot with nothing in it but its revision. -/
def emptySnapshot (revision : Nat) : SessionSnapshot where
  schemaVersion := 2
  sessionId := "session"
  revision
  lastPendingSequence := 0
  messages := []
  pending := []
  compaction := none
  metadata := ⟨[], FrozenJson.wellFormed_empty⟩

theorem neverBlind_two_writers :
    ∃ w, run step (initial none) [.save 0 (emptySnapshot 1) true, .open_ 1] = some w ∧
      NeverBlind w :=
  ⟨_, rfl, neverBlind_run none [.save 0 (emptySnapshot 1) true, .open_ 1] _
    ⟨fun _ => by simp [Handle.expects, initial], fun _ _ => ⟨trivial, fun _ _ => trivial⟩⟩ rfl⟩

/-- The key is deleted and created again, and the new record reaches the revision that a handle of
the deleted one still expects: that handle overwrites the new record. -/
theorem recreated_record_overwritten :
    ∃ w w', run step (initial none) [.save 0 (emptySnapshot 1) true, .open_ 1, .delete 0 true,
        .save 2 (emptySnapshot 1) true] = some w ∧
      step w (.save 1 (emptySnapshot 2) true) = some w' ∧
      (w.handles 1).durableRecord ≠ w.stored ∧ ¬NeverBlind w := by
  refine ⟨_, _, rfl, rfl, by decide, fun sighted => ?_⟩
  exact absurd ((sighted 1).1 (emptySnapshot 2) true _ rfl) (by decide)

/-- Without a delete every expectation is at most the stored revision, which only grows. -/
def Current (w : World) : Prop :=
  ∀ id revision, (w.handles id).expects revision →
    ∃ current, w.revision = some current ∧ revision ≤ current

def keepsKey : Action → Prop
  | .delete .. => False
  | .open_ _ | .save .. | .loadForDelete _ => True

theorem current_setHandle {w : World} (current : Current w) {id : Nat} {handle : Handle}
    (new : ∀ revision, handle.expects revision →
      ∃ current, w.revision = some current ∧ revision ≤ current) :
    Current (setHandle w id handle) := by
  intro other revision h
  by_cases same : other = id
  · subst same
    exact new revision (by simpa only [setHandle, Function.update_self] using h)
  · exact current other revision (by simpa only [setHandle, Function.update_of_ne same] using h)

theorem fresh_of_current {w w' : World} {id : Nat} {snapshot : SessionSnapshot} {learned : Bool}
    (current : Current w) (h : step w (.save id snapshot learned) = some w') (other : Nat) :
    ¬(w.handles other).expects snapshot.revision := by
  intro expects
  obtain ⟨revision, stored, le⟩ := current other _ expects
  have := (step_save h).2.1 revision stored
  omega

theorem current_step (w : World) (a : Action) (w' : World) (current : Current w)
    (kept : keepsKey a) (h : step w a = some w') : Current w' := by
  cases a with
  | open_ id =>
    obtain ⟨record, stored, rfl⟩ := Option.map_eq_some_iff.mp h
    refine current_setHandle current fun revision expects => ?_
    refine ⟨record.revision, by rw [World.revision, stored, Option.map_some], ?_⟩
    rcases expects with expects | expects
    · exact Nat.le_of_eq (Option.some.inj expects).symm
    · cases expects
  | loadForDelete id =>
    obtain ⟨record, stored, rfl⟩ := Option.map_eq_some_iff.mp h
    refine current_setHandle current fun revision expects => ?_
    rcases expects with expects | expects
    · exact current id revision (.inl expects)
    · exact ⟨record.revision, by rw [World.revision, stored, Option.map_some],
        Nat.le_of_eq (Option.some.inj expects).symm⟩
  | save id snapshot learned =>
    obtain ⟨-, larger, rfl⟩ := step_save h
    have others : Current { w with
        stored := some ⟨w.commits, snapshot⟩, commits := w.commits + 1 } := by
      intro other revision expects
      obtain ⟨old, stored, le⟩ := current other revision expects
      exact ⟨snapshot.revision, rfl, Nat.le_of_lt (Nat.lt_of_le_of_lt le (larger old stored))⟩
    cases learned with
    | false => exact others
    | true =>
      refine current_setHandle others fun revision expects => ?_
      rcases expects with expects | expects
      · exact ⟨snapshot.revision, rfl, Nat.le_of_eq (Option.some.inj expects).symm⟩
      · exact others id revision (.inr expects)
  | delete id learned => exact kept.elim

/-- While nobody deletes the key, no update is lost. -/
theorem neverBlind_without_delete (stored : Option SessionSnapshot) (actions : List Action)
    (w : World) (along : Along step (fun _ a => keepsKey a) (initial stored) actions)
    (h : run step (initial stored) actions = some w) : NeverBlind w := by
  have start : Sighted (initial stored) ∧ Current (initial stored) :=
    ⟨sighted_initial stored, fun _ _ expects => by rcases expects with h | h <;> cases h⟩
  refine neverBlind_of_sighted
    (run_invariant (I := fun w => Sighted w ∧ Current w) ?_ start along h).1
  intro w a w' ⟨sighted, current⟩ kept moved
  refine ⟨sighted_step w a w' sighted ?_ moved, current_step w a w' current kept moved⟩
  cases a with
  | save id snapshot learned => exact fresh_of_current current moved
  | open_ | loadForDelete => trivial
  | delete => exact kept.elim

end RoboAgent.SessionRepository
