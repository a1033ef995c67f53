import RoboAgent.SessionThreads

/-! A deleted Session. Its delete empties the key, or finds it empty, and then returns; the record
stays away if no save of the handle is on its way at that moment and none begins afterwards. The
code does not see to either. -/

namespace RoboAgent.SessionDeletion
open RoboAgent.Messages RoboAgent.FrozenJson RoboAgent.SessionState RoboAgent.SessionWorld
open RoboAgent.SessionWorld.World RoboAgent.SessionSteps RoboAgent.SessionCalls
open RoboAgent.SessionThreads RoboAgent.Runs
open RoboAgent.SessionRepository (casConflict deleteConflict)

/-- A delete in flight whose thread has found the key empty or emptied it. -/
def Emptied (w : World) (id : Nat) : Prop :=
  (∃ reply, w.calls id = some ⟨reply, .locating⟩ ∧
    w.jobs id = some ⟨.load, .finished (.ok none)⟩) ∨
  ∃ reply expected, w.calls id = some ⟨reply, .deleting⟩ ∧
    (w.jobs id = some ⟨.delete expected, .committed⟩ ∨
      ∃ result, w.jobs id = some ⟨.delete expected, .finished (.ok result)⟩)

/-- From here on the key is to stay empty. -/
def Gone (w : World) : Prop := w.deleted = true ∨ ∃ id, Emptied w id

/-- No thread of the handle is about to store a snapshot. -/
def NoneQueued (w : World) : Prop :=
  ∀ id snapshot expected, w.jobs id ≠ some ⟨.save snapshot expected, .queued⟩

/-- No save begins once the key is to stay empty, and none is on its way when that begins. -/
def Undisturbed (w : World) : Action → Prop
  | .beginSave _ => ¬Gone w
  | .commitJob id =>
    match w.jobs id with
    | some ⟨.load, _⟩ => w.record = none → NoneQueued w
    | some ⟨.delete expected, _⟩ => w.recordRevision = some expected → NoneQueued w
    | some ⟨.save .., _⟩ | none => True
  | .perform _ | .start .. | .release | .close | .delete | .skipSave _ | .failJob .. | .finishJob ..
  | .resume _ | .notify .. | .cancel .. | .foreignSave _ | .foreignDelete => True

structure StaysDeleted (w : World) : Prop where
  owned : Owned w
  queued : Gone w → NoneQueued w
  absent : Gone w → w.record = none ∨ w.foreign = true

variable {w w' : World}

/-- A step that stores nothing and starts no save. -/
theorem StaysDeleted.frame (h : StaysDeleted w) (owned : Owned w') (gone : Gone w' → Gone w)
    (queued : ∀ id snapshot expected, w'.jobs id = some ⟨.save snapshot expected, .queued⟩ →
      w.jobs id = some ⟨.save snapshot expected, .queued⟩)
    (record : w'.record = w.record) (foreign : w'.foreign = w.foreign) : StaysDeleted w' := by
  refine ⟨owned, fun g id snapshot expected job => ?_, fun g => ?_⟩
  · exact h.queued (gone g) id snapshot expected (queued id snapshot expected job)
  · rw [record, foreign]
    exact h.absent (gone g)

/-- The delete of one call may be over, or its thread no longer past its commit point; those of the
others are as they were. -/
theorem gone_of (g : Gone w') (id : Nat) (deleted : w'.deleted = true → Gone w)
    (calls : ∀ i, i ≠ id → w'.calls i = w.calls i) (jobs : ∀ i, i ≠ id → w'.jobs i = w.jobs i)
    (this : Emptied w' id → Gone w) : Gone w := by
  obtain ended | ⟨i, emptied⟩ := g
  · exact deleted ended
  · by_cases same : i = id
    · exact this (same ▸ emptied)
    · rw [Emptied, calls i same, jobs i same] at emptied
      exact .inr ⟨i, emptied⟩

/-- One call and its thread move, and are not a delete that is over. -/
theorem StaysDeleted.moved (h : StaysDeleted w) (owned : Owned w') (id : Nat)
    (calls : ∀ i, i ≠ id → w'.calls i = w.calls i) (jobs : ∀ i, i ≠ id → w'.jobs i = w.jobs i)
    (this : Emptied w' id → Gone w)
    (quiet : ∀ snapshot expected, w'.jobs id = some ⟨.save snapshot expected, .queued⟩ →
      w.jobs id = some ⟨.save snapshot expected, .queued⟩)
    (deleted : w'.deleted = true → Gone w) (record : w'.record = w.record)
    (foreign : w'.foreign = w.foreign) : StaysDeleted w' := by
  refine h.frame owned (fun g => gone_of g id deleted calls jobs this) ?_ record foreign
  intro i snapshot expected job
  by_cases same : i = id
  · subst same
    exact quiet snapshot expected job
  · rw [jobs i same] at job
    exact job

theorem not_emptied_of_calls {id : Nat} (h : ∀ reply, w.calls id ≠ some ⟨reply, .locating⟩ ∧
    w.calls id ≠ some ⟨reply, .deleting⟩) : ¬Emptied w id := by
  intro emptied
  obtain ⟨reply, call, -⟩ | ⟨reply, expected, call, -⟩ := emptied
  · exact (h reply).1 call
  · exact (h reply).2 call

theorem not_emptied_of_job {id : Nat} (h : w.jobs id ≠ some ⟨.load, .finished (.ok none)⟩ ∧
    ∀ expected, w.jobs id ≠ some ⟨.delete expected, .committed⟩ ∧
      ∀ result, w.jobs id ≠ some ⟨.delete expected, .finished (.ok result)⟩) : ¬Emptied w id := by
  intro emptied
  obtain ⟨reply, -, job⟩ | ⟨reply, expected, -, job | ⟨result, job⟩⟩ := emptied
  · exact h.1 job
  · exact (h.2 expected).1 job
  · exact (h.2 expected).2 result job

/-- A thread ends without a commit. -/
theorem StaysDeleted.settle (h : StaysDeleted w) {id : Nat} {kind : JobKind} {error : SessionError}
    (owned : Owned (w.setJob id (some ⟨kind, .finished (.error error)⟩))) :
    StaysDeleted (w.setJob id (some ⟨kind, .finished (.error error)⟩)) := by
  have job : (w.setJob id (some ⟨kind, .finished (.error error)⟩)).jobs id =
    some ⟨kind, .finished (.error error)⟩ := Function.update_self ..
  refine h.moved owned id (fun _ _ => rfl) (fun i ne => Function.update_of_ne ne ..) ?_ ?_
    .inl rfl rfl
  · intro emptied
    refine absurd emptied (not_emptied_of_job ?_)
    rw [job]
    exact ⟨nofun, fun _ => ⟨nofun, nofun⟩⟩
  · intro snapshot expected queued
    rw [job] at queued
    cases queued

/-- A call ends, whose thread may go on. -/
theorem StaysDeleted.ended (h : StaysDeleted w) (owned : Owned w') (id : Nat)
    (calls : w'.calls = Function.update w.calls id none)
    (jobs : w'.jobs = w.jobs ∨ w'.jobs = Function.update w.jobs id none)
    (deleted : w'.deleted = true → Gone w) (record : w'.record = w.record)
    (foreign : w'.foreign = w.foreign) : StaysDeleted w' := by
  refine h.moved owned id (fun i ne => by rw [calls, Function.update_of_ne ne]) ?_ ?_ ?_ deleted
    record foreign
  · intro i ne
    obtain same | same := jobs
    · rw [same]
    · rw [same, Function.update_of_ne ne]
  · intro emptied
    refine absurd emptied (not_emptied_of_calls ?_)
    rw [calls, Function.update_self]
    exact fun _ => ⟨nofun, nofun⟩
  · intro snapshot expected queued
    obtain same | same := jobs
    · exact same ▸ queued
    · rw [same, Function.update_self] at queued
      cases queued

/-- A thread of a delete leaves the key empty, and no save is on its way. -/
theorem StaysDeleted.empty (owned : Owned w') {id : Nat} (noneQueued : NoneQueued w)
    (jobs : ∀ i, i ≠ id → w'.jobs i = w.jobs i)
    (quiet : ∀ snapshot expected, w'.jobs id ≠ some ⟨.save snapshot expected, .queued⟩)
    (record : w'.record = none) : StaysDeleted w' := by
  refine ⟨owned, fun _ i snapshot expected job => ?_, fun _ => .inl record⟩
  by_cases same : i = id
  · exact quiet snapshot expected (same ▸ job)
  · exact noneQueued i snapshot expected (jobs i same ▸ job)

theorem stepped_staysDeleted {a : Action} (h : StaysDeleted w) (condition : Undisturbed w a)
    (stepped : Stepped w a w') : StaysDeleted w' := by
  have owned := stepped_owned h.owned stepped
  cases stepped with
  | @perform operation x outcome =>
    have entered := enter_spec w operation x
    have absent := h.owned.fresh w.nextCall le_rfl
    refine h.moved owned w.nextCall ?_ (fun i _ => by rw [entered.jobs]) ?_ ?_
      (fun ended => .inl (entered.deleted ▸ ended)) entered.record entered.foreign
    · intro i ne
      obtain ⟨m, -, -, calls⟩ | ⟨-, calls, -⟩ := entered.rest
      · rw [calls, Function.update_of_ne ne]
      · rw [calls]
    · intro emptied
      refine absurd emptied (not_emptied_of_job ?_)
      rw [entered.jobs, absent.2]
      exact ⟨by rintro ⟨⟩, fun _ => ⟨by rintro ⟨⟩, by rintro _ ⟨⟩⟩⟩
    · intro snapshot expected queued
      exact entered.jobs ▸ queued
  | start started =>
    obtain ⟨-, rfl, -⟩ := start_eq_ok started
    exact ⟨owned, h.queued, h.absent⟩
  | release active => exact ⟨owned, h.queued, h.absent⟩
  | close idle => exact ⟨owned, h.queued, h.absent⟩
  | @deleteKnown revision idle repository durable =>
    refine h.moved owned w.nextCall (fun i ne => Function.update_of_ne ne ..)
      (fun i ne => Function.update_of_ne ne ..) ?_ ?_ .inl rfl rfl
    · intro emptied
      refine absurd emptied (not_emptied_of_job ?_)
      simp only [World.setJob, Function.update_self]
      exact ⟨by rintro ⟨⟩, fun _ => ⟨by rintro ⟨⟩, by rintro _ ⟨⟩⟩⟩
    · intro snapshot expected queued
      simp only [World.setJob, Function.update_self] at queued
      cases queued
  | deleteUnknown idle repository durable =>
    refine h.moved owned w.nextCall (fun i ne => Function.update_of_ne ne ..)
      (fun i ne => Function.update_of_ne ne ..) ?_ ?_ .inl rfl rfl
    · intro emptied
      refine absurd emptied (not_emptied_of_job ?_)
      simp only [World.setJob, Function.update_self]
      exact ⟨by rintro ⟨⟩, fun _ => ⟨by rintro ⟨⟩, by rintro _ ⟨⟩⟩⟩
    · intro snapshot expected queued
      simp only [World.setJob, Function.update_self] at queued
      cases queued
  | skipSave call free known covered => exact h.ended owned _ rfl (.inl rfl) .inl rfl rfl
  | @beginSave id n reply call free uncovered =>
    have gone : Gone (w.beginSave id reply n) → Gone w := by
      intro g
      refine gone_of g id .inl ?_ ?_ ?_
      · exact fun i ne => Function.update_of_ne ne ..
      · exact fun i ne => Function.update_of_ne ne ..
      · intro emptied
        refine absurd emptied (not_emptied_of_calls ?_)
        simp only [World.beginSave, World.setJob, World.setCall, Function.update_self]
        exact fun _ => ⟨by rintro ⟨⟩, by rintro ⟨⟩⟩
    exact ⟨owned, fun g => absurd (gone g) condition, fun g => absurd (gone g) condition⟩
  | @commitSave id snapshot expected job current newer =>
    have gone : ¬Gone { w.setJob id (some ⟨.save snapshot expected, .committed⟩) with
        record := some snapshot, stored := w.stored ++ [snapshot], foreign := false } := by
      intro g
      have gone : Gone w := by
        refine gone_of g id .inl ?_ ?_ ?_
        · exact fun i ne => rfl
        · exact fun i ne => Function.update_of_ne ne ..
        · intro emptied
          refine absurd emptied (not_emptied_of_job ?_)
          simp only [World.setJob, Function.update_self]
          exact ⟨by rintro ⟨⟩, fun _ => ⟨by rintro ⟨⟩, by rintro _ ⟨⟩⟩⟩
      exact h.queued gone id snapshot expected job
    exact ⟨owned, fun g => absurd g gone, fun g => absurd g gone⟩
  | refuseSave job conflict => exact h.settle owned
  | @load id job =>
    simp only [Undisturbed, job] at condition
    have loaded : (w.setJob id (some ⟨.load, .finished (.ok w.recordRevision)⟩)).jobs id =
      some ⟨.load, .finished (.ok w.recordRevision)⟩ := Function.update_self ..
    have quiet : ∀ snapshot expected, (w.setJob id (some ⟨.load, .finished
        (.ok w.recordRevision)⟩)).jobs id ≠ some ⟨.save snapshot expected, .queued⟩ := by
      rw [loaded]
      rintro _ _ ⟨⟩
    cases empty : w.record with
    | none =>
      exact .empty owned (condition empty) (fun i ne => Function.update_of_ne ne ..) quiet empty
    | some record =>
      refine h.moved owned id (fun _ _ => rfl) (fun i ne => Function.update_of_ne ne ..) ?_
        (fun snapshot expected queued => absurd queued (quiet snapshot expected)) .inl rfl rfl
      intro emptied
      refine absurd emptied (not_emptied_of_job ?_)
      rw [loaded, World.recordRevision, empty]
      exact ⟨by rintro ⟨⟩, fun _ => ⟨by rintro ⟨⟩, by rintro _ ⟨⟩⟩⟩
  | @commitDelete id expected job current =>
    simp only [Undisturbed, job] at condition
    refine .empty owned (condition current) (fun i ne => Function.update_of_ne ne ..) ?_ rfl
    simp only [World.setJob, Function.update_self]
    rintro _ _ ⟨⟩
  | refuseDelete job stale => exact h.settle owned
  | failJob job => exact h.settle owned
  | @finishJob id kind raises job =>
    cases raises with
    | true => exact h.settle owned
    | false =>
      refine h.moved owned id (fun _ _ => rfl) (fun i ne => Function.update_of_ne ne ..) ?_ ?_
        .inl rfl rfl
      · intro emptied
        obtain ⟨reply, call, found⟩ | ⟨reply, expected, call, found | ⟨result, found⟩⟩ := emptied
        · simp only [World.setJob, Function.update_self] at found
          cases found
          exact (h.owned.returns id _ job).elim
        · simp only [World.setJob, Function.update_self] at found
          cases found
        · simp only [World.setJob, Function.update_self] at found
          cases found
          exact .inr ⟨id, .inr ⟨reply, expected, call, .inl job⟩⟩
      · intro snapshot expected queued
        simp only [World.setJob, Function.update_self] at queued
        cases queued
  | @saved id n revision reply kind call job =>
    refine h.moved owned id ?_ (fun i ne => Function.update_of_ne ne ..) ?_ ?_ .inl rfl rfl
    · exact fun i ne => Function.update_of_ne ne ..
    · intro emptied
      refine absurd emptied (not_emptied_of_calls ?_)
      simp only [World.setCall, Function.update_self]
      exact fun _ => ⟨by rintro ⟨⟩, by rintro ⟨⟩⟩
    · intro snapshot expected queued
      simp only [World.setCall, World.setJob, Function.update_self] at queued
      cases queued
  | @saveFailed id n reply kind error call job =>
    refine h.moved owned id ?_ (fun i ne => Function.update_of_ne ne ..) ?_ ?_ .inl rfl rfl
    · exact fun i ne => Function.update_of_ne ne ..
    · intro emptied
      refine absurd emptied (not_emptied_of_calls ?_)
      simp only [World.setCall, Function.update_self]
      exact fun _ => ⟨by rintro ⟨⟩, by rintro ⟨⟩⟩
    · intro snapshot expected queued
      simp only [World.setCall, World.setJob, Function.update_self] at queued
      cases queued
  | locatedBusy call job => exact h.ended owned _ rfl (.inr rfl) .inl rfl rfl
  | @locatedNone id reply kind call job idle =>
    obtain ⟨state, same⟩ := h.owned.matched id _ call
    cases job.symm.trans same
    exact h.ended owned _ rfl (.inr rfl) (fun _ => .inr ⟨id, .inl ⟨reply, call, job⟩⟩) rfl rfl
  | @located id revision reply kind call job idle =>
    refine h.moved owned id (fun i ne => Function.update_of_ne ne ..) ?_ ?_ ?_ .inl rfl rfl
    · intro i ne
      simp only [World.setJob, World.setCall, Function.update_of_ne ne]
    · intro emptied
      refine absurd emptied (not_emptied_of_job ?_)
      simp only [World.setJob, Function.update_self]
      exact ⟨by rintro ⟨⟩, fun _ => ⟨by rintro ⟨⟩, by rintro _ ⟨⟩⟩⟩
    · intro snapshot expected queued
      simp only [World.setJob, Function.update_self] at queued
      cases queued
  | @deleted id reply kind found call job =>
    obtain ⟨expected, state, same⟩ := h.owned.matched id _ call
    cases job.symm.trans same
    exact h.ended owned _ rfl (.inr rfl)
      (fun _ => .inr ⟨id, .inr ⟨reply, expected, call, .inr ⟨found, job⟩⟩⟩) rfl rfl
  | deleteFailed call deleting job => exact h.ended owned _ rfl (.inr rfl) .inl rfl rfl
  | notified call => exact h.ended owned _ rfl (.inl rfl) .inl rfl rfl
  | notifiedFailure call => exact h.ended owned _ rfl (.inl rfl) .inl rfl rfl
  | @cancel id dropped call found =>
    obtain same | ⟨-, same⟩ := cancelCall_eq w id dropped
    · exact h.ended owned id (by rw [same]; rfl) (.inl (by rw [same]; rfl))
        (fun ended => .inl (by rw [same] at ended; exact ended)) (by rw [same]; rfl) (by rw [same]; rfl)
    · exact h.ended owned id (by rw [same]; rfl) (.inr (by rw [same]; rfl))
        (fun ended => .inl (by rw [same] at ended; exact ended)) (by rw [same]; rfl) (by rw [same]; rfl)
  | foreignSave newer => exact ⟨owned, h.queued, fun _ => .inr rfl⟩
  | foreignDelete present => exact ⟨owned, h.queued, fun _ => .inl rfl⟩

/-- Once a delete has returned the key holds nothing but what another handle stored. -/
theorem deleted_stays_deleted {session : Session} {record : Option SessionSnapshot}
    {actions : List Action} (along : Along step Undisturbed (opened session record) actions)
    (h : run step (opened session record) actions = some w) (deleted : w.deleted = true) :
    w.record = none ∨ w.foreign = true := by
  have start : StaysDeleted (opened session record) := by
    have gone : ¬Gone (opened session record) := by
      intro g
      obtain ended | ⟨id, ⟨_, call, _⟩ | ⟨_, _, call, _⟩⟩ := g
      · cases ended
      · cases call
      · cases call
    exact ⟨opened_owned session record, fun g => absurd g gone, fun g => absurd g gone⟩
  exact (run_invariant (fun _ _ _ inv condition h => stepped_staysDeleted inv condition (stepped h))
    start along h).absent (.inl deleted)

/-- A Session whose one revision is stored. -/
def savedSession : Session := { newSession with runtimeRevision := 1, durableRevision := some 1 }

def deleteRun : List Action := [.delete, .commitJob 0, .finishJob 0 false, .resume 0]

theorem deleted_stays_deleted_alone :
    ∃ w, run step (opened savedSession (some savedSession.snapshot)) deleteRun = some w ∧
      w.deleted = true ∧ (w.record = none ∨ w.foreign = true) := by
  have along : Along step Undisturbed (opened savedSession (some savedSession.snapshot))
      deleteRun := by
    refine ⟨trivial, fun w h => ?_⟩
    cases h
    refine ⟨fun _ id snapshot expected job => ?_, fun w h => ?_⟩
    · cases id with
      | zero => cases job
      | succ id => cases job
    · cases h
      exact ⟨trivial, fun w h => by cases h; exact ⟨trivial, fun _ _ => trivial⟩⟩
  exact ⟨_, rfl, rfl, deleted_stays_deleted along rfl rfl⟩

/-- The delete has returned; a persist then finds no durable revision, which permits creation, and
stores the Session again. -/
theorem persist_recreates_deleted :
    ∃ w w', run step (opened savedSession (some savedSession.snapshot)) deleteRun = some w ∧
      w.deleted = true ∧ w.record = none ∧
      run step w [.perform .persist, .beginSave 1, .commitJob 1] = some w' ∧
      w'.deleted = true ∧ ¬(w'.record = none ∨ w'.foreign = true) :=
  ⟨_, _, rfl, rfl, rfl, rfl, rfl, by decide⟩

end RoboAgent.SessionDeletion
