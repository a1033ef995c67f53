import RoboAgent.SessionCalls

/-! Which thread belongs to which call. A call that saves or reports a save holds the persistence
lock, and a call has a thread of the kind its phase waits for, or none. -/

namespace RoboAgent.SessionThreads
open RoboAgent.Messages RoboAgent.FrozenJson RoboAgent.SessionState RoboAgent.SessionWorld
open RoboAgent.SessionWorld.World RoboAgent.SessionSteps RoboAgent.SessionCalls

def Holds : Phase → Prop
  | .saving _ | .notifying .. => True
  | .parked _ | .locating | .deleting => False

def Matches : Phase → Option Job → Prop
  | .parked _, job | .notifying .., job => job = none
  | .saving _, job => ∃ snapshot expected state, job = some ⟨.save snapshot expected, state⟩
  | .locating, job => ∃ state, job = some ⟨.load, state⟩
  | .deleting, job => ∃ expected state, job = some ⟨.delete expected, state⟩

/-- A thread that succeeded returns what its kind does; a load returns what it finds, at once. -/
def Returns : Job → Prop
  | ⟨.load, .committed⟩ => False
  | ⟨.load, .finished _⟩ => True
  | ⟨kind, .finished (.ok result)⟩ => result = jobResult kind
  | ⟨_, .queued⟩ | ⟨_, .committed⟩ | ⟨_, .finished (.error _)⟩ => True

structure Owned (w : World) : Prop where
  lock : ∀ id call, w.calls id = some call → Holds call.phase → w.lock = some id
  matched : ∀ id call, w.calls id = some call → Matches call.phase (w.jobs id)
  fresh : ∀ id, w.nextCall ≤ id → w.calls id = none ∧ w.jobs id = none
  asks : ∀ id call n, w.calls id = some call → required call.phase = some n →
    n ≤ w.session.runtimeRevision
  returns : ∀ id job, w.jobs id = some job → Returns job

variable {w w' : World} {id : Nat}

theorem Owned.below (h : Owned w) {call : Call} (found : w.calls id = some call) :
    id < w.nextCall := by
  by_contra above
  rw [(h.fresh id (by omega)).1] at found
  cases found

theorem Owned.below_job (h : Owned w) {job : Job} (found : w.jobs id = some job) :
    id < w.nextCall := by
  by_contra above
  rw [(h.fresh id (by omega)).2] at found
  cases found

theorem Owned.frame (h : Owned w) (calls : w'.calls = w.calls) (jobs : w'.jobs = w.jobs)
    (next : w'.nextCall = w.nextCall) (lock : w'.lock = w.lock)
    (revision : w'.session.runtimeRevision = w.session.runtimeRevision) : Owned w' := by
  constructor
  · rw [calls, lock]
    exact h.lock
  · rw [calls, jobs]
    exact h.matched
  · rw [calls, jobs, next]
    exact h.fresh
  · rw [calls, revision]
    exact h.asks
  · rw [jobs]
    exact h.returns

/-- A step of one call and its thread. -/
theorem Owned.update (h : Owned w) {c : Option Call} {j : Option Job}
    (next : w.nextCall ≤ w'.nextCall) (below : id < w'.nextCall) (calls : w'.calls = Function.update w.calls id c)
    (jobs : w'.jobs = Function.update w.jobs id j)
    (revision : w.session.runtimeRevision ≤ w'.session.runtimeRevision)
    (lock : ∀ i, i ≠ id → w.lock = some i → w'.lock = some i)
    (call : ∀ call, c = some call → Matches call.phase j ∧
      (Holds call.phase → w'.lock = some id) ∧
      ∀ n, required call.phase = some n → n ≤ w'.session.runtimeRevision)
    (returns : ∀ job, j = some job → Returns job) : Owned w' := by
  constructor
  · rw [calls]
    exact update_forall (fun i c ne found holds => lock i ne (h.lock i c found holds))
      fun c new => (call c new).2.1
  · intro i c found
    rw [calls] at found
    rw [jobs]
    by_cases same : i = id
    · subst same
      rw [Function.update_self] at found ⊢
      exact (call c found).1
    · rw [Function.update_of_ne same] at found ⊢
      exact h.matched i c found
  · intro i above
    have ne : i ≠ id := by omega
    rw [calls, jobs, Function.update_of_ne ne, Function.update_of_ne ne]
    exact h.fresh i (next.trans above)
  · rw [calls]
    intro i c n
    revert c
    exact update_forall (fun i c _ found asked => (h.asks i c n found asked).trans revision)
      (fun c new => (call c new).2.2 n) i
  · rw [jobs]
    exact update_forall (fun i job _ => h.returns i job) returns

theorem Owned.setJob (h : Owned w) {kind : JobKind} {before : JobState}
    (job : w.jobs id = some ⟨kind, before⟩) (after : JobState) (returns : Returns ⟨kind, after⟩) :
    Owned (w.setJob id (some ⟨kind, after⟩)) := by
  refine h.update le_rfl (h.below_job job) (Function.update_eq_self ..).symm rfl le_rfl
    (fun _ _ held => held)
    (fun call found => ⟨?_, h.lock id call found, fun n => h.asks id call n found⟩)
    fun j new => ?_
  · have matched := h.matched id call found
    rw [job] at matched
    obtain ⟨reply, phase⟩ := call
    cases phase with
    | parked n => cases matched
    | notifying n error => cases matched
    | saving n =>
      obtain ⟨snapshot, expected, state, same⟩ := matched
      cases same
      exact ⟨snapshot, expected, after, rfl⟩
    | locating =>
      obtain ⟨state, same⟩ := matched
      cases same
      exact ⟨after, rfl⟩
    | deleting =>
      obtain ⟨expected, state, same⟩ := matched
      cases same
      exact ⟨expected, after, rfl⟩
  · cases new
    exact returns

theorem returns_error {kind : JobKind} {error : SessionError} :
    Returns ⟨kind, .finished (.error error)⟩ := by
  cases kind <;> trivial

theorem Owned.endCall (h : Owned w) (j : Option Job) (below : id < w.nextCall)
    (same : j = none ∨ j = w.jobs id) : Owned ((w.setJob id j).endCall id) := by
  refine h.update le_rfl below rfl rfl le_rfl ?_ (fun _ absent => nomatch absent) ?_
  · intro i ne held
    simp only [World.endCall, World.setJob, held, Option.some.injEq, if_neg ne]
  · intro job new
    obtain rfl | rfl := same
    · cases new
    · exact h.returns id job new

theorem Owned.ended (h : Owned w) (below : id < w.nextCall) : Owned (w.endCall id) := by
  have ended := h.endCall (w.jobs id) below (.inr rfl)
  rw [World.setJob, Function.update_eq_self] at ended
  exact ended

theorem none_elim {α : Type} {P : α → Prop} (a : α) (absent : none = some a) : P a :=
  absurd absent.symm (Option.some_ne_none a)

theorem stepped_owned {a : Action} (h : Owned w) (stepped : Stepped w a w') : Owned w' := by
  cases stepped with
  | @perform operation x outcome =>
    have entered := enter_spec w operation x
    have spec := outcome_spec outcome
    have revision : w.session.runtimeRevision ≤ x.session.runtimeRevision ∧
        ∀ n, x.required = some n → n ≤ x.session.runtimeRevision := by
      obtain ⟨same, absent | ⟨asked, -⟩⟩ | ⟨next, asked⟩ := spec.moved
      · rw [same, absent]
        exact ⟨le_rfl, none_elim⟩
      · rw [same, asked]
        exact ⟨le_rfl, fun n found => (Option.some.inj found).ge⟩
      · rw [next, asked]
        exact ⟨Nat.le_succ _, fun n found => (Option.some.inj found).ge⟩
    have absent := h.fresh w.nextCall le_rfl
    have jobs : (w.enter operation x).jobs = Function.update w.jobs w.nextCall none := by
      rw [entered.jobs, ← absent.2, Function.update_eq_self]
    have next : (w.enter operation x).nextCall = w.nextCall + 1 := entered.nextCall
    obtain ⟨n, asked, -, calls⟩ | ⟨-, calls, -⟩ := entered.rest
    · refine h.update (by omega) (by omega) calls jobs (entered.session ▸ revision.1)
        (fun i _ held => entered.lock ▸ held) ?_ none_elim
      intro call new
      cases new
      refine ⟨rfl, fun absent => absent.elim, fun m found => ?_⟩
      rw [entered.session]
      exact revision.2 m (asked.trans found)
    · rw [← Function.update_eq_self w.nextCall w.calls, absent.1] at calls
      exact h.update (by omega) (by omega) calls jobs (entered.session ▸ revision.1)
        (fun i _ held => entered.lock ▸ held) none_elim none_elim
  | start started =>
    obtain ⟨-, rfl, -⟩ := start_eq_ok started
    exact h.frame rfl rfl rfl rfl rfl
  | release active => exact h.frame rfl rfl rfl rfl rfl
  | close idle => exact h.frame rfl rfl rfl rfl rfl
  | @deleteKnown revision idle repository durable =>
    refine h.update (Nat.le_succ _) (Nat.lt_succ_self _) rfl rfl le_rfl (fun _ _ held => held) ?_ ?_
    · intro call new
      cases new
      exact ⟨⟨revision, .queued, rfl⟩, fun absent => absent.elim, none_elim⟩
    · intro job new
      cases new
      trivial
  | deleteUnknown idle repository durable =>
    refine h.update (Nat.le_succ _) (Nat.lt_succ_self _) rfl rfl le_rfl (fun _ _ held => held) ?_ ?_
    · intro call new
      cases new
      exact ⟨⟨.queued, rfl⟩, fun absent => absent.elim, none_elim⟩
    · intro job new
      cases new
      trivial
  | skipSave call free known covered =>
    exact (h.ended (h.below call)).frame rfl rfl rfl rfl rfl
  | @beginSave id n reply call free uncovered =>
    refine h.update le_rfl (h.below call) rfl rfl le_rfl ?_ ?_ ?_
    · intro i _ held
      rw [free] at held
      cases held
    · intro c new
      cases new
      exact ⟨⟨_, _, _, rfl⟩, fun _ => rfl, fun m asked => h.asks id _ m call asked⟩
    · intro job new
      cases new
      trivial
  | commitSave job current newer =>
    exact (h.setJob job .committed trivial).frame rfl rfl rfl rfl rfl
  | refuseSave job conflict => exact h.setJob job _ returns_error
  | load job => exact h.setJob job _ trivial
  | commitDelete job current =>
    exact (h.setJob job .committed trivial).frame rfl rfl rfl rfl rfl
  | refuseDelete job stale => exact h.setJob job _ returns_error
  | failJob job => exact h.setJob job _ returns_error
  | @finishJob id kind raises job =>
    apply h.setJob job _
    cases raises with
    | true => exact returns_error
    | false =>
      cases kind with
      | load => trivial
      | save snapshot expected => rfl
      | delete expected => rfl
  | @saved id n revision reply kind call job =>
    refine h.update le_rfl (h.below call) rfl rfl le_rfl (fun _ _ held => held) ?_
      none_elim
    intro c new
    cases new
    exact ⟨rfl, fun _ => h.lock id _ call trivial, fun m asked => h.asks id _ m call asked⟩
  | @saveFailed id n reply kind error call job =>
    refine h.update le_rfl (h.below call) rfl rfl le_rfl (fun _ _ held => held) ?_
      none_elim
    intro c new
    cases new
    exact ⟨rfl, fun _ => h.lock id _ call trivial, fun m asked => h.asks id _ m call asked⟩
  | locatedBusy call job =>
    exact (h.endCall none (h.below call) (.inl rfl)).frame rfl rfl rfl rfl rfl
  | locatedNone call job idle =>
    exact (h.endCall none (h.below call) (.inl rfl)).frame rfl rfl rfl rfl rfl
  | @located id revision reply kind call job idle =>
    refine h.update (j := some ⟨.delete revision, .queued⟩) le_rfl (h.below call) rfl ?_ le_rfl
      (fun _ _ held => held) ?_ ?_
    · simp only [World.setJob, World.setCall, Function.update_idem]
    · intro c new
      cases new
      exact ⟨⟨revision, .queued, rfl⟩, fun absent => absent.elim, none_elim⟩
    · intro job new
      cases new
      trivial
  | deleted call job =>
    exact (h.endCall none (h.below call) (.inl rfl)).frame rfl rfl rfl rfl rfl
  | deleteFailed call deleting job =>
    exact (h.endCall none (h.below call) (.inl rfl)).frame rfl rfl rfl rfl rfl
  | notified call => exact (h.ended (h.below call)).frame rfl rfl rfl rfl rfl
  | notifiedFailure call => exact (h.ended (h.below call)).frame rfl rfl rfl rfl rfl
  | @cancel id dropped call found =>
    obtain same | ⟨-, same⟩ := cancelCall_eq w id dropped
    · rw [same]
      exact (h.ended (h.below found)).frame rfl rfl rfl rfl rfl
    · rw [same]
      exact (h.endCall none (h.below found) (.inl rfl)).frame rfl rfl rfl rfl rfl
  | foreignSave newer => exact h.frame rfl rfl rfl rfl rfl
  | foreignDelete present => exact h.frame rfl rfl rfl rfl rfl

theorem opened_owned (session : Session) (record : Option SessionSnapshot) :
    Owned (opened session record) :=
  ⟨fun _ _ absent => (nomatch absent), fun _ _ absent => (nomatch absent), fun _ _ => ⟨rfl, rfl⟩,
    fun _ _ _ absent => (nomatch absent), fun _ _ absent => nomatch absent⟩

end RoboAgent.SessionThreads
