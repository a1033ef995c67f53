import RoboAgent.SessionThreads

/-! A handle that is alone on its key. As long as no thread's commit is lost on its call, the
durable revision is the stored one whenever no commit is still to be seen, and no save of the
handle is refused. -/

namespace RoboAgent.SessionSoleOwner
open RoboAgent.Messages RoboAgent.FrozenJson RoboAgent.SessionState RoboAgent.SessionWorld
open RoboAgent.SessionWorld.World RoboAgent.SessionSteps RoboAgent.SessionCalls
open RoboAgent.SessionThreads RoboAgent.Runs
open RoboAgent.SessionRepository (casConflict deleteConflict)

def UnseenJob (kind : JobKind) (job : Option Job) : Prop :=
  kind ≠ .load ∧ (job = some ⟨kind, .committed⟩ ∨ ∃ r, job = some ⟨kind, .finished (.ok r)⟩)

/-- A save or delete past its commit point, whose call has not seen the result. -/
def Unseen (w : World) (id : Nat) (kind : JobKind) : Prop := UnseenJob kind (w.jobs id)

def Live (w : World) (id : Nat) : Prop := ∃ call, w.calls id = some call

def Saving (w : World) (id : Nat) : Prop := ∃ reply n, w.calls id = some ⟨reply, .saving n⟩

/-- The steps after which the handle still knows what is stored: a thread commits only while its
call waits for it and does not raise after its commit point, the call is not cancelled after it,
and a delete neither commits while a save is in flight nor has one begin before it is seen. -/
def Undisturbed (w : World) : Action → Prop
  | .commitJob id =>
    match w.jobs id with
    | some ⟨.save snapshot expected, _⟩ =>
      casConflict w.recordRevision expected snapshot.revision = true ∨ Live w id
    | some ⟨.delete expected, _⟩ =>
      deleteConflict w.recordRevision expected = true ∨ Live w id ∧ ∀ i, ¬Saving w i
    | some ⟨.load, _⟩ | none => True
  | .finishJob _ raises => raises = false
  | .cancel id _ => ∀ kind, ¬Unseen w id kind
  | .beginSave _ => ∀ id expected, ¬Unseen w id (.delete expected)
  | .foreignSave _ | .foreignDelete => False
  | .perform _ | .start .. | .release | .close | .delete | .skipSave _ | .failJob .. | .resume _
  | .notify .. => True

structure Synced (w : World) : Prop where
  owned : Owned w
  live : ∀ id kind, Unseen w id kind → Live w id
  stored : ∀ id kind, Unseen w id kind → w.recordRevision = jobResult kind
  once : ∀ i j first second, Unseen w i first → Unseen w j second → i = j
  apart : ∀ i j expected, Saving w i → ¬Unseen w j (.delete expected)
  queued : ∀ id snapshot expected, Saving w id →
    w.jobs id = some ⟨.save snapshot expected, .queued⟩ →
    expected = w.session.durableRevision ∧
      ∀ durable, w.session.durableRevision = some durable → durable < snapshot.revision
  synced : (∀ id kind, ¬Unseen w id kind) → w.session.durableRevision = w.recordRevision

variable {w w' : World} {id : Nat}

theorem not_unseen_none {kind : JobKind} : ¬UnseenJob kind none := by
  intro ⟨_, h⟩
  obtain h | ⟨_, h⟩ := h <;> cases h

theorem not_unseen_queued {kind other : JobKind} : ¬UnseenJob kind (some ⟨other, .queued⟩) := by
  intro ⟨_, h⟩
  obtain h | ⟨_, h⟩ := h <;> cases h

theorem not_unseen_error {kind other : JobKind} {error : SessionError} :
    ¬UnseenJob kind (some ⟨other, .finished (.error error)⟩) := by
  intro ⟨_, h⟩
  obtain h | ⟨_, h⟩ := h <;> cases h

theorem not_unseen_load {kind : JobKind} {state : JobState} :
    ¬UnseenJob kind (some ⟨.load, state⟩) := by
  intro ⟨other, h⟩
  obtain h | ⟨_, h⟩ := h <;> cases h <;> exact other rfl

/-- The phase of a call whose thread saves. -/
theorem saving_of_job (h : Owned w) {snapshot : SessionSnapshot} {expected : Option Nat}
    {state : JobState} (live : Live w id) (job : w.jobs id = some ⟨.save snapshot expected, state⟩) :
    Saving w id := by
  obtain ⟨⟨reply, phase⟩, found⟩ := live
  have matched := h.matched id _ found
  rw [job] at matched
  cases phase with
  | saving n => exact ⟨reply, n, found⟩
  | parked n => cases matched
  | notifying n error => cases matched
  | locating =>
    obtain ⟨state, same⟩ := matched
    cases same
  | deleting =>
    obtain ⟨expected, state, same⟩ := matched
    cases same

theorem saving_unique (h : Owned w) {i j : Nat} (first : Saving w i) (second : Saving w j) :
    i = j := by
  obtain ⟨_, _, first⟩ := first
  obtain ⟨_, _, second⟩ := second
  exact Option.some.inj ((h.lock i _ first trivial).symm.trans (h.lock j _ second trivial))

theorem saving_of_unseen (h : Synced w) {snapshot : SessionSnapshot} {expected : Option Nat}
    (unseen : Unseen w id (.save snapshot expected)) : Saving w id := by
  have live := h.live id _ unseen
  obtain ⟨-, job | ⟨r, job⟩⟩ := unseen
  · exact saving_of_job h.owned live job
  · exact saving_of_job h.owned live job

/-- While a live save has not reached its commit point, every commit has been seen. -/
theorem none_unseen (h : Synced w) {kind : JobKind} (saving : Saving w id)
    (job : w.jobs id = some ⟨kind, .queued⟩) : ∀ i other, ¬Unseen w i other := by
  intro i other unseen
  cases other with
  | load => exact unseen.1 rfl
  | delete expected => exact h.apart id i expected saving unseen
  | save snapshot expected =>
    have same := saving_unique h.owned (saving_of_unseen h unseen) saving
    rw [Unseen, same, job] at unseen
    exact not_unseen_queued unseen

/-- A step of one call and its thread that leaves both revisions and every commit alone. -/
theorem Synced.frame (h : Synced w) (owned : Owned w') (id : Nat)
    (jobs : ∀ i, i ≠ id → w'.jobs i = w.jobs i) (calls : ∀ i, i ≠ id → w'.calls i = w.calls i)
    (quiet : ∀ kind, UnseenJob kind (w'.jobs id) ↔ UnseenJob kind (w.jobs id))
    (kept : ∀ kind, Unseen w id kind → Live w' id)
    (saving : Saving w' id → Saving w id ∧ ∀ snapshot expected,
      w'.jobs id = some ⟨.save snapshot expected, .queued⟩ →
      w.jobs id = some ⟨.save snapshot expected, .queued⟩)
    (durable : w'.session.durableRevision = w.session.durableRevision)
    (record : w'.record = w.record) : Synced w' := by
  have unseen : ∀ i kind, Unseen w' i kind ↔ Unseen w i kind := by
    intro i kind
    by_cases same : i = id
    · subst same
      exact quiet kind
    · rw [Unseen, jobs i same, Unseen]
  have saves : ∀ i, Saving w' i → Saving w i := by
    intro i h
    by_cases same : i = id
    · subst same
      exact (saving h).1
    · rw [Saving, calls i same] at h
      exact h
  constructor
  · exact owned
  · intro i kind h'
    by_cases same : i = id
    · subst same
      exact kept kind ((unseen i kind).mp h')
    · rw [Live, calls i same]
      exact h.live i kind ((unseen i kind).mp h')
  · intro i kind h'
    rw [recordRevision, record]
    exact h.stored i kind ((unseen i kind).mp h')
  · exact fun i j first second hi hj =>
      h.once i j first second ((unseen i first).mp hi) ((unseen j second).mp hj)
  · exact fun i j expected hs hu => h.apart i j expected (saves i hs) ((unseen j _).mp hu)
  · intro i snapshot expected hs job
    rw [durable]
    by_cases same : i = id
    · subst same
      exact h.queued i snapshot expected (saving hs).1 ((saving hs).2 snapshot expected job)
    · rw [jobs i same] at job
      exact h.queued i snapshot expected (saves i hs) job
  · intro none
    rw [durable, recordRevision, record]
    exact h.synced fun i kind hu => none i kind ((unseen i kind).mpr hu)

/-- A call sees the one commit there is. -/
theorem Synced.seen (h : Synced w) (owned : Owned w') {kind : JobKind} (unseen : Unseen w id kind)
    (jobs : ∀ i, i ≠ id → w'.jobs i = w.jobs i) (gone : w'.jobs id = none)
    (idle : ∀ i, ¬Saving w' i) (durable : w'.session.durableRevision = w'.recordRevision) :
    Synced w' := by
  have none : ∀ i kind, ¬Unseen w' i kind := by
    intro i other hu
    by_cases same : i = id
    · rw [Unseen, same, gone] at hu
      exact not_unseen_none hu
    · rw [Unseen, jobs i same] at hu
      exact same (h.once i id other kind hu unseen)
  exact ⟨owned, fun i k hu => absurd hu (none i k), fun i k hu => absurd hu (none i k),
    fun i j k _ hu => absurd hu (none i k), fun i _ _ hs => absurd hs (idle i),
    fun i _ _ hs => absurd hs (idle i), fun _ => durable⟩

/-- A live call's thread commits while no other commit is unseen. -/
theorem Synced.commit (h : Synced w) (owned : Owned w') {kind : JobKind} (live : Live w' id)
    (none : ∀ i other, ¬Unseen w i other) (jobs : ∀ i, i ≠ id → w'.jobs i = w.jobs i)
    (job : w'.jobs id = some ⟨kind, .committed⟩) (other : kind ≠ .load)
    (alone : ∀ i, Saving w' i → i = id ∧ ∀ expected, kind ≠ .delete expected)
    (stored : w'.recordRevision = jobResult kind) : Synced w' := by
  have only : ∀ i k, Unseen w' i k → i = id ∧ k = kind := by
    intro i k hu
    by_cases same : i = id
    · subst same
      rw [Unseen, job] at hu
      obtain ⟨-, same | ⟨r, same⟩⟩ := hu
      · cases same
        exact ⟨rfl, rfl⟩
      · cases same
    · rw [Unseen, jobs i same] at hu
      exact absurd hu (none i k)
  constructor
  · exact owned
  · exact fun i k hu => (only i k hu).1 ▸ live
  · exact fun i k hu => (only i k hu).2 ▸ stored
  · exact fun i j k l hi hj => (only i k hi).1.trans (only j l hj).1.symm
  · exact fun i j expected hs hu => (alone i hs).2 expected (only j _ hu).2.symm
  · intro i snapshot expected hs queued
    rw [(alone i hs).1, job] at queued
    cases queued
  · exact fun absent => absurd ⟨other, .inl job⟩ (absent id kind)

/-- A thread that ends without a commit. -/
theorem Synced.settle (h : Synced w) (owned : Owned w') {kind : JobKind} {error : SessionError}
    (job : w.jobs id = some ⟨kind, .queued⟩) (calls : w'.calls = w.calls)
    (jobs : w'.jobs = Function.update w.jobs id (some ⟨kind, .finished (.error error)⟩))
    (durable : w'.session.durableRevision = w.session.durableRevision)
    (record : w'.record = w.record) : Synced w' := by
  refine h.frame owned id (fun i ne => by rw [jobs, Function.update_of_ne ne])
    (fun i _ => by rw [calls]) ?_ ?_ ?_ durable record
  · intro other
    rw [jobs, Function.update_self, job]
    exact iff_of_false not_unseen_error not_unseen_queued
  · intro other unseen
    rw [Unseen, job] at unseen
    exact absurd unseen not_unseen_queued
  · rw [Saving, Saving, calls, jobs, Function.update_self]
    exact fun saving => ⟨saving, fun _ _ absent => nomatch absent⟩

/-- A call ends whose thread has nothing it has not seen. -/
theorem Synced.ended (h : Synced w) (owned : Owned w') (seen : ∀ kind, ¬Unseen w id kind)
    (calls : w'.calls = Function.update w.calls id none)
    (jobs : w'.jobs = w.jobs ∨ w'.jobs = Function.update w.jobs id none)
    (durable : w'.session.durableRevision = w.session.durableRevision)
    (record : w'.record = w.record) : Synced w' := by
  have gone : ¬Saving w' id := by
    intro ⟨_, _, found⟩
    rw [calls, Function.update_self] at found
    cases found
  refine h.frame owned id ?_ (fun i ne => by rw [calls, Function.update_of_ne ne]) ?_
    (fun kind unseen => absurd unseen (seen kind)) (fun saving => absurd saving gone) durable record
  · intro i ne
    obtain same | same := jobs
    · rw [same]
    · rw [same, Function.update_of_ne ne]
  · intro kind
    obtain same | same := jobs
    · rw [same]
    · rw [same, Function.update_self]
      exact iff_of_false not_unseen_none (seen kind)

theorem waiting_seen (h : Owned w) {call : Call} (found : w.calls id = some call)
    (waiting : ∀ job, Matches call.phase job → job = none) : ∀ kind, ¬Unseen w id kind := by
  intro kind unseen
  rw [Unseen, waiting _ (h.matched id call found)] at unseen
  exact not_unseen_none unseen

theorem locating_seen (h : Owned w) {reply : Reply}
    (found : w.calls id = some ⟨reply, .locating⟩) : ∀ kind, ¬Unseen w id kind := by
  intro kind unseen
  obtain ⟨state, job⟩ := h.matched id _ found
  rw [Unseen, job] at unseen
  exact not_unseen_load unseen

/-- A call goes on to a phase that does not save, with a thread that has not begun, or none. -/
theorem Synced.moved (h : Synced w) (owned : Owned w') {call : Call} (job : Option Job)
    (seen : ∀ kind, ¬Unseen w id kind) (other : ∀ n, call.phase ≠ .saving n)
    (fresh : ∀ kind, ¬UnseenJob kind job)
    (calls : w'.calls = Function.update w.calls id (some call))
    (jobs : w'.jobs = Function.update w.jobs id job)
    (durable : w'.session.durableRevision = w.session.durableRevision)
    (record : w'.record = w.record) : Synced w' := by
  refine h.frame owned id (fun i ne => by rw [jobs, Function.update_of_ne ne])
    (fun i ne => by rw [calls, Function.update_of_ne ne]) ?_
    (fun kind unseen => absurd unseen (seen kind)) ?_ durable record
  · intro kind
    rw [jobs, Function.update_self]
    exact iff_of_false (fresh kind) (seen kind)
  · intro ⟨reply, n, found⟩
    rw [calls, Function.update_self] at found
    cases found
    exact absurd rfl (other n)

theorem Synced.beginSave (h : Synced w) {reply : Reply} {n : Nat}
    (owned : Owned (w.beginSave id reply n)) (call : w.calls id = some ⟨reply, .parked n⟩)
    (free : w.lock = none)
    (uncovered : ∀ durable, w.session.durableRevision = some durable → durable < n)
    (condition : ∀ i expected, ¬Unseen w i (.delete expected)) :
    Synced (w.beginSave id reply n) := by
  have seen : ∀ kind, ¬Unseen w id kind := waiting_seen h.owned call fun _ same => same
  have unseen : ∀ i kind, Unseen (w.beginSave id reply n) i kind ↔ Unseen w i kind := by
    intro i kind
    by_cases same : i = id
    · subst same
      simp only [Unseen, World.beginSave, World.setJob, Function.update_self]
      exact iff_of_false not_unseen_queued (seen kind)
    · simp only [Unseen, World.beginSave, World.setJob, World.setCall, Function.update_of_ne same]
  have alone : ∀ i, Saving (w.beginSave id reply n) i → i = id := by
    rintro i ⟨other, m, found⟩
    by_contra ne
    simp only [World.beginSave, World.setJob, World.setCall, Function.update_of_ne ne] at found
    have held := h.owned.lock i _ found trivial
    rw [free] at held
    cases held
  constructor
  · exact owned
  · intro i kind hu
    obtain ⟨c, found⟩ := h.live i kind ((unseen i kind).mp hu)
    by_cases same : i = id
    · exact ⟨⟨reply, .saving n⟩, by
        simp only [same, World.beginSave, World.setJob, World.setCall, Function.update_self]⟩
    · exact ⟨c, by
        simpa only [World.beginSave, World.setJob, World.setCall, Function.update_of_ne same]⟩
  · exact fun i kind hu => h.stored i kind ((unseen i kind).mp hu)
  · exact fun i j first second hi hj =>
      h.once i j first second ((unseen i first).mp hi) ((unseen j second).mp hj)
  · exact fun i j expected _ hu => condition j expected ((unseen j _).mp hu)
  · intro i snapshot expected hs job
    have same := alone i hs
    simp only [same, World.beginSave, World.setJob, Function.update_self] at job
    cases job
    refine ⟨rfl, fun durable known => ?_⟩
    have asked := h.owned.asks id _ n call rfl
    exact (uncovered durable known).trans_le asked
  · exact fun none => h.synced fun i kind hu => none i kind ((unseen i kind).mpr hu)

theorem casConflict_eq_false {current expected : Option Nat} {new : Nat} (same : current = expected)
    (newer : ∀ revision, current = some revision → revision < new) :
    casConflict current expected new = false := by
  rw [casConflict, same, bne_self_eq_false, Bool.false_or, Option.any_eq_false]
  intro revision known
  exact decide_eq_false (by have := newer revision (same.trans known); omega)

theorem stepped_synced {a : Action} (h : Synced w) (condition : Undisturbed w a)
    (stepped : Stepped w a w') : Synced w' := by
  have owned := stepped_owned h.owned stepped
  cases stepped with
  | @perform operation x outcome =>
    have entered := enter_spec w operation x
    have spec := outcome_spec outcome
    have absent := h.owned.fresh w.nextCall le_rfl
    have durable : (w.enter operation x).session.durableRevision = w.session.durableRevision := by
      rw [entered.session, spec.durable]
    have new : ¬Saving (w.enter operation x) w.nextCall := by
      rintro ⟨reply, n, found⟩
      obtain ⟨m, -, -, calls⟩ | ⟨-, calls, -⟩ := entered.rest
      · rw [calls, Function.update_self] at found
        cases found
      · rw [calls, absent.1] at found
        cases found
    refine h.frame owned w.nextCall (fun i _ => by rw [entered.jobs]) ?_ ?_ ?_
      (fun saving => absurd saving new) durable entered.record
    · intro i ne
      obtain ⟨m, -, -, calls⟩ | ⟨-, calls, -⟩ := entered.rest
      · rw [calls, Function.update_of_ne ne]
      · rw [calls]
    · intro kind
      rw [entered.jobs]
    · intro kind unseen
      rw [Unseen, absent.2] at unseen
      exact absurd unseen not_unseen_none
  | start started =>
    obtain ⟨-, rfl, -⟩ := start_eq_ok started
    exact ⟨owned, h.live, h.stored, h.once, h.apart, h.queued, h.synced⟩
  | release active => exact ⟨owned, h.live, h.stored, h.once, h.apart, h.queued, h.synced⟩
  | close idle => exact ⟨owned, h.live, h.stored, h.once, h.apart, h.queued, h.synced⟩
  | deleteKnown idle repository durable =>
    have absent := h.owned.fresh w.nextCall le_rfl
    refine h.moved owned _ (fun kind hu => ?_) (fun _ => Phase.noConfusion)
      (fun _ => not_unseen_queued) rfl rfl rfl rfl
    rw [Unseen, absent.2] at hu
    exact not_unseen_none hu
  | deleteUnknown idle repository durable =>
    have absent := h.owned.fresh w.nextCall le_rfl
    refine h.moved owned _ (fun kind hu => ?_) (fun _ => Phase.noConfusion)
      (fun _ => not_unseen_queued) rfl rfl rfl rfl
    rw [Unseen, absent.2] at hu
    exact not_unseen_none hu
  | skipSave call free known covered =>
    exact h.ended owned (waiting_seen h.owned call fun _ same => same) rfl (.inl rfl) rfl rfl
  | beginSave call free uncovered => exact h.beginSave owned call free uncovered condition
  | @commitSave id snapshot expected job current newer =>
    simp only [Undisturbed, job] at condition
    have live : Live w id := condition.resolve_left (by
      rw [casConflict_eq_false current newer]
      exact Bool.false_ne_true)
    have saving := saving_of_job h.owned live job
    refine h.commit owned live (none_unseen h saving job)
      (fun i ne => Function.update_of_ne ne ..) (Function.update_self ..) JobKind.noConfusion
      (fun i hs => ⟨saving_unique h.owned hs saving, fun _ => JobKind.noConfusion⟩) rfl
  | refuseSave job conflict => exact h.settle owned job rfl rfl rfl rfl
  | @load id job =>
    refine h.frame owned id (fun i ne => Function.update_of_ne ne ..) (fun _ _ => rfl) ?_
      (fun kind unseen => h.live id kind unseen) ?_ rfl rfl
    · intro kind
      rw [job]
      simp only [World.setJob, Function.update_self]
      exact iff_of_false not_unseen_load not_unseen_load
    · intro saving
      refine ⟨saving, fun snapshot expected found => ?_⟩
      simp only [World.setJob, Function.update_self] at found
      cases found
  | @commitDelete id expected job current =>
    simp only [Undisturbed, job] at condition
    obtain ⟨live, idle⟩ := condition.resolve_left (by
      rw [deleteConflict, current, bne_self_eq_false]
      exact Bool.false_ne_true)
    have none : ∀ i other, ¬Unseen w i other := by
      intro i other unseen
      cases other with
      | load => exact unseen.1 rfl
      | save snapshot expected => exact idle i (saving_of_unseen h unseen)
      | delete other =>
        have emptied := h.stored i _ unseen
        rw [current] at emptied
        cases emptied
    exact h.commit owned live none (fun i ne => Function.update_of_ne ne ..)
      (Function.update_self ..) JobKind.noConfusion (fun i hs => absurd hs (idle i)) rfl
  | refuseDelete job stale => exact h.settle owned job rfl rfl rfl rfl
  | failJob job => exact h.settle owned job rfl rfl rfl rfl
  | @finishJob id kind raises job =>
    cases (show raises = false from condition)
    refine h.frame owned id (fun i ne => Function.update_of_ne ne ..) (fun _ _ => rfl) ?_
      (fun kind unseen => h.live id kind unseen) ?_ rfl rfl
    · intro other
      rw [job]
      simp only [World.setJob, Function.update_self, UnseenJob]
      apply and_congr_right
      intro _
      constructor
      · intro found
        obtain found | ⟨r, found⟩ := found <;> cases found
        exact .inl rfl
      · intro found
        obtain found | ⟨r, found⟩ := found <;> cases found
        exact .inr ⟨_, rfl⟩
    · intro saving
      refine ⟨saving, fun snapshot expected found => ?_⟩
      simp only [World.setJob, Function.update_self] at found
      cases found
  | @saved id n revision reply kind call job =>
    obtain ⟨snapshot, expected, state, same⟩ := h.owned.matched id _ call
    cases job.symm.trans same
    have unseen : Unseen w id (.save snapshot expected) :=
      ⟨JobKind.noConfusion, .inr ⟨_, job⟩⟩
    have result : some revision = some snapshot.revision := h.owned.returns id _ job
    refine h.seen owned unseen (fun i ne => Function.update_of_ne ne ..) (Function.update_self ..)
      ?_ (result.trans (h.stored id _ unseen).symm)
    rintro i ⟨other, m, found⟩
    by_cases ne : i = id
    · simp only [ne, World.setCall, Function.update_self] at found
      cases found
    · simp only [World.setCall, World.setJob, Function.update_of_ne ne] at found
      exact ne (saving_unique h.owned ⟨other, m, found⟩ ⟨reply, n, call⟩)
  | @saveFailed id n reply kind error call job =>
    refine h.moved owned _ (fun kind hu => ?_) (fun _ => Phase.noConfusion)
      (fun _ => not_unseen_none) rfl rfl rfl rfl
    rw [Unseen, job] at hu
    exact not_unseen_error hu
  | locatedBusy call job =>
    exact h.ended owned (locating_seen h.owned call) rfl (.inr rfl) rfl rfl
  | locatedNone call job idle =>
    exact h.ended owned (locating_seen h.owned call) rfl (.inr rfl) rfl rfl
  | @located id revision reply kind call job idle =>
    refine h.moved owned (some ⟨.delete revision, .queued⟩) (locating_seen h.owned call) (fun _ => Phase.noConfusion) (fun _ => not_unseen_queued) rfl ?_ rfl rfl
    simp only [World.setJob, World.setCall, Function.update_idem]
  | @deleted id reply kind found call job =>
    obtain ⟨expected, state, same⟩ := h.owned.matched id _ call
    cases job.symm.trans same
    have unseen : Unseen w id (.delete expected) := ⟨JobKind.noConfusion, .inr ⟨_, job⟩⟩
    refine h.seen owned unseen (fun i ne => Function.update_of_ne ne ..) (Function.update_self ..)
      ?_ (h.stored id _ unseen).symm
    rintro i ⟨other, m, found⟩
    by_cases ne : i = id
    · simp only [ne, World.returnCall, World.endCall, World.setCall, Function.update_self] at found
      cases found
    · simp only [World.returnCall, World.endCall, World.setCall, World.setJob,
        Function.update_of_ne ne] at found
      exact h.apart i id expected ⟨other, m, found⟩ unseen
  | @deleteFailed id reply phase kind error call deleting job =>
    refine h.ended owned (fun kind hu => ?_) rfl (.inr rfl) rfl rfl
    rw [Unseen, job] at hu
    exact not_unseen_error hu
  | notified call =>
    exact h.ended owned (waiting_seen h.owned call fun _ same => same) rfl (.inl rfl) rfl rfl
  | notifiedFailure call =>
    exact h.ended owned (waiting_seen h.owned call fun _ same => same) rfl (.inl rfl) rfl rfl
  | @cancel id dropped call found =>
    obtain same | ⟨-, same⟩ := cancelCall_eq w id dropped
    · exact h.ended owned condition (by rw [same]; rfl) (.inl (by rw [same]; rfl))
        (by rw [same]; rfl) (by rw [same]; rfl)
    · exact h.ended owned condition (by rw [same]; rfl) (.inr (by rw [same]; rfl))
        (by rw [same]; rfl) (by rw [same]; rfl)
  | foreignSave newer => exact condition.elim
  | foreignDelete present => exact condition.elim

theorem opened_synced {session : Session} {record : Option SessionSnapshot}
    (sole : session.durableRevision = record.map SessionSnapshot.revision) :
    Synced (opened session record) := by
  have idle : ∀ id, ¬Saving (opened session record) id := fun _ ⟨_, _, absent⟩ => nomatch absent
  exact ⟨opened_owned session record, fun _ _ hu => absurd hu not_unseen_none,
    fun _ _ hu => absurd hu not_unseen_none, fun _ _ _ _ hu => absurd hu not_unseen_none,
    fun i _ _ hs => absurd hs (idle i), fun i _ _ hs => absurd hs (idle i), fun _ => sole⟩

/-- The handle and the store agree. -/
structure Agrees (w : World) : Prop where
  /-- Unless a commit is still to be seen, the durable revision is the stored one. -/
  durable : (∀ id kind, ¬Unseen w id kind) → w.session.durableRevision = w.recordRevision
  /-- The compare-and-swap of a save that a call waits for will pass. -/
  accepted : ∀ id snapshot expected, Saving w id →
    w.jobs id = some ⟨.save snapshot expected, .queued⟩ →
    casConflict w.recordRevision expected snapshot.revision = false

theorem agrees_of_synced (h : Synced w) : Agrees w := by
  refine ⟨h.synced, fun id snapshot expected saving job => ?_⟩
  obtain ⟨same, newer⟩ := h.queued id snapshot expected saving job
  have durable := h.synced (none_unseen h saving job)
  rw [durable] at same newer
  exact casConflict_eq_false same.symm newer

/-- A handle that starts alone in agreement with its key, and is undisturbed, stays so. -/
theorem sole_owner_never_conflicts {session : Session} {record : Option SessionSnapshot}
    {actions : List Action} (sole : session.durableRevision = record.map SessionSnapshot.revision)
    (along : Along step Undisturbed (opened session record) actions)
    (h : run step (opened session record) actions = some w) : Agrees w :=
  agrees_of_synced (run_invariant
    (fun _ _ _ inv condition h => stepped_synced inv condition (stepped h))
    (opened_synced sole) along h)

def savedRun : List Action := [
  .perform (.enqueue .steer greeting "first"), .beginSave 0, .commitJob 0, .finishJob 0 false,
  .resume 0, .notify 0 false]

theorem sole_owner_never_conflicts_saved :
    ∃ w, run step (opened newSession none) savedRun = some w ∧
      w.session.durableRevision = some 1 ∧ Agrees w := by
  have along : Along step Undisturbed (opened newSession none) savedRun := by
    refine ⟨trivial, fun w h => ?_⟩
    cases h
    refine ⟨fun _ _ => not_unseen_none, fun w h => ?_⟩
    cases h
    refine ⟨.inr ⟨_, rfl⟩, fun w h => ?_⟩
    cases h
    refine ⟨rfl, fun w h => ?_⟩
    cases h
    refine ⟨trivial, fun w h => ?_⟩
    cases h
    exact ⟨trivial, fun _ _ => trivial⟩
  exact ⟨_, rfl, rfl, sole_owner_never_conflicts (by rfl) along rfl⟩

/-- The directory fsync after the rename raises: the record is stored and the handle does not know
it, so its next save is refused. -/
theorem lost_commit_conflicts :
    ∃ w w', run step (opened newSession none) [.perform (.enqueue .steer greeting "first"),
        .beginSave 0, .commitJob 0, .finishJob 0 true, .resume 0, .notify 0 false] = some w ∧
      (∀ id, w.jobs id = none) ∧ w.session.durableRevision ≠ w.recordRevision ∧
      run step w [.perform (.enqueue .steer greeting "second"), .beginSave 1, .commitJob 1] =
        some w' ∧
      ∃ kind, w'.jobs 1 = some ⟨kind, .finished (.error .conflict)⟩ := by
  refine ⟨_, _, rfl, fun id => ?_, by decide, rfl, _, rfl⟩
  cases id with
  | zero => rfl
  | succ id => rfl

end RoboAgent.SessionSoleOwner
