import RoboAgent.SessionCalls

/-! Durable state refines runtime state. The logical state is a function of the runtime revision,
every snapshot handed to the repository is that function's value at its revision, and a call
returns only when a stored record covers its change. -/

namespace RoboAgent.SessionRefinement
open RoboAgent.Messages RoboAgent.FrozenJson RoboAgent.SessionState RoboAgent.SessionWorld
open RoboAgent.SessionWorld.World RoboAgent.SessionSteps RoboAgent.SessionCalls RoboAgent.Runs

/-- The revisions stored grow, and the record is the last of them. -/
structure Ordered (stored : List SessionSnapshot) (record : Option SessionSnapshot) : Prop where
  increasing : (stored.map SessionSnapshot.revision).Pairwise (· < ·)
  last : stored.getLast? = record

theorem Ordered.store {stored : List SessionSnapshot} {record : Option SessionSnapshot}
    {snapshot : SessionSnapshot} (h : Ordered stored record)
    (newer : ∀ revision, record.map SessionSnapshot.revision = some revision →
      revision < snapshot.revision) : Ordered (stored ++ [snapshot]) (some snapshot) := by
  refine ⟨?_, List.getLast?_concat⟩
  obtain rfl | ⟨earlier, last, rfl⟩ := List.eq_nil_or_concat' stored
  · exact List.pairwise_singleton ..
  · have lastBelow : last.revision < snapshot.revision := by
      apply newer
      rw [← h.last, List.getLast?_concat]
      rfl
    have increasing := h.increasing
    rw [List.map_append, List.pairwise_append] at increasing ⊢
    refine ⟨h.increasing, List.pairwise_singleton .., fun a mem b single => ?_⟩
    rw [List.map_singleton, List.mem_singleton] at single
    rw [List.map_append, List.mem_append, List.map_singleton, List.mem_singleton] at mem
    rw [single]
    cases mem with
    | inl mem => exact (increasing.2.2 a mem last.revision (List.mem_singleton_self _)).trans lastBelow
    | inr mem => exact mem ▸ lastBelow

section Invariant
variable (base : Nat)

/-- A record this handle stored contains the change made at a revision; the revision the handle
was opened at needs none. -/
def Covered (w : World) (revision : Nat) : Prop :=
  revision ≤ base ∨ ∃ record ∈ w.stored, record ∈ w.handed ∧ revision ≤ record.revision

/-- Only persist asks for a revision it did not make. -/
def Owed (reply : Reply) (required : Nat) : Prop := reply = .revision ∨ base < required

def CallSpec (w : World) (call : Call) : Prop :=
  match call.phase with
  | .parked required | .saving required =>
    required ≤ w.session.runtimeRevision ∧ Owed base call.reply required
  | .notifying required error =>
    Owed base call.reply required ∧ (error = none → Covered base w required)
  | .locating | .deleting => False

def JobSpec (w : World) (job : Job) : Prop :=
  match job.kind with
  | .save snapshot _ => snapshot ∈ w.handed ∧
    match job.state with
    | .committed => snapshot ∈ w.stored
    | .finished (.ok result) => snapshot ∈ w.stored ∧ result = some snapshot.revision
    | .queued | .finished (.error _) => True
  | .load | .delete _ => False

structure Refining (w : World) : Prop where
  repository : w.session.hasRepository = true
  current : w.history w.session.runtimeRevision = some w.session.snapshot
  ahead : ∀ revision, w.session.runtimeRevision < revision → w.history revision = none
  handed : ∀ snapshot ∈ w.handed, w.history snapshot.revision = some snapshot
  based : base ≤ w.session.runtimeRevision
  ordered : Ordered w.stored w.record
  durable : ∀ revision, w.session.durableRevision = some revision → Covered base w revision
  calls : ∀ id call, w.calls id = some call → CallSpec base w call
  jobs : ∀ id job, w.jobs id = some job → JobSpec w job
  saving : ∀ id reply required snapshot expected state,
    w.calls id = some ⟨reply, .saving required⟩ →
    w.jobs id = some ⟨.save snapshot expected, state⟩ → required ≤ snapshot.revision
  returned : ∀ id reply required, (id, reply, some required) ∈ w.returned →
    Owed base reply required ∧ Covered base w required

variable {base} {w w' : World}

theorem Covered.mono {revision : Nat} (h : Covered base w revision) (handed : w.handed ⊆ w'.handed)
    (stored : w.stored ⊆ w'.stored) : Covered base w' revision :=
  h.imp_right fun ⟨record, mem, own, le⟩ => ⟨record, stored mem, handed own, le⟩

theorem CallSpec.mono {call : Call} (h : CallSpec base w call)
    (revision : w.session.runtimeRevision ≤ w'.session.runtimeRevision)
    (handed : w.handed ⊆ w'.handed) (stored : w.stored ⊆ w'.stored) : CallSpec base w' call := by
  obtain ⟨reply, phase⟩ := call
  cases phase with
  | parked required => exact ⟨h.1.trans revision, h.2⟩
  | saving required => exact ⟨h.1.trans revision, h.2⟩
  | notifying required error => exact ⟨h.1, fun fine => (h.2 fine).mono handed stored⟩
  | locating => exact h
  | deleting => exact h

theorem JobSpec.mono {job : Job} (h : JobSpec w job) (handed : w.handed ⊆ w'.handed)
    (stored : w.stored ⊆ w'.stored) : JobSpec w' job := by
  obtain ⟨kind, state⟩ := job
  cases kind with
  | save snapshot expected =>
    refine ⟨handed h.1, ?_⟩
    cases state with
    | queued => trivial
    | committed => exact stored h.2
    | finished result =>
      cases result with
      | error error => trivial
      | ok result => exact ⟨stored h.2.1, h.2.2⟩
  | load => exact h
  | delete expected => exact h

theorem Refining.within (h : Refining base w) {snapshot : SessionSnapshot}
    (mem : snapshot ∈ w.handed) : snapshot.revision ≤ w.session.runtimeRevision := by
  by_contra above
  have absent := h.ahead snapshot.revision (by omega)
  rw [h.handed snapshot mem] at absent
  cases absent

/-- A step that leaves the logical state and what is stored alone: only the calls, the jobs and
what has returned need a look. -/
theorem Refining.frame (h : Refining base w)
    (repository : w'.session.hasRepository = w.session.hasRepository)
    (session : w'.session.snapshot = w.session.snapshot) (history : w'.history = w.history)
    (handed : w'.handed = w.handed) (stored : w'.stored = w.stored)
    (record : w'.record = w.record)
    (durable : ∀ revision, w'.session.durableRevision = some revision → Covered base w revision)
    (calls : ∀ id call, w'.calls id = some call → CallSpec base w call)
    (jobs : ∀ id job, w'.jobs id = some job → JobSpec w job)
    (saving : ∀ id reply required snapshot expected state,
      w'.calls id = some ⟨reply, .saving required⟩ →
      w'.jobs id = some ⟨.save snapshot expected, state⟩ → required ≤ snapshot.revision)
    (returned : ∀ id reply required, (id, reply, some required) ∈ w'.returned →
      Owed base reply required ∧ Covered base w required) : Refining base w' := by
  have revision : w'.session.runtimeRevision = w.session.runtimeRevision :=
    congrArg SessionSnapshot.revision session
  have handed_sub : w.handed ⊆ w'.handed := fun a mem => handed ▸ mem
  have stored_sub : w.stored ⊆ w'.stored := fun a mem => stored ▸ mem
  constructor
  · exact repository.trans h.repository
  · rw [history, session, revision]
    exact h.current
  · rw [history, revision]
    exact h.ahead
  · rw [history, handed]
    exact h.handed
  · exact revision ▸ h.based
  · exact stored ▸ record ▸ h.ordered
  · exact fun r known => (durable r known).mono handed_sub stored_sub
  · exact fun id call found => (calls id call found).mono revision.ge handed_sub stored_sub
  · exact fun id job found => (jobs id job found).mono handed_sub stored_sub
  · exact saving
  · exact fun id reply required mem =>
      ⟨(returned id reply required mem).1, (returned id reply required mem).2.mono handed_sub stored_sub⟩

theorem Refining.setCall (h : Refining base w) (id : Nat) (call : Option Call)
    (spec : ∀ c, call = some c → CallSpec base w c)
    (saving : ∀ reply required snapshot expected state,
      call = some ⟨reply, .saving required⟩ →
      w.jobs id = some ⟨.save snapshot expected, state⟩ → required ≤ snapshot.revision) :
    Refining base (w.setCall id call) := by
  refine h.frame rfl rfl rfl rfl rfl rfl h.durable ?_ h.jobs ?_ h.returned
  · exact update_forall (fun i c _ => h.calls i c) spec
  · intro i reply required snapshot expected state found job
    by_cases same : i = id
    · subst same
      simp only [World.setCall, Function.update_self] at found
      exact saving reply required snapshot expected state found job
    · simp only [World.setCall, Function.update_of_ne same] at found
      exact h.saving i reply required snapshot expected state found job

theorem Refining.setJob (h : Refining base w) {id : Nat} {job : Option Job}
    (spec : ∀ j, job = some j → JobSpec w j)
    (kept : ∀ snapshot expected state, job = some ⟨.save snapshot expected, state⟩ →
      ∃ earlier, w.jobs id = some ⟨.save snapshot expected, earlier⟩) :
    Refining base (w.setJob id job) := by
  refine h.frame rfl rfl rfl rfl rfl rfl h.durable h.calls ?_ ?_ h.returned
  · exact update_forall (fun i j _ => h.jobs i j) spec
  · intro i reply required snapshot expected state call found
    by_cases same : i = id
    · subst same
      simp only [World.setJob, Function.update_self] at found
      obtain ⟨earlier, before⟩ := kept snapshot expected state found
      exact h.saving i reply required snapshot expected earlier call before
    · simp only [World.setJob, Function.update_of_ne same] at found
      exact h.saving i reply required snapshot expected state call found

theorem Refining.dropJob (h : Refining base w) {id : Nat} : Refining base (w.setJob id none) :=
  h.setJob (fun _ absent => nomatch absent) fun _ _ _ absent => nomatch absent

/-- A save thread moves on. -/
theorem Refining.settle (h : Refining base w) {id : Nat} {snapshot : SessionSnapshot}
    {expected : Option Nat} {before after : JobState}
    (job : w.jobs id = some ⟨.save snapshot expected, before⟩)
    (spec : JobSpec w ⟨.save snapshot expected, after⟩) :
    Refining base (w.setJob id (some ⟨.save snapshot expected, after⟩)) := by
  apply h.setJob
  · intro j new
    cases new
    exact spec
  · intro s e state new
    cases new
    exact ⟨before, job⟩

theorem Refining.endCall (h : Refining base w) {id : Nat} : Refining base (w.endCall id) := by
  have ended := h.setCall id none (fun _ absent => nomatch absent)
    fun _ _ _ _ _ absent => nomatch absent
  exact ended.frame rfl rfl rfl rfl rfl rfl ended.durable ended.calls ended.jobs ended.saving
    ended.returned

theorem Refining.raiseCall (h : Refining base w) {id : Nat} : Refining base (w.raiseCall id) := by
  have ended : Refining base (w.endCall id) := h.endCall
  exact ended.frame rfl rfl rfl rfl rfl rfl ended.durable ended.calls ended.jobs ended.saving
    ended.returned

theorem Refining.returnCall (h : Refining base w) {id : Nat} {reply : Reply} {required : Nat}
    (owed : Owed base reply required) (covered : Covered base w required) :
    Refining base (w.returnCall id reply (some required)) := by
  have ended : Refining base (w.endCall id) := h.endCall
  refine ended.frame rfl rfl rfl rfl rfl rfl ended.durable ended.calls ended.jobs ended.saving ?_
  intro i r n mem
  rw [World.returnCall, List.mem_append, List.mem_singleton] at mem
  cases mem with
  | inl mem => exact h.returned i r n mem
  | inr mem =>
    cases mem
    exact ⟨owed, covered⟩

theorem Refining.enter (h : Refining base w) {operation : Operation} {x : Section}
    (outcome : operation.outcome w.session w.run = some (.ok x)) :
    Refining base (w.enter operation x) := by
  have spec := outcome_spec outcome
  have entered := enter_spec w operation x
  have moved : (x.session = w.session ∨ x.session.runtimeRevision = w.session.runtimeRevision + 1) ∧
      ∀ required, x.required = some required →
        required ≤ x.session.runtimeRevision ∧ Owed base x.reply required := by
    have based := h.based
    obtain ⟨same, absent | ⟨asked, persist⟩⟩ | ⟨next, asked⟩ := spec.moved
    · exact ⟨.inl same, fun required found => by rw [absent] at found; cases found⟩
    · refine ⟨.inl same, fun required found => ?_⟩
      cases asked.symm.trans found
      exact ⟨(congrArg Session.runtimeRevision same).ge, .inl persist⟩
    · refine ⟨.inr next, fun required found => ?_⟩
      cases asked.symm.trans found
      exact ⟨next.ge, .inr (by omega)⟩
  have revision : w.session.runtimeRevision ≤ x.session.runtimeRevision := by
    obtain same | next := moved.1
    · rw [same]
    · omega
  have handed : w.handed ⊆ (w.enter operation x).handed := fun _ mem => entered.handed ▸ mem
  have stored : w.stored ⊆ (w.enter operation x).stored := fun _ mem => entered.stored ▸ mem
  constructor
  · rw [entered.session, spec.hasRepository]
    exact h.repository
  · rw [entered.history, entered.session, Function.update_self]
  · intro r above
    rw [entered.session] at above
    rw [entered.history, Function.update_of_ne (by omega)]
    exact h.ahead r (by omega)
  · intro snapshot mem
    rw [entered.handed] at mem
    rw [entered.history]
    obtain same | next := moved.1
    · rw [same, ← h.current, Function.update_eq_self]
      exact h.handed snapshot mem
    · have := h.within mem
      rw [Function.update_of_ne (by omega)]
      exact h.handed snapshot mem
  · rw [entered.session]
    exact h.based.trans revision
  · rw [entered.stored, entered.record]
    exact h.ordered
  · intro r known
    rw [entered.session, spec.durable] at known
    exact (h.durable r known).mono handed stored
  · have old : ∀ i c, w.calls i = some c → CallSpec base (w.enter operation x) c := fun i c found =>
      (h.calls i c found).mono (entered.session ▸ revision) handed stored
    obtain ⟨required, asked, -, calls⟩ | ⟨-, calls, -⟩ := entered.rest
    · rw [calls]
      refine update_forall (fun i c _ => old i c) fun c new => ?_
      cases new
      rw [CallSpec, entered.session]
      exact moved.2 required asked
    · rw [calls]
      exact old
  · intro i job found
    rw [entered.jobs] at found
    exact (h.jobs i job found).mono handed stored
  · intro i reply required snapshot expected state call job
    rw [entered.jobs] at job
    obtain ⟨required', asked, -, calls⟩ | ⟨-, calls, -⟩ := entered.rest
    · by_cases same : i = w.nextCall
      · rw [calls, same, Function.update_self] at call
        cases call
      · rw [calls, Function.update_of_ne same] at call
        exact h.saving i reply required snapshot expected state call job
    · rw [calls] at call
      exact h.saving i reply required snapshot expected state call job
  · intro i reply required mem
    have old : (i, reply, some required) ∈ w.returned := by
      obtain ⟨required', asked, returned, -⟩ | ⟨unasked, -, returned⟩ := entered.rest
      · exact returned ▸ mem
      · rw [spec.hasRepository, h.repository] at unasked
        rw [returned, unasked.resolve_right Bool.noConfusion, List.mem_append,
          List.mem_singleton] at mem
        exact mem.resolve_right fun same => by cases same
    exact ⟨(h.returned i reply required old).1,
      (h.returned i reply required old).2.mono handed stored⟩

theorem Refining.beginSave (h : Refining base w) {id required : Nat} {reply : Reply}
    (call : w.calls id = some ⟨reply, .parked required⟩) :
    Refining base (w.beginSave id reply required) := by
  have handed : w.handed ⊆ w.handed ++ [w.session.snapshot] := List.subset_append_left ..
  have stored : w.stored ⊆ w.stored := fun _ mem => mem
  have parked := h.calls id _ call
  constructor
  · exact h.repository
  · exact h.current
  · exact h.ahead
  · intro snapshot mem
    obtain mem | mem := List.mem_append.mp mem
    · exact h.handed snapshot mem
    · rw [List.mem_singleton.mp mem]
      exact h.current
  · exact h.based
  · exact h.ordered
  · exact fun r known => (h.durable r known).mono handed stored
  · apply update_forall
    · exact fun i c _ found => (h.calls i c found).mono le_rfl handed stored
    · intro c new
      cases new
      exact parked
  · apply update_forall
    · exact fun i j _ found => (h.jobs i j found).mono handed stored
    · intro j new
      cases new
      exact ⟨List.mem_append_right _ (List.mem_singleton_self _), trivial⟩
  · intro i r n snapshot expected state call job
    by_cases same : i = id
    · subst same
      simp only [World.beginSave, World.setCall, World.setJob, Function.update_self] at call job
      cases call
      cases job
      exact parked.1
    · simp only [World.beginSave, World.setCall, World.setJob, Function.update_of_ne same]
        at call job
      exact h.saving i r n snapshot expected state call job
  · exact fun i r n mem => ⟨(h.returned i r n mem).1, (h.returned i r n mem).2.mono handed stored⟩

/-- Something newer is stored; if by a thread of this handle, the thread is past its commit. -/
theorem Refining.store (h : Refining base w) {snapshot : SessionSnapshot} {jobs : Nat → Option Job}
    {foreign : Bool}
    (newer : ∀ revision, w.recordRevision = some revision → revision < snapshot.revision)
    (jobsSpec : ∀ i j, jobs i = some j → JobSpec w j ∨
      ∃ expected, j = ⟨.save snapshot expected, .committed⟩ ∧ snapshot ∈ w.handed)
    (kept : ∀ i s expected state, jobs i = some ⟨.save s expected, state⟩ →
      ∃ earlier, w.jobs i = some ⟨.save s expected, earlier⟩) :
    Refining base { w with
      jobs, record := some snapshot, stored := w.stored ++ [snapshot], foreign } := by
  have handed : w.handed ⊆ w.handed := fun _ mem => mem
  have stored : w.stored ⊆ w.stored ++ [snapshot] := List.subset_append_left ..
  constructor
  · exact h.repository
  · exact h.current
  · exact h.ahead
  · exact h.handed
  · exact h.based
  · exact h.ordered.store newer
  · exact fun r known => (h.durable r known).mono handed stored
  · exact fun i c found => (h.calls i c found).mono le_rfl handed stored
  · intro i j found
    obtain spec | ⟨expected, rfl, own⟩ := jobsSpec i j found
    · exact spec.mono handed stored
    · exact ⟨own, List.mem_append_right _ (List.mem_singleton_self _)⟩
  · intro i reply required s expected state call job
    obtain ⟨earlier, before⟩ := kept i s expected state job
    exact h.saving i reply required s expected earlier call before
  · exact fun i r n mem => ⟨(h.returned i r n mem).1, (h.returned i r n mem).2.mono handed stored⟩

theorem stepped_refining {a : Action} (h : Refining base w) (stepped : Stepped w a w')
    (kept : a ≠ .delete ∧ a ≠ .foreignDelete) : Refining base w' := by
  cases stepped with
  | perform outcome => exact h.enter outcome
  | start started =>
    obtain ⟨-, rfl, -⟩ := start_eq_ok started
    exact h.frame rfl rfl rfl rfl rfl rfl h.durable h.calls h.jobs h.saving h.returned
  | release active =>
    exact h.frame rfl rfl rfl rfl rfl rfl h.durable h.calls h.jobs h.saving h.returned
  | close idle =>
    exact h.frame rfl rfl rfl rfl rfl rfl h.durable h.calls h.jobs h.saving h.returned
  | deleteKnown => exact absurd rfl kept.1
  | deleteUnknown => exact absurd rfl kept.1
  | @skipSave id required durable reply call free known covered =>
    have parked := h.calls id _ call
    apply h.returnCall parked.2
    exact (h.durable durable known).imp covered.trans fun ⟨record, stored, own, le⟩ =>
      ⟨record, stored, own, covered.trans le⟩
  | beginSave call free uncovered => exact h.beginSave call
  | @commitSave id snapshot expected job current newer =>
    refine h.store newer ?_ ?_
    · refine update_forall (fun i j _ found => .inl (h.jobs i j found)) fun j new => ?_
      cases new
      exact .inr ⟨expected, rfl, (h.jobs id _ job).1⟩
    · intro i s e state found
      by_cases same : i = id
      · subst same
        simp only [World.setJob, Function.update_self] at found
        cases found
        exact ⟨_, job⟩
      · simp only [World.setJob, Function.update_of_ne same] at found
        exact ⟨state, found⟩
  | @refuseSave id snapshot expected job conflict =>
    exact h.settle job ⟨(h.jobs id _ job).1, trivial⟩
  | @load id job => exact (h.jobs id _ job).elim
  | @commitDelete id expected job current => exact (h.jobs id _ job).elim
  | @refuseDelete id expected job stale => exact (h.jobs id _ job).elim
  | @failJob id kind error job =>
    have queued := h.jobs id _ job
    cases kind with
    | save snapshot expected => exact h.settle job ⟨queued.1, trivial⟩
    | load => exact queued.elim
    | delete expected => exact queued.elim
  | @finishJob id kind raises job =>
    have committed := h.jobs id _ job
    cases kind with
    | save snapshot expected =>
      apply h.settle job
      cases raises with
      | true => exact ⟨committed.1, trivial⟩
      | false => exact ⟨committed.1, committed.2, rfl⟩
    | load => exact committed.elim
    | delete expected => exact committed.elim
  | @saved id required revision reply kind call job =>
    have finished := h.jobs id _ job
    have saving := h.calls id _ call
    cases kind with
    | load => exact finished.elim
    | delete expected => exact finished.elim
    | save snapshot expected =>
      obtain ⟨own, stored, same⟩ := finished
      cases same
      have covered : Covered base w snapshot.revision := .inr ⟨snapshot, stored, own, le_rfl⟩
      have enough := h.saving id reply required snapshot expected _ call job
      have told : Refining base ((w.setJob id none).setCall id
          (some ⟨reply, .notifying required none⟩)) := by
        refine h.dropJob.setCall id _ (fun c new => ?_) fun _ _ _ _ _ new => nomatch new
        cases new
        exact ⟨saving.2, fun _ => .inr ⟨snapshot, stored, own, enough⟩⟩
      refine told.frame rfl rfl rfl rfl rfl rfl (fun r known => ?_) told.calls told.jobs told.saving
        told.returned
      cases known
      exact covered
  | @saveFailed id required reply kind error call job =>
    refine h.dropJob.setCall id _ (fun c new => ?_) fun _ _ _ _ _ new => nomatch new
    cases new
    exact ⟨(h.calls id _ call).2, fun fine => nomatch fine⟩
  | @locatedBusy id reply kind found call job => exact (h.calls id _ call).elim
  | @locatedNone id reply kind call job idle => exact (h.calls id _ call).elim
  | @located id revision reply kind call job idle => exact (h.calls id _ call).elim
  | @deleted id reply kind found call job => exact (h.calls id _ call).elim
  | @deleteFailed id reply phase kind error call deleting job => exact h.dropJob.raiseCall
  | @notified id required reply call =>
    have told := h.calls id _ call
    exact h.returnCall told.1 (told.2 rfl)
  | notifiedFailure call => exact h.raiseCall
  | @cancel id dropped call found =>
    obtain same | ⟨-, same⟩ := cancelCall_eq w id dropped
    · exact same ▸ h.raiseCall
    · exact same ▸ h.dropJob.raiseCall
  | foreignSave newer =>
    exact h.store newer (fun i j found => .inl (h.jobs i j found)) fun i s e state found =>
      ⟨state, found⟩
  | foreignDelete present => exact absurd rfl kept.2

end Invariant

theorem opened_refining {session : Session} {record : Option SessionSnapshot}
    (fresh : Fresh session) (repository : session.hasRepository = true) :
    Refining session.runtimeRevision (opened session record) := by
  constructor
  · exact repository
  · simp only [opened, Function.update_self]
  · intro revision above
    simp only [opened] at above ⊢
    exact Function.update_of_ne (by omega) ..
  · exact fun _ mem => nomatch mem
  · exact le_rfl
  · cases record with
    | none => exact ⟨.nil, rfl⟩
    | some record => exact ⟨List.pairwise_singleton .., rfl⟩
  · intro revision known
    left
    cases fresh with
    | created made =>
      have absent := (create_eq_ok made).2.2.2
      rw [show session.durableRevision = some revision from known] at absent
      cases absent
    | restored made =>
      obtain ⟨-, -, -, runtime, durable⟩ := restore_eq_ok made
      rw [show session.durableRevision = some revision from known] at durable
      cases durable
      exact runtime.ge
  · exact fun _ _ absent => nomatch absent
  · exact fun _ _ absent => nomatch absent
  · exact fun _ _ _ _ _ _ absent => nomatch absent
  · exact fun _ _ _ mem => nomatch mem

section Runs
variable {base : Nat} {w₀ w : World} {actions : List Action}

/-- No delete, neither by this handle nor by another. -/
def NoDelete (actions : List Action) : Prop := ∀ a ∈ actions, a ≠ .delete ∧ a ≠ .foreignDelete

theorem run_refining (start : Refining base w₀) (kept : NoDelete actions)
    (h : run step w₀ actions = some w) : Refining base w := by
  refine run_invariant ?_ start (along_of_forall kept) h
  intro v a v' inv kept h
  exact stepped_refining inv (stepped h) kept

/-- What the logical state was at a revision does not change. -/
theorem stepped_history {w' : World} {a : Action} (inv : Refining base w) (h : Stepped w a w')
    {revision : Nat} {snapshot : SessionSnapshot} (past : w.history revision = some snapshot) :
    w'.history revision = some snapshot := by
  cases h with
  | @perform operation x outcome =>
    rw [(enter_spec w operation x).history]
    obtain ⟨same, -⟩ | ⟨next, -⟩ := (outcome_spec outcome).moved
    · rw [same, ← inv.current, Function.update_eq_self]
      exact past
    · rw [Function.update_of_ne]
      · exact past
      · rintro rfl
        rw [inv.ahead _ (by omega)] at past
        cases past
  | @cancel i dropped call found =>
    obtain same | ⟨-, same⟩ := cancelCall_eq w i dropped
    · exact same ▸ past
    · exact same ▸ past
  | _ => exact past

theorem stepped_handed {w' : World} {a : Action} (h : Stepped w a w') {snapshot : SessionSnapshot}
    (mem : snapshot ∈ w'.handed) : snapshot ∈ w.handed ∨ snapshot = w.session.snapshot := by
  cases h with
  | @perform operation x outcome => exact .inl ((enter_spec w operation x).handed ▸ mem)
  | beginSave => exact (List.mem_append.mp mem).imp_right List.mem_singleton.mp
  | @cancel i dropped call found =>
    obtain same | ⟨-, same⟩ := cancelCall_eq w i dropped
    · rw [same] at mem
      exact .inl mem
    · rw [same] at mem
      exact .inl mem
  | _ => exact .inl mem

theorem run_history (start : Refining base w₀) (kept : NoDelete actions)
    {revision : Nat} {snapshot : SessionSnapshot} (past : w₀.history revision = some snapshot)
    (h : run step w₀ actions = some w) : w.history revision = some snapshot := by
  refine (run_invariant (I := fun w => Refining base w ∧ w.history revision = some snapshot)
    ?_ ⟨start, past⟩ (along_of_forall kept) h).2
  intro v a v' inv kept h
  exact ⟨stepped_refining inv.1 (stepped h) kept, stepped_history inv.1 (stepped h) inv.2⟩

/-- A snapshot handed over is the one of some state on the way. -/
theorem run_handed (h : run step w₀ actions = some w) {snapshot : SessionSnapshot}
    (mem : snapshot ∈ w.handed) : snapshot ∈ w₀.handed ∨
      ∃ earlier later w₁, actions = earlier ++ later ∧ run step w₀ earlier = some w₁ ∧
        w₁.session.snapshot = snapshot := by
  induction actions generalizing w₀ with
  | nil =>
    cases h
    exact .inl mem
  | cons a rest ih =>
    obtain ⟨w₁, first, later⟩ := run_cons_eq_some.mp h
    obtain old | ⟨before, after, w₂, split, reached, same⟩ := ih later
    · apply (stepped_handed (stepped first) old).imp_right
      intro now
      exact ⟨[], a :: rest, w₀, rfl, rfl, now.symm⟩
    · refine .inr ⟨a :: before, after, w₂, by rw [split, List.cons_append], ?_, same⟩
      exact run_cons_eq_some.mpr ⟨w₁, first, reached⟩

/-- What the repository was handed and holds, against the states the Session went through. -/
structure RefinesRuntime (session : Session) (record : Option SessionSnapshot)
    (actions : List Action) (w : World) : Prop where
  /-- A snapshot is the state at some point of the run, and at every point with its revision. -/
  handed : ∀ snapshot ∈ w.handed,
    (∃ earlier later w₁, actions = earlier ++ later ∧
      run step (opened session record) earlier = some w₁ ∧ w₁.session.snapshot = snapshot) ∧
    ∀ earlier later w₁, actions = earlier ++ later →
      run step (opened session record) earlier = some w₁ →
      w₁.session.runtimeRevision = snapshot.revision → w₁.session.snapshot = snapshot
  stored : Ordered w.stored w.record
  /-- An operation that changed the Session and returned has its change in a stored record. -/
  returned : ∀ earlier operation later w₁ x, actions = earlier ++ .perform operation :: later →
    run step (opened session record) earlier = some w₁ →
    operation.outcome w₁.session w₁.run = some (.ok x) → x.session ≠ w₁.session →
    ∀ reply asked, (w₁.nextCall, reply, asked) ∈ w.returned →
      ∃ stored ∈ w.stored, stored ∈ w.handed ∧ x.session.runtimeRevision ≤ stored.revision

/-- Two inputs; the save of the second covers the first. -/
def coalescedRun : List Action := [
  .perform (.enqueue .steer greeting "first"), .perform (.enqueue .followUp greeting "second"),
  .beginSave 1, .commitJob 1, .finishJob 1 false, .resume 1, .notify 1 false, .skipSave 0]

end Runs

end RoboAgent.SessionRefinement
