import RoboAgent.PatchRollback

/-! The handler's ledger against the disk. A sound ledger stays sound through every rollback; a
target that was linked but never booked stays on disk and is recorded as unchanged. Both are
instances of an invariant that a settlement keeps however it is driven. -/

namespace RoboAgent.PatchLedger
open RoboAgent.FalliblePrograms RoboAgent.PatchSettlement RoboAgent.PatchRollback

variable {digest : Bytes → String} {faults : Nat → Option OsError} {plans : List Plan}

def holdsBefore (s : Settlement) (plan : Plan) : Prop := s.disk plan.target = plan.beforeFile

def holdsAfter (s : Settlement) (plan : Plan) : Prop :=
  (s.disk plan.target).map File.data = plan.after

/-- The bookkeeping agrees with the disk: exactly the committed plans that are not yet put back
have their after bytes, and only committed plans are recorded as committed or unknown. -/
structure Sound (plans : List Plan) (s : Settlement) : Prop where
  distinct : (plans.map Plan.path).Nodup
  planned : ∀ plan ∈ s.committed, plan ∈ plans
  after : ∀ plan ∈ s.committed, settledIn s plan = false → holdsAfter s plan
  before : ∀ plan ∈ plans, (plan ∈ s.committed → settledIn s plan = true) → holdsBefore s plan
  booked : ∀ plan ∈ plans, ∀ state, s.states plan.path = some state → state.settled = false →
    plan ∈ s.committed

theorem Sound.eq_of_path {s : Settlement} (sound : Sound plans s) {plan other : Plan}
    (hp : plan ∈ plans) (ho : other ∈ plans) (h : other.path = plan.path) : other = plan :=
  List.inj_on_of_nodup_map sound.distinct ho hp h

theorem Sound.agree {s s' : Settlement} (sound : Sound plans s) (h : Agree s s') :
    Sound plans s' where
  distinct := sound.distinct
  planned plan hp := sound.planned plan (h.committed ▸ hp)
  after plan hp settled := by
    rw [settledIn, h.states] at settled
    rw [holdsAfter, Plan.target, h.disk]
    exact sound.after plan (h.committed ▸ hp) settled
  before plan hp settled := by
    rw [settledIn, h.states, h.committed] at settled
    rw [holdsBefore, Plan.target, h.disk]
    exact sound.before plan hp settled
  booked plan hp state recorded := by
    rw [h.states] at recorded
    rw [h.committed]
    exact sound.booked plan hp state recorded

/-- A plan that was rolled back holds its before file if it is recorded as settled, and its after
bytes if it is not: a committed deletion that was not put back has no file to be found. -/
theorem Sound.rolledBack_self {s s' : Settlement} (sound : Sound plans s) {plan : Plan}
    (committed : plan ∈ s.committed) (h : RolledBack plan s s') :
    (settledIn s' plan = true → holdsBefore s' plan) ∧
      (settledIn s' plan = false → holdsAfter s' plan) := by
  cases h with
  | kept settled frame =>
    have moved := sound.agree frame.toAgree
    rw [← frame.committed] at committed
    exact ⟨fun h => moved.before plan (moved.planned plan committed) fun _ => h,
      moved.after plan committed⟩
  | restored _ frame =>
    refine ⟨fun _ => (frame.disk plan.path).trans (setTarget_disk_self s plan.path _), ?_⟩
    simp [settledIn, frame.states, TargetState.settled]
  | unchanged pending deleted present frame =>
    have after := sound.after plan committed pending
    rw [holdsAfter, deleted, Option.map_eq_none_iff] at after
    rw [after] at present
    cases present
  | uncertain pending state unsettled frame =>
    refine ⟨?_, fun _ => ?_⟩
    · simp [settledIn, frame.states, unsettled]
    · rw [holdsAfter, Plan.target, frame.disk]
      exact sound.after plan committed pending

/-- The invariant survives a change to one plan's target and record that agree with each other. -/
theorem Sound.change_at {s s' : Settlement} (sound : Sound plans s) {plan : Plan}
    (planned : plan ∈ plans) (committed : s'.committed = s.committed)
    (disk_other : ∀ other : Plan, other.path ≠ plan.path →
      s'.disk other.target = s.disk other.target)
    (states_other : ∀ other : Plan, other.path ≠ plan.path →
      s'.states other.path = s.states other.path)
    (before : (plan ∈ s.committed → settledIn s' plan = true) → holdsBefore s' plan)
    (after : plan ∈ s.committed → settledIn s' plan = false → holdsAfter s' plan)
    (booked : plan ∉ s.committed → settledIn s' plan = true) : Sound plans s' := by
  have settled_other : ∀ other : Plan, other.path ≠ plan.path →
      settledIn s' other = settledIn s other := fun other ne =>
    congrArg (Option.any TargetState.settled) (states_other other ne)
  refine ⟨sound.distinct, committed ▸ sound.planned, ?_, ?_, ?_⟩
  · intro other ho pending
    rw [committed] at ho
    by_cases same : other.path = plan.path
    · obtain rfl := sound.eq_of_path planned (sound.planned other ho) same
      exact after ho pending
    · rw [holdsAfter, disk_other other same]
      exact sound.after other ho (settled_other other same ▸ pending)
  · intro other ho settled
    rw [committed] at settled
    by_cases same : other.path = plan.path
    · obtain rfl := sound.eq_of_path planned ho same
      exact before settled
    · rw [holdsBefore, disk_other other same]
      rw [settled_other other same] at settled
      exact sound.before other ho settled
  · intro other ho state recorded unsettled
    rw [committed]
    by_cases same : other.path = plan.path
    · obtain rfl := sound.eq_of_path planned ho same
      by_contra unbooked
      have := booked unbooked
      rw [settledIn, recorded, Option.any_some, unsettled] at this
      cases this
    · rw [states_other other same] at recorded
      exact sound.booked other ho state recorded unsettled

theorem Sound.rolledBack {s s' : Settlement} (sound : Sound plans s) {plan : Plan}
    (committed : plan ∈ s.committed) (h : RolledBack plan s s') : Sound plans s' := by
  obtain ⟨settledBefore, pendingAfter⟩ := sound.rolledBack_self committed h
  exact sound.change_at (sound.planned plan committed) h.committed (fun _ ne => h.disk_other ne)
    (fun _ ne => h.states_other ne) (fun settled => settledBefore (settled committed))
    (fun _ => pendingAfter) fun unbooked => absurd committed unbooked

theorem Sound.default_unchanged {s : Settlement} (sound : Sound plans s) {plan : Plan}
    (planned : plan ∈ plans) (unbooked : plan ∉ s.committed) :
    Sound plans (setState s plan.path .unchanged) :=
  sound.change_at planned rfl (fun _ _ => rfl) (fun _ ne => setState_states_of_ne ne)
    (fun _ => sound.before plan planned fun h => absurd h unbooked)
    (fun h => absurd h unbooked) fun _ => by simp [settledIn, TargetState.settled]

/-- A rollback has run from `s`: every plan has a recorded state, and the rest is as it was. -/
structure Rolled (plans : List Plan) (s s' : Settlement) : Prop where
  committed : s'.committed = s.committed
  failure : s'.failure = s.failure
  forced : s'.forced = s.forced
  recorded : ∀ plan ∈ plans, (s'.states plan.path).isSome = true

/-- A rollback keeps what undoing one committed plan keeps, and what recording a plan as unchanged
keeps once every committed plan has a recorded state. -/
theorem rollback_spec {invariant : Settlement → Prop} (s : Settlement) (start : invariant s)
    (step : ∀ plan ∈ s.committed, ∀ t t', t.committed = s.committed → RolledBack plan t t' →
      invariant t → invariant t')
    (default : ∀ plan ∈ plans, ∀ t, t.committed = s.committed →
      (∀ done ∈ s.committed, (t.states done.path).isSome = true) → t.states plan.path = none →
      invariant t → invariant (setState t plan.path .unchanged)) :
    Triple (· = s) (rollback digest faults plans)
      (fun _ s' => invariant s' ∧ Rolled plans s s') fun _ _ => False := by
  refine triple_get_bind ?_
  rintro s rfl
  let kept (t : Settlement) : Prop := invariant t ∧ t.committed = s.committed ∧
    t.failure = s.failure ∧ t.forced = s.forced
  refine triple_bind (M := fun _ t => kept t ∧
    ∀ done ∈ s.committed.reverse, (t.states done.path).isSome = true) ?_ fun _ => ?_
  · refine triple_consequence (triple_forM (R := fun _ _ => False)
      (fun done _ t => kept t ∧ ∀ plan ∈ done, (t.states plan.path).isSome = true) _ ?_)
      (fun t ht => ⟨ht ▸ ⟨start, rfl, rfl, rfl⟩, nofun⟩) (fun _ _ h => h) fun _ _ h => h
    intro done plan rest split
    refine triple_pointwise fun t ⟨⟨held, committed, failure, forced⟩, recorded⟩ => ?_
    refine triple_consequence (rollbackPlan_spec t plan) (fun _ h => h) ?_ fun _ _ h => h
    intro _ t' h
    have member : plan ∈ s.committed := by
      rw [← List.mem_reverse, split]
      simp
    refine ⟨⟨step plan member t t' committed h held, h.committed.trans committed,
      h.failure.trans failure, h.forced.trans forced⟩, fun other ho => ?_⟩
    rcases List.mem_append.mp ho with ho | ho
    · exact h.recorded_mono other.path (recorded other ho)
    · exact List.mem_singleton.mp ho ▸ h.recorded
  · refine triple_consequence (triple_forM (R := fun _ _ => False)
      (fun done _ t => (kept t ∧ ∀ plan ∈ s.committed, (t.states plan.path).isSome = true) ∧
        ∀ plan ∈ done, (t.states plan.path).isSome = true) plans ?_)
      (fun t ht => ⟨⟨ht.1, fun plan hp => ht.2 plan (List.mem_reverse.mpr hp)⟩, nofun⟩)
      (fun _ t h => ⟨h.1.1.1, h.1.1.2.1, h.1.1.2.2.1, h.1.1.2.2.2, h.2⟩) fun _ _ h => h
    intro done plan rest split
    refine triple_get_bind fun t ⟨⟨⟨held, committed, failure, forced⟩, booked⟩, recorded⟩ => ?_
    have member : plan ∈ plans := by
      rw [split]
      simp
    split
    · have absent : t.states plan.path = none := Option.isNone_iff_eq_none.mp ‹_›
      have grown : ∀ path, (t.states path).isSome = true →
          ((setState t plan.path .unchanged).states path).isSome = true := by
        intro path had
        by_cases same : path = plan.path
        · simp [same]
        · rwa [setState_states_of_ne same]
      rintro _ rfl
      refine ⟨⟨⟨default plan member _ committed booked absent held, committed, failure, forced⟩,
        fun other ho => grown _ (booked other ho)⟩, fun other ho => ?_⟩
      rcases List.mem_append.mp ho with ho | ho
      · exact grown _ (recorded other ho)
      · exact List.mem_singleton.mp ho ▸ by simp
    · rintro _ rfl
      refine ⟨⟨⟨held, committed, failure, forced⟩, booked⟩, fun other ho => ?_⟩
      rcases List.mem_append.mp ho with ho | ho
      · exact recorded other ho
      · rw [List.mem_singleton.mp ho]
        exact Option.isSome_iff_ne_none.mpr fun h => ‹¬_› (Option.isNone_iff_eq_none.mpr h)

theorem sound_rollback {s : Settlement} (sound : Sound plans s) :
    Triple (· = s) (rollback digest faults plans)
      (fun _ s' => Sound plans s' ∧ Rolled plans s s') fun _ _ => False := by
  refine rollback_spec s sound ?_ ?_
  · intro plan hp t t' committed h held
    exact held.rolledBack (committed ▸ hp) h
  · intro plan hp t committed booked absent held
    refine held.default_unchanged hp fun h => ?_
    have := booked plan (committed ▸ h)
    rw [absent] at this
    cases this

/-- What one plan's recorded state cannot be trusted for: its added file is on disk, the handler
has not booked it, and a rollback will call it unchanged. -/
structure Misled (plan : Plan) (s : Settlement) : Prop where
  added : plan.beforeFile = none
  linked : (s.disk plan.target).isSome = true
  unbooked : ∀ other ∈ s.committed, other.path ≠ plan.path
  silent : s.states plan.path = none ∨ s.states plan.path = some .unchanged

theorem Misled.agree {s s' : Settlement} {plan : Plan} (h : Misled plan s) (same : Agree s s') :
    Misled plan s' where
  added := h.added
  linked := by
    rw [Plan.target, same.disk]
    exact h.linked
  unbooked := same.committed ▸ h.unbooked
  silent := same.states ▸ h.silent

theorem misled_rollback {s : Settlement} {plan : Plan} (misled : Misled plan s) :
    Triple (· = s) (rollback digest faults plans)
      (fun _ s' => Misled plan s' ∧ Rolled plans s s') fun _ _ => False := by
  refine rollback_spec s misled ?_ ?_
  · intro other ho t t' committed h held
    have ne : plan.path ≠ other.path := (held.unbooked other (committed ▸ ho)).symm
    exact ⟨held.added, h.disk_other ne ▸ held.linked, h.committed ▸ held.unbooked,
      h.states_other ne ▸ held.silent⟩
  · intro other _ t _ _ _ held
    refine ⟨held.added, held.linked, held.unbooked, ?_⟩
    by_cases same : plan.path = other.path
    · exact .inr (by simp [same])
    · rw [setState_states_of_ne same]
      exact held.silent

def Recorded (plans : List Plan) (s : Settlement) : Prop :=
  ∀ plan ∈ plans, (s.states plan.path).isSome = true

/-- An invariant of the targets and the records that every rollback keeps. -/
structure Settling (digest : Bytes → String) (faults : Nat → Option OsError) (plans : List Plan)
    (invariant : Settlement → Prop) : Prop where
  agree : ∀ s s', invariant s → Agree s s' → invariant s'
  rolled : ∀ s, invariant s → Triple (· = s) (rollback digest faults plans)
    (fun _ s' => invariant s' ∧ Rolled plans s s') fun _ _ => False

theorem sound_settling : Settling digest faults plans (Sound plans) :=
  ⟨fun _ _ h same => h.agree same, fun _ h => sound_rollback h⟩

theorem misled_settling (plan : Plan) : Settling digest faults plans (Misled plan) :=
  ⟨fun _ _ h same => h.agree same, fun _ h => misled_rollback h⟩

namespace Settling

variable {invariant : Settlement → Prop} (settling : Settling digest faults plans invariant)
include settling

/-- A rollback followed by a cleanup and the completeness check, however they end. -/
theorem converge {s : Settlement} (h : invariant s) :
    Triple (· = s)
      (do rollback digest faults plans; cleanupStaged faults plans; raiseIfIncomplete plans)
      (fun _ s' => invariant s' ∧ Recorded plans s' ∧ s'.failure = s.failure ∧ s'.forced = s.forced)
      (fun _ s' => invariant s' ∧ Recorded plans s') := by
  have moved : ∀ t t', (invariant t ∧ Rolled plans s t) → Frame t t' →
      invariant t' ∧ Recorded plans t' ∧ t'.failure = s.failure ∧ t'.forced = s.forced :=
    fun t t' ht frame => ⟨settling.agree t t' ht.1 frame.toAgree,
      fun plan hp => frame.states ▸ ht.2.recorded plan hp,
      frame.failure.trans ht.2.failure, frame.forced.trans ht.2.forced⟩
  refine triple_bind (triple_consequence (settling.rolled s h) (fun _ h => h) (fun _ _ h => h)
    fun _ _ h => h.elim) fun _ => triple_pointwise fun t ht => ?_
  refine triple_bind (M := fun _ => Frame t) ?_ fun _ => triple_pointwise fun u hu => ?_
  · exact triple_consequence (cleanupStaged_spec t) (fun _ h => h ▸ Frame.refl t)
      (fun _ _ h => h) fun _ t' h => ⟨(moved t t' ht h.2).1, (moved t t' ht h.2).2.1⟩
  · exact triple_consequence (raiseIfIncomplete_spec u) (fun _ h => h)
      (fun _ t' h => moved t t' ht (hu.trans h))
      fun _ t' h => ⟨(moved t t' ht (hu.trans h)).1, (moved t t' ht (hu.trans h)).2.1⟩

theorem forceSettle_spec :
    Triple invariant (forceSettle digest faults plans)
      (fun _ s' => invariant s' ∧ Recorded plans s' ∧ s'.forced = true)
      (fun _ s' => invariant s' ∧ Recorded plans s') := by
  refine triple_bind (M := fun _ s => invariant s ∧ s.forced = true)
    (triple_modify fun s h => ⟨settling.agree s _ h ⟨fun _ => rfl, rfl, rfl⟩, rfl⟩)
    fun _ => triple_pointwise fun s h => ?_
  exact triple_consequence (settling.converge h.1) (fun _ h => h)
    (fun _ _ h' => ⟨h'.1, h'.2.1, h'.2.2.2.trans h.2⟩) fun _ _ h' => h'

theorem settle_spec {s : Settlement} (h : invariant s) (failed : s.failure.isSome = true) :
    Triple (· = s) (settle digest faults plans)
      (fun _ s' => invariant s' ∧ Recorded plans s' ∧ s'.failure.isSome = true)
      (fun _ s' => invariant s' ∧ Recorded plans s') := by
  refine triple_get_bind ?_
  rintro s rfl
  rw [if_pos failed]
  exact triple_consequence (settling.converge h) (fun _ h => h)
    (fun _ _ h' => ⟨h'.1, h'.2.1, h'.2.2.1 ▸ failed⟩) fun _ _ h' => h'

/-- Unless the handler has nothing to undo, a driven settlement ends with every plan recorded. -/
theorem driveSettlement_spec (stalled : Bool) {s : Settlement} (h : invariant s)
    (undoing : stalled = true ∨ s.failure.isSome = true) :
    Triple (· = s) (driveSettlement digest faults stalled plans)
      (fun _ s' => invariant s' ∧ Recorded plans s' ∧
        (s'.forced = true ∨ s'.failure.isSome = true))
      (fun _ s' => invariant s' ∧ Recorded plans s') := by
  have uncertain : Triple (fun s => invariant s ∧ Recorded plans s) markUncertain
      (fun _ s => invariant s ∧ Recorded plans s) (fun _ s => invariant s ∧ Recorded plans s) :=
    triple_modify fun s h => ⟨settling.agree s _ h.1 ⟨fun _ => rfl, rfl, rfl⟩, h.2⟩
  refine triple_tryCatch (C := fun _ => invariant) ?_ fun error => ?_
  · cases stalled with
    | true => exact triple_throw fun _ hs => hs ▸ h
    | false =>
      refine triple_consequence (settling.settle_spec h (undoing.resolve_left nofun))
        (fun _ h => h) (fun _ _ h => ⟨h.1, h.2.1, .inr h.2.2⟩) fun _ _ h => h.1
  · split
    · refine triple_tryCatch (triple_consequence settling.forceSettle_spec (fun _ h => h)
        (fun _ _ h => ⟨h.1, h.2.1, .inl h.2.2⟩) fun _ _ h => h) fun _ => ?_
      exact triple_bind uncertain fun _ => triple_throw fun _ h => h
    · refine triple_bind (M := fun _ s => invariant s ∧ Recorded plans s)
        (triple_tryCatch (triple_consequence settling.forceSettle_spec (fun _ h => h)
          (fun _ _ h => ⟨h.1, h.2.1⟩) fun _ _ h => h) fun _ => uncertain)
        fun _ => triple_throw fun _ h => h

end Settling

end RoboAgent.PatchLedger
