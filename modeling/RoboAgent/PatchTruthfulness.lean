import RoboAgent.PatchCommit

/-! What apply_patch reports against what is on disk, under every pattern of primitive faults.
The report is truthful exactly when no fault hits the unlink of an added file's staged copy after a
commit that went well up to there: such a target is linked but not booked. -/

namespace RoboAgent.PatchTruthfulness
open RoboAgent.FalliblePrograms RoboAgent.PatchSettlement RoboAgent.PatchRollback
open RoboAgent.PatchLedger RoboAgent.PatchCommit

variable {digest : Bytes → String} {faults : Nat → Option OsError} {plans : List Plan}

/-- What apply_patch says about its targets is so: what is recorded as put back or reported by no
effect has its before bytes, what is reported as succeeded has its after bytes, and so has every
target if the outcome is a success. -/
structure Truthful (plans : List Plan) (outcome : Outcome) (s : Settlement) : Prop where
  recorded : ∀ plan ∈ plans, settledIn s plan = true →
    (s.disk plan.target).map File.data = plan.before
  unreported : ∀ plan ∈ plans, (∀ report ∈ outcome.effects, report.plan ≠ plan) →
    (s.disk plan.target).map File.data = plan.before
  succeeded : ∀ report ∈ outcome.effects, report.effect.status = .succeeded →
    (s.disk report.plan.target).map File.data = report.plan.after
  completed : ∀ effects, outcome = .completed effects →
    ∀ plan ∈ plans, (s.disk plan.target).map File.data = plan.after

variable {toolCallId : Option String}

theorem holdsBefore_bytes {s : Settlement} {plan : Plan} (h : holdsBefore s plan) :
    (s.disk plan.target).map File.data = plan.before := congrArg (Option.map File.data) h

theorem failureEffect_eq_none_iff {s : Settlement} {plan : Plan}
    (recorded : (s.states plan.path).isSome = true) :
    failureEffect toolCallId s plan = none ↔ settledIn s plan = true := by
  obtain ⟨state, found⟩ := Option.isSome_iff_exists.mp recorded
  simp only [failureEffect, settledIn, found, Option.getD_some, Option.any_some]
  cases state <;> simp [TargetState.settled]

theorem failureEffect_succeeded {s : Settlement} {plan : Plan} {report : ReportedEffect}
    (h : failureEffect toolCallId s plan = some report) :
    report.plan = plan ∧
      (report.effect.status = .succeeded → s.states plan.path = some .committed) := by
  rw [failureEffect] at h
  cases found : s.states plan.path with
  | none =>
    simp only [found, Option.getD_none, Option.some.injEq] at h
    subst h
    exact ⟨rfl, nofun⟩
  | some state =>
    rw [found, Option.getD_some] at h
    cases state with
    | committed =>
      cases h
      exact ⟨rfl, fun _ => rfl⟩
    | unknown =>
      cases h
      exact ⟨rfl, nofun⟩
    | restored => cases h
    | unchanged => cases h

theorem settled_of_complete {s : Settlement} (recorded : Recorded plans s)
    (complete : s.incomplete plans = false) {plan : Plan} (hp : plan ∈ plans) :
    settledIn s plan = true := by
  obtain ⟨state, found⟩ := Option.isSome_iff_exists.mp (recorded plan hp)
  rw [Settlement.incomplete, List.any_eq_false] at complete
  have := complete plan hp
  rw [found, Option.any_some, Bool.not_eq_true, Bool.not_eq_false'] at this
  rw [settledIn, found, Option.any_some, this]

/-- The outcome reports the recorded states of a rollback: failure effects for the plans that were
not put back, or no effect when there is none. -/
structure ReportsRollback (toolCallId : Option String) (plans : List Plan) (s : Settlement)
    (outcome : Outcome) : Prop where
  effects : outcome.effects = failureEffects toolCallId s plans ∨
    (outcome.effects = [] ∧ s.incomplete plans = false)
  unsuccessful : ∀ effects, outcome ≠ .completed effects

theorem settlementErrorOutcome_reports (s : Settlement) (error : Raised) :
    ReportsRollback toolCallId plans s (settlementErrorOutcome toolCallId s plans error) := by
  unfold settlementErrorOutcome
  cases incomplete : s.incomplete plans with
  | true => exact ⟨.inl rfl, nofun⟩
  | false =>
    rw [if_neg Bool.false_ne_true]
    split_ifs
    · exact ⟨.inr ⟨rfl, incomplete⟩, nofun⟩
    · exact ⟨.inr ⟨rfl, incomplete⟩, nofun⟩

theorem finishedOutcome_reports {s : Settlement}
    (stopped : s.forced = true ∨ s.failure.isSome = true) :
    ReportsRollback toolCallId plans s (finishedOutcome digest toolCallId s plans) := by
  unfold finishedOutcome
  cases incomplete : s.incomplete plans with
  | true => exact ⟨.inl rfl, nofun⟩
  | false =>
    rw [if_neg Bool.false_ne_true]
    split_ifs with forced failure
    · exact ⟨.inr ⟨rfl, incomplete⟩, nofun⟩
    · exact ⟨.inr ⟨rfl, incomplete⟩, nofun⟩
    · exact absurd stopped (not_or.mpr ⟨forced, failure⟩)

theorem cancelledOutcome_reports {s : Settlement}
    (stopped : s.forced = true ∨ s.failure.isSome = true) :
    ReportsRollback toolCallId plans s (cancelledOutcome digest toolCallId s plans) := by
  have undone : (s.failure.isNone && !s.forced && s.committed.length == plans.length) = false := by
    rcases stopped with forced | failure
    · simp [forced]
    · simp [Option.isNone_eq_false_iff.mpr failure]
  unfold cancelledOutcome
  rw [undone, if_neg Bool.false_ne_true]
  cases incomplete : s.incomplete plans with
  | true => exact ⟨.inl rfl, nofun⟩
  | false => exact ⟨.inr ⟨rfl, incomplete⟩, nofun⟩

/-- After a rollback the ledger is reported truthfully, by failure effects or by none. -/
theorem truthful_of_recorded {s : Settlement} {outcome : Outcome} (sound : Sound plans s)
    (recorded : Recorded plans s) (report : ReportsRollback toolCallId plans s outcome) :
    Truthful plans outcome s where
  recorded plan hp settled := holdsBefore_bytes (sound.before plan hp fun _ => settled)
  unreported plan hp silent := by
    refine holdsBefore_bytes (sound.before plan hp fun _ => ?_)
    rcases report.effects with effects | ⟨_, complete⟩
    · have silentEffect : failureEffect toolCallId s plan = none ↔ settledIn s plan = true :=
        failureEffect_eq_none_iff (recorded plan hp)
      rw [← silentEffect, Option.eq_none_iff_forall_ne_some]
      intro reported h
      refine silent reported ?_ (failureEffect_succeeded h).1
      rw [effects]
      exact List.mem_filterMap.mpr ⟨plan, hp, h⟩
    · exact settled_of_complete recorded complete hp
  succeeded reported hr status := by
    rcases report.effects with effects | ⟨effects, _⟩
    · rw [effects] at hr
      obtain ⟨plan, hp, h⟩ := List.mem_filterMap.mp hr
      obtain ⟨rfl, committed⟩ := failureEffect_succeeded h
      refine sound.after reported.plan (sound.booked _ hp .committed (committed status) rfl) ?_
      rw [settledIn, committed status]
      rfl
    · rw [effects] at hr
      cases hr
  completed effects same := absurd same (report.unsuccessful effects)

theorem truthful_of_committed (digest : Bytes → String) (toolCallId : Option String)
    {s : Settlement} {outcome : Outcome} (h : Committing plans plans [] s)
    (effects : outcome.effects = plans.map (successEffect digest toolCallId)) :
    Truthful plans outcome s where
  recorded plan _ settled := by simp [settledIn, h.states] at settled
  unreported plan hp silent := by
    refine absurd rfl (silent (successEffect digest toolCallId plan) ?_)
    rw [effects]
    exact List.mem_map_of_mem hp
  succeeded report hr _ := by
    rw [effects] at hr
    obtain ⟨plan, hp, rfl⟩ := List.mem_map.mp hr
    exact h.after plan hp
  completed _ _ := h.after

theorem not_truthful_of_misled {s : Settlement} {outcome : Outcome} {plan : Plan}
    (hp : plan ∈ plans) (misled : Misled plan s) (recorded : Recorded plans s) :
    ¬Truthful plans outcome s := by
  intro truthful
  have unchanged : s.states plan.path = some .unchanged :=
    misled.silent.resolve_left (Option.isSome_iff_ne_none.mp (recorded plan hp))
  have before := truthful.recorded plan hp (by rw [settledIn, unchanged]; rfl)
  rw [Plan.before, misled.added, Option.map_none, Option.map_eq_none_iff] at before
  have linked := misled.linked
  rw [before] at linked
  cases linked

/-- With everything booked and no stall, settling has nothing to do. -/
theorem driveSettlement_committed {s : Settlement} (h : Committing plans plans [] s) :
    exec (driveSettlement digest faults false plans) s = (.ok (), s) := by
  have cleanup : Triple (· = s) (cleanupStaged faults plans) (fun _ s' => s' = s)
      (fun _ _ => False) := by
    refine triple_forM (fun _ _ s' => s' = s) plans fun done plan rest split => triple_get_bind ?_
    rintro s rfl
    rw [h.unstaged plan (by rw [split]; simp)]
    exact triple_pure fun _ h => h
  have complete : s.incomplete plans = false := by
    simp [Settlement.incomplete, h.states]
  have quiet : Triple (· = s) (driveSettlement digest faults false plans)
      (fun _ s' => s' = s) (fun _ _ => False) := by
    refine triple_tryCatch (C := fun _ _ => False) (triple_get_bind ?_) fun _ _ h => h.elim
    rintro s rfl
    rw [h.failure, Option.isSome_none, if_neg Bool.false_ne_true]
    refine triple_bind cleanup fun _ => triple_get_bind ?_
    rintro s rfl
    rw [complete]
    exact triple_pure fun _ h => h
  have outcome := quiet s rfl
  generalize exec (driveSettlement digest faults false plans) s = result at outcome
  rcases result with ⟨_ | _, s'⟩
  · exact outcome.elim
  · rw [outcome]

section Report

variable (digest : Bytes → String) (toolCallId : Option String)
variable (faults : Nat → Option OsError) (stalled cancelled : Bool)

theorem settleAndReport_spec {before done failed : Settlement → Prop}
    {report : Outcome → Settlement → Prop}
    (drive : Triple before (driveSettlement digest faults stalled plans) (fun _ => done)
      fun _ => failed)
    (finished : ∀ s, done s → report (finishedOutcome digest toolCallId s plans) s)
    (interrupted : ∀ s, done s → report (cancelledOutcome digest toolCallId s plans) s)
    (raised : ∀ s error, failed s → report (settlementErrorOutcome toolCallId s plans error) s) :
    Triple before (settleAndReport digest toolCallId faults stalled cancelled plans) report
      fun _ _ => False := by
  refine triple_bind (triple_attempt drive) fun settlement => triple_get_bind fun s hs => ?_
  cases settlement with
  | error error => exact triple_pure fun t ht => ht ▸ raised s error hs
  | ok _ =>
    cases cancelled with
    | true => exact triple_pure fun t ht => ht ▸ interrupted s hs
    | false => exact triple_pure fun t ht => ht ▸ finished s hs

/-- Where the commit phase leaves the handler. -/
inductive CommitPhase (start : Nat) (plans : List Plan) (s : Settlement) : Prop
  | booked (clear : stagedUnlinkFaults faults start plans = false)
      (committing : Committing plans plans [] s)
  | failed (clear : stagedUnlinkFaults faults start plans = false) (sound : Sound plans s)
      (failure : s.failure.isSome = true)
  | misled (hit : stagedUnlinkFaults faults start plans = true) (plan : Plan)
      (planned : plan ∈ plans) (misled : Misled plan s) (failure : s.failure.isSome = true)

theorem commitPhase_spec {s : Settlement} (prepared : Prepared plans s) :
    Triple (· = s)
      (tryCatch (commit faults plans) fun error => modify fun s => { s with failure := some error })
      (fun _ => CommitPhase faults s.calls plans) fun _ _ => False := by
  refine triple_tryCatch (triple_consequence (commit_spec prepared) (fun _ h => h)
    (fun _ _ h => .booked h.1 h.2) fun _ _ h => h) fun error => triple_modify ?_
  rintro t (⟨clear, sound⟩ | ⟨hit, plan, planned, misled⟩)
  · exact .failed clear (sound.agree ⟨fun _ => rfl, rfl, rfl⟩) rfl
  · exact .misled hit plan planned (misled.agree ⟨fun _ => rfl, rfl, rfl⟩) rfl

/-- A settlement that has something to undo is reported truthfully if the ledger is sound. -/
theorem settleAndReport_sound {s : Settlement} (sound : Sound plans s)
    (undoing : stalled = true ∨ s.failure.isSome = true) :
    Triple (· = s) (settleAndReport digest toolCallId faults stalled cancelled plans)
      (Truthful plans) fun _ _ => False := by
  refine settleAndReport_spec digest toolCallId faults stalled cancelled
    (sound_settling.driveSettlement_spec stalled sound undoing) ?_ ?_ ?_
  · exact fun t ⟨sound, recorded, stopped⟩ =>
      truthful_of_recorded sound recorded (finishedOutcome_reports stopped)
  · exact fun t ⟨sound, recorded, stopped⟩ =>
      truthful_of_recorded sound recorded (cancelledOutcome_reports stopped)
  · exact fun t error ⟨sound, recorded⟩ =>
      truthful_of_recorded sound recorded (settlementErrorOutcome_reports t error)

theorem settleAndReport_misled {s : Settlement} {plan : Plan} (planned : plan ∈ plans)
    (misled : Misled plan s) (failure : s.failure.isSome = true) :
    Triple (· = s) (settleAndReport digest toolCallId faults stalled cancelled plans)
      (fun outcome s' => ¬Truthful plans outcome s') fun _ _ => False :=
  settleAndReport_spec digest toolCallId faults stalled cancelled
    ((misled_settling plan).driveSettlement_spec stalled misled (.inr failure))
    (fun _ h => not_truthful_of_misled planned h.1 h.2.1)
    (fun _ h => not_truthful_of_misled planned h.1 h.2.1)
    fun _ _ h => not_truthful_of_misled planned h.1 h.2

/-- Everything was committed: the settlement reports the success, or is forced to roll back. -/
theorem settleAndReport_committed {s : Settlement} (committing : Committing plans plans [] s) :
    Triple (· = s) (settleAndReport digest toolCallId faults stalled cancelled plans)
      (Truthful plans) fun _ _ => False := by
  cases stalled with
  | true =>
    exact settleAndReport_sound digest toolCallId faults true cancelled committing.sound (.inl rfl)
  | false =>
    have complete : s.incomplete plans = false := by
      simp [Settlement.incomplete, committing.states]
    have drive : Triple (· = s) (driveSettlement digest faults false plans)
        (fun _ s' => s' = s) fun _ _ => False := by
      rintro _ rfl
      rw [driveSettlement_committed committing]
    refine settleAndReport_spec digest toolCallId faults false cancelled drive ?_ ?_ nofun
    · rintro _ rfl
      refine truthful_of_committed digest toolCallId committing ?_
      simp [finishedOutcome, complete, committing.forced, committing.failure, Outcome.effects]
    · rintro _ rfl
      refine truthful_of_committed digest toolCallId committing ?_
      simp [cancelledOutcome, committing.forced, committing.failure, committing.committed,
        Outcome.effects]

/-- apply_patch tells the truth about its targets exactly when no fault hits the unlink of an added
plan's staged file after a faultless commit up to there. -/
theorem applyPlans_truthful_iff (plans : List Plan) (s : Settlement)
    (prepared : Prepared plans s) :
    ∃ outcome s', exec (applyPlans digest toolCallId faults stalled cancelled plans) s =
        (.ok outcome, s') ∧
      (Truthful plans outcome s' ↔ stagedUnlinkFaults faults s.calls plans = false) := by
  have reported : Triple (· = s) (applyPlans digest toolCallId faults stalled cancelled plans)
      (fun outcome s' =>
        Truthful plans outcome s' ↔ stagedUnlinkFaults faults s.calls plans = false)
      fun _ _ => False := by
    refine triple_bind (commitPhase_spec faults prepared) fun _ => triple_pointwise fun t ht => ?_
    cases ht with
    | booked clear committing =>
      exact triple_consequence (settleAndReport_committed digest toolCallId faults stalled
        cancelled committing) (fun _ h => h) (fun _ _ h => iff_of_true h clear) fun _ _ h => h
    | failed clear sound failure =>
      exact triple_consequence (settleAndReport_sound digest toolCallId faults stalled
        cancelled sound (.inr failure)) (fun _ h => h) (fun _ _ h => iff_of_true h clear)
        fun _ _ h => h
    | misled hit plan planned misled failure =>
      exact triple_consequence (settleAndReport_misled digest toolCallId faults stalled
        cancelled planned misled failure) (fun _ h => h)
        (fun _ _ h => iff_of_false h (by simp [hit])) fun _ _ h => h
  have outcome := reported s rfl
  generalize exec (applyPlans digest toolCallId faults stalled cancelled plans) s = result
    at outcome ⊢
  rcases result with ⟨_ | outcome, s'⟩
  · exact outcome.elim
  · exact ⟨_, s', rfl, outcome⟩

end Report

/-- One added file, "x" and a newline. -/
def addedPlan : Plan := ⟨"file", .added [120, 10]⟩

def addedDigest (data : Bytes) : String :=
  if data = [120, 10] then
    "sha256:73cb3858a687a8494ca3323053016282f3dad39d42cf62ca4e79dda2aac7d9ac"
  else "sha256:"

def addedStart : Settlement where
  disk := Function.update (fun _ => none) (.temporary 0) (some ⟨[120, 10], 0o644⟩)
  calls := 0
  temporaries := 1
  staged := Function.update (fun _ => none) "file" (some 0)
  committed := []
  failure := none
  states := fun _ => none
  forced := false
  uncertain := false

theorem prepared_addedStart : Prepared [addedPlan] addedStart where
  distinct := by decide
  before plan hp := by
    rw [List.mem_singleton.mp hp]
    rfl
  staged plan hp data after := by
    rw [List.mem_singleton.mp hp] at after ⊢
    cases after
    exact ⟨0, 0o644, rfl, rfl⟩
  unstaged plan hp after := by
    rw [List.mem_singleton.mp hp] at after
    cases after
  separate plan hp other ho _ _ _ := by
    rw [List.mem_singleton.mp hp, List.mem_singleton.mp ho]
  committed := rfl
  failure := rfl
  states _ := rfl
  forced := rfl

theorem applyPlans_truthful_addedPlan :
    ∃ outcome s', exec (applyPlans addedDigest none (fun _ => none) false false [addedPlan])
        addedStart = (.ok outcome, s') ∧
      (Truthful [addedPlan] outcome s' ↔
        stagedUnlinkFaults (fun _ => none) addedStart.calls [addedPlan] = false) :=
  applyPlans_truthful_iff addedDigest none (fun _ => none) false false [addedPlan] addedStart
    prepared_addedStart

/-- Unlinking the staged file fails once: the added file stays, recorded as unchanged and reported
by no effect. -/
theorem applyPlans_stranded :
    Prepared [addedPlan] addedStart ∧
      ∃ outcome s', exec (applyPlans addedDigest none
          (fun n => if n = 1 then some .other else none) false false [addedPlan]) addedStart =
          (.ok outcome, s') ∧
        s'.states "file" = some .unchanged ∧ outcome.effects = [] ∧
        s'.disk (.target "file") = some ⟨[120, 10], 0o644⟩ ∧
        ¬Truthful [addedPlan] outcome s' := by
  refine ⟨prepared_addedStart, _, _, rfl, by decide, rfl, by decide, fun truthful => ?_⟩
  have before := truthful.recorded addedPlan List.mem_cons_self (by decide)
  exact absurd before (by decide)

end RoboAgent.PatchTruthfulness
