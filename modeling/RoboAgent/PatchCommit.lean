import RoboAgent.PatchLedger

/-! The commit loop of apply_patch. Primitive calls are counted, so the fault pattern alone says
where the commit stops and whether it stops between linking an added file and booking it. -/

namespace RoboAgent.PatchCommit
open RoboAgent.FalliblePrograms RoboAgent.PatchSettlement RoboAgent.PatchRollback
open RoboAgent.PatchLedger

variable {faults : Nat → Option OsError} {plans : List Plan}

/-- The commit reaches the unlink of an added plan's staged file without a fault, and that unlink
raises. The argument counts primitive calls: an addition makes two, the other plans make one. -/
def stagedUnlinkFaults (faults : Nat → Option OsError) : Nat → List Plan → Bool
  | _, [] => false
  | n, plan :: rest =>
    (faults n).isNone &&
      match plan.change with
      | .added _ => (faults (n + 1)).isSome || stagedUnlinkFaults faults (n + 2) rest
      | .modified .. | .deleted .. => stagedUnlinkFaults faults (n + 1) rest

/-- Plans on distinct targets in their before state, with what they need staged. -/
structure Ready (plans : List Plan) (s : Settlement) : Prop where
  distinct : (plans.map Plan.path).Nodup
  before : ∀ plan ∈ plans, holdsBefore s plan
  staged : ∀ plan ∈ plans, ∀ data, plan.after = some data → ∃ serial mode,
    s.staged plan.path = some serial ∧ s.disk (.temporary serial) = some ⟨data, mode⟩
  unstaged : ∀ plan ∈ plans, plan.after = none → s.staged plan.path = none
  separate : ∀ plan ∈ plans, ∀ other ∈ plans, ∀ serial, s.staged plan.path = some serial →
    s.staged other.path = some serial → plan.path = other.path

/-- A fresh handler over prepared plans. -/
structure Prepared (plans : List Plan) (s : Settlement) : Prop extends Ready plans s where
  committed : s.committed = []
  failure : s.failure = none
  states : ∀ path, s.states path = none
  forced : s.forced = false

def tick (s : Settlement) : Settlement := { s with calls := s.calls + 1 }

theorem primitive_exact (s : Settlement) :
    Triple (· = s) (primitive faults) (fun _ s' => faults s.calls = none ∧ s' = tick s)
      (fun _ s' => (faults s.calls).isSome = true ∧ s' = tick s) := by
  rintro s' rfl
  rw [exec_primitive]
  cases faults s'.calls with
  | none => exact ⟨rfl, rfl⟩
  | some error => exact ⟨rfl, rfl⟩

theorem link_exact {s : Settlement} {source target : Path} {file : File}
    (present : s.disk source = some file) (absent : s.disk target = none) :
    Triple (· = s) (link faults source target)
      (fun _ s' => faults s.calls = none ∧
        s' = { tick s with disk := Function.update s.disk target (some file) })
      (fun _ s' => (faults s.calls).isSome = true ∧ s' = tick s) := by
  refine triple_bind (primitive_exact s) fun _ => triple_get_bind ?_
  rintro _ ⟨clear, rfl⟩
  simp only [tick, present, absent]
  exact triple_modify fun t ht => ⟨clear, by rw [ht]⟩

theorem unlink_exact {s : Settlement} {path : Path} (present : (s.disk path).isSome = true) :
    Triple (· = s) (unlink faults path)
      (fun _ s' => faults s.calls = none ∧
        s' = { tick s with disk := Function.update s.disk path none })
      (fun _ s' => (faults s.calls).isSome = true ∧ s' = tick s) := by
  obtain ⟨file, held⟩ := Option.isSome_iff_exists.mp present
  refine triple_get_bind ?_
  rintro s rfl
  simp only [held]
  refine triple_bind (primitive_exact s) fun _ => triple_modify ?_
  rintro _ ⟨clear, rfl⟩
  exact ⟨clear, rfl⟩

theorem replace_exact {s : Settlement} {source target : Path} {file : File}
    (present : s.disk source = some file) :
    Triple (· = s) (replace faults source target)
      (fun _ s' => faults s.calls = none ∧ s' = { tick s with
        disk := Function.update (Function.update s.disk source none) target (some file) })
      (fun _ s' => (faults s.calls).isSome = true ∧ s' = tick s) := by
  refine triple_bind (primitive_exact s) fun _ => triple_get_bind ?_
  rintro _ ⟨clear, rfl⟩
  simp only [tick, present]
  rintro _ rfl
  exact ⟨clear, rfl⟩

/-- One plan's target was brought into its after state; nothing else moved but its staged file. -/
structure Moved (plan : Plan) (s s' : Settlement) : Prop where
  after : holdsAfter s' plan
  disk_other : ∀ other : Plan, other.path ≠ plan.path → s'.disk other.target = s.disk other.target
  temporary : ∀ serial, s.staged plan.path ≠ some serial →
    s'.disk (.temporary serial) = s.disk (.temporary serial)
  staged : s'.staged plan.path = none
  staged_other : ∀ path, path ≠ plan.path → s'.staged path = s.staged path
  committed : s'.committed = s.committed
  states : s'.states = s.states
  failure : s'.failure = s.failure
  forced : s'.forced = s.forced

theorem Ready.moved {plan : Plan} {rest : List Plan} {s s' : Settlement}
    (ready : Ready (plan :: rest) s) (h : Moved plan s s') : Ready rest s' := by
  obtain ⟨fresh, distinct⟩ := List.nodup_cons.mp ready.distinct
  have other_path : ∀ other ∈ rest, other.path ≠ plan.path := fun other ho same =>
    fresh (same ▸ List.mem_map_of_mem ho)
  have inside : ∀ other ∈ rest, other ∈ plan :: rest := fun other ho => List.mem_cons_of_mem plan ho
  refine ⟨distinct, fun other ho => ?_, fun other ho data after => ?_, fun other ho after => ?_,
    fun other ho third ht serial => ?_⟩
  · exact (h.disk_other other (other_path other ho)).trans (ready.before other (inside other ho))
  · obtain ⟨serial, mode, staged, held⟩ := ready.staged other (inside other ho) data after
    refine ⟨serial, mode, (h.staged_other _ (other_path other ho)).trans staged, ?_⟩
    rw [h.temporary serial fun same => other_path other ho ?_]
    · exact held
    · exact ready.separate other (inside other ho) plan List.mem_cons_self serial staged same
  · rw [h.staged_other _ (other_path other ho)]
    exact ready.unstaged other (inside other ho) after
  · rw [h.staged_other _ (other_path other ho), h.staged_other _ (other_path third ht)]
    exact ready.separate other (inside other ho) third (inside third ht) serial

/-- The commit stopped at this plan: it changed nothing, or it linked an added file that it then
did not book, and which of the two the fault pattern tells. -/
def Stopped (faults : Nat → Option OsError) (plan : Plan) (rest : List Plan)
    (s s' : Settlement) : Prop :=
  (stagedUnlinkFaults faults s.calls (plan :: rest) = false ∧ Frame s s') ∨
    (stagedUnlinkFaults faults s.calls (plan :: rest) = true ∧ plan.beforeFile = none ∧
      ∃ file, Frame (setTarget s plan.path (some file)) s')

theorem stopped_at_first {plan : Plan} {rest : List Plan} {s : Settlement}
    (fault : (faults s.calls).isSome = true) : Stopped faults plan rest s (tick s) := by
  refine .inl ⟨?_, frame_calls s _⟩
  rw [Option.isSome_iff_ne_none] at fault
  simp [stagedUnlinkFaults, fault]

/-- The handle of a staged file. -/
theorem stagedPath_exact {s : Settlement} {plan : Plan} {serial : Nat}
    (staged : s.staged plan.path = some serial) (R : Raised → Settlement → Prop) :
    Triple (· = s) (stagedPath plan) (fun path s' => path = .temporary serial ∧ s' = s) R := by
  refine triple_get_bind ?_
  rintro s rfl
  simp only [staged]
  exact triple_pure fun _ h => ⟨rfl, h⟩

theorem commitChange_spec {plan : Plan} {rest : List Plan} {s : Settlement}
    (ready : Ready (plan :: rest) s) :
    Triple (· = s) (commitChange faults plan)
      (fun _ s' => Moved plan s s' ∧ stagedUnlinkFaults faults s'.calls rest =
        stagedUnlinkFaults faults s.calls (plan :: rest))
      (fun _ => Stopped faults plan rest s) := by
  have before : s.disk plan.target = plan.beforeFile := ready.before plan List.mem_cons_self
  have staged := ready.staged plan List.mem_cons_self
  have unstaged := ready.unstaged plan List.mem_cons_self
  rw [commitChange]
  cases change : plan.change with
  | added after =>
    simp only [Plan.beforeFile, Plan.after, change, Option.some.injEq] at before staged unstaged
    obtain ⟨serial, mode, staged, held⟩ := staged after rfl
    refine triple_bind (stagedPath_exact staged _) fun path => triple_pointwise ?_
    rintro _ ⟨rfl, rfl⟩
    refine triple_bind (triple_consequence (link_exact held before) (fun _ h => h)
      (fun _ _ h => h) fun _ _ h => h.2 ▸ stopped_at_first h.1) fun _ => triple_pointwise ?_
    rintro _ ⟨clear, rfl⟩
    refine triple_bind (triple_consequence (unlink_exact ?_) (fun _ h => h) (fun _ _ h => h) ?_)
      fun _ => triple_modify ?_
    · simp [Plan.target, held]
    · rintro _ t ⟨fault, rfl⟩
      refine .inr ⟨?_, ?_, ⟨after, mode⟩, ?_⟩
      · simp_all [stagedUnlinkFaults, tick]
      · simp only [Plan.beforeFile, change]
      · exact ⟨⟨fun _ => rfl, rfl, rfl⟩, rfl, rfl⟩
    · rintro _ ⟨clearUnlink, rfl⟩
      refine ⟨⟨?_, fun other ne => ?_, fun n ne => ?_, ?_, fun path ne => ?_, rfl, rfl, rfl, rfl⟩, ?_⟩
      · simp [holdsAfter, Plan.after, change, Plan.target]
      · simp [Plan.target, ne]
      · have apart : n ≠ serial := fun same => ne (same ▸ staged)
        simp [Plan.target, apart]
      · simp
      · simp [ne, tick]
      · simp_all [stagedUnlinkFaults, tick]
  | modified held after mode =>
    simp only [Plan.after, change, Option.some.injEq] at staged
    obtain ⟨serial, mode, staged, held⟩ := staged after rfl
    refine triple_bind (stagedPath_exact staged _) fun path => triple_pointwise ?_
    rintro _ ⟨rfl, rfl⟩
    refine triple_bind (triple_consequence (replace_exact held) (fun _ h => h)
      (fun _ _ h => h) fun _ _ h => h.2 ▸ stopped_at_first h.1) fun _ => triple_modify ?_
    rintro _ ⟨clear, rfl⟩
    refine ⟨⟨?_, fun other ne => ?_, fun n ne => ?_, ?_, fun path ne => ?_, rfl, rfl, rfl, rfl⟩, ?_⟩
    · simp [holdsAfter, Plan.after, change, Plan.target]
    · simp [Plan.target, ne]
    · have apart : n ≠ serial := fun same => ne (same ▸ staged)
      simp [Plan.target, apart]
    · simp
    · simp [ne, tick]
    · simp_all [stagedUnlinkFaults, tick]
  | deleted held mode =>
    have present : (s.disk plan.target).isSome = true := by
      simp only [before, Plan.beforeFile, change, Option.isSome_some]
    refine triple_consequence (unlink_exact present) (fun _ h => h) ?_
      fun _ _ h => h.2 ▸ stopped_at_first h.1
    rintro _ _ ⟨clear, rfl⟩
    refine ⟨⟨?_, fun other ne => ?_, fun n ne => ?_, ?_, fun _ _ => rfl, rfl, rfl, rfl, rfl⟩, ?_⟩
    · simp [holdsAfter, Plan.after, change]
    · simp [Plan.target, ne]
    · simp [Plan.target]
    · exact unstaged (by simp only [Plan.after, change])
    · simp [stagedUnlinkFaults, change, tick, clear]

/-- Part of the plans is committed and booked, and the rest is as it was prepared. -/
structure Committing (plans done rest : List Plan) (s : Settlement) : Prop where
  split : plans = done ++ rest
  distinct : (plans.map Plan.path).Nodup
  committed : s.committed = done
  after : ∀ plan ∈ done, holdsAfter s plan
  unstaged : ∀ plan ∈ done, s.staged plan.path = none
  ready : Ready rest s
  failure : s.failure = none
  states : ∀ path, s.states path = none
  forced : s.forced = false

theorem Committing.path_ne {done rest : List Plan} {s : Settlement} {plan other : Plan}
    (h : Committing plans done (plan :: rest) s) (ho : other ∈ done) : other.path ≠ plan.path := by
  have distinct := h.distinct
  rw [h.split, List.map_append, List.nodup_append] at distinct
  exact distinct.2.2 _ (List.mem_map_of_mem ho) _ (List.mem_map_of_mem List.mem_cons_self)

theorem Committing.sound {done rest : List Plan} {s : Settlement}
    (h : Committing plans done rest s) : Sound plans s where
  distinct := h.distinct
  planned plan hp := by
    rw [h.split]
    exact List.mem_append_left rest (h.committed ▸ hp)
  after plan hp _ := h.after plan (h.committed ▸ hp)
  before plan hp settled := by
    rw [h.split] at hp
    rcases List.mem_append.mp hp with hp | hp
    · have := settled (h.committed ▸ hp)
      simp [settledIn, h.states] at this
    · exact h.ready.before plan hp
  booked plan hp state recorded := by
    rw [h.states] at recorded
    cases recorded

theorem Committing.moved {done rest : List Plan} {plan : Plan} {s s' : Settlement}
    (h : Committing plans done (plan :: rest) s) (moved : Moved plan s s') :
    Committing plans (done ++ [plan]) rest { s' with committed := s'.committed ++ [plan] } where
  split := by rw [h.split, List.append_assoc, List.singleton_append]
  distinct := h.distinct
  committed := congrArg (· ++ [plan]) (moved.committed.trans h.committed)
  after other ho := by
    rcases List.mem_append.mp ho with ho | ho
    · exact (congrArg _ (moved.disk_other other (h.path_ne ho))).trans (h.after other ho)
    · exact List.mem_singleton.mp ho ▸ moved.after
  unstaged other ho := by
    rcases List.mem_append.mp ho with ho | ho
    · exact (moved.staged_other _ (h.path_ne ho)).trans (h.unstaged other ho)
    · exact List.mem_singleton.mp ho ▸ moved.staged
  ready :=
    let ready := h.ready.moved moved
    ⟨ready.distinct, ready.before, ready.staged, ready.unstaged, ready.separate⟩
  failure := moved.failure.trans h.failure
  states path := moved.states ▸ h.states path
  forced := moved.forced.trans h.forced

theorem Committing.misled {done rest : List Plan} {plan : Plan} {s s' : Settlement} {file : File}
    (h : Committing plans done (plan :: rest) s) (added : plan.beforeFile = none)
    (frame : Frame (setTarget s plan.path (some file)) s') : Misled plan s' where
  added := added
  linked := by
    rw [Plan.target, frame.disk, setTarget_disk_self]
    rfl
  unbooked other ho := by
    rw [frame.committed] at ho
    exact h.path_ne (h.committed ▸ ho)
  silent := .inl (by rw [frame.states]; exact h.states plan.path)

/-- A commit books every plan, or stops with a sound ledger, or stops misled; the fault pattern
decides which. -/
theorem commit_spec {s : Settlement} (prepared : Prepared plans s) :
    Triple (· = s) (commit faults plans)
      (fun _ s' => stagedUnlinkFaults faults s.calls plans = false ∧ Committing plans plans [] s')
      (fun _ s' => (stagedUnlinkFaults faults s.calls plans = false ∧ Sound plans s') ∨
        (stagedUnlinkFaults faults s.calls plans = true ∧ ∃ plan ∈ plans, Misled plan s')) := by
  refine triple_consequence (triple_forM (fun done rest t => Committing plans done rest t ∧
    stagedUnlinkFaults faults t.calls rest = stagedUnlinkFaults faults s.calls plans) plans ?_)
    ?_ ?_ fun _ _ h => h
  · intro done plan rest split
    refine triple_pointwise fun t ⟨committing, pending⟩ => ?_
    refine triple_bind (triple_consequence (commitChange_spec committing.ready) (fun _ h => h)
      (fun _ _ h => h) ?_) fun _ => triple_modify fun u h =>
        ⟨committing.moved h.1, h.2.trans pending⟩
    rintro _ u (⟨clear, frame⟩ | ⟨hit, added, file, frame⟩)
    · exact .inl ⟨pending ▸ clear, committing.sound.agree frame.toAgree⟩
    · refine .inr ⟨pending ▸ hit, plan, ?_, committing.misled added frame⟩
      rw [split]
      simp
  · rintro _ rfl
    exact ⟨⟨rfl, prepared.distinct, prepared.committed, nofun, nofun, prepared.toReady,
      prepared.failure, prepared.states, prepared.forced⟩, rfl⟩
  · exact fun _ t h => ⟨h.2.symm, h.1⟩

end RoboAgent.PatchCommit
