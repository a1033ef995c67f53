import RoboAgent.PatchSettlement

/-! What each operation of the settlement may change, whatever primitive raises. A frame relates
two states that agree on the targets and on the handler's records; rolling back one committed plan
has four outcomes, and nothing else of the targets or the records moves. -/

namespace RoboAgent.PatchRollback
open RoboAgent.FalliblePrograms RoboAgent.PatchSettlement

/-- The two states agree on every target and on what the handler has recorded about them. -/
structure Agree (s s' : Settlement) : Prop where
  disk : ∀ path, s'.disk (.target path) = s.disk (.target path)
  committed : s'.committed = s.committed
  states : s'.states = s.states

/-- They also agree on how far the handler has come. -/
structure Frame (s s' : Settlement) : Prop extends Agree s s' where
  failure : s'.failure = s.failure
  forced : s'.forced = s.forced

theorem Frame.refl (s : Settlement) : Frame s s := ⟨⟨fun _ => rfl, rfl, rfl⟩, rfl, rfl⟩

theorem Frame.trans {s s' s'' : Settlement} (h : Frame s s') (h' : Frame s' s'') : Frame s s'' where
  disk path := (h'.disk path).trans (h.disk path)
  committed := h'.committed.trans h.committed
  states := h'.states.trans h.states
  failure := h'.failure.trans h.failure
  forced := h'.forced.trans h.forced

/-- An OSError that left everything that matters as it was in `s`. -/
def Faulted (s : Settlement) (error : Raised) (s' : Settlement) : Prop :=
  (∃ os, error = .os os) ∧ Frame s s'

def setTarget (s : Settlement) (path : String) (file : Option File) : Settlement :=
  { s with disk := Function.update s.disk (.target path) file }

def setState (s : Settlement) (path : String) (state : TargetState) : Settlement :=
  { s with states := Function.update s.states path (some state) }

@[simp] theorem setTarget_disk_self (s : Settlement) (path : String) (file : Option File) :
    (setTarget s path file).disk (.target path) = file := Function.update_self ..

theorem setTarget_disk_of_ne {s : Settlement} {path other : String} {file : Option File}
    (h : other ≠ path) : (setTarget s path file).disk (.target other) = s.disk (.target other) :=
  Function.update_of_ne (by simpa using h) _ _

@[simp] theorem setState_states_self (s : Settlement) (path : String) (state : TargetState) :
    (setState s path state).states path = some state := Function.update_self ..

theorem setState_states_of_ne {s : Settlement} {path other : String} {state : TargetState}
    (h : other ≠ path) : (setState s path state).states other = s.states other :=
  Function.update_of_ne h _ _

theorem Frame.setTarget {s s' : Settlement} (h : Frame s s') (path : String)
    (file : Option File) : Frame (setTarget s path file) (setTarget s' path file) where
  disk other := by
    by_cases same : other = path
    · subst same
      simp
    · rw [setTarget_disk_of_ne same, setTarget_disk_of_ne same, h.disk]
  committed := h.committed
  failure := h.failure
  states := h.states
  forced := h.forced

theorem Frame.setState {s s' : Settlement} (h : Frame s s') (path : String)
    (state : TargetState) : Frame (setState s path state) (setState s' path state) where
  disk := h.disk
  committed := h.committed
  failure := h.failure
  states := by simp only [PatchRollback.setState, h.states]
  forced := h.forced

variable {digest : Bytes → String} {faults : Nat → Option OsError} {plans : List Plan}

theorem frame_temporary (s : Settlement) (serial n m : Nat) (file : Option File) :
    Frame s { s with
      disk := Function.update s.disk (.temporary serial) file, calls := n, temporaries := m } :=
  ⟨⟨fun _ => by simp, rfl, rfl⟩, rfl, rfl⟩

theorem frame_calls (s : Settlement) (n : Nat) : Frame s { s with calls := n } :=
  ⟨⟨fun _ => rfl, rfl, rfl⟩, rfl, rfl⟩

/-- A primitive either counts itself and goes on, or counts itself and raises. -/
theorem exec_primitive (s : Settlement) :
    exec (primitive faults) s =
      (match faults s.calls with
        | some error => .error (.os error)
        | none => .ok (), { s with calls := s.calls + 1 }) := by
  rw [primitive, exec_bind, exec_get]
  simp only [exec_bind, exec_set]
  cases faults s.calls <;> rfl

theorem primitive_spec (s : Settlement) :
    Triple (· = s) (primitive faults) (fun _ s' => s' = { s with calls := s.calls + 1 })
      (Faulted s) := by
  rintro s' rfl
  rw [exec_primitive]
  cases faults s'.calls with
  | none => exact rfl
  | some error => exact ⟨⟨error, rfl⟩, frame_calls s' _⟩

theorem pathExists_spec (s : Settlement) (path : Path) :
    Triple (· = s) (pathExists faults path)
      (fun found s' => Frame s s' ∧ (found = true → (s.disk path).isSome = true)) (Faulted s) := by
  refine triple_tryCatch (C := Faulted s) ?_ ?_
  · refine triple_bind (primitive_spec s) fun _ => triple_get_bind ?_
    rintro _ rfl
    refine triple_pure ?_
    rintro _ rfl
    exact ⟨frame_calls s _, id⟩
  · intro error
    split
    · exact triple_pure fun s' h => ⟨h.2, nofun⟩
    · exact triple_throw fun _ h => h

theorem readBytes_spec (s : Settlement) (path : Path) :
    Triple (· = s) (readBytes faults path) (fun _ => Frame s) (Faulted s) := by
  refine triple_bind (primitive_spec s) fun _ => triple_get_bind ?_
  rintro _ rfl
  split
  · exact triple_pure fun _ h => h ▸ frame_calls s _
  · exact triple_throw fun _ h => ⟨⟨_, rfl⟩, h ▸ frame_calls s _⟩

theorem unlink_target_spec (s : Settlement) (path : String) :
    Triple (· = s) (unlink faults (.target path)) (fun _ => Frame (setTarget s path none))
      (Faulted s) := by
  refine triple_get_bind ?_
  rintro s rfl
  split
  · exact triple_throw fun _ h => ⟨⟨_, rfl⟩, h ▸ Frame.refl s⟩
  · refine triple_bind (primitive_spec s) fun _ => triple_modify ?_
    rintro _ rfl
    exact (frame_calls s _).setTarget path none

theorem unlink_temporary_spec (s : Settlement) (serial : Nat) :
    Triple (· = s) (unlink faults (.temporary serial)) (fun _ => Frame s) (Faulted s) := by
  refine triple_get_bind ?_
  rintro s rfl
  split
  · exact triple_throw fun _ h => ⟨⟨_, rfl⟩, h ▸ Frame.refl s⟩
  · refine triple_bind (primitive_spec s) fun _ => triple_modify ?_
    rintro _ rfl
    exact frame_temporary s serial _ _ none

theorem unlinkMissingOk_spec (s : Settlement) (serial : Nat) :
    Triple (· = s) (unlinkMissingOk faults (.temporary serial)) (fun _ => Frame s)
      (Faulted s) := by
  refine triple_tryCatch (unlink_temporary_spec s serial) fun error => ?_
  split
  · exact triple_pure fun _ h => h.2
  · exact triple_throw fun _ h => h

/-- Unlinking an absent name with missing_ok does nothing and cannot fail. -/
theorem unlinkMissingOk_absent {s : Settlement} {path : Path} (h : s.disk path = none) :
    exec (unlinkMissingOk faults path) s = (.ok (), s) := by
  have absent : exec (unlink faults path) s = (.error (.os .notFound), s) := by
    simp only [unlink, exec_bind, exec_get, h, exec_throw]
  rw [unlinkMissingOk, exec_tryCatch, absent]
  rfl

/-- A temporary at `serial` holds `file`, and the targets are as in `s`. -/
def Holding (s : Settlement) (serial : Nat) (file : File) (s' : Settlement) : Prop :=
  Frame s s' ∧ s'.disk (.temporary serial) = some file

theorem mkstemp_spec (s : Settlement) :
    Triple (· = s) (mkstemp faults)
      (fun path s' => ∃ serial, path = .temporary serial ∧ Holding s serial ⟨[], 0o600⟩ s')
      (Faulted s) := by
  refine triple_bind (primitive_spec s) fun _ => triple_get_bind ?_
  rintro _ rfl s' rfl
  exact ⟨s.temporaries, rfl, frame_temporary s _ _ _ _, Function.update_self ..⟩

theorem changeFile_spec (s : Settlement) (serial : Nat) (file : File) (change : File → File) :
    Triple (Holding s serial file) (changeFile faults (.temporary serial) change)
      (fun _ => Holding s serial (change file)) (Faulted s) := by
  refine triple_pointwise fun t ht => ?_
  refine triple_bind (M := fun _ s' => s' = { t with calls := t.calls + 1 }) ?_ fun _ => ?_
  · exact triple_consequence (primitive_spec t) (fun _ h => h) (fun _ _ h => h)
      fun _ _ h => ⟨h.1, ht.1.trans h.2⟩
  · refine triple_modify ?_
    rintro _ rfl
    refine ⟨ht.1.trans (frame_temporary t serial _ _ _), ?_⟩
    simp only [Function.update_self, ht.2, Option.map_some]

theorem replace_spec (s : Settlement) (serial : Nat) (file : File) (path : String) :
    Triple (Holding s serial file) (replace faults (.temporary serial) (.target path))
      (fun _ s' => Frame (setTarget s path (some file)) s' ∧ s'.disk (.temporary serial) = none)
      (Faulted s) := by
  refine triple_pointwise fun t ht => ?_
  refine triple_bind (M := fun _ s' => s' = { t with calls := t.calls + 1 }) ?_ fun _ => ?_
  · exact triple_consequence (primitive_spec t) (fun _ h => h) (fun _ _ h => h)
      fun _ _ h => ⟨h.1, ht.1.trans h.2⟩
  · refine triple_get_bind ?_
    rintro _ rfl
    simp only [ht.2]
    rintro _ rfl
    refine ⟨(ht.1.trans (frame_temporary t serial _ _ none)).setTarget path (some file), ?_⟩
    simp [Function.update_of_ne]

theorem restore_spec (s : Settlement) (path : String) (data : Bytes) (mode : Nat) :
    Triple (· = s) (restore faults (.target path) data mode)
      (fun _ => Frame (setTarget s path (some ⟨data, mode⟩))) (Faulted s) := by
  refine triple_bind (mkstemp_spec s) fun temporary => triple_pointwise ?_
  rintro t ⟨serial, rfl, ht⟩
  refine triple_ensuring (M := fun _ s' =>
    Frame (setTarget s path (some ⟨data, mode⟩)) s' ∧ s'.disk (.temporary serial) = none)
    (C := Faulted s) ?_ ?_ ?_
  · refine triple_bind (M := fun _ => Holding s serial ⟨data, 0o600⟩) ?_ fun _ =>
      triple_bind (changeFile_spec s serial _ _) fun _ => replace_spec s serial _ path
    exact triple_consequence (changeFile_spec s serial _ _) (fun _ h => h ▸ ht)
      (fun _ _ h => h) fun _ _ h => h
  · rintro _ s' h
    rw [unlinkMissingOk_absent h.2]
    exact h.1
  · rintro error
    refine triple_pointwise fun s' h => ?_
    exact triple_consequence (unlinkMissingOk_spec s' serial) (fun _ h => h)
      (fun _ _ h' => ⟨h.1, h.2.trans h'⟩) fun _ _ h' => ⟨h'.1, h.2.trans h'.2⟩

def settledIn (s : Settlement) (plan : Plan) : Bool :=
  (s.states plan.path).any TargetState.settled

/-- Everything rolling back one committed plan can do. -/
inductive RolledBack (plan : Plan) (s s' : Settlement) : Prop
  | kept (settled : settledIn s plan = true) (frame : Frame s s')
  | restored (pending : settledIn s plan = false)
      (frame : Frame (setState (setTarget s plan.path plan.beforeFile) plan.path .restored) s')
  | unchanged (pending : settledIn s plan = false) (deleted : plan.after = none)
      (present : (s.disk plan.target).isSome = true)
      (frame : Frame (setState s plan.path .unchanged) s')
  | uncertain (pending : settledIn s plan = false) (state : TargetState)
      (unsettled : state.settled = false) (frame : Frame (setState s plan.path state) s')

namespace RolledBack

variable {plan other : Plan} {s s' : Settlement}

theorem committed (h : RolledBack plan s s') : s'.committed = s.committed := by
  cases h with
  | kept _ frame | restored _ frame | unchanged _ _ _ frame | uncertain _ _ _ frame =>
    exact frame.committed

theorem failure (h : RolledBack plan s s') : s'.failure = s.failure := by
  cases h with
  | kept _ frame | restored _ frame | unchanged _ _ _ frame | uncertain _ _ _ frame =>
    exact frame.failure

theorem forced (h : RolledBack plan s s') : s'.forced = s.forced := by
  cases h with
  | kept _ frame | restored _ frame | unchanged _ _ _ frame | uncertain _ _ _ frame =>
    exact frame.forced

theorem disk_other (h : RolledBack plan s s') (ne : other.path ≠ plan.path) :
    s'.disk other.target = s.disk other.target := by
  cases h with
  | kept _ frame | unchanged _ _ _ frame | uncertain _ _ _ frame => exact frame.disk other.path
  | restored _ frame => exact (frame.disk other.path).trans (setTarget_disk_of_ne ne)

theorem states_other (h : RolledBack plan s s') (ne : other.path ≠ plan.path) :
    s'.states other.path = s.states other.path := by
  cases h with
  | kept _ frame => rw [frame.states]
  | restored _ frame | unchanged _ _ _ frame | uncertain _ _ _ frame =>
    rw [frame.states]
    exact setState_states_of_ne ne

theorem recorded (h : RolledBack plan s s') : (s'.states plan.path).isSome = true := by
  cases h with
  | kept settled frame =>
    rw [frame.states]
    exact Option.isSome_of_any settled
  | restored _ frame | unchanged _ _ _ frame | uncertain _ _ _ frame =>
    simp [frame.states]

theorem recorded_mono (h : RolledBack plan s s') (path : String)
    (had : (s.states path).isSome = true) : (s'.states path).isSome = true := by
  by_cases same : path = plan.path
  · exact same ▸ h.recorded
  · have kept : s'.states path = s.states path :=
      h.states_other (show (⟨path, plan.change⟩ : Plan).path ≠ plan.path from same)
    rwa [kept]

end RolledBack

theorem record_spec (s : Settlement) (plan : Plan) (state : TargetState)
    (raised : Raised → Settlement → Prop) :
    Triple (Frame s) (record plan state) (fun _ => Frame (setState s plan.path state)) raised :=
  triple_modify fun _ h => h.setState plan.path state

theorem targetHasDigest_spec (s : Settlement) (plan : Plan) (expected : Option String) :
    Triple (· = s) (targetHasDigest digest faults plan expected) (fun _ => Frame s)
      (Faulted s) := by
  refine triple_bind (pathExists_spec s plan.target) fun found => triple_pointwise fun t ht => ?_
  split
  · refine triple_bind (M := fun _ => Frame s) ?_ fun _ => triple_pure fun _ h => h
    exact triple_consequence (readBytes_spec t plan.target) (fun _ h => h)
      (fun _ _ h => ht.1.trans h) fun _ _ h => ⟨h.1, ht.1.trans h.2⟩
  · exact triple_pure fun _ h => h ▸ ht.1

/-- A specification from one state also holds from any state that frames it. -/
theorem triple_from_frame {α : Type} {program : Patch α} {s : Settlement}
    {after : Settlement → α → Settlement → Prop}
    (spec : ∀ t, Triple (· = t) program (after t) (Faulted t))
    (moved : ∀ t a s', Frame s t → after t a s' → after s a s') :
    Triple (Frame s) program (after s) (Faulted s) :=
  triple_pointwise fun t ht => triple_consequence (spec t) (fun _ h => h)
    (fun a s' h => moved t a s' ht h) fun _ _ h => ⟨h.1, ht.trans h.2⟩

theorem undo_spec (s : Settlement) (plan : Plan) (pending : settledIn s plan = false) :
    Triple (· = s) (undo digest faults plan) (fun _ => RolledBack plan s) (Faulted s) := by
  have unknown : Triple (Frame s) (record plan .unknown) (fun _ => RolledBack plan s)
      (Faulted s) :=
    triple_consequence (record_spec s plan .unknown _) (fun _ h => h)
      (fun _ _ h => .uncertain pending .unknown rfl h) fun _ _ h => h
  have restored : ∀ file, plan.beforeFile = file →
      Triple (Frame (setTarget s plan.path file)) (record plan .restored)
        (fun _ => RolledBack plan s) (Faulted s) := by
    rintro file rfl
    exact triple_consequence (record_spec _ plan .restored _) (fun _ h => h)
      (fun _ _ h => .restored pending h) fun _ _ h => h
  have put : ∀ data mode, Triple (Frame s) (restore faults plan.target data mode)
      (fun _ => Frame (setTarget s plan.path (some ⟨data, mode⟩))) (Faulted s) :=
    fun data mode => triple_from_frame (fun t => restore_spec t plan.path data mode)
      fun _ _ _ ht h => (ht.setTarget _ _).trans h
  rw [undo]
  cases change : plan.change with
  | added after =>
    refine triple_bind (targetHasDigest_spec s plan _) fun held => ?_
    split
    · refine triple_bind (triple_from_frame (fun t => unlink_target_spec t plan.path)
        fun _ _ _ ht h => (ht.setTarget plan.path none).trans h) fun _ => restored none ?_
      simp only [Plan.beforeFile, change]
    · exact unknown
  | modified before after mode =>
    refine triple_bind (targetHasDigest_spec s plan _) fun held => ?_
    split
    · refine triple_bind (put before mode) fun _ => restored _ ?_
      simp only [Plan.beforeFile, change]
    · exact unknown
  | deleted before mode =>
    refine triple_bind (pathExists_spec s plan.target) fun found => ?_
    split
    · refine triple_pointwise fun t ht => ?_
      refine triple_bind (M := fun _ => Frame s) ?_ fun data => ?_
      · exact triple_consequence (readBytes_spec t plan.target) (fun _ h => h)
          (fun _ _ h => ht.1.trans h) fun _ _ h => ⟨h.1, ht.1.trans h.2⟩
      · split
        · refine triple_consequence (record_spec s plan .unchanged _) (fun _ h => h)
            (fun _ _ h => .unchanged pending ?_ (ht.2 ‹_›) h) fun _ _ h => h
          simp only [Plan.after, change]
        · exact unknown
    · refine triple_bind (M := fun _ => Frame (setTarget s plan.path plan.beforeFile)) ?_
        fun _ => restored _ rfl
      refine triple_consequence (put before mode) (fun _ h => h.1) (fun _ _ h => ?_) fun _ _ h => h
      simpa only [Plan.beforeFile, change] using h

theorem exceptOs_spec {s : Settlement} {before : Settlement → Prop} {body handler : Patch Unit}
    {after : Unit → Settlement → Prop} {raised : Raised → Settlement → Prop}
    (tried : Triple before body after (Faulted s)) (handled : Triple (Frame s) handler after raised) :
    Triple before (exceptOs body handler) after raised := by
  refine triple_tryCatch tried fun error => ?_
  rintro s' ⟨⟨os, rfl⟩, frame⟩
  exact handled s' frame

theorem observe_spec (s : Settlement) (plan : Plan) (pending : settledIn s plan = false) :
    Triple (Frame s) (observe digest faults plan) (fun _ => RolledBack plan s)
      fun _ _ => False := by
  refine exceptOs_spec (s := s) ?_ ?_
  · refine triple_bind (M := fun _ => Frame s) ?_ fun current => ?_
    · refine triple_bind (triple_from_frame (fun t => pathExists_spec t plan.target)
        fun _ _ _ ht h => ⟨ht.trans h.1, by rw [Plan.target, ← ht.disk]; exact h.2⟩) fun found => ?_
      split
      · refine triple_bind (M := fun _ => Frame s) ?_ fun _ => triple_pure fun _ h => h
        exact triple_consequence (triple_from_frame (fun t => readBytes_spec t plan.target)
          fun _ _ _ ht h => ht.trans h) (fun _ h => h.1) (fun _ _ h => h) fun _ _ h => h
      · exact triple_pure fun _ h => h.1
    · refine triple_consequence (record_spec s plan _ _) (fun _ h => h)
        (fun _ _ h => .uncertain pending _ ?_ h) fun _ _ h => h
      split <;> rfl
  · exact triple_consequence (record_spec s plan .unknown _) (fun _ h => h)
      (fun _ _ h => .uncertain pending .unknown rfl h) fun _ _ h => h

theorem rollbackPlan_spec (s : Settlement) (plan : Plan) :
    Triple (· = s) (rollbackPlan digest faults plan) (fun _ => RolledBack plan s)
      fun _ _ => False := by
  refine triple_get_bind ?_
  rintro s rfl
  split
  · exact triple_pure fun _ h => .kept ‹_› (h ▸ Frame.refl s)
  · have pending : settledIn s plan = false := Bool.eq_false_iff.mpr ‹_›
    exact exceptOs_spec (undo_spec s plan pending) (observe_spec s plan pending)

theorem clearStaged_spec (s : Settlement) (plan : Plan) (raised : Raised → Settlement → Prop) :
    Triple (Frame s) (clearStaged plan) (fun _ => Frame s) raised :=
  triple_modify fun _ h => h.trans ⟨⟨fun _ => rfl, rfl, rfl⟩, rfl, rfl⟩

theorem cleanupStaged_spec (s : Settlement) :
    Triple (Frame s) (cleanupStaged faults plans) (fun _ => Frame s) (Faulted s) := by
  refine triple_forM (fun _ _ => Frame s) plans fun _ plan _ _ => triple_get_bind fun t ht => ?_
  split
  · refine triple_bind (M := fun _ => Frame s) ?_ fun _ => clearStaged_spec s plan _
    exact triple_consequence (unlinkMissingOk_spec t _) (fun _ h => h) (fun _ _ h => ht.trans h)
      fun _ _ h => ⟨h.1, ht.trans h.2⟩
  · exact triple_pure fun _ h => h ▸ ht

theorem raiseIfIncomplete_spec (s : Settlement) :
    Triple (· = s) (raiseIfIncomplete plans) (fun _ => Frame s) (fun _ => Frame s) := by
  refine triple_get_bind ?_
  rintro s rfl
  split
  · exact triple_throw fun _ h => h ▸ Frame.refl s
  · exact triple_pure fun _ h => h ▸ Frame.refl s

end RoboAgent.PatchRollback
