import RoboAgent.TrackerUpdates

/-! The identities of new tracks. Within one activation of a clock the counter only grows, so no id
comes twice; activating another clock and the first one again begins the numbers anew. -/

namespace RoboAgent.TrackIdentities
open RoboAgent.Dicts RoboAgent.FalliblePrograms
open RoboAgent.VisionTypes RoboAgent.VisualTracking RoboAgent.TrackerUpdates

variable {F K : Type} [Arithmetic F] {lib : Library F K} {settings : Settings F}
  {s : VisualTracker F}

theorem issues_advance {capture : Capture K} {analysis : SemanticAnalysis F}
    {spatial : Option (SpatialResults F)} {found : Candidates F} {next : Advance F}
    (advances : Advances lib settings s capture analysis spatial found next) :
    issues (.ok (some next.entry.result)) = (List.range' (s.counter + 1)
      (next.counter - s.counter)).map (serial settings capture.ref.clockId) ∧
      s.counter ≤ next.counter := by
  obtain ⟨start, made, counter, -⟩ := advances.associated
  have issued := made.issued
  have grown := made.counter
  rw [counter] at issued grown
  rw [issues, if_pos advances.status]
  exact ⟨issued, grown⟩

/-- The ids a call issues have the active clock and numbers above the counter. -/
theorem issued_effect {call : Call F K} {outcome : Except Raised (Option TrackingResult)}
    {s' : VisualTracker F} (effect : Effect lib settings s call outcome s') :
    (issues outcome).Nodup ∧ ∀ tid ∈ issues outcome, ∃ clockId n, tid = serial settings clockId n ∧
      s.clockId = some clockId ∧ s'.clockId = some clockId ∧ s.counter < n ∧ n ≤ s'.counter := by
  cases effect with
  | unchanged none =>
    rw [none]
    exact ⟨List.nodup_nil, List.forall_mem_nil _⟩
  | epoch => exact ⟨List.nodup_nil, List.forall_mem_nil _⟩
  | advance advances =>
    rename_i capture analysis spatial found next
    obtain ⟨issued, grown⟩ := issues_advance advances
    rw [issued]
    refine ⟨(List.nodup_range' ..).map (serial_injective settings _), fun tid mem => ?_⟩
    obtain ⟨n, inside, rfl⟩ := List.mem_map.mp mem
    have bounds := List.mem_range'_1.mp inside
    refine ⟨_, n, rfl, advances.epoch, advances.epoch, by omega, ?_⟩
    change n ≤ next.counter
    omega

/-- The clock is active and its counter has reached the number. -/
def Counted (clockId : String) (n : Nat) (s : VisualTracker F) : Prop :=
  s.clockId = some clockId ∧ n ≤ s.counter

/-- A list of calls that switches the tracker to another clock. -/
def Leaves (clockId : String) (calls : List (Call F K)) : Prop :=
  ∃ other, .activateEpoch other ∈ calls ∧ textId other = .ok () ∧ other ≠ clockId

theorem counted_effect {clockId : String} {n : Nat} {call : Call F K}
    {outcome : Except Raised (Option TrackingResult)} {s' : VisualTracker F}
    (effect : Effect lib settings s call outcome s') (counted : Counted clockId n s)
    (stays : ¬Leaves clockId [call]) : Counted clockId n s' := by
  cases effect with
  | unchanged => exact counted
  | @epoch other named switched =>
    refine absurd ⟨other, List.mem_singleton_self _, named, fun same => ?_⟩ stays
    exact switched (by rw [same, counted.1])
  | advance advances => exact ⟨counted.1, counted.2.trans (issues_advance advances).2⟩

theorem counted_after {clockId : String} {n : Nat} {calls : List (Call F K)}
    (counted : Counted clockId n s) (stays : ¬Leaves clockId calls) :
    Counted clockId n (after lib settings s calls) := by
  induction calls generalizing s with
  | nil => exact counted
  | cons call calls ih =>
    refine ih (counted_effect (effect_step lib settings s call) counted ?_) ?_
    · rintro ⟨other, mem, left⟩
      exact stays ⟨other, List.mem_cons.mpr (.inl (List.mem_singleton.mp mem)), left⟩
    · rintro ⟨other, mem, left⟩
      exact stays ⟨other, List.mem_cons_of_mem _ mem, left⟩

/-- The ids of new tracks that a call issues, after the calls before it. -/
def issuedAfter (lib : Library F K) (settings : Settings F) (before : List (Call F K))
    (call : Call F K) : List TrackId :=
  issues (step lib settings (after lib settings .initial before) call).1

/-- A call issues no id twice, and none that an earlier call issued, unless the tracker was switched
away from the clock of the id between the two. -/
theorem reissued_after_return (lib : Library F K) (settings : Settings F)
    (before : List (Call F K)) (first : Call F K) (between : List (Call F K)) (second : Call F K) :
    (issuedAfter lib settings before first).Nodup ∧
    ∀ tid ∈ issuedAfter lib settings before first,
      tid ∈ issuedAfter lib settings (before ++ first :: between) second →
        Leaves tid.clockId between := by
  have one := issued_effect (effect_step lib settings (after lib settings .initial before) first)
  refine ⟨one.1, fun tid mem again => ?_⟩
  by_contra stays
  obtain ⟨clockId, n, rfl, -, active, -, counted⟩ := one.2 tid mem
  have later : Counted clockId n (after lib settings .initial (before ++ first :: between)) := by
    have along : Counted clockId n (after lib settings
        (step lib settings (after lib settings .initial before) first).2 between) :=
      counted_after ⟨active, counted⟩ stays
    rw [after_append]
    exact along
  obtain ⟨clockId', m, same, -, -, above, -⟩ := (issued_effect (effect_step lib settings _ second)).2
    _ again
  have clocks : clockId = clockId' := congrArg TrackId.clockId same
  subst clocks
  have numbers := serial_injective settings clockId same
  have bound := later.2
  omega

/-- A tracker that returns to a clock issues its first id a second time. -/
theorem return_reissues :
    serial sampleSettings "clock" 1 ∈
      issuedAfter sampleLibrary sampleSettings [.activateEpoch "clock"]
        (sampleCall "clock" 0 [cup "a" 480]) ∧
    serial sampleSettings "clock" 1 ∈
      issuedAfter sampleLibrary sampleSettings
        ([.activateEpoch "clock"] ++ sampleCall "clock" 0 [cup "a" 480] ::
          [.activateEpoch "other", .activateEpoch "clock"])
        (sampleCall "clock" 0 [cup "b" 480]) := by
  decide +kernel

end RoboAgent.TrackIdentities
