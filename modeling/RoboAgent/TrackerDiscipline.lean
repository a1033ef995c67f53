import RoboAgent.TrackerUpdates

/-! The discipline of the tracker's state, over every sequence of calls. An update that answers
without an association leaves the tracker alone; one that associates moves it forward, within its
limits; and a capture that stays cached keeps its answer. -/

namespace RoboAgent.TrackerDiscipline
open RoboAgent.KeyedLists RoboAgent.Dicts RoboAgent.GreedyPairs RoboAgent.FalliblePrograms
open RoboAgent.VisionTypes RoboAgent.VisualTracking RoboAgent.TrackerUpdates

variable {F K : Type}

theorem cacheBytes_nil : cacheBytes [] = 0 := rfl

/-- The loop that evicts ends within both limits. -/
theorem evict_within (limits : VisionLimits) (entries : List (CaptureRef × CacheEntry)) :
    (evict limits entries).length ≤ limits.maxTrackingCacheFrames ∧
      cacheBytes (evict limits entries) ≤ limits.maxTrackingCacheBytes := by
  induction entries with
  | nil => exact ⟨Nat.zero_le _, Nat.zero_le _⟩
  | cons entry rest ih =>
    rw [evict]
    split_ifs with large
    · exact ih
    · exact ⟨Nat.le_of_not_lt (not_or.mp large).1, Nat.le_of_not_lt (not_or.mp large).2⟩

theorem get_evicted {limits : VisionLimits} {cache : Dict CaptureRef CacheEntry} {ref : CaptureRef}
    {entry : CacheEntry} (h : (evicted limits cache).get ref = some entry) :
    cache.get ref = some entry :=
  Dict.get_eq_some_iff.mpr ((evict_suffix limits cache.entries).subset (Dict.get_eq_some_iff.mp h))

/-- The numbers of tracks, of cached frames and of cached bytes are within their limits, and what is
cached belongs to the active epoch. -/
structure Kept (settings : Settings F) (s : VisualTracker F) : Prop where
  tracks : s.tracks.entries.length ≤ settings.limits.maxTracks
  frames : s.cache.entries.length ≤ settings.limits.maxTrackingCacheFrames
  bytes : cacheBytes s.cache.entries ≤ settings.limits.maxTrackingCacheBytes
  epoch : ∀ ref entry, s.cache.get ref = some entry → s.clockId = some ref.clockId

theorem kept_empty (settings : Settings F) {s : VisualTracker F} (tracks : s.tracks = .empty)
    (cache : s.cache = .empty) : Kept settings s := by
  refine ⟨?_, ?_, ?_, ?_⟩
  · rw [tracks]
    exact Nat.zero_le _
  · rw [cache]
    exact Nat.zero_le _
  · rw [cache]
    exact Nat.zero_le _
  · intro ref entry has
    rw [cache] at has
    cases has

variable [Arithmetic F] {lib : Library F K} {settings : Settings F} {s : VisualTracker F}

theorem Kept.effect {call : Call F K} {outcome : Except Raised (Option TrackingResult)}
    {s' : VisualTracker F} (kept : Kept settings s)
    (effect : Effect lib settings s call outcome s') : Kept settings s' := by
  cases effect with
  | unchanged => exact kept
  | epoch => exact kept_empty settings rfl rfl
  | advance advances =>
    rename_i capture analysis spatial found next
    have within := evict_within settings.limits (s.cache.put capture.ref next.entry).entries
    refine ⟨advances.tracks, within.1, within.2, fun ref entry has => ?_⟩
    have has := get_evicted has
    rw [Dict.get_put] at has
    split_ifs at has with same
    · rw [same]
      exact advances.epoch
    · exact kept.epoch ref entry has

theorem Kept.after (kept : Kept settings s) (calls : List (Call F K)) :
    Kept settings (after lib settings s calls) := by
  induction calls generalizing s with
  | nil => exact kept
  | cons call calls ih => exact ih (kept.effect (effect_step lib settings s call))

/-- The capture is cached now and after each of the calls. -/
def StaysCached (lib : Library F K) (settings : Settings F) (ref : CaptureRef)
    (s : VisualTracker F) (calls : List (Call F K)) : Prop :=
  ∀ done, done <+: calls → ((after lib settings s done).cache.get ref).isSome

theorem cache_effect {call : Call F K} {outcome : Except Raised (Option TrackingResult)}
    {s' : VisualTracker F} {ref : CaptureRef} {entry : CacheEntry}
    (effect : Effect lib settings s call outcome s') (has : s.cache.get ref = some entry)
    (stays : (s'.cache.get ref).isSome) : s'.cache.get ref = some entry := by
  cases effect with
  | unchanged => exact has
  | epoch => cases stays
  | advance advances =>
    obtain ⟨entry', has'⟩ := Option.isSome_iff_exists.mp stays
    have put := get_evicted has'
    rw [Dict.get_put] at put
    split_ifs at put with same
    · rw [same, advances.fresh] at has
      cases has
    · rw [has] at put
      cases put
      exact has'

theorem cache_after {ref : CaptureRef} {entry : CacheEntry} {calls : List (Call F K)}
    (has : s.cache.get ref = some entry) (stays : StaysCached lib settings ref s calls) :
    (after lib settings s calls).cache.get ref = some entry := by
  induction calls generalizing s with
  | nil => exact has
  | cons call calls ih =>
    have next : ((step lib settings s call).2.cache.get ref).isSome :=
      stays [call] (List.prefix_append [call] calls)
    refine ih (cache_effect (effect_step lib settings s call) has next) fun done front => ?_
    exact stays (call :: done) (List.cons_prefix_cons.mpr ⟨rfl, front⟩)

section Updates
variable {capture : Capture K} {analysis : SemanticAnalysis F}
  {spatial : Option (SpatialResults F)} {found : Candidates F} {next : Advance F}

theorem keys_aged (tracks : List (TrackId × Track F)) : keys (aged tracks) = keys tracks := by
  rw [keys, aged, List.map_map, keys]
  rfl

/-- A track after an update was active before it, or is associated now. -/
theorem tracks_advanced (advances : Advances lib settings s capture analysis spatial found next)
    {tid : TrackId} (mem : tid ∈ keys next.tracks.entries) :
    tid ∈ keys (active settings.limits capture.capturedAt.nanoseconds s.tracks) ∨
      tid ∈ assignedTracks next.entry.result.associations := by
  obtain ⟨start, made, -, started⟩ := advances.associated
  refine (made.tracks tid mem).imp_left fun known => ?_
  rw [started] at known
  obtain ⟨track, has⟩ := Dict.mem_keys_iff.mp known
  rw [← keys_aged]
  obtain mem | none := Dict.get_update_cases has
  · exact List.mem_map.mpr ⟨_, mem, rfl⟩
  · cases none

/-- Every detection is associated once. -/
theorem detections_advanced (advances : Advances lib settings s capture analysis spatial found next) :
    (next.entry.result.associations.map Association.detectionId).Perm
      (analysis.scene.objects.map VisualDetection.localId) := by
  obtain ⟨start, made, -, -⟩ := advances.associated
  have same : next.entry.result.associations.map Association.detectionId =
      (inOrder analysis).map VisualDetection.localId := by
    have related := made.associated
    generalize inOrder analysis = objects at related ⊢
    dsimp only at related
    generalize next.entry.result.associations = associations at related ⊢
    induction related with
    | nil => rfl
    | cons first _ ih =>
      rw [List.map_cons, List.map_cons, ih]
      cases first <;> rfl
  rw [same]
  exact (List.perm_insertionSort _ _).map _

theorem TrackingResult.distinct_of_valid {r : TrackingResult} (valid : r.valid = true) :
    (assignedTracks r.associations).Nodup := by
  rw [TrackingResult.valid, Bool.and_eq_true] at valid
  exact of_decide_eq_true valid.2

/-- The cached answer to a capture, with the associations of the first. -/
def reply (r : TrackingResult) : TrackingResult := { r with status := .cached, reason := none }

theorem reply_valid {r : TrackingResult} (valid : r.valid = true) (updated : r.status = .updated) :
    (reply r).valid = true := by
  have answers : (reply r).status ≠ .skipped := nofun
  rw [TrackingResult.valid, updated, if_neg nofun] at valid
  rw [TrackingResult.valid, if_neg answers]
  simp only [Bool.and_eq_true] at valid ⊢
  obtain ⟨⟨⟨⟨⟨-, identified⟩, digested⟩, clocks⟩, detections⟩, tracks⟩ := valid
  exact ⟨⟨⟨⟨⟨rfl, identified⟩, digested⟩, clocks⟩, detections⟩, tracks⟩

/-- A capture that is still cached gets its associations again, and nothing changes. -/
theorem exec_update_cached {t : VisualTracker F}
    (advances : Advances lib settings s capture analysis spatial found next)
    (kept : Kept settings t) (has : t.cache.get capture.ref = some next.entry) :
    exec (update lib settings capture analysis spatial) t = (.ok (reply next.entry.result), t) := by
  obtain ⟨digest, digested, same⟩ := advances.digest
  have clock := kept.epoch _ _ has
  have replayed : replay (F := F) next.entry.media digest capture.ref next.entry =
      .ok (.answer (reply next.entry.result)) := by
    have record : reply next.entry.result = {
        captureRef := capture.ref
        status := .cached
        authoritativeAnalysisId := next.entry.result.authoritativeAnalysisId
        matchingInputDigest := some digest
        associations := next.entry.result.associations
        reason := none
        inputDigest := next.entry.result.inputDigest } := by
      rw [reply, advances.ref, same]
    rw [replay, if_neg (not_not.mpr rfl), if_neg (not_not.mpr same), ← record,
      make_result_of_valid (reply_valid advances.valid advances.status)]
    rfl
  have assessed : t.assess lib settings capture analysis spatial =
      .ok (.answer (reply next.entry.result)) := by
    rw [VisualTracker.assess, if_neg (not_not.mpr advances.stream),
      if_neg (not_not.mpr clock.symm), advances.limits, ok_bind, digested, ok_bind, advances.media,
      ok_bind, has]
    exact replayed
  rw [exec_update, assessed]

/-- An update that associates goes forward: in sequence and in time, with every detection associated
once and no track twice, and with no track stored that was neither active nor associated. -/
structure Forward (settings : Settings F) (s s' : VisualTracker F) (capture : Capture K)
    (analysis : SemanticAnalysis F) (result : TrackingResult) : Prop where
  sequence : s.lastSequence < s'.lastSequence
  time : s.lastTime ≤ s'.lastTime
  detections : (result.associations.map Association.detectionId).Perm
    (analysis.scene.objects.map VisualDetection.localId)
  tracks : (assignedTracks result.associations).Nodup
  stored : ∀ tid ∈ keys s'.tracks.entries,
    tid ∈ keys (active settings.limits capture.capturedAt.nanoseconds s.tracks) ∨
      tid ∈ assignedTracks result.associations

theorem forward_advanced (advances : Advances lib settings s capture analysis spatial found next) :
    Forward settings s (advanced settings s capture.ref next) capture analysis
      next.entry.result where
  sequence := advances.sequence
  time := by
    rw [advanced, advances.now]
    exact advances.time
  detections := detections_advanced advances
  tracks := TrackingResult.distinct_of_valid advances.valid
  stored tid mem := tracks_advanced advances mem

theorem kept_initial (settings : Settings F) : Kept settings (.initial : VisualTracker F) :=
  kept_empty settings rfl rfl

/-- In every state that calls of the tracker lead to, the limits hold; an update that does not
associate changes nothing; one that associates goes forward, and as long as its capture stays cached
the same update gets the same associations and changes nothing. -/
theorem update_discipline (lib : Library F K) (settings : Settings F) (calls : List (Call F K))
    (capture : Capture K) (analysis : SemanticAnalysis F) (spatial : Option (SpatialResults F)) :
    let s := after lib settings .initial calls
    let updated := exec (update lib settings capture analysis spatial) s
    Kept settings s ∧
    ((∀ result, updated.1 = .ok result → result.status ≠ .updated) → updated.2 = s) ∧
    ∀ result, updated.1 = .ok result → result.status = .updated →
      Forward settings s updated.2 capture analysis result ∧
      ∀ later, StaysCached lib settings capture.ref updated.2 later →
        ∃ again, exec (update lib settings capture analysis spatial)
            (after lib settings updated.2 later) =
              (.ok again, after lib settings updated.2 later) ∧
          again.status = .cached ∧ again.associations = result.associations := by
  intro s updated
  have kept : Kept settings s := (kept_initial settings).after calls
  have ran : exec (update lib settings capture analysis spatial) s = (updated.1, updated.2) := rfl
  obtain ⟨same, other⟩ | ⟨found, next, advances, outcome, advanced⟩ := update_cases ran
  · refine ⟨kept, fun _ => same, fun result returned updated => ?_⟩
    exact absurd updated (other result returned)
  · refine ⟨kept, fun none => absurd advances.status (none _ outcome), ?_⟩
    intro result returned _
    rw [outcome] at returned
    cases returned
    rw [advanced]
    refine ⟨forward_advanced advances, fun later stays => ⟨reply next.entry.result, ?_, rfl, rfl⟩⟩
    have now : ((TrackerUpdates.advanced settings s capture.ref next).cache.get
        capture.ref).isSome := stays [] List.nil_prefix
    obtain ⟨entry, has⟩ := Option.isSome_iff_exists.mp now
    have put := get_evicted has
    rw [Dict.get_put_self] at put
    cases put
    have effect : Effect lib settings s (.update capture analysis spatial)
      (.ok (some next.entry.result)) (TrackerUpdates.advanced settings s capture.ref next) :=
      .advance advances
    exact exec_update_cached advances ((kept.effect effect).after later) (cache_after has stays)

end Updates

end RoboAgent.TrackerDiscipline
