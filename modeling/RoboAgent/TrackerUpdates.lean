import RoboAgent.VisualTracking
import Std.Data.String.ToNat

/-! What an update of the tracker does, said once: the three ways it leaves the tracker alone, and
what it checked and computed when it advances the tracker. -/

namespace RoboAgent.TrackerUpdates
open RoboAgent.KeyedLists RoboAgent.Dicts RoboAgent.GreedyPairs RoboAgent.FalliblePrograms
open RoboAgent.VisionTypes RoboAgent.VisualTracking

variable {F K : Type}

theorem textId_eq_ok {value : String} (h : textId value = .ok ()) :
    MessageChecks.visible value = true ∧ value.length ≤ 256 := by
  rw [textId] at h
  split_ifs at h with checked
  exact checked

theorem make_track_eq_ok {trackerNamespace clockId value : String} {tid : TrackId}
    (h : TrackId.make trackerNamespace clockId value = .ok tid) :
    tid = ⟨trackerNamespace, clockId, value⟩ := by
  rw [TrackId.make] at h
  obtain ⟨⟨⟩, -, h⟩ := bind_eq_ok h
  obtain ⟨⟨⟩, -, h⟩ := bind_eq_ok h
  obtain ⟨⟨⟩, -, h⟩ := bind_eq_ok h
  exact (Except.ok.inj h).symm

theorem make_association_eq_ok {detectionId : String} {status : AssociationStatus}
    {trackId : Option TrackId} {candidateTracks : List TrackId} {a : Association}
    (h : Association.make detectionId status trackId candidateTracks = .ok a) :
    a = ⟨detectionId, status, trackId, candidateTracks.dedup.insertionSort (· ≤ ·)⟩ ∧
      (status = .ambiguous → trackId = none) := by
  rw [Association.make] at h
  obtain ⟨⟨⟩, -, h⟩ := bind_eq_ok h
  cases status with
  | ambiguous =>
    dsimp only at h
    split_ifs at h with wrong
    exact ⟨(Except.ok.inj h).symm, fun _ => not_not.mp (not_or.mp wrong).1⟩
  | matched | new =>
    dsimp only at h
    split_ifs at h
    exact ⟨(Except.ok.inj h).symm, nofun⟩

theorem make_result_eq_ok {r made : TrackingResult} (h : TrackingResult.make r = .ok made) :
    r.valid = true ∧ made = r := by
  rw [TrackingResult.make] at h
  split_ifs at h with valid
  exact ⟨valid, (Except.ok.inj h).symm⟩

theorem make_result_of_valid {r : TrackingResult} (valid : r.valid = true) :
    TrackingResult.make r = .ok r := if_pos valid

theorem skipped_eq_ok {ref : CaptureRef} {reason : String} {d : Decision F}
    (h : skipped ref reason = .ok d) : ∃ r, d = .answer r ∧ r.status = .skipped := by
  obtain ⟨r, made, rfl⟩ := map_eq_ok h
  exact ⟨r, rfl, by rw [(make_result_eq_ok made).2]⟩

theorem skipped_answers {ref : CaptureRef} {reason : String} {d : Decision F}
    (h : skipped ref reason = .ok d) : ∃ r, d = .answer r ∧ r.status ≠ .updated := by
  obtain ⟨r, rfl, status⟩ := skipped_eq_ok h
  exact ⟨r, rfl, by rw [status]; nofun⟩

theorem replay_eq_ok {media digest : String} {ref : CaptureRef} {entry : CacheEntry}
    {d : Decision F} (h : replay media digest ref entry = .ok d) :
    ∃ r, d = .answer r ∧ r.status ≠ .updated := by
  rw [replay] at h
  split_ifs at h
  · exact skipped_answers h
  · exact skipped_answers h
  · obtain ⟨r, made, rfl⟩ := map_eq_ok h
    exact ⟨r, rfl, by rw [(make_result_eq_ok made).2]; nofun⟩

variable [Arithmetic F]

section Rounds
variable {settings : Settings F} {ref : CaptureRef} {now : Nat}
  {spatial : Option (SpatialResults F)} {found : Candidates F} {unclear : List String}
  {taken : List (String × TrackId)}

/-- The id of the track with this number. -/
def serial (settings : Settings F) (clockId : String) (n : Nat) : TrackId where
  trackerNamespace := settings.trackerNamespace
  clockId := clockId
  value := toString n

theorem serial_injective (settings : Settings F) (clockId : String) :
    Function.Injective (serial settings clockId) := by
  intro n m same
  exact Nat.repr_injective (congrArg TrackId.value same)

/-- The choices of a detection in the table. -/
def choicesOf (found : Candidates F) (det : String) : Choices F := (found.lookup det).getD []

/-- The association a detection gets; a new track may have any number. -/
inductive Associates (settings : Settings F) (clockId : String) (found : Candidates F)
    (unclear : List String) (taken : List (String × TrackId)) (det : String) : Association → Prop
  | unclear (tids : List TrackId)
      (h : det ∈ unclear ∨ taken.lookup det = none ∧ choicesOf found det ≠ []) :
      Associates settings clockId found unclear taken det ⟨det, .ambiguous, none, tids⟩
  | matched (tid : TrackId) (clear : det ∉ unclear) (h : taken.lookup det = some tid) :
      Associates settings clockId found unclear taken det ⟨det, .matched, some tid, []⟩
  | new (n : Nat) (clear : det ∉ unclear) (h : taken.lookup det = none)
      (none : choicesOf found det = []) :
      Associates settings clockId found unclear taken det
        ⟨det, .new, some (serial settings clockId n), []⟩

theorem follow_eq_ok {p p' : Progress F} {d : VisualDetection F} {status : AssociationStatus}
    {tid : TrackId} (h : p.follow now spatial d status tid = .ok p') :
    ∃ track, p' = ⟨p.counter, p.newTracks.put tid track,
      p.associations ++ [⟨d.localId, status, some tid, []⟩]⟩ := by
  rw [Progress.follow] at h
  obtain ⟨a, made, h⟩ := bind_eq_ok h
  cases h
  rw [(make_association_eq_ok made).1]
  exact ⟨_, rfl⟩

/-- What one round of the loop does: it appends an association, and writes the track it names. -/
theorem associate_eq_ok {p p' : Progress F} {d : VisualDetection F}
    (h : p.associate settings ref now spatial found unclear taken d = .ok p') :
    ∃ a, Associates settings ref.clockId found unclear taken d.localId a ∧
      p'.associations = p.associations ++ [a] ∧
      ((a.trackId = none ∧ p'.newTracks = p.newTracks) ∨
        ∃ tid track, a.trackId = some tid ∧ p'.newTracks = p.newTracks.put tid track) ∧
      ((a.status ≠ .new ∧ p'.counter = p.counter) ∨
        a.status = .new ∧ p'.counter = p.counter + 1 ∧
          a.trackId = some (serial settings ref.clockId (p.counter + 1))) := by
  rw [Progress.associate] at h
  split_ifs at h with hazy
  · obtain ⟨a, made, h⟩ := bind_eq_ok h
    cases h
    rw [(make_association_eq_ok made).1]
    exact ⟨_, .unclear _ hazy, rfl, .inl ⟨rfl, rfl⟩, .inl ⟨nofun, rfl⟩⟩
  · obtain ⟨clear, free⟩ := not_or.mp hazy
    split at h
    · rename_i tid has
      obtain ⟨track, rfl⟩ := follow_eq_ok h
      exact ⟨_, .matched tid clear has, rfl, .inr ⟨tid, track, rfl, rfl⟩, .inl ⟨nofun, rfl⟩⟩
    · rename_i has
      obtain ⟨tid, made, h⟩ := bind_eq_ok h
      rw [make_track_eq_ok made] at h
      obtain ⟨track, rfl⟩ := follow_eq_ok h
      have unmatched : choicesOf found d.localId = [] :=
        not_not.mp fun some => free ⟨has, some⟩
      exact ⟨_, .new (p.counter + 1) clear has unmatched, rfl, .inr ⟨_, track, rfl, rfl⟩,
        .inr ⟨rfl, rfl, rfl⟩⟩

end Rounds

/-- The ids of new tracks that a list of associations issues. -/
def issuedIds (associations : List Association) : List TrackId :=
  (associations.filter fun a => a.status = .new).filterMap Association.trackId

theorem issuedIds_append (first second : List Association) :
    issuedIds (first ++ second) = issuedIds first ++ issuedIds second := by
  rw [issuedIds, List.filter_append, List.filterMap_append, ← issuedIds, ← issuedIds]

section Loop
variable {settings : Settings F} {ref : CaptureRef} {now : Nat}
  {spatial : Option (SpatialResults F)} {found : Candidates F} {unclear : List String}
  {taken : List (String × TrackId)}

/-- What the loop over the detections has made of its start. -/
structure Made (settings : Settings F) (clockId : String) (found : Candidates F)
    (unclear : List String) (taken : List (String × TrackId)) (start p : Progress F)
    (done : List (VisualDetection F)) : Prop where
  associated : List.Forall₂ (fun d => Associates settings clockId found unclear taken d.localId)
    done p.associations
  counter : start.counter ≤ p.counter
  issued : issuedIds p.associations = (List.range' (start.counter + 1)
    (p.counter - start.counter)).map (serial settings clockId)
  tracks : ∀ tid ∈ keys p.newTracks.entries, tid ∈ keys start.newTracks.entries ∨
    tid ∈ assignedTracks p.associations

theorem mem_keys_put {d : Dict TrackId (Track F)} {tid other : TrackId} {track : Track F}
    (mem : other ∈ keys (d.put tid track).entries) : other = tid ∨ other ∈ keys d.entries := by
  obtain ⟨value, h⟩ := Dict.mem_keys_iff.mp mem
  rw [Dict.get_put] at h
  split_ifs at h with same
  · exact .inl same
  · exact .inr (Dict.mem_keys_iff.mpr ⟨value, h⟩)

theorem Made.associate {start p p' : Progress F} {done : List (VisualDetection F)}
    {d : VisualDetection F} (m : Made settings ref.clockId found unclear taken start p done)
    (h : p.associate settings ref now spatial found unclear taken d = .ok p') :
    Made settings ref.clockId found unclear taken start p' (done ++ [d]) := by
  obtain ⟨a, made, appended, tracks, counted⟩ := associate_eq_ok h
  have assigned : assignedTracks p'.associations =
      assignedTracks p.associations ++ assignedTracks [a] := by
    rw [appended, assignedTracks, List.filterMap_append, ← assignedTracks, ← assignedTracks]
  refine ⟨?_, ?_, ?_, ?_⟩
  · rw [appended]
    exact List.rel_append m.associated (.cons made .nil)
  · obtain ⟨-, same⟩ | ⟨-, more, -⟩ := counted
    · rw [same]
      exact m.counter
    · have bound := m.counter
      omega
  · rw [appended, issuedIds_append, m.issued]
    obtain ⟨old, same⟩ | ⟨fresh, more, named⟩ := counted
    · have none : issuedIds [a] = [] := by
        rw [issuedIds, List.filter_singleton, decide_eq_false old]
        rfl
      rw [none, List.append_nil, same]
    · have one : issuedIds [a] = [serial settings ref.clockId (p.counter + 1)] := by
        rw [issuedIds, List.filter_singleton, decide_eq_true fresh]
        exact List.filterMap_cons_some named
      have bound := m.counter
      have grown : p'.counter - start.counter = p.counter - start.counter + 1 := by omega
      have last : start.counter + 1 + 1 * (p.counter - start.counter) = p.counter + 1 := by omega
      rw [one, grown, List.range'_concat, List.map_append, last]
      rfl
  · intro tid mem
    rw [assigned, List.mem_append]
    have earlier (mem : tid ∈ keys p.newTracks.entries) :
        tid ∈ keys start.newTracks.entries ∨ tid ∈ assignedTracks p.associations ∨
          tid ∈ assignedTracks [a] :=
      (m.tracks tid mem).imp_right .inl
    obtain ⟨-, same⟩ | ⟨put, track, named, written⟩ := tracks
    · rw [same] at mem
      exact earlier mem
    · rw [written] at mem
      obtain rfl | mem := mem_keys_put mem
      · exact .inr (.inr (List.mem_filterMap.mpr ⟨a, List.mem_singleton_self a, named⟩))
      · exact earlier mem

theorem made_of_foldlM {start p : Progress F} {objects : List (VisualDetection F)}
    (fresh : start.associations = [])
    (h : objects.foldlM (Progress.associate settings ref now spatial found unclear taken) start =
      .ok p) : Made settings ref.clockId found unclear taken start p objects := by
  refine foldlM_invariant (fun done p => Made settings ref.clockId found unclear taken start p done)
    ⟨?_, le_rfl, ?_, fun tid mem => .inl mem⟩ (fun done d p p' _ m step => m.associate step) h
  · rw [fresh]
    exact .nil
  · rw [fresh, Nat.sub_self]
    rfl

end Loop

variable {lib : Library F K} {settings : Settings F} {s : VisualTracker F} {capture : Capture K}
  {analysis : SemanticAnalysis F} {spatial : Option (SpatialResults F)}

/-- The detections in the order in which they are associated. -/
def inOrder (analysis : SemanticAnalysis F) : List (VisualDetection F) :=
  analysis.scene.objects.insertionSort fun d e => d.localId ≤ e.localId

/-- What an update has checked and computed when it advances the tracker. -/
structure Advances (lib : Library F K) (settings : Settings F) (s : VisualTracker F)
    (capture : Capture K) (analysis : SemanticAnalysis F) (spatial : Option (SpatialResults F))
    (found : Candidates F) (next : Advance F) : Prop where
  stream : capture.ref.streamId = settings.streamId
  epoch : s.clockId = some capture.ref.clockId
  limits : analysis.scene.validateLimits lib.attributesSize settings.limits = .ok ()
  digest : ∃ digest, matchingDigest lib capture analysis.scene spatial settings.policy =
    .ok digest ∧ next.entry.result.matchingInputDigest = some digest
  media : lib.captureDigest capture = .ok next.entry.media
  fresh : s.cache.get capture.ref = none
  sequence : s.lastSequence < capture.ref.sequence
  time : s.lastTime ≤ capture.capturedAt.nanoseconds
  now : next.now = capture.capturedAt.nanoseconds
  candidates : candidates lib settings.policy
    (active settings.limits capture.capturedAt.nanoseconds s.tracks) spatial
    analysis.scene.objects = .ok found
  associated : ∃ start, Made settings capture.ref.clockId found
    (ambiguous settings.policy.ambiguityMargin found
      (active settings.limits capture.capturedAt.nanoseconds s.tracks))
    (assigned (ambiguous settings.policy.ambiguityMargin found
      (active settings.limits capture.capturedAt.nanoseconds s.tracks)) found)
    start ⟨next.counter, next.tracks, next.entry.result.associations⟩ (inOrder analysis) ∧
    start.counter = s.counter ∧ start.newTracks = Dict.empty.update
      (aged (active settings.limits capture.capturedAt.nanoseconds s.tracks))
  status : next.entry.result.status = .updated
  ref : next.entry.result.captureRef = capture.ref
  valid : next.entry.result.valid = true
  tracks : next.tracks.entries.length ≤ settings.limits.maxTracks
  size : next.entry.size ≤ settings.limits.maxTrackingCacheBytes

/-- An update answers without an update of the tracker, or advances it. -/
theorem assess_eq_ok {d : Decision F} (h : s.assess lib settings capture analysis spatial = .ok d) :
    (∃ r, d = .answer r ∧ r.status ≠ .updated) ∨
      ∃ found next, d = .advance next ∧
        Advances lib settings s capture analysis spatial found next := by
  rw [VisualTracker.assess] at h
  by_cases stream : capture.ref.streamId ≠ settings.streamId
  · rw [if_pos stream] at h
    exact .inl (skipped_answers h)
  by_cases epoch : some capture.ref.clockId ≠ s.clockId
  · rw [if_neg stream, if_pos epoch] at h
    exact .inl (skipped_answers h)
  rw [if_neg stream, if_neg epoch] at h
  obtain ⟨⟨⟩, limits, h⟩ := bind_eq_ok h
  obtain ⟨digest, digested, h⟩ := bind_eq_ok h
  obtain ⟨media, captured, h⟩ := bind_eq_ok h
  cases fresh : s.cache.get capture.ref with
  | some entry =>
    rw [fresh] at h
    exact .inl (replay_eq_ok h)
  | none =>
    rw [fresh] at h
    dsimp only at h
    split_ifs at h with conflict order expired time
    · exact .inl (skipped_answers h)
    · exact .inl (skipped_answers h)
    · exact .inl (skipped_answers h)
    · exact .inl (skipped_answers h)
    unfold VisualTracker.associate at h
    obtain ⟨found, computed, h⟩ := bind_eq_ok h
    obtain ⟨made, looped, h⟩ := bind_eq_ok h
    obtain ⟨input, -, h⟩ := bind_eq_ok h
    obtain ⟨result, built, h⟩ := bind_eq_ok h
    obtain ⟨size, -, h⟩ := bind_eq_ok h
    split_ifs at h with capacity
    · exact .inl (skipped_answers h)
    · cases h
      obtain ⟨valid, rfl⟩ := make_result_eq_ok built
      obtain ⟨few, small⟩ := not_or.mp capacity
      refine .inr ⟨found, _, rfl, ?_⟩
      exact {
        stream := not_not.mp stream
        epoch := (not_not.mp epoch).symm
        limits
        digest := ⟨digest, digested, rfl⟩
        media := captured
        fresh
        sequence := not_le.mp order
        time := not_lt.mp time
        now := rfl
        candidates := computed
        associated := ⟨_, made_of_foldlM rfl looped, rfl, rfl⟩
        status := rfl
        ref := rfl
        valid
        tracks := Nat.le_of_not_lt few
        size := Nat.le_of_not_lt small }

/-- The tracker after an advance. -/
def advanced (settings : Settings F) (s : VisualTracker F) (ref : CaptureRef) (next : Advance F) :
    VisualTracker F where
  clockId := s.clockId
  lastSequence := ref.sequence
  lastTime := next.now
  counter := next.counter
  tracks := next.tracks
  cache := evicted settings.limits (s.cache.put ref next.entry)

theorem exec_update : exec (update lib settings capture analysis spatial) s =
    match s.assess lib settings capture analysis spatial with
    | .error raised => (.error raised, s)
    | .ok (.answer result) => (.ok result, s)
    | .ok (.advance next) => (.ok next.entry.result, advanced settings s capture.ref next) := by
  rw [update, exec_bind, exec_get]
  dsimp only
  rw [exec_bind, exec_raising]
  cases s.assess lib settings capture analysis spatial with
  | error raised => rfl
  | ok d => cases d <;> rfl

/-- What an update can do to the tracker. -/
theorem update_cases {outcome : Except Raised TrackingResult} {s' : VisualTracker F}
    (h : exec (update lib settings capture analysis spatial) s = (outcome, s')) :
    (s' = s ∧ ∀ result, outcome = .ok result → result.status ≠ .updated) ∨
      ∃ found next, Advances lib settings s capture analysis spatial found next ∧
        outcome = .ok next.entry.result ∧ s' = advanced settings s capture.ref next := by
  rw [exec_update] at h
  cases assessed : s.assess lib settings capture analysis spatial with
  | error raised =>
    rw [assessed] at h
    cases h
    exact .inl ⟨rfl, nofun⟩
  | ok d =>
    rw [assessed] at h
    obtain ⟨r, rfl, other⟩ | ⟨found, next, rfl, advances⟩ := assess_eq_ok assessed
    · cases h
      refine .inl ⟨rfl, fun result same => ?_⟩
      cases same
      exact other
    · cases h
      exact .inr ⟨found, next, advances, rfl, rfl⟩

/-- A call of the tracker's two methods. -/
inductive Call (F K : Type)
  | activateEpoch (clockId : String)
  | update (capture : Capture K) (analysis : SemanticAnalysis F)
      (spatial : Option (SpatialResults F))

/-- The outcome of a call, and the tracker it leaves. -/
def step (lib : Library F K) (settings : Settings F) (s : VisualTracker F) :
    Call F K → Except Raised (Option TrackingResult) × VisualTracker F
  | .activateEpoch clockId => exec (do activateEpoch clockId; pure none) s
  | .update capture analysis spatial =>
    exec (do pure (some (← update lib settings capture analysis spatial))) s

/-- The tracker of an epoch that has just begun. -/
def begun (clockId : String) : VisualTracker F := { VisualTracker.initial with clockId := some clockId }

/-- The ids of new tracks an outcome issues; a cached answer repeats ids issued before. -/
def issues : Except Raised (Option TrackingResult) → List TrackId
  | .ok (some result) => if result.status = .updated then issuedIds result.associations else []
  | _ => []

theorem exec_activateEpoch (clockId : String) (s : VisualTracker F) :
    exec (activateEpoch clockId) s =
      match textId clockId with
      | .error raised => (.error raised, s)
      | .ok _ => (.ok (), if some clockId = s.clockId then s else begun clockId) := by
  rw [activateEpoch, exec_bind, exec_raising]
  cases textId clockId with
  | error raised => rfl
  | ok checked =>
    dsimp only
    rw [exec_bind, exec_get]
    dsimp only
    by_cases same : some clockId = s.clockId
    · rw [if_neg (not_not.mpr same), if_pos same]
      rfl
    · rw [if_pos same, if_neg same]
      rfl

/-- What a call can do: leave the tracker alone, begin another epoch, or advance the tracker. -/
inductive Effect (lib : Library F K) (settings : Settings F) (s : VisualTracker F) :
    Call F K → Except Raised (Option TrackingResult) → VisualTracker F → Prop
  | unchanged {call : Call F K} {outcome : Except Raised (Option TrackingResult)}
      (none : issues outcome = []) : Effect lib settings s call outcome s
  | epoch {clockId : String} (named : textId clockId = .ok ()) (other : some clockId ≠ s.clockId) :
      Effect lib settings s (.activateEpoch clockId) (.ok none) (begun clockId)
  | advance {capture : Capture K} {analysis : SemanticAnalysis F}
      {spatial : Option (SpatialResults F)} {found : Candidates F} {next : Advance F}
      (advances : Advances lib settings s capture analysis spatial found next) :
      Effect lib settings s (.update capture analysis spatial) (.ok (some next.entry.result))
        (advanced settings s capture.ref next)

theorem effect_step (lib : Library F K) (settings : Settings F) (s : VisualTracker F)
    (call : Call F K) :
    Effect lib settings s call (step lib settings s call).1 (step lib settings s call).2 := by
  cases call with
  | activateEpoch clockId =>
    rw [step, exec_bind, exec_activateEpoch]
    cases named : textId clockId with
    | error raised => exact .unchanged rfl
    | ok checked =>
      dsimp only
      rw [exec_pure]
      split_ifs with same
      · exact .unchanged rfl
      · exact .epoch named same
  | update capture analysis spatial =>
    rw [step, exec_bind]
    generalize ran : exec (update lib settings capture analysis spatial) s = result
    obtain ⟨outcome, s'⟩ := result
    obtain ⟨rfl, other⟩ | ⟨found, next, advances, rfl, rfl⟩ := update_cases ran
    · cases outcome with
      | error raised => exact .unchanged rfl
      | ok result => exact .unchanged (if_neg (other result rfl))
    · exact .advance advances

/-- The tracker after a list of calls. -/
def after (lib : Library F K) (settings : Settings F) (s : VisualTracker F)
    (calls : List (Call F K)) : VisualTracker F :=
  calls.foldl (fun s call => (step lib settings s call).2) s

theorem after_append (lib : Library F K) (settings : Settings F) (s : VisualTracker F)
    (first second : List (Call F K)) :
    after lib settings s (first ++ second) =
      after lib settings (after lib settings s first) second :=
  List.foldl_append

section Samples

/-- Stand-ins for the functions of the library, exact on boxes and anchors of one height. -/
def sampleLibrary : Library Rat Unit where
  casefold text := text.map Char.toLower
  hypot x y := max x (-x) + max y (-y)
  dist p q := max (p.1 - q.1) (q.1 - p.1)
  attributesSize _ := .ok 2
  captureDigest capture := .ok capture.captureId
  inputDigest digest objects _ := .ok (digest ++ toString objects.length)
  policyDigest digest _ := .ok digest
  recordSize _ _ := .ok 100

def sampleSettings : Settings Rat where
  trackerNamespace := "instance"
  streamId := "camera"
  limits := {}
  policy := {
    minIou := 0.05
    maxAnchorDistance := 0.25
    ambiguityMargin := 0.05
    maxPositionDistance := 0.2
    stableAttributes := ["color"]
    stableFrames := [] }

def sampleCapture (clockId : String) (n : Nat) : Capture Unit :=
  ⟨"camera", "capture", n, ⟨clockId, n⟩, ()⟩

/-- A cup around this many thousandths of the image's width. -/
def cup (localId : String) (centre : Rat) : VisualDetection Rat where
  localId := localId
  category := "cup"
  region := ⟨centre / 1000 - 0.1, 0, centre / 1000 + 0.1, 1⟩
  anchor := ⟨centre / 1000, 0.5⟩
  attributes := ⟨[], FrozenJson.wellFormed_empty⟩

def sampleAnalysis (clockId : String) (n : Nat) (objects : List (VisualDetection Rat))
    (distinct : (objects.map VisualDetection.localId).Nodup) : SemanticAnalysis Rat where
  analysisId := "analysis"
  scene := {
    ref := (sampleCapture clockId n).ref
    objects
    distinct
    distinctRelations := List.nodup_nil
    related := List.forall_mem_nil _ }
  identified := by decide

def sampleCall (clockId : String) (n : Nat) (objects : List (VisualDetection Rat))
    (distinct : (objects.map VisualDetection.localId).Nodup := by decide) : Call Rat Unit :=
  .update (sampleCapture clockId n) (sampleAnalysis clockId n objects distinct) none

end Samples

end RoboAgent.TrackerUpdates
