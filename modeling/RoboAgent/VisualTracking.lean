import Mathlib
import RoboAgent.VisionTypes
import RoboAgent.GreedyPairs
import RoboAgent.Dicts
import RoboAgent.FalliblePrograms

/-! The tracker of visual detections. An update compares the detections of a capture with the tracks
that are still active, assigns the unambiguous pairs in the order of their cost, and remembers its
answer for a retry. Nothing is assigned before the last check has passed. -/

namespace RoboAgent.VisualTracking
open RoboAgent.FrozenJson RoboAgent.Dicts RoboAgent.GreedyPairs RoboAgent.FalliblePrograms
open RoboAgent.VisionTypes

structure TrackId where
  trackerNamespace : String
  clockId : String
  value : String
deriving DecidableEq

def TrackId.key (tid : TrackId) : String ×ₗ String ×ₗ String :=
  toLex (tid.trackerNamespace, toLex (tid.clockId, tid.value))

theorem TrackId.key_injective : Function.Injective TrackId.key := by
  rintro ⟨a, b, c⟩ ⟨a', b', c'⟩ h
  cases h
  rfl

instance : LinearOrder TrackId := LinearOrder.lift' TrackId.key TrackId.key_injective

def textId (value : String) : Except Raised Unit :=
  if MessageChecks.visible value ∧ value.length ≤ 256 then .ok ()
  else .error (.visionError "vision_identity_invalid")

def TrackId.make (trackerNamespace clockId value : String) : Except Raised TrackId := do
  textId trackerNamespace
  textId clockId
  textId value
  pure { trackerNamespace, clockId, value }

inductive AssociationStatus
  | matched
  | new
  | ambiguous
deriving DecidableEq

structure Association where
  detectionId : String
  status : AssociationStatus
  trackId : Option TrackId
  candidateTracks : List TrackId
deriving DecidableEq

def Association.make (detectionId : String) (status : AssociationStatus)
    (trackId : Option TrackId) (candidateTracks : List TrackId) : Except Raised Association := do
  textId detectionId
  let candidates := candidateTracks.dedup.insertionSort (· ≤ ·)
  match status with
  | .ambiguous =>
    if trackId ≠ none ∨ candidates = [] then .error (.visionError "association_invalid")
    else .ok { detectionId, status, trackId, candidateTracks := candidates }
  | .matched | .new =>
    if trackId = none ∨ candidates ≠ [] then .error (.visionError "association_invalid")
    else .ok { detectionId, status, trackId, candidateTracks := candidates }

inductive TrackingStatus
  | updated
  | cached
  | skipped
deriving DecidableEq

structure TrackingResult where
  captureRef : CaptureRef
  status : TrackingStatus
  authoritativeAnalysisId : Option String
  matchingInputDigest : Option String
  associations : List Association
  reason : Option String
  inputDigest : Option String
deriving DecidableEq

/-- Whether Python takes an optional text for true. -/
def truthy (text : Option String) : Bool := text.any fun text => text != ""

/-- The tracks a list of associations names, one for each association that has one. -/
def assignedTracks (associations : List Association) : List TrackId :=
  associations.filterMap Association.trackId

def TrackingResult.valid (r : TrackingResult) : Bool :=
  (if r.status = .skipped then r.associations.isEmpty && truthy r.reason
    else !truthy r.reason && truthy r.authoritativeAnalysisId && truthy r.matchingInputDigest) &&
  (assignedTracks r.associations).all (fun tid => tid.clockId == r.captureRef.clockId) &&
  decide (r.associations.map Association.detectionId).Nodup &&
  decide (assignedTracks r.associations).Nodup

def TrackingResult.make (r : TrackingResult) : Except Raised TrackingResult :=
  if r.valid then .ok r else .error (.visionError "association_invalid")

structure TrackingPolicy (F : Type) where
  minIou : F
  maxAnchorDistance : F
  ambiguityMargin : F
  maxPositionDistance : F
  stableAttributes : List String
  stableFrames : List String

structure Track (F : Type) where
  detection : VisualDetection F
  timestamp : Nat
  missed : Nat
  position : Option (PositionEstimate F)

/-- The functions of Python's library, and the digests and sizes taken of canonical JSON texts. -/
structure Library (F K : Type) where
  casefold : String → String
  hypot : F → F → F
  dist : F × F × F → F × F × F → F
  attributesSize : FrozenJsonObject → Except Raised Nat
  captureDigest : Capture K → Except Raised String
  inputDigest : String → List (VisualDetection F) → List (PositionResult F) → Except Raised String
  policyDigest : String → TrackingPolicy F → Except Raised String
  recordSize : String → TrackingResult → Except Raised Nat

structure Settings (F : Type) where
  trackerNamespace : String
  streamId : String
  limits : VisionLimits
  policy : TrackingPolicy F

/-- A cached answer with the digest of its capture and the size of the record. -/
structure CacheEntry where
  media : String
  result : TrackingResult
  size : Nat

structure VisualTracker (F : Type) where
  clockId : Option String
  lastSequence : Int
  lastTime : Int
  counter : Nat
  tracks : Dict TrackId (Track F)
  cache : Dict CaptureRef CacheEntry

variable {F K : Type} [Arithmetic F]

def VisualTracker.initial : VisualTracker F where
  clockId := none
  lastSequence := -1
  lastTime := -1
  counter := 0
  tracks := .empty
  cache := .empty

def activateEpoch (clockId : String) : Program (VisualTracker F) Raised Unit := do
  raising (textId clockId)
  let s ← get
  if some clockId ≠ s.clockId then
    modify fun s => { s with clockId := some clockId }
    modify fun s => { s with lastSequence := -1, lastTime := -1 }
    modify fun s => { s with counter := 0 }
    modify fun s => { s with tracks := .empty }
    modify fun s => { s with cache := .empty }

section
variable (lib : Library F K)

def iou (a b : Box2D F) : Except Raised F :=
  let intersection := max 0 (min a.x1 b.x1 - max a.x0 b.x0) * max 0 (min a.y1 b.y1 - max a.y0 b.y0)
  let union := (a.x1 - a.x0) * (a.y1 - a.y0) + (b.x1 - b.x0) * (b.y1 - b.y0) - intersection
  if union = 0 then .error .zeroDivision else .ok (intersection / union)

/-- Whether both have the attribute, with different values. -/
def differs (key : String) (previous detection : FrozenJsonObject) : Bool :=
  match previous.entries.lookup key, detection.entries.lookup key with
  | some before, some now => !jsonEqual before now
  | _, _ => false

/-- The positions of a track and of a detection, in one frame that is declared stable. -/
def stablePositions (policy : TrackingPolicy F) (track : Track F)
    (position : Option (PositionEstimate F)) : Option ((F × F × F) × F × F × F) :=
  match position, track.position with
  | some here, some before =>
    if here.frameId = before.frameId ∧ here.frameId ∈ policy.stableFrames then
      some (here.xyz, before.xyz)
    else none
  | _, _ => none

/-- VisualTracker._cost. -/
def cost (policy : TrackingPolicy F) (track : Track F) (detection : VisualDetection F)
    (position : Option (PositionEstimate F)) : Except Raised (Option F) :=
  let previous := track.detection
  if lib.casefold previous.category ≠ lib.casefold detection.category then .ok none
  else if policy.stableAttributes.any fun key =>
      differs key previous.attributes detection.attributes then .ok none
  else do
    let overlap ← iou previous.region detection.region
    let distance := lib.hypot (previous.anchor.x - detection.anchor.x)
      (previous.anchor.y - detection.anchor.y)
    let cost := (1 - overlap + distance) / 2.0
    match stablePositions policy track position with
    | some (here, before) =>
      let metric := lib.dist here before
      if policy.maxPositionDistance < metric then .ok none
      else .ok (some (metric / max policy.maxPositionDistance 1e-12 + 0.05 * cost))
    | none =>
      if overlap < policy.minIou ∨ policy.maxAnchorDistance < distance then .ok none
      else .ok (some cost)

def associationInputDigest (capture : Capture K) (scene : VisualScene F)
    (spatial : Option (SpatialResults F)) : Except Raised String :=
  if capture.ref ≠ scene.ref ∨ spatial.any fun spatial => spatial.captureRef ≠ capture.ref then
    .error (.visionError "estimate_binding_invalid")
  else do
    let positions := (spatial.elim [] SpatialResults.positions).filter (·.estimate.isSome)
    let objects := scene.objects.insertionSort fun d e => d.localId ≤ e.localId
    let captured ← lib.captureDigest capture
    lib.inputDigest captured (objects.map fun d => { d with description := none })
      (positions.insertionSort fun r q => r.detectionId ≤ q.detectionId)

def matchingDigest (capture : Capture K) (scene : VisualScene F)
    (spatial : Option (SpatialResults F)) (policy : TrackingPolicy F) : Except Raised String := do
  let input ← associationInputDigest lib capture scene spatial
  lib.policyDigest input policy

end

/-- The tracks a capture at this time may still continue. -/
def active (limits : VisionLimits) (now : Nat) (tracks : Dict TrackId (Track F)) :
    List (TrackId × Track F) :=
  tracks.entries.filter fun entry =>
    (now : Int) - entry.2.timestamp ≤ limits.maxTrackAgeNs &&
      entry.2.missed < limits.maxMissedObservations

abbrev Choices (F : Type) := List (F × TrackId)

/-- The tracks a detection may continue, cheapest first. -/
def choices (lib : Library F K) (policy : TrackingPolicy F) (tracks : List (TrackId × Track F))
    (spatial : Option (SpatialResults F)) (d : VisualDetection F) : Except Raised (Choices F) := do
  let costs ← tracks.mapM fun entry =>
    (cost lib policy entry.2 d (spatial.bind (·.position d.localId))).map (·.map (·, entry.1))
  pure ((costs.filterMap id).insertionSort fun p q => toLex p ≤ toLex q)

abbrev Candidates (F : Type) := List (String × Choices F)

def candidates (lib : Library F K) (policy : TrackingPolicy F) (tracks : List (TrackId × Track F))
    (spatial : Option (SpatialResults F)) (objects : List (VisualDetection F)) :
    Except Raised (Candidates F) :=
  objects.mapM fun d => (choices lib policy tracks spatial d).map (d.localId, ·)

/-- Whether the two cheapest of a sorted list lie within the margin. -/
def undecided {E : Type} (margin : F) : List (F × E) → Bool
  | first :: second :: _ => second.1 - first.1 ≤ margin
  | _ => false

/-- What the detections would pay for a track, cheapest first. -/
def competition (candidates : Candidates F) (tid : TrackId) : List (F × String) :=
  (candidates.flatMap fun entry =>
    (entry.2.filter fun choice => choice.2 = tid).map fun choice => (choice.1, entry.1)).insertionSort
      fun p q => toLex p ≤ toLex q

/-- The detections within the margin of the cheapest, if there is more than one. -/
def rivals (margin : F) (competition : List (F × String)) : List String :=
  match competition with
  | first :: _ =>
    if undecided margin competition then
      (competition.filter fun rival => rival.1 - first.1 ≤ margin).map Prod.snd
    else []
  | [] => []

def ambiguous (margin : F) (candidates : Candidates F) (tracks : List (TrackId × Track F)) :
    List String :=
  (candidates.filter fun entry => undecided margin entry.2).map Prod.fst ++
    tracks.flatMap fun entry => rivals margin (competition candidates entry.1)

/-- All pairs with their costs, in the order of cost, track and detection. -/
def edges (candidates : Candidates F) : List (F × TrackId × String) :=
  (candidates.flatMap fun entry =>
    entry.2.map fun choice => (choice.1, choice.2, entry.1)).insertionSort
      fun p q => toLex (p.1, toLex p.2) ≤ toLex (q.1, toLex q.2)

/-- The detections that take a track, each track once. -/
def assigned (ambiguous : List String) (candidates : Candidates F) : List (String × TrackId) :=
  assign (((edges candidates).filter fun edge => edge.2.2 ∉ ambiguous).map fun edge =>
    (edge.2.2, edge.2.1))

/-- What the loop over the detections has made so far. -/
structure Progress (F : Type) where
  counter : Nat
  newTracks : Dict TrackId (Track F)
  associations : List Association

section
variable (settings : Settings F) (ref : CaptureRef) (now : Nat)
  (spatial : Option (SpatialResults F)) (candidates : Candidates F) (ambiguous : List String)
  (assigned : List (String × TrackId))

def Progress.follow (p : Progress F) (d : VisualDetection F) (status : AssociationStatus)
    (tid : TrackId) : Except Raised (Progress F) := do
  let association ← Association.make d.localId status (some tid) []
  let position := spatial.bind (·.position d.localId)
  let track := { detection := d, timestamp := now, missed := 0, position }
  pure { p with
    associations := p.associations ++ [association]
    newTracks := p.newTracks.put tid track }

/-- One round of the loop over the detections. -/
def Progress.associate (p : Progress F) (d : VisualDetection F) : Except Raised (Progress F) :=
  let choices := (candidates.lookup d.localId).getD []
  let taken := assigned.lookup d.localId
  if d.localId ∈ ambiguous ∨ taken = none ∧ choices ≠ [] then do
    let association ← Association.make d.localId .ambiguous none (choices.map Prod.snd)
    pure { p with associations := p.associations ++ [association] }
  else match taken with
    | some tid => p.follow now spatial d .matched tid
    | none => do
      let tid ← TrackId.make settings.trackerNamespace ref.clockId (toString (p.counter + 1))
      { p with counter := p.counter + 1 }.follow now spatial d .new tid

end

/-- The tracks an update carries on, one observation older. -/
def aged (tracks : List (TrackId × Track F)) : List (TrackId × Track F) :=
  tracks.map fun entry => (entry.1, { entry.2 with missed := entry.2.missed + 1 })

/-- What an update assigns when all its checks have passed. -/
structure Advance (F : Type) where
  tracks : Dict TrackId (Track F)
  counter : Nat
  now : Nat
  entry : CacheEntry

/-- An update either answers, or answers and advances the tracker. -/
inductive Decision (F : Type)
  | answer (result : TrackingResult)
  | advance (next : Advance F)

def skipped (ref : CaptureRef) (reason : String) : Except Raised (Decision F) :=
  (TrackingResult.make {
    captureRef := ref
    status := .skipped
    authoritativeAnalysisId := none
    matchingInputDigest := none
    associations := []
    reason := some reason
    inputDigest := none }).map .answer

section
variable (lib : Library F K) (settings : Settings F) (s : VisualTracker F)
  (capture : Capture K) (analysis : SemanticAnalysis F) (spatial : Option (SpatialResults F))

/-- The association of a capture that is new and in order. -/
def VisualTracker.associate (media digest : String) : Except Raised (Decision F) := do
  let ref := capture.ref
  let now := capture.capturedAt.nanoseconds
  let scene := analysis.scene
  let tracks := active settings.limits now s.tracks
  let found ← candidates lib settings.policy tracks spatial scene.objects
  let unclear := ambiguous settings.policy.ambiguityMargin found tracks
  let start := {
    counter := s.counter
    newTracks := Dict.empty.update (aged tracks)
    associations := [] }
  let made ← (scene.objects.insertionSort fun d e => d.localId ≤ e.localId).foldlM
    (Progress.associate settings ref now spatial found unclear (assigned unclear found)) start
  let input ← associationInputDigest lib capture scene spatial
  let result ← TrackingResult.make {
    captureRef := ref
    status := .updated
    authoritativeAnalysisId := some analysis.analysisId
    matchingInputDigest := some digest
    associations := made.associations
    reason := none
    inputDigest := some input }
  let size ← lib.recordSize media result
  if settings.limits.maxTracks < made.newTracks.entries.length ∨
      settings.limits.maxTrackingCacheBytes < size then skipped ref "tracking_capacity_exceeded"
  else
    pure (.advance {
      tracks := made.newTracks
      counter := made.counter
      now
      entry := { media, result, size } })

/-- The answer to a capture that is cached. -/
def replay (media digest : String) (ref : CaptureRef) (entry : CacheEntry) :
    Except Raised (Decision F) :=
  if entry.media ≠ media then skipped ref "capture_content_conflict"
  else if entry.result.matchingInputDigest ≠ some digest then
    skipped ref "tracking_analysis_conflict"
  else
    (TrackingResult.make {
      captureRef := ref
      status := .cached
      authoritativeAnalysisId := entry.result.authoritativeAnalysisId
      matchingInputDigest := some digest
      associations := entry.result.associations
      reason := none
      inputDigest := entry.result.inputDigest }).map .answer

/-- The checks of an update and its work, up to the first assignment. -/
def VisualTracker.assess : Except Raised (Decision F) :=
  let ref := capture.ref
  if ref.streamId ≠ settings.streamId then skipped ref "tracking_stream_mismatch"
  else if some ref.clockId ≠ s.clockId then skipped ref "tracking_epoch_inactive"
  else do
    analysis.scene.validateLimits lib.attributesSize settings.limits
    let digest ← matchingDigest lib capture analysis.scene spatial settings.policy
    let media ← lib.captureDigest capture
    match s.cache.get ref with
    | some entry => replay media digest ref entry
    | none =>
      if s.cache.entries.any fun entry => entry.1.sequence == ref.sequence then
        skipped ref "tracking_sequence_conflict"
      else if (ref.sequence : Int) ≤ s.lastSequence then
        skipped ref (if (ref.sequence : Int) = s.lastSequence then "tracking_retry_expired"
          else "tracking_out_of_order")
      else if (capture.capturedAt.nanoseconds : Int) < s.lastTime then
        skipped ref "tracking_time_regression"
      else s.associate lib settings capture analysis spatial media digest

end

def cacheBytes (entries : List (CaptureRef × CacheEntry)) : Nat :=
  (entries.map fun entry => entry.2.size).sum

/-- Entries go from the oldest on until the cache is within its limits. -/
def evict (limits : VisionLimits) : List (CaptureRef × CacheEntry) → List (CaptureRef × CacheEntry)
  | [] => []
  | entry :: rest =>
    if limits.maxTrackingCacheFrames < (entry :: rest).length ∨
        limits.maxTrackingCacheBytes < cacheBytes (entry :: rest) then evict limits rest
    else entry :: rest

theorem evict_suffix (limits : VisionLimits) (entries : List (CaptureRef × CacheEntry)) :
    evict limits entries <:+ entries := by
  induction entries with
  | nil => exact List.suffix_refl _
  | cons entry rest ih =>
    rw [evict]
    split_ifs
    · exact ih.trans (List.suffix_cons _ _)
    · exact List.suffix_refl _

def evicted (limits : VisionLimits) (cache : Dict CaptureRef CacheEntry) :
    Dict CaptureRef CacheEntry where
  entries := evict limits cache.entries
  distinct := cache.distinct.sublist ((evict_suffix limits cache.entries).sublist.map _)

/-- VisualTracker.update. -/
def update (lib : Library F K) (settings : Settings F) (capture : Capture K)
    (analysis : SemanticAnalysis F) (spatial : Option (SpatialResults F)) :
    Program (VisualTracker F) Raised TrackingResult := do
  let s ← get
  match ← raising (s.assess lib settings capture analysis spatial) with
  | .answer result => pure result
  | .advance next => do
    modify fun s => { s with tracks := next.tracks }
    modify fun s => { s with counter := next.counter }
    modify fun s => { s with lastSequence := capture.ref.sequence }
    modify fun s => { s with lastTime := next.now }
    modify fun s => { s with cache := s.cache.put capture.ref next.entry }
    modify fun s => { s with cache := evicted settings.limits s.cache }
    pure next.entry.result

end RoboAgent.VisualTracking
