import Mathlib
import RoboAgent.FrozenJson
import RoboAgent.MessageChecks

/-! Captures, and what an analysis and the spatial estimators say about them. Coordinates are
floats, of which only the order and the names of the operations are used. The content of a capture
is read by its digest alone. -/

namespace RoboAgent.VisionTypes
open RoboAgent.FrozenJson

/-- The arithmetic of Python floats that are not NaN; how it rounds is left open. -/
class Arithmetic (F : Type) extends LinearOrder F, Zero F, One F, Add F, Sub F, Mul F, Div F,
  OfScientific F

instance : Arithmetic Rat where

inductive Raised
  | visionError (code : String)
  /-- A ValueError: an integer of a JSON value has too many digits. -/
  | value
  | zeroDivision
deriving DecidableEq

structure VisionLimits where
  maxObjects : Nat := 64
  maxRelations : Nat := 512
  maxAttributesBytesPerObject : Nat := 16384
  maxTextChars : Nat := 4096
  maxTracks : Nat := 1024
  maxMissedObservations : Nat := 8
  maxTrackAgeNs : Nat := 5000000000
  maxTrackingCacheFrames : Nat := 128
  maxTrackingCacheBytes : Nat := 16777216
  positive : ∀ limit ∈ [maxObjects, maxRelations, maxAttributesBytesPerObject, maxTextChars,
    maxTracks, maxMissedObservations, maxTrackAgeNs, maxTrackingCacheFrames,
    maxTrackingCacheBytes], 1 ≤ limit := by decide

structure CaptureTime where
  clockId : String
  nanoseconds : Nat
deriving DecidableEq

structure CaptureRef where
  streamId : String
  clockId : String
  captureId : String
  sequence : Nat
deriving DecidableEq

/-- A visual capture, or a spatial capture by the visual capture it contains. -/
structure Capture (K : Type) where
  streamId : String
  captureId : String
  sequence : Nat
  capturedAt : CaptureTime
  content : K

def Capture.ref {K : Type} (capture : Capture K) : CaptureRef where
  streamId := capture.streamId
  clockId := capture.capturedAt.clockId
  captureId := capture.captureId
  sequence := capture.sequence

structure Point2D (F : Type) where
  x : F
  y : F

structure Box2D (F : Type) where
  x0 : F
  y0 : F
  x1 : F
  y1 : F

structure VisualDetection (F : Type) where
  localId : String
  category : String
  region : Box2D F
  anchor : Point2D F
  attributes : FrozenJsonObject
  description : Option String := none

structure VisualRelation where
  subjectId : String
  predicate : String
  objectId : String
deriving DecidableEq

structure VisualScene (F : Type) where
  ref : CaptureRef
  objects : List (VisualDetection F)
  relations : List VisualRelation := []
  description : Option String := none
  query : Option String := none
  distinct : (objects.map VisualDetection.localId).Nodup
  distinctRelations : relations.Nodup
  related : ∀ relation ∈ relations, relation.subjectId ∈ objects.map VisualDetection.localId ∧
    relation.objectId ∈ objects.map VisualDetection.localId

structure SemanticAnalysis (F : Type) where
  analysisId : String
  scene : VisualScene F
  identified : MessageChecks.visible analysisId = true ∧ analysisId.length ≤ 256

structure PositionEstimate (F : Type) where
  xyz : F × F × F
  frameId : String

/-- The status is AVAILABLE exactly when there is an estimate. -/
structure PositionResult (F : Type) where
  detectionId : String
  estimate : Option (PositionEstimate F)

structure SpatialResults (F : Type) where
  captureRef : CaptureRef
  positions : List (PositionResult F)
  distinct : (positions.map PositionResult.detectionId).Nodup

section
variable {F : Type}

/-- The estimate of the results for a detection. -/
def SpatialResults.position (spatial : SpatialResults F) (detectionId : String) :
    Option (PositionEstimate F) :=
  (spatial.positions.find? fun result => result.detectionId == detectionId).bind
    PositionResult.estimate

def VisualScene.validateLimits (attributesSize : FrozenJsonObject → Except Raised Nat)
    (scene : VisualScene F) (limits : VisionLimits) : Except Raised Unit :=
  if limits.maxObjects < scene.objects.length ∨ limits.maxRelations < scene.relations.length then
    .error (.visionError "semantic_output_limit_exceeded")
  else if (scene.description :: scene.query :: scene.objects.map VisualDetection.description).any
      fun text => text.any fun text => limits.maxTextChars < text.length then
    .error (.visionError "semantic_output_limit_exceeded")
  else scene.objects.forM fun d => do
    let size ← attributesSize d.attributes
    if limits.maxAttributesBytesPerObject < size then
      .error (.visionError "semantic_output_limit_exceeded")
    else .ok ()

end

end RoboAgent.VisionTypes
