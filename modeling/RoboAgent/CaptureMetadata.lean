import RoboAgent.CanonicalDigests
import RoboAgent.VisionTypes

/-! What a capture has besides its identity, and the digest of all of it. Captures with one digest
are alike up to the order of keys in their calibration metadata. A datetime stands by its ISO text,
and depth by the bytes of its array. -/

namespace RoboAgent.CaptureMetadata
open RoboAgent.FrozenJson RoboAgent.JsonIdentity RoboAgent.CanonicalDigests RoboAgent.VisionTypes
open RoboAgent.WorldStore (Library)

structure ImageFrame where
  data : List UInt8
  mimeType : String
  width : Nat
  height : Nat
deriving DecidableEq

structure DepthFrame where
  rows : Nat
  columns : Nat
  data : List UInt8
  capturedAt : CaptureTime
  receivedAt : String
deriving DecidableEq

structure PinholeCamera where
  width : Nat
  height : Nat
  fx : PyFloat
  fy : PyFloat
  cx : PyFloat
  cy : PyFloat
  frameId : String
  finite : ∀ number ∈ [fx, fy, cx, cy], number.isFinite = true

structure RegisteredDepthGeometry where
  calibrationId : String
  normalizedRayTolerance : PyFloat
  finite : normalizedRayTolerance.isFinite = true

/-- What a spatial capture has besides the visual capture in it. -/
structure SpatialContent where
  visualCamera : PinholeCamera
  depth : DepthFrame
  depthCamera : PinholeCamera
  registration : Option RegisteredDepthGeometry
  calibrationMetadata : FrozenJsonObject

structure CaptureContent where
  image : ImageFrame
  receivedAt : String
  frameId : Option String := none
  parentRef : Option CaptureRef := none
  spatial : Option SpatialContent := none

def timeData (time : CaptureTime) : JsonValue :=
  .obj [("clock_id", .str time.clockId), ("nanoseconds", .int time.nanoseconds)]

def refData (ref : CaptureRef) : JsonValue :=
  .obj [("stream_id", .str ref.streamId), ("clock_id", .str ref.clockId),
    ("capture_id", .str ref.captureId), ("sequence", .int ref.sequence)]

def cameraData (camera : PinholeCamera) : JsonValue :=
  .obj [("width", .int camera.width), ("height", .int camera.height), ("fx", .float camera.fx),
    ("fy", .float camera.fy), ("cx", .float camera.cx), ("cy", .float camera.cy),
    ("frame_id", .str camera.frameId)]

def registrationData (registration : RegisteredDepthGeometry) : JsonValue :=
  .obj [("calibration_id", .str registration.calibrationId),
    ("normalized_ray_tolerance", .float registration.normalizedRayTolerance)]

def nullable {α : Type} (data : α → JsonValue) : Option α → JsonValue
  | none => .null
  | some value => data value

section
variable (sha256 : List UInt8 → String)

def depthData (depth : DepthFrame) : JsonValue :=
  .obj [("shape", .arr [.int depth.rows, .int depth.columns]), ("dtype", .str "float32"),
    ("unit", .str "metre-Z"), ("observed_at", timeData depth.capturedAt),
    ("received_at", .str depth.receivedAt), ("digest", .str (sha256 depth.data))]

def imageData (image : ImageFrame) : JsonValue :=
  .obj [("mime_type", .str image.mimeType), ("width", .int image.width),
    ("height", .int image.height), ("size", .int image.data.length),
    ("digest", .str (sha256 image.data))]

def spatialFields (spatial : SpatialContent) : Fields :=
  [("depth", depthData sha256 spatial.depth), ("visual_camera", cameraData spatial.visualCamera),
    ("depth_camera", cameraData spatial.depthCamera),
    ("registration", nullable registrationData spatial.registration),
    ("calibration_metadata", .obj spatial.calibrationMetadata.entries)]

def captureMetadata (capture : Capture CaptureContent) : JsonValue :=
  .obj ([("capture_ref", refData capture.ref), ("observed_at", timeData capture.capturedAt),
    ("received_at", .str capture.content.receivedAt),
    ("parent_ref", nullable refData capture.content.parentRef),
    ("frame_id", orNull capture.content.frameId),
    ("image", imageData sha256 capture.content.image)] ++
    (capture.content.spatial.map (spatialFields sha256)).getD [])

def captureDigest (lib : Library) (capture : Capture CaptureContent) : Except Raised String :=
  match canonicalJsonDigest lib (captureMetadata sha256 capture) with
  | some digest => .ok digest
  | none => .error .value

end

/-- The bytes a capture takes in a buffer. -/
def captureSize (content : CaptureContent) : Nat :=
  content.image.data.length + (content.spatial.map fun spatial => spatial.depth.data.length).getD 0

def SpatialContent.Agree (spatial other : SpatialContent) : Prop :=
  spatial.depth = other.depth ∧ spatial.visualCamera = other.visualCamera ∧
    spatial.depthCamera = other.depthCamera ∧ spatial.registration = other.registration ∧
    same (.obj spatial.calibrationMetadata.entries) (.obj other.calibrationMetadata.entries) = true

/-- Alike in everything, up to the order of keys. -/
def Agree (capture other : Capture CaptureContent) : Prop :=
  capture.ref = other.ref ∧ capture.capturedAt = other.capturedAt ∧
    capture.content.receivedAt = other.content.receivedAt ∧
    capture.content.parentRef = other.content.parentRef ∧
    capture.content.frameId = other.content.frameId ∧
    capture.content.image = other.content.image ∧
    Option.Rel SpatialContent.Agree capture.content.spatial other.content.spatial

theorem same_timeData {time other : CaptureTime} :
    same (timeData time) (timeData other) = true ↔ time = other := by
  obtain ⟨clockId, nanoseconds⟩ := time
  obtain ⟨clockId', nanoseconds'⟩ := other
  rw [timeData, timeData, same_fields (by decide : ["clock_id", "nanoseconds"].Nodup) rfl rfl]
  simp [same_str, same_size]

theorem same_refData {ref other : CaptureRef} :
    same (refData ref) (refData other) = true ↔ ref = other := by
  obtain ⟨streamId, clockId, captureId, sequence⟩ := ref
  obtain ⟨streamId', clockId', captureId', sequence'⟩ := other
  rw [refData, refData, same_fields
    (by decide : ["stream_id", "clock_id", "capture_id", "sequence"].Nodup) rfl rfl]
  simp [same_str, same_size]

theorem same_cameraData {camera other : PinholeCamera} :
    same (cameraData camera) (cameraData other) = true ↔ camera = other := by
  obtain ⟨width, height, fx, fy, cx, cy, frameId, finite⟩ := camera
  obtain ⟨width', height', fx', fy', cx', cy', frameId', finite'⟩ := other
  rw [cameraData, cameraData, same_fields
    (by decide : ["width", "height", "fx", "fy", "cx", "cy", "frame_id"].Nodup) rfl rfl]
  simp [same_str, same_size, same_float]

theorem same_registrationData {registration other : RegisteredDepthGeometry} :
    same (registrationData registration) (registrationData other) = true ↔
      registration = other := by
  obtain ⟨calibrationId, tolerance, finite⟩ := registration
  obtain ⟨calibrationId', tolerance', finite'⟩ := other
  rw [registrationData, registrationData, same_fields
    (by decide : ["calibration_id", "normalized_ray_tolerance"].Nodup) rfl rfl]
  simp [same_str, same_float]

theorem same_nullable {α : Type} {data : α → JsonValue}
    (reads : ∀ value other, same (data value) (data other) = true ↔ value = other)
    (object : ∀ value, ∃ fields, data value = .obj fields) {value other : Option α} :
    same (nullable data value) (nullable data other) = true ↔ value = other := by
  have differs (value : α) : ¬same .null (data value) = true ∧ ¬same (data value) .null = true := by
    obtain ⟨fields, written⟩ := object value
    rw [written]
    exact ⟨nofun, nofun⟩
  cases value with
  | none =>
    cases other with
    | none => exact iff_of_true rfl rfl
    | some other => exact iff_of_false (differs other).1 nofun
  | some value =>
    cases other with
    | none => exact iff_of_false (differs value).2 nofun
    | some other => rw [nullable, nullable, reads, Option.some_inj]

section
variable {sha256 : List UInt8 → String} (collisionFree : Function.Injective sha256)
include collisionFree

theorem same_depthData {depth other : DepthFrame} :
    same (depthData sha256 depth) (depthData sha256 other) = true ↔ depth = other := by
  obtain ⟨rows, columns, data, capturedAt, receivedAt⟩ := depth
  obtain ⟨rows', columns', data', capturedAt', receivedAt'⟩ := other
  rw [depthData, depthData, same_fields (by decide : ["shape", "dtype", "unit", "observed_at",
    "received_at", "digest"].Nodup) rfl rfl]
  simp [same_str, same_size, same_arr, same_timeData, collisionFree.eq_iff]
  tauto

theorem same_imageData {image other : ImageFrame} :
    same (imageData sha256 image) (imageData sha256 other) = true ↔ image = other := by
  obtain ⟨data, mimeType, width, height⟩ := image
  obtain ⟨data', mimeType', width', height'⟩ := other
  rw [imageData, imageData, same_fields
    (by decide : ["mime_type", "width", "height", "size", "digest"].Nodup) rfl rfl]
  simp only [List.forall₂_cons, List.forall₂_nil_left_iff, same_str, same_size,
    collisionFree.eq_iff, ImageFrame.mk.injEq, and_true]
  constructor
  · rintro ⟨rfl, rfl, rfl, -, rfl⟩
    exact ⟨rfl, rfl, rfl, rfl⟩
  · rintro ⟨rfl, rfl, rfl, rfl⟩
    exact ⟨rfl, rfl, rfl, rfl, rfl⟩

theorem same_spatialFields {spatial other : SpatialContent} :
    List.Forall₂ (fun field other : String × JsonValue => same field.2 other.2 = true)
        (spatialFields sha256 spatial) (spatialFields sha256 other) ↔ spatial.Agree other := by
  simp only [spatialFields, List.forall₂_cons, List.forall₂_nil_left_iff, and_true,
    same_depthData collisionFree, same_cameraData,
    same_nullable (fun _ _ => same_registrationData) (fun _ => ⟨_, rfl⟩), SpatialContent.Agree]

/-- The metadata tells captures apart that do not agree. -/
theorem same_captureMetadata {capture other : Capture CaptureContent} :
    same (captureMetadata sha256 capture) (captureMetadata sha256 other) = true ↔
      Agree capture other := by
  obtain ⟨streamId, captureId, sequence, capturedAt, image, receivedAt, frameId, parentRef,
    spatial⟩ := capture
  obtain ⟨streamId', captureId', sequence', capturedAt', image', receivedAt', frameId', parentRef',
    spatial'⟩ := other
  cases spatial with
  | none =>
    cases spatial' with
    | none =>
      rw [captureMetadata, captureMetadata, same_fields (by decide : ["capture_ref", "observed_at",
        "received_at", "parent_ref", "frame_id", "image"].Nodup) rfl rfl]
      simp [same_refData, same_timeData, same_str, same_orNull, same_imageData collisionFree,
        same_nullable (fun _ _ => same_refData) (fun _ => ⟨_, rfl⟩), Agree]
    | some spatial' =>
      refine iff_of_false (fun equal => ?_) fun agree => ?_
      · have lengths : 6 = 11 := (same_obj.mp equal).1
        cases lengths
      · cases agree.2.2.2.2.2.2
  | some spatial =>
    cases spatial' with
    | none =>
      refine iff_of_false (fun equal => ?_) fun agree => ?_
      · have lengths : 11 = 6 := (same_obj.mp equal).1
        cases lengths
      · cases agree.2.2.2.2.2.2
    | some spatial' =>
      rw [captureMetadata, captureMetadata, same_fields (by decide : ["capture_ref", "observed_at",
        "received_at", "parent_ref", "frame_id", "image", "depth", "visual_camera", "depth_camera",
        "registration", "calibration_metadata"].Nodup) rfl rfl]
      simp only [Option.map_some, Option.getD_some, List.cons_append, List.nil_append,
        List.forall₂_cons, same_spatialFields collisionFree, same_refData, same_timeData, same_str,
        same_orNull, same_imageData collisionFree,
        same_nullable (fun _ _ => same_refData) (fun _ => ⟨_, rfl⟩), Agree, Option.rel_some_some]

end

theorem wellFormed_timeData (time : CaptureTime) : wellFormed (timeData time) = true :=
  wellFormed_fields (by decide : ["clock_id", "nanoseconds"].Nodup) rfl (by simp [wellFormed])

theorem wellFormed_refData (ref : CaptureRef) : wellFormed (refData ref) = true :=
  wellFormed_fields (by decide : ["stream_id", "clock_id", "capture_id", "sequence"].Nodup) rfl
    (by simp [wellFormed])

theorem wellFormed_cameraData (camera : PinholeCamera) : wellFormed (cameraData camera) = true := by
  refine wellFormed_fields
    (by decide : ["width", "height", "fx", "fy", "cx", "cy", "frame_id"].Nodup) rfl ?_
  have finite := camera.finite
  simp only [List.forall_mem_cons] at finite
  simp [wellFormed, finite]

theorem wellFormed_registrationData (registration : RegisteredDepthGeometry) :
    wellFormed (registrationData registration) = true :=
  wellFormed_fields (by decide : ["calibration_id", "normalized_ray_tolerance"].Nodup) rfl
    (by simp [wellFormed, registration.finite])

theorem wellFormed_nullable {α : Type} {data : α → JsonValue}
    (each : ∀ value, wellFormed (data value) = true) (value : Option α) :
    wellFormed (nullable data value) = true := by
  cases value with
  | none => rfl
  | some value => exact each value

section
variable {sha256 : List UInt8 → String}

theorem wellFormed_depthData (depth : DepthFrame) :
    wellFormed (depthData sha256 depth) = true :=
  wellFormed_fields (by decide : ["shape", "dtype", "unit", "observed_at", "received_at",
    "digest"].Nodup) rfl (by simp [wellFormed, wellFormedItems, wellFormed_timeData])

theorem wellFormed_imageData (image : ImageFrame) : wellFormed (imageData sha256 image) = true :=
  wellFormed_fields (by decide : ["mime_type", "width", "height", "size", "digest"].Nodup) rfl
    (by simp [wellFormed])

theorem wellFormed_captureMetadata (capture : Capture CaptureContent) :
    wellFormed (captureMetadata sha256 capture) = true := by
  have refs := wellFormed_nullable wellFormed_refData capture.content.parentRef
  cases spatial : capture.content.spatial with
  | none =>
    rw [captureMetadata, spatial]
    refine wellFormed_fields (by decide : ["capture_ref", "observed_at", "received_at",
      "parent_ref", "frame_id", "image"].Nodup) rfl ?_
    simp [wellFormed, wellFormed_refData, wellFormed_timeData, refs, wellFormed_orNull,
      wellFormed_imageData]
  | some spatial' =>
    rw [captureMetadata, spatial]
    refine wellFormed_fields (by decide : ["capture_ref", "observed_at", "received_at",
      "parent_ref", "frame_id", "image", "depth", "visual_camera", "depth_camera", "registration",
      "calibration_metadata"].Nodup) rfl ?_
    have calibration : wellFormed (.obj spatial'.calibrationMetadata.entries) = true :=
      spatial'.calibrationMetadata.frozen
    simp [wellFormed_refData, wellFormed_timeData, refs, wellFormed_orNull, wellFormed_imageData,
      spatialFields, wellFormed_depthData, wellFormed_cameraData, calibration,
      wellFormed_nullable wellFormed_registrationData]
    rfl

/-- Captures with one digest agree. -/
theorem captureDigest_eq_iff {lib : Library} (correct : lib.Correct)
    (collisionFree : Function.Injective sha256) {capture other : Capture CaptureContent}
    {digest digest' : String} (digested : captureDigest sha256 lib capture = .ok digest)
    (digested' : captureDigest sha256 lib other = .ok digest') :
    digest = digest' ↔ Agree capture other := by
  have written {capture : Capture CaptureContent} {digest : String}
      (digested : captureDigest sha256 lib capture = .ok digest) :
      ∃ text, payload lib (captureMetadata sha256 capture) = some text ∧
        lib.sha256 text = digest := by
    rw [captureDigest] at digested
    split at digested
    · rename_i made here
      cases digested
      exact Option.map_eq_some_iff.mp here
    · cases digested
  obtain ⟨text, here, rfl⟩ := written digested
  obtain ⟨text', there, rfl⟩ := written digested'
  rw [correct.collisionFree.eq_iff, payload_eq_iff correct.floats (wellFormed_captureMetadata _)
    (wellFormed_captureMetadata _) here there, same_captureMetadata collisionFree]

end

end RoboAgent.CaptureMetadata
