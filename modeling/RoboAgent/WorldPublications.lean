import RoboAgent.CaptureMetadata
import RoboAgent.VisualTracking
import RoboAgent.WorldRetry
import RoboAgent.WorldSnapshots

/-! VisionWorldAdapter.prepare: the observation of a capture, and a claim for each predicate of each
tracked entity, under references that are digests of what they stand for. -/

namespace RoboAgent.WorldPublications
open RoboAgent.FrozenJson RoboAgent.SortedJson RoboAgent.KeyedLists RoboAgent.Dicts
open RoboAgent.FalliblePrograms
open RoboAgent.WorldTypes RoboAgent.WorldSnapshots
open RoboAgent.WorldStore (Library WorldError canonicalJsonDigest dataDigest)
open RoboAgent.VisionTypes (Capture CaptureRef Box2D VisualDetection VisualScene SemanticAnalysis)
open RoboAgent.VisualTracking (TrackId Association TrackingStatus TrackingResult)
open RoboAgent.CaptureMetadata

structure VisionWorldPolicy where
  semanticTtlNs : Option Nat := some 1000000000
  spatialTtlNs : Option Nat := some 1000000000
  visibilityTtlNs : Option Nat := some 1000000000

inductive PublicationError
  | vision (error : VisionTypes.Raised)
  | world (error : WorldError)
  | cancelled
  /-- What a callback of the Host raises. -/
  | other
deriving DecidableEq

/-- The World by its name; the callbacks return what they return, or raise. -/
structure VisionWorldBinding where
  worldId : String
  scope : Option String
  observationSource : String
  semanticClaimSource : String
  geometryClaimSource : String
  /-- None for something that is no EntityRef. -/
  trackToEntity : Option (TrackId → Except PublicationError (Option EntityRef)) := none
  policy : VisionWorldPolicy := {}
  predicateMapping : Dict String String := .empty
  valueEncoder : Option (String → JsonValue → Except PublicationError JsonValue) := none

structure WorldPublication where
  captureRef : CaptureRef
  analysisId : String
  observation : Observation
  claims : List Claim
  worldId : String
deriving DecidableEq

/-- The result of an estimator for a detection, with the data of the estimate if it is available. -/
structure EstimateResult where
  detectionId : String
  estimate : Option JsonValue

structure SpatialResults where
  captureRef : CaptureRef
  surface : List EstimateResult
  positions : List EstimateResult
  poses : List EstimateResult
  orientations : List EstimateResult

def visionError {α : Type} (code : String) : Except PublicationError α :=
  .error (.vision (.visionError code))

def freezeJson (value : JsonValue) : Except PublicationError FrozenJsonValue :=
  if frozen : wellFormed value = true then .ok ⟨value, frozen⟩ else .error (.vision .value)

/-- What is said of a detection: the predicate before it is mapped, and the value before it is
encoded. -/
structure Fact where
  detectionId : String
  predicate : String
  value : JsonValue
  source : String
  ttl : Option Nat

structure Statement where
  source : String
  value : FrozenJsonValue
  ttl : Option Nat

/-- The subject and the mapped predicate of a claim. -/
abbrev Key := EntityRef × String

def boxData (box : Box2D PyFloat) : JsonValue :=
  .obj [("x0", .float box.x0), ("y0", .float box.y0), ("x1", .float box.x1), ("y1", .float box.y1)]

section
variable (b : VisionWorldBinding)

def detectionFacts (d : VisualDetection PyFloat) : List Fact :=
  let fact (predicate : String) (value : JsonValue) (ttl : Option Nat) : Fact :=
    { detectionId := d.localId, predicate, value, source := b.semanticClaimSource, ttl }
  [fact "vision.semantic.category" (.str d.category) b.policy.semanticTtlNs,
    fact "vision.semantic.region" (boxData d.region) b.policy.spatialTtlNs] ++
  (d.description.toList.map fun description =>
    fact "vision.semantic.description" (.str description) b.policy.semanticTtlNs) ++
  (d.attributes.entries.map fun named =>
    fact ("vision.semantic." ++ named.1) named.2 b.policy.semanticTtlNs) ++
  [fact "vision.state.observed" (.bool true) b.policy.visibilityTtlNs]

/-- The ids of the entities that relations lead to, by subject and predicate. -/
def targets (entities : Dict String EntityRef) (scene : VisualScene PyFloat) :
    List ((String × String) × String) :=
  scene.relations.filterMap fun relation => do
    let _ ← entities.get relation.subjectId
    let object ← entities.get relation.objectId
    some ((relation.subjectId, relation.predicate), object.id)

def relationFacts (entities : Dict String EntityRef) (scene : VisualScene PyFloat) : List Fact :=
  let found := targets entities scene
  let relations := (found.map Prod.fst).dedup.insertionSort fun r q => [r.1, r.2] ≤ [q.1, q.2]
  relations.map fun relation =>
    let ids := ((found.filter fun target => target.1 = relation).map Prod.snd).dedup
    { detectionId := relation.1
      predicate := "vision.semantic.relation." ++ relation.2
      value := .obj [("targets", .arr ((ids.insertionSort (· ≤ ·)).map .str)),
        ("reference", .str "positive_visual_targets"), ("complete", .bool false)]
      source := b.semanticClaimSource
      ttl := b.policy.semanticTtlNs }

def estimateFacts (name : String) (results : List EstimateResult) : List Fact :=
  results.filterMap fun result => result.estimate.map fun estimate => {
    detectionId := result.detectionId
    predicate := "vision.geometry." ++ name
    value := estimate
    source := b.geometryClaimSource
    ttl := b.policy.spatialTtlNs }

def geometryFacts (spatial : SpatialResults) : List Fact :=
  estimateFacts b "surface_point" spatial.surface ++ estimateFacts b "position" spatial.positions ++
    estimateFacts b "principal_axes" spatial.orientations ++ estimateFacts b "pose" spatial.poses

/-- The values to claim, in the order in which they are found. -/
def addFacts (entities : Dict String EntityRef) (values : List (Key × Statement)) :
    List Fact → Except PublicationError (List (Key × Statement))
  | [] => .ok values
  | fact :: rest =>
    match entities.get fact.detectionId with
    | none => addFacts entities values rest
    | some entity =>
      let key : Key := (entity, (b.predicateMapping.get fact.predicate).getD fact.predicate)
      if key ∈ keys values then visionError "vision_predicate_mapping_conflict"
      else do
        let encoded ← b.valueEncoder.elim (.ok fact.value) fun encode =>
          encode fact.predicate fact.value
        let value ← freezeJson encoded
        addFacts entities (values ++ [(key, ⟨fact.source, value, fact.ttl⟩)]) rest

end

section
variable (lib : Library) (sha256 : List UInt8 → String)
  (associationInputDigest : Capture CaptureContent → VisualScene PyFloat → Option SpatialResults →
    Except VisionTypes.Raised String)
  (b : VisionWorldBinding)

/-! The digest of the input of an association is the tracker's. -/

/-- An id that is the digest of a JSON array. -/
def visionId (parts : List JsonValue) : Except PublicationError String :=
  match canonicalJsonDigest lib (.arr parts) with
  | .ok digest => .ok ("vision:" ++ digest)
  | .error error => .error (.world error)

def entityOf (tid : TrackId) (stream : String) : Except PublicationError EntityRef :=
  match b.trackToEntity with
  | some mapping => do
    match ← mapping tid with
    | some entity => .ok entity
    | none => visionError "entity_mapping_invalid"
  | none => (visionId lib
      [.str stream, .str tid.trackerNamespace, .str tid.clockId, .str tid.value]).map EntityRef.mk

def observationOf (capture : Capture CaptureContent) (id : String) : Observation where
  ref := ⟨b.observationSource, id⟩
  modality := if capture.content.spatial.isSome then "visual_depth" else "visual"
  observedAt := ⟨capture.ref.clockId, capture.capturedAt.nanoseconds⟩
  receivedAt := capture.content.receivedAt
  payload := .json ⟨captureMetadata sha256 capture, wellFormed_captureMetadata capture⟩
  scope := b.scope

/-- What the id of a claim stands for. -/
def claimParts (ref : CaptureRef) (analysisId : String) (key : Key) (source : String) :
    List JsonValue :=
  [.str source, b.scope.elim .null .str, refData ref, .str analysisId, .str key.1.id, .str key.2]

def claimOf (observation : Observation) (ref : CaptureRef) (analysisId assertedAt : String)
    (value : Key × Statement) : Except PublicationError Claim := do
  let id ← visionId lib (claimParts b ref analysisId value.1 value.2.source)
  let claim : Claim := {
    ref := ⟨id⟩
    subject := value.1.1
    predicate := value.1.2
    value := .json value.2.value
    kind := .interpretation
    source := value.2.source
    scope := b.scope
    evidenceRefs := [⟨.observation, some b.observationSource, observation.ref.id⟩]
    assertedAt
    validAt := some observation.observedAt
    validForNs := value.2.ttl
    supersedes := [] }
  if Claim.checked claim then .ok claim else .error (.world .invalidClaim)

/-- The checks that the analysis, the tracking and the estimates are of one capture. -/
def checkBinding (capture : Capture CaptureContent) (analysis : SemanticAnalysis PyFloat)
    (tracking : TrackingResult) (spatial : Option SpatialResults) :
    Except PublicationError Unit := do
  let ref := capture.ref
  let ids := analysis.scene.objects.map VisualDetection.localId
  if analysis.scene.ref ≠ ref ∨ tracking.captureRef ≠ ref ∨
      spatial.any fun spatial => spatial.captureRef ≠ ref then
    visionError "estimate_binding_invalid"
  else
    if tracking.status ≠ .skipped then
      let digest ← (associationInputDigest capture analysis.scene spatial).mapError .vision
      if tracking.inputDigest ≠ some digest then
        throw (.vision (.visionError "association_binding_invalid"))
      if (tracking.associations.map Association.detectionId).toFinset ≠ ids.toFinset then
        throw (.vision (.visionError "association_binding_invalid"))
    if spatial.any fun spatial =>
        (spatial.surface ++ spatial.positions ++ spatial.poses ++ spatial.orientations).any
          fun result => result.detectionId ∉ ids then
      visionError "estimate_binding_invalid"
    else .ok ()

def prepare (capture : Capture CaptureContent) (analysis : SemanticAnalysis PyFloat)
    (tracking : TrackingResult) (spatial : Option SpatialResults) (assertedAt : String) :
    Except PublicationError WorldPublication := do
  let ref := capture.ref
  checkBinding associationInputDigest capture analysis tracking spatial
  let id ← visionId lib [b.scope.elim .null .str, refData ref]
  let observation := observationOf sha256 b capture id
  let named ← (tracking.associations.filterMap fun a => a.trackId.map (a.detectionId, ·)).mapM
    fun entry => (entityOf lib b entry.2 ref.streamId).map (entry.1, ·)
  let entities : Dict String EntityRef := Dict.empty.update named
  if ¬(entities.entries.map Prod.snd).Nodup then visionError "entity_mapping_collision"
  else
    let facts := analysis.scene.objects.flatMap (detectionFacts b) ++
      relationFacts b entities analysis.scene ++ spatial.elim [] (geometryFacts b)
    let values ← addFacts b entities [] facts
    let claims ← (values.insertionSort fun v u => [v.1.1.id, v.1.2] ≤ [u.1.1.id, u.1.2]).mapM
      (claimOf lib b observation ref analysis.analysisId assertedAt)
    .ok { captureRef := ref, analysisId := analysis.analysisId, observation, claims,
          worldId := b.worldId }

end

/-! The claims of a publication have references of their own. -/

section
variable {lib : Library} {sha256 : List UInt8 → String}
  {associationInputDigest : Capture CaptureContent → VisualScene PyFloat → Option SpatialResults →
    Except VisionTypes.Raised String}
  {b : VisionWorldBinding}

/-- What every added statement keeps holds of all of them. -/
theorem addFacts_invariant {entities : Dict String EntityRef} {facts : List Fact}
    {I : List (Key × Statement) → Prop} {values out : List (Key × Statement)}
    (kept : ∀ values, ∀ fact ∈ facts, ∀ key ∉ keys values, ∀ value, I values →
      I (values ++ [(key, ⟨fact.source, value, fact.ttl⟩)]))
    (start : I values) (h : addFacts b entities values facts = .ok out) : I out := by
  induction facts generalizing values with
  | nil =>
    cases h
    exact start
  | cons fact rest ih =>
    have later {values : List (Key × Statement)} := @ih values
      fun values other mem => kept values other (List.mem_cons_of_mem _ mem)
    rw [addFacts] at h
    cases named : entities.get fact.detectionId with
    | none =>
      rw [named] at h
      exact later start h
    | some entity =>
      rw [named] at h
      dsimp only at h
      split_ifs at h with taken
      · cases h
      obtain ⟨encoded, -, h⟩ := bind_eq_ok h
      obtain ⟨value, -, h⟩ := bind_eq_ok h
      exact later (kept values fact List.mem_cons_self _ taken value start) h

theorem addFacts_distinct {entities : Dict String EntityRef} {facts : List Fact}
    {out : List (Key × Statement)} (h : addFacts b entities [] facts = .ok out) :
    (keys out).Nodup := by
  have kept (values : List (Key × Statement)) (fact : Fact) (_ : fact ∈ facts) (key : Key)
      (fresh : key ∉ keys values) (value : FrozenJsonValue) (distinct : (keys values).Nodup) :
      (keys (values ++ [(key, ⟨fact.source, value, fact.ttl⟩)])).Nodup := by
    rw [keys, List.map_append, List.nodup_append_comm]
    exact List.nodup_cons.mpr ⟨fresh, distinct⟩
  have none : (keys ([] : List (Key × Statement))).Nodup := List.nodup_nil
  exact addFacts_invariant kept none h

theorem visionId_eq_ok {parts : List JsonValue} {id : String} (h : visionId lib parts = .ok id) :
    id = "vision:" ++ dataDigest lib (.arr parts) := by
  rw [visionId] at h
  split at h
  · next digested =>
    rw [canonicalJsonDigest] at digested
    split_ifs at digested
    cases digested
    exact (Except.ok.inj h).symm
  · cases h

theorem wellFormed_claimParts (ref : CaptureRef) (analysisId : String) (key : Key)
    (source : String) : wellFormed (.arr (claimParts b ref analysisId key source)) = true := by
  rw [claimParts]
  cases b.scope <;> simp [wellFormed, wellFormedItems, wellFormed_refData]

theorem visionId_injective (correct : lib.Correct) {parts others : List JsonValue}
    (valid : wellFormed (.arr parts) = true) (valid' : wellFormed (.arr others) = true)
    {id : String} (h : visionId lib parts = .ok id) (h' : visionId lib others = .ok id) :
    parts.map sortKeys = others.map sortKeys := by
  have same := (visionId_eq_ok h).symm.trans (visionId_eq_ok h')
  have digests : dataDigest lib (.arr parts) = dataDigest lib (.arr others) := by
    have texts := congrArg String.toList same
    rw [String.toList_append, String.toList_append] at texts
    exact String.toList_inj.mp (List.append_cancel_left texts)
  have sorted := (WorldInvariant.dataDigest_injective correct valid valid').mp digests
  rw [sortKeys_arr, sortKeys_arr] at sorted
  exact JsonValue.arr.inj sorted

variable {observation : Observation} {ref : CaptureRef} {analysisId assertedAt : String}

theorem claimOf_eq_ok {value : Key × Statement} {claim : Claim}
    (h : claimOf lib b observation ref analysisId assertedAt value = .ok claim) :
    visionId lib (claimParts b ref analysisId value.1 value.2.source) = .ok claim.ref.id := by
  obtain ⟨id, made, h⟩ := bind_eq_ok h
  dsimp only at h
  split_ifs at h
  cases h
  exact made

/-- One reference stands for one subject and predicate. -/
theorem claimOf_injective (correct : lib.Correct) {value other : Key × Statement}
    {claim claim' : Claim}
    (h : claimOf lib b observation ref analysisId assertedAt value = .ok claim)
    (h' : claimOf lib b observation ref analysisId assertedAt other = .ok claim')
    (same : claim.ref = claim'.ref) : value.1 = other.1 := by
  have made := claimOf_eq_ok h
  rw [same] at made
  have parts := visionId_injective correct (wellFormed_claimParts ..) (wellFormed_claimParts ..)
    made (claimOf_eq_ok h')
  obtain ⟨⟨⟨subject⟩, predicate⟩, statement⟩ := value
  obtain ⟨⟨⟨subject'⟩, predicate'⟩, statement'⟩ := other
  simp [claimParts, sortKeys] at parts
  simp [parts]

theorem nodup_of_forall₂ {α β κ ρ : Type} {R : α → β → Prop} {key : α → κ} {name : β → ρ}
    (injective : ∀ x y x' y', R x y → R x' y' → name y = name y' → key x = key x') {xs : List α}
    {ys : List β} (related : List.Forall₂ R xs ys) (distinct : (xs.map key).Nodup) :
    (ys.map name).Nodup := by
  induction related with
  | nil => exact List.nodup_nil
  | cons first rest ih =>
    obtain ⟨fresh, distinct⟩ := List.nodup_cons.mp distinct
    refine List.nodup_cons.mpr ⟨fun mem => fresh ?_, ih distinct⟩
    obtain ⟨y, mem, same⟩ := List.mem_map.mp mem
    obtain ⟨x, mem, there⟩ := WorldRetry.exists_of_forall₂ rest mem
    exact List.mem_map.mpr ⟨x, mem, injective _ _ _ _ there first same⟩

theorem claims_distinct (correct : lib.Correct) {values : List (Key × Statement)}
    {claims : List Claim} (distinct : (keys values).Nodup)
    (h : values.mapM (claimOf lib b observation ref analysisId assertedAt) = .ok claims) :
    (claims.map Claim.ref).Nodup :=
  nodup_of_forall₂ (fun _ _ _ _ made made' => claimOf_injective correct made made')
    (mapM_eq_ok_iff.mp h) distinct

/-- What a prepared publication has been given by the binding it was prepared with. -/
structure Bound (b : VisionWorldBinding) (p : WorldPublication) : Prop where
  worldId : p.worldId = b.worldId
  source : p.observation.ref.source = b.observationSource
  scope : p.observation.scope = b.scope
  json : ∃ value, p.observation.payload = .json value
  claims : ∀ claim ∈ p.claims, claim.source ∈ [b.semanticClaimSource, b.geometryClaimSource] ∧
    claim.scope = b.scope ∧
    claim.evidenceRefs = [⟨.observation, some b.observationSource, p.observation.ref.id⟩]

theorem detectionFacts_source {d : VisualDetection PyFloat} {fact : Fact}
    (mem : fact ∈ detectionFacts b d) : fact.source = b.semanticClaimSource := by
  rw [detectionFacts] at mem
  simp only [List.mem_append, List.mem_cons, List.not_mem_nil, or_false, List.mem_map] at mem
  obtain (((rfl | rfl) | ⟨_, -, rfl⟩) | ⟨_, -, rfl⟩) | rfl := mem <;> rfl

theorem relationFacts_source {entities : Dict String EntityRef} {scene : VisualScene PyFloat}
    {fact : Fact} (mem : fact ∈ relationFacts b entities scene) :
    fact.source = b.semanticClaimSource := by
  obtain ⟨_, -, rfl⟩ := List.mem_map.mp mem
  rfl

theorem geometryFacts_source {spatial : SpatialResults} {fact : Fact}
    (mem : fact ∈ geometryFacts b spatial) : fact.source = b.geometryClaimSource := by
  have made {name : String} {results : List EstimateResult}
      (mem : fact ∈ estimateFacts b name results) : fact.source = b.geometryClaimSource := by
    obtain ⟨result, -, found⟩ := List.mem_filterMap.mp mem
    obtain ⟨_, -, rfl⟩ := Option.map_eq_some_iff.mp found
    rfl
  rw [geometryFacts] at mem
  simp only [List.mem_append] at mem
  obtain ((mem | mem) | mem) | mem := mem <;> exact made mem

theorem addFacts_sources {entities : Dict String EntityRef} {facts : List Fact}
    {out : List (Key × Statement)} {sources : List String}
    (allowed : ∀ fact ∈ facts, fact.source ∈ sources)
    (h : addFacts b entities [] facts = .ok out) : ∀ value ∈ out, value.2.source ∈ sources := by
  have kept (values : List (Key × Statement)) (fact : Fact) (mem : fact ∈ facts) (key : Key)
      (_ : key ∉ keys values) (value : FrozenJsonValue)
      (before : ∀ value ∈ values, value.2.source ∈ sources) :
      ∀ entry ∈ values ++ [(key, (⟨fact.source, value, fact.ttl⟩ : Statement))],
        entry.2.source ∈ sources := by
    intro entry among
    obtain among | among := List.mem_append.mp among
    · exact before entry among
    · rw [List.mem_singleton.mp among]
      exact allowed fact mem
  exact addFacts_invariant kept (List.forall_mem_nil _) h

theorem claimOf_fields {value : Key × Statement} {claim : Claim}
    (h : claimOf lib b observation ref analysisId assertedAt value = .ok claim) :
    claim.source = value.2.source ∧ claim.scope = b.scope ∧
      claim.evidenceRefs = [⟨.observation, some b.observationSource, observation.ref.id⟩] := by
  obtain ⟨id, -, h⟩ := bind_eq_ok h
  dsimp only at h
  split_ifs at h
  cases h
  exact ⟨rfl, rfl, rfl⟩

theorem prepare_bound (correct : lib.Correct) {capture : Capture CaptureContent}
    {analysis : SemanticAnalysis PyFloat} {tracking : TrackingResult}
    {spatial : Option SpatialResults} {p : WorldPublication}
    (h : prepare lib sha256 associationInputDigest b capture analysis tracking spatial assertedAt =
      .ok p) : Bound b p ∧ (p.claims.map Claim.ref).Nodup := by
  obtain ⟨⟨⟩, -, h⟩ := bind_eq_ok h
  obtain ⟨id, -, h⟩ := bind_eq_ok h
  obtain ⟨named, -, h⟩ := bind_eq_ok h
  dsimp only at h
  split_ifs at h
  swap
  · cases h
  obtain ⟨values, added, h⟩ := bind_eq_ok h
  obtain ⟨claims, claimed, h⟩ := bind_eq_ok h
  cases h
  have distinct := addFacts_distinct added
  have sources : ∀ value ∈ values,
      value.2.source ∈ [b.semanticClaimSource, b.geometryClaimSource] := by
    refine addFacts_sources (fun fact mem => ?_) added
    obtain mem | mem := List.mem_append.mp mem
    · obtain mem | mem := List.mem_append.mp mem
      · obtain ⟨d, -, mem⟩ := List.mem_flatMap.mp mem
        rw [detectionFacts_source mem]
        exact List.mem_cons_self
      · rw [relationFacts_source mem]
        exact List.mem_cons_self
    · cases spatial with
      | none => cases mem
      | some spatial =>
        rw [geometryFacts_source mem]
        exact List.mem_cons_of_mem _ List.mem_cons_self
  refine ⟨⟨rfl, rfl, rfl, ⟨_, rfl⟩, fun claim mem => ?_⟩, claims_distinct correct ?_ claimed⟩
  · obtain ⟨value, mem, made⟩ := WorldRetry.exists_of_forall₂ (mapM_eq_ok_iff.mp claimed) mem
    obtain ⟨source, scope, evidence⟩ := claimOf_fields made
    refine ⟨?_, scope, evidence⟩
    rw [source]
    exact sources value ((List.mem_insertionSort _).mp mem)
  · exact ((List.perm_insertionSort _ _).map Prod.fst).nodup_iff.mpr distinct

end

end RoboAgent.WorldPublications
