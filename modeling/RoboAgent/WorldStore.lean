import Mathlib
import RoboAgent.WorldTypes
import RoboAgent.MessageChecks
import RoboAgent.Dicts
import RoboAgent.DepthFirst
import RoboAgent.FalliblePrograms

/-! The World: observations and claims with their digests. A commit checks a whole batch against
the store before it changes anything; the lock is never held over an await, so a commit is one
step. -/

namespace RoboAgent.WorldStore
open RoboAgent.FrozenJson RoboAgent.SortedJson RoboAgent.JsonText RoboAgent.JsonIdentity
open RoboAgent.KeyedLists RoboAgent.Dicts RoboAgent.DepthFirst RoboAgent.FalliblePrograms
open RoboAgent.WorldTypes

/-- The text of a float and hashlib.sha256, of the UTF-8 encoding of a text. -/
structure Library where
  floatText : PyFloat → List Char
  sha256 : List Char → String

structure Library.Correct (lib : Library) : Prop where
  floats : FloatText lib.floatText
  collisionFree : Function.Injective lib.sha256

inductive WorldError
  | sourceNotAllowed
  | scopeNotAllowed
  | capacityExceeded
  | claimConflict
  | observationConflict
  | invalidClaim
  | evidenceNotFound
  | clockUnavailable
  /-- A ValueError: an integer has too many digits, or the constructor refuses. -/
  | value
  | assertion
deriving DecidableEq

structure WorldLimits where
  maxEntities : Nat := 1024
  maxObservations : Nat := 4096
  maxClaims : Nat := 8192
  maxEvidenceMetadata : Nat := 8192
  maxPayloadBytes : Nat := 1048576
  maxMediaRefs : Nat := 1024
  maxSearchResults : Nat := 64

structure World where
  worldId : String
  limits : WorldLimits
  sources : List String
  scopes : List (Option String)
  revision : Nat
  observations : Dict ObservationRef Observation
  transactions : Dict ObservationRef (Finset ClaimRef)
  claims : Dict ClaimRef Claim
  payloadBytes : Nat
  claimDigests : Dict ClaimRef String
  observationDigests : Dict ObservationRef String

structure WorldReceipt where
  worldId : String
  revision : Nat
  changed : Bool
  observationRef : Option ObservationRef
  committedClaimRefs : List ClaimRef
deriving DecidableEq

/-- A text that is not blank and not too long. -/
def textChecked (text : String) : Bool := MessageChecks.visible text && text.length ≤ 1024

def create (worldId : String) (limits : WorldLimits) (sources : List String)
    (scopes : List (Option String)) : Except WorldError World :=
  if textChecked worldId then
    .ok {
      worldId, limits, sources, scopes
      revision := 0
      observations := .empty
      transactions := .empty
      claims := .empty
      payloadBytes := 0
      claimDigests := .empty
      observationDigests := .empty }
  else .error .value

section
variable (lib : Library)

def dataSize (data : JsonValue) : Nat := byteSize (write lib.floatText data)

def dataDigest (data : JsonValue) : String := lib.sha256 (write lib.floatText (sortKeys data))

def canonicalJsonSize (data : JsonValue) : Except WorldError Nat :=
  if printable data then .ok (dataSize lib data) else .error .value

def canonicalJsonDigest (data : JsonValue) : Except WorldError String :=
  if printable data then .ok (dataDigest lib data) else .error .value

end

/-- A claim of the batch with its digest. -/
structure Submitted where
  claim : Claim
  digest : String

/-- What a commit computes before it takes the lock. -/
structure Prepared where
  incoming : Dict ClaimRef Submitted
  observationSize : Nat
  observationDigest : Option String

/-- What a commit would make of the store. -/
structure Planned where
  observations : Dict ObservationRef Observation
  claims : Dict ClaimRef Claim
  payloadBytes : Nat
  changed : Bool

def claimGraph (claims : Dict ClaimRef Claim) : Graph ClaimRef :=
  claims.entries.map fun entry => (entry.1, entry.2.parents)

def entities (claims : List Claim) : Finset EntityRef :=
  (claims.map Claim.subject ++ claims.filterMap fun claim =>
    match claim.value with
    | .entity reference => some reference
    | .json _ => none).toFinset

def isMedia (observation : Observation) : Bool :=
  match observation.payload with
  | .resource _ => true
  | .json _ => false

def values {K V : Type} (d : Dict K V) : List V := d.entries.map Prod.snd

namespace World

variable (w : World)

def membership (source : String) (scope : Option String) : Except WorldError Unit :=
  if source ∉ w.sources then .error .sourceNotAllowed
  else if scope ∉ w.scopes then .error .scopeNotAllowed
  else .ok ()

section
variable (lib : Library)

/-- The loop over the batch: a claim that comes twice must be the same. -/
def gather (incoming : Dict ClaimRef Submitted) :
    List Claim → Except WorldError (Dict ClaimRef Submitted)
  | [] => .ok incoming
  | claim :: rest => do
    w.membership claim.source claim.scope
    let digest ← canonicalJsonDigest lib claim.data
    if (incoming.get claim.ref).any fun earlier => earlier.digest != digest then
      .error .claimConflict
    else gather (incoming.put claim.ref ⟨claim, digest⟩) rest

def prepare (observation : Option Observation) (batch : List Claim) :
    Except WorldError Prepared := do
  if w.limits.maxClaims < batch.length then .error .capacityExceeded
  else
    observation.elim (.ok ()) fun o => w.membership o.ref.source o.scope
    let incoming ← w.gather lib .empty batch
    let observationSize ← observation.elim (.ok 0) fun o => canonicalJsonSize lib o.data
    if (values incoming).any (fun s => w.limits.maxPayloadBytes < dataSize lib s.claim.data) ∨
        w.limits.maxPayloadBytes < observationSize then
      .error .capacityExceeded
    else
      let observationDigest ← observation.elim (.ok none) fun o =>
        (canonicalJsonDigest lib o.data).map some
      .ok { incoming, observationSize, observationDigest }

end

/-- Whether an evidence reference resolves. -/
def resolves (observations : Dict ObservationRef Observation) (claims : Dict ClaimRef Claim)
    (evidence : EvidenceRef) : Bool :=
  match evidence.kind with
  | .observation => (observations.get ⟨evidence.source.getD "", evidence.id⟩).isSome
  | .claim => (claims.get ⟨evidence.id⟩).any fun parent =>
    evidence.source.all fun source => source == parent.source

def checkReferences (observations : Dict ObservationRef Observation)
    (claims : Dict ClaimRef Claim) : List Claim → Except WorldError Unit
  | [] => .ok ()
  | claim :: rest =>
    if claim.kind.isGrounded ∧ claim.evidenceRefs = [] then .error .invalidClaim
    else if ¬claim.evidenceRefs.all (resolves observations claims) then .error .evidenceNotFound
    else if ¬claim.supersedes.all fun replaced => (claims.get replaced).isSome then
      .error .evidenceNotFound
    else checkReferences observations claims rest

def validateGraph (claims : Dict ClaimRef Claim) (existing : List ClaimRef) :
    Except WorldError Unit :=
  match visitAll (claimGraph claims) existing (keys claims.entries) with
  | some _ => .ok ()
  | none => .error .invalidClaim

/-- Whether the store holds the observation's reference for something else. -/
def observationConflicts (observation : Observation) (prepared : Prepared) : Bool :=
  (w.observations.get observation.ref).isSome &&
    (w.observationDigests.get observation.ref != prepared.observationDigest ||
      decide (w.transactions.get observation.ref ≠
        some (keys prepared.incoming.entries).toFinset))

def claimConflicts (prepared : Prepared) : Bool :=
  prepared.incoming.entries.any fun entry =>
    (w.claims.get entry.1).isSome && w.claimDigests.get entry.1 != some entry.2.digest

/-- The counts of a commit and the limits on them. -/
def counts (observations : Dict ObservationRef Observation) (claims : Dict ClaimRef Claim)
    (payloadBytes : Nat) : List (Nat × Nat) := [
  ((entities (values claims)).card, w.limits.maxEntities),
  (observations.entries.length, w.limits.maxObservations),
  (claims.entries.length, w.limits.maxClaims),
  (observations.entries.length + claims.entries.length, w.limits.maxEvidenceMetadata),
  ((values observations).countP isMedia, w.limits.maxMediaRefs),
  (payloadBytes, w.limits.maxPayloadBytes)]

def isNewObservation (observation : Option Observation) : Bool :=
  observation.any fun o => (w.observations.get o.ref).isNone

/-- The section under the lock, up to its first assignment. -/
def plan (lib : Library) (observation : Option Observation) (prepared : Prepared) :
    Except WorldError Planned := do
  let submitted := prepared.incoming.entries.map fun entry => (entry.1, entry.2.claim)
  if observation.any fun o => w.observationConflicts o prepared then .error .observationConflict
  else if w.claimConflicts prepared then .error .claimConflict
  else
    let observations := observation.elim w.observations fun o => w.observations.put o.ref o
    let claims := w.claims.update submitted
    checkReferences observations claims (submitted.map Prod.snd)
    validateGraph claims (keys w.claims.entries)
    let added := w.claims.newEntries submitted
    let payloadBytes := w.payloadBytes +
      (added.map fun entry => dataSize lib entry.2.data).sum +
      (if w.isNewObservation observation then prepared.observationSize else 0)
    if (w.counts observations claims payloadBytes).any fun count => count.2 < count.1 then
      .error .capacityExceeded
    else .ok {
      observations, claims, payloadBytes
      changed := !added.isEmpty || w.isNewObservation observation }

/-- The receipt, whose constructor checks the world's name. -/
def receipt (changed : Bool) (observationRef : Option ObservationRef)
    (committedClaimRefs : List ClaimRef) : Except WorldError WorldReceipt :=
  if textChecked w.worldId then
    .ok { worldId := w.worldId, revision := w.revision, changed, observationRef, committedClaimRefs }
  else .error .invalidClaim

end World

/-- World._commit, statement by statement from the first assignment on. -/
def commit (lib : Library) (observation : Option Observation) (batch : List Claim) :
    Program World WorldError WorldReceipt := do
  let w ← get
  let prepared ← raising (w.prepare lib observation batch)
  let planned ← raising (w.plan lib observation prepared)
  let refs := keys prepared.incoming.entries
  let digests := prepared.incoming.entries.map fun entry => (entry.1, entry.2.digest)
  if planned.changed then
    modify fun w => { w with observations := planned.observations }
    modify fun w => { w with claims := planned.claims }
    modify fun w => { w with payloadBytes := planned.payloadBytes }
    modify fun w => { w with claimDigests := w.claimDigests.update digests }
    match observation with
    | none => pure ()
    | some o =>
      let digest ← raising (prepared.observationDigest.elim (.error .assertion) .ok)
      modify fun w => { w with observationDigests := w.observationDigests.put o.ref digest }
      modify fun w => { w with transactions := w.transactions.put o.ref refs.toFinset }
    modify fun w => { w with revision := w.revision + 1 }
  let after ← get
  raising (after.receipt planned.changed (observation.map Observation.ref) refs)

end RoboAgent.WorldStore
