import Mathlib
import RoboAgent.WorldRuns
import RoboAgent.PostOrder

/-! What a World knows: the claims that evidence supports, how they stand in time, and the entry that
the claims on one subject, predicate and scope resolve to. -/

namespace RoboAgent.WorldSnapshots
open RoboAgent.FrozenJson RoboAgent.SortedJson RoboAgent.JsonText RoboAgent.JsonIdentity
open RoboAgent.KeyedLists RoboAgent.Dicts RoboAgent.DepthFirst RoboAgent.PostOrder
open RoboAgent.WorldTypes RoboAgent.WorldStore

inductive WorldStatus
  | known
  | unknown
  | stale
  | conflicted
deriving DecidableEq

structure WorldCandidate where
  value : ClaimValue
  supportingClaims : List ClaimRef
  evidenceRefs : List EvidenceRef
  validAt : Option ObservationTime
deriving DecidableEq

structure WorldEntryKey where
  subject : EntityRef
  predicate : String
  scope : Option String
deriving DecidableEq

structure WorldEntry where
  subject : EntityRef
  predicate : String
  status : WorldStatus
  value : ClaimValue
  candidates : List WorldCandidate
  supportingClaims : List ClaimRef
  evidenceRefs : List EvidenceRef
  validAt : Option ObservationTime
  scope : Option String
deriving DecidableEq

structure WorldSnapshot where
  worldId : String
  revision : Nat
  entries : List WorldEntry
deriving DecidableEq

structure WorldAnswer where
  worldId : String
  revision : Nat
  status : WorldStatus
  value : ClaimValue
  candidates : List WorldCandidate
  supportingClaims : List ClaimRef
  evidenceRefs : List EvidenceRef
  validAt : Option ObservationTime
deriving DecidableEq

/-- None, which is a JSON value too. -/
def noValue : ClaimValue := .json ⟨.null, rfl⟩

def WorldEntry.key (entry : WorldEntry) : WorldEntryKey := ⟨entry.subject, entry.predicate, entry.scope⟩

def Claim.key (claim : Claim) : WorldEntryKey := ⟨claim.subject, claim.predicate, claim.scope⟩

def WorldEntryKey.checked (key : WorldEntryKey) : Bool :=
  textChecked key.predicate && key.scope.all textChecked

/-- The checks of the constructor, of the entry's key among them. -/
def WorldEntry.construct (entry : WorldEntry) : Except WorldError WorldEntry :=
  if entry.key.checked ∧ (entry.status = .known ∨ entry.value = noValue) then .ok entry
  else .error .invalidClaim

def WorldSnapshot.construct (snapshot : WorldSnapshot) : Except WorldError WorldSnapshot :=
  if textChecked snapshot.worldId ∧ (snapshot.entries.map WorldEntry.key).Nodup then .ok snapshot
  else .error .invalidClaim

def WorldAnswer.construct (answer : WorldAnswer) : Except WorldError WorldAnswer :=
  if textChecked answer.worldId ∧ (answer.status = .known ∨ answer.value = noValue) then .ok answer
  else .error .invalidClaim

def WorldSnapshot.lookup (snapshot : WorldSnapshot) (key : WorldEntryKey) : Option WorldEntry :=
  snapshot.entries.find? fun entry => entry.key = key

/-! What the constructors of claims check. -/

def EvidenceRef.checked (evidence : EvidenceRef) : Bool :=
  textChecked evidence.id &&
    match evidence.kind with
    | .observation => evidence.source.any textChecked
    | .claim => evidence.source.all textChecked

def ClaimValue.checked : ClaimValue → Bool
  | .entity reference => textChecked reference.id
  | .json _ => true

def Claim.checked (claim : Claim) : Bool :=
  textChecked claim.ref.id && textChecked claim.subject.id && (Claim.key claim).checked &&
    textChecked claim.source && ClaimValue.checked claim.value &&
    (claim.validAt.all fun validAt => textChecked validAt.clockId) &&
    (claim.validForNs.isNone || claim.validAt.isSome) &&
    claim.evidenceRefs.all EvidenceRef.checked &&
    (claim.supersedes.all fun ref => textChecked ref.id) && !claim.supersedes.contains claim.ref

/-! Clocks. -/

/-- What a clock resolver does for a clock. -/
inductive Reading
  | absent
  | time (now : ObservationTime)
  /-- It raises, or returns something else. -/
  | failed

abbrev Clock := Option (String → Reading)

def now (clock : Clock) (clockId : String) : Except WorldError (Option ObservationTime) :=
  match clock.elim .absent fun resolver => resolver clockId with
  | .absent => .ok none
  | .time now => if now.clockId = clockId then .ok (some now) else .error .clockUnavailable
  | .failed => .error .clockUnavailable

/-- Each clock is read once. -/
def readClocks (clock : Clock) (times : Dict String (Option ObservationTime)) :
    List Claim → Except WorldError (Dict String (Option ObservationTime))
  | [] => .ok times
  | claim :: claims =>
    match claim.validAt with
    | none => readClocks clock times claims
    | some validAt =>
      if (times.get validAt.clockId).isSome then readClocks clock times claims
      else do
        let time ← now clock validAt.clockId
        readClocks clock (times.put validAt.clockId time) claims

inductive TemporalClass
  | live
  | expired
  | unresolved
deriving DecidableEq

def temporalClass (times : Dict String (Option ObservationTime)) (claim : Claim) :
    TemporalClass :=
  match claim.validAt with
  | none => if claim.validForNs.isNone then .live else .unresolved
  | some validAt =>
    match (times.get validAt.clockId).join with
    | none => .unresolved
    | some now =>
      if now.nanoseconds < validAt.nanoseconds then .unresolved
      else if claim.validForNs.any fun validForNs =>
          validAt.nanoseconds + validForNs ≤ now.nanoseconds then .expired
      else .live

/-! Grounding. -/

/-- The claims among a claim's evidence. -/
def Claim.evidenceClaims (claim : Claim) : List ClaimRef :=
  (claim.evidenceRefs.filter fun evidence => evidence.kind = .claim).map fun evidence =>
    ⟨evidence.id⟩

def index (claims : List Claim) : Dict ClaimRef Claim :=
  Dict.empty.update (claims.map fun claim => (claim.ref, claim))

def evidenceGraph (indexed : Dict ClaimRef Claim) : Graph ClaimRef :=
  indexed.entries.map fun entry => (entry.1, Claim.evidenceClaims entry.2)

def isSupported (superseded supported : List ClaimRef) (claim : Claim) : Bool :=
  decide (claim.ref ∉ superseded) && claim.kind.isGrounded &&
    claim.evidenceRefs.any fun evidence =>
      evidence.kind = .observation || decide (ClaimRef.mk evidence.id ∈ supported)

/-- Leaving a claim: it is supported or not for good. -/
def support (indexed : Dict ClaimRef Claim) (superseded : List ClaimRef) (ref : ClaimRef)
    (supported : List ClaimRef) : List ClaimRef :=
  if (indexed.get ref).any (isSupported superseded supported) then ref :: supported else supported

/-- None where the loop meets a claim that is not stored, or would not end. -/
def groundedClaims (claims : List Claim) (superseded : List ClaimRef) : Option (List ClaimRef) :=
  let indexed := index claims
  (searchAll (evidenceGraph indexed) (support indexed superseded) (keys indexed.entries) []).map
    Prod.snd

/-! Resolution. -/

def evidenceOrder (evidence : EvidenceRef) : List String :=
  [evidence.kind.value, evidence.source.getD "", evidence.id]

/-- The one element of a set. -/
def agreed : List (Option ObservationTime) → Option ObservationTime
  | [time] => time
  | _ => none

@[ext] structure Provenance where
  refs : List ClaimRef
  evidence : List EvidenceRef
  validAt : Option ObservationTime

/-- The references and the evidence of claims, sorted, and the time they agree on. -/
def provenance (claims : List Claim) : Provenance where
  refs := (claims.map Claim.ref).dedup.insertionSort fun a b => a.id ≤ b.id
  evidence := (claims.flatMap Claim.evidenceRefs).dedup.insertionSort fun a b =>
    evidenceOrder a ≤ evidenceOrder b
  validAt := agreed (claims.map Claim.validAt).dedup

abbrev HeadKey := String × Bool × String

section
variable (lib : Library) (times : Dict String (Option ObservationTime))
  (grounded : List ClaimRef)

def valueKey : ClaimValue → Except WorldError String
  | .entity reference => .ok ("entity:" ++ reference.id)
  | .json value => (canonicalJsonDigest lib value.value).map ("json:" ++ ·)

def isGrounded (claim : Claim) : Bool := decide (claim.ref ∈ grounded)

def headKey (claim : Claim) (validAt : ObservationTime) : HeadKey :=
  (claim.source, isGrounded grounded claim, validAt.clockId)

/-- The newest time of each source on each clock, of grounded and of other claims. -/
def heads (claims : List Claim) : Dict HeadKey Nat :=
  claims.foldl (fun heads claim =>
    match claim.validAt with
    | none => heads
    | some validAt =>
      if temporalClass times claim = .unresolved then heads
      else
        let key := headKey grounded claim validAt
        heads.put key (max ((heads.get key).getD 0) validAt.nanoseconds)) .empty

def isSelected (heads : Dict HeadKey Nat) (claim : Claim) : Bool :=
  match claim.validAt with
  | none => true
  | some validAt =>
    decide (temporalClass times claim = .unresolved) ||
      decide (heads.get (headKey grounded claim validAt) = some validAt.nanoseconds)

/-- The grounded claims of a temporal class. -/
def groundedIn (temporal : TemporalClass) (selected : List Claim) : List Claim :=
  selected.filter fun claim =>
    isGrounded grounded claim && decide (temporalClass times claim = temporal)

/-- The status of an entry, the claims it rests on and its value. -/
def judge (live expired unresolved ungrounded : List Claim) :
    Except WorldError (WorldStatus × List Claim × ClaimValue) := do
  let liveValues ← live.mapM fun claim => valueKey lib claim.value
  match live with
  | first :: _ =>
    if 1 < liveValues.dedup.length then .ok (.conflicted, live ++ unresolved, noValue)
    else do
      let differs ← unresolved.anyM fun claim => do
        let key ← valueKey lib claim.value
        .ok !liveValues.contains key
      if differs then .ok (.unknown, live ++ unresolved, noValue)
      else .ok (.known, live, first.value)
  | [] =>
    if unresolved ≠ [] then .ok (.unknown, expired ++ unresolved ++ ungrounded, noValue)
    else if expired ≠ [] then .ok (.stale, expired, noValue)
    else .ok (.unknown, ungrounded, noValue)

/-- The candidate of claims with one value. -/
def candidate (supports : List Claim) : WorldCandidate where
  value := (supports.head?.map Claim.value).getD noValue
  supportingClaims := (provenance supports).refs
  evidenceRefs := (provenance supports).evidence
  validAt := (provenance supports).validAt

/-- A candidate for each value, in the order of their keys. -/
def candidatesOf (keyed : List (String × Claim)) : List WorldCandidate :=
  ((keyed.map Prod.fst).dedup.insertionSort (· ≤ ·)).map fun key =>
    candidate ((keyed.filter fun entry => entry.1 = key).map Prod.snd)

def resolve (key : WorldEntryKey) (claims : List Claim) : Except WorldError WorldEntry := do
  let newest := heads times grounded claims
  let selected := claims.filter (isSelected times grounded newest)
  let (status, basis, value) ← judge lib (groundedIn times grounded .live selected)
    (groundedIn times grounded .expired selected) (groundedIn times grounded .unresolved selected)
    (selected.filter fun claim => !isGrounded grounded claim)
  let keyed ← basis.mapM fun claim => do
    let key ← valueKey lib claim.value
    .ok (key, claim)
  WorldEntry.construct {
    subject := key.subject, predicate := key.predicate, status, value
    candidates := candidatesOf keyed
    supportingClaims := (provenance basis).refs, evidenceRefs := (provenance basis).evidence
    validAt := (provenance basis).validAt, scope := key.scope }

end

section
variable (lib : Library) (clock : Clock) (w : World)

def superseded (claims : List Claim) : List ClaimRef := claims.flatMap Claim.supersedes

/-- The entries stand in the order of the last claim on each key. -/
def snapshot : Except WorldError WorldSnapshot := do
  let claims := values w.claims
  let times ← readClocks clock .empty claims
  let replaced := superseded claims
  let grounded ← (groundedClaims claims replaced).elim (.error .assertion) .ok
  let entries ← (claims.map Claim.key).dedup.mapM fun key =>
    resolve lib times grounded key
      ((claims.filter fun claim => Claim.key claim = key).filter fun claim => claim.ref ∉ replaced)
  WorldSnapshot.construct { worldId := w.worldId, revision := w.revision, entries }

def query (entity : EntityRef) (predicate : String) (scope : Option String) :
    Except WorldError WorldAnswer :=
  if MessageChecks.visible predicate then do
    let snapshot ← snapshot lib clock w
    let key : WorldEntryKey := ⟨entity, predicate, scope⟩
    if key.checked then
      match snapshot.lookup key with
      | none => WorldAnswer.construct {
          worldId := w.worldId, revision := snapshot.revision, status := .unknown, value := noValue
          candidates := [], supportingClaims := [], evidenceRefs := [], validAt := none }
      | some entry => WorldAnswer.construct {
          worldId := w.worldId, revision := snapshot.revision, status := entry.status
          value := entry.value, candidates := entry.candidates
          supportingClaims := entry.supportingClaims, evidenceRefs := entry.evidenceRefs
          validAt := entry.validAt }
    else .error .invalidClaim
  else .error .invalidClaim

end

end RoboAgent.WorldSnapshots
