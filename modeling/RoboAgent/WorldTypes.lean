import RoboAgent.JsonIdentity

/-! Observations and claims, and the JSON data their identity is taken from. A datetime stands by
its ISO text, which is all that is read of it; a JSON value was frozen by the constructor. -/

namespace RoboAgent.WorldTypes
open RoboAgent.FrozenJson RoboAgent.SortedJson RoboAgent.JsonText RoboAgent.JsonIdentity
open RoboAgent.KeyedLists

@[ext] structure ObservationTime where
  clockId : String
  nanoseconds : Nat
deriving DecidableEq

@[ext] structure ObservationRef where
  source : String
  id : String
deriving DecidableEq

@[ext] structure EntityRef where
  id : String
deriving DecidableEq

@[ext] structure ClaimRef where
  id : String
deriving DecidableEq

inductive EvidenceKind
  | observation
  | claim
deriving DecidableEq

@[ext] structure EvidenceRef where
  kind : EvidenceKind
  source : Option String
  id : String
deriving DecidableEq

@[ext] structure ResourceRef where
  uri : String
  mediaType : Option String := none
  size : Option Nat := none
  digest : Option String := none
  available : Bool := true
deriving DecidableEq

structure FrozenJsonValue where
  value : JsonValue
  frozen : wellFormed value = true
deriving DecidableEq

inductive Payload
  | json (value : FrozenJsonValue)
  | resource (reference : ResourceRef)
deriving DecidableEq

structure Observation where
  ref : ObservationRef
  modality : String
  observedAt : ObservationTime
  receivedAt : String
  payload : Payload
  scope : Option String
deriving DecidableEq

inductive ClaimKind
  | measurement
  | interpretation
  | inference
  | hypothesis
  | prior
  | prediction
deriving DecidableEq

inductive ClaimValue
  | json (value : FrozenJsonValue)
  | entity (reference : EntityRef)
deriving DecidableEq

structure Claim where
  ref : ClaimRef
  subject : EntityRef
  predicate : String
  value : ClaimValue
  kind : ClaimKind
  source : String
  scope : Option String
  evidenceRefs : List EvidenceRef
  assertedAt : String
  validAt : Option ObservationTime
  validForNs : Option Nat
  supersedes : List ClaimRef
deriving DecidableEq

/-- The claims that a claim refers to. -/
def Claim.parents (claim : Claim) : List ClaimRef :=
  claim.supersedes ++
    (claim.evidenceRefs.filter fun evidence => evidence.kind = .claim).map fun evidence =>
      ⟨evidence.id⟩

/-- The kinds of claim that must name their evidence. -/
def ClaimKind.isGrounded : ClaimKind → Bool
  | .measurement | .interpretation | .inference => true
  | .hypothesis | .prior | .prediction => false

def optionalData {α : Type} (data : α → JsonValue) (value : Option α) : JsonValue :=
  value.elim .null data

def natData (n : Nat) : JsonValue := .int n

def ObservationTime.data (time : ObservationTime) : JsonValue :=
  .obj [("clock_id", .str time.clockId), ("nanoseconds", natData time.nanoseconds)]

def ObservationRef.data (ref : ObservationRef) : JsonValue :=
  .obj [("source", .str ref.source), ("id", .str ref.id)]

def EntityRef.data (ref : EntityRef) : JsonValue := .obj [("id", .str ref.id)]

def ClaimRef.data (ref : ClaimRef) : JsonValue := .obj [("id", .str ref.id)]

def EvidenceKind.value : EvidenceKind → String
  | .observation => "observation"
  | .claim => "claim"

def EvidenceRef.data (ref : EvidenceRef) : JsonValue :=
  .obj [("kind", .str ref.kind.value), ("source", optionalData .str ref.source),
    ("id", .str ref.id)]

def ResourceRef.data (ref : ResourceRef) : JsonValue :=
  .obj [("uri", .str ref.uri), ("media_type", optionalData .str ref.mediaType),
    ("size", optionalData natData ref.size), ("digest", optionalData .str ref.digest),
    ("available", .bool ref.available)]

/-- The branches of the union are not told apart here. -/
def Payload.data : Payload → JsonValue
  | .json value => value.value
  | .resource reference => reference.data

def Observation.data (observation : Observation) : JsonValue :=
  .obj [("ref", observation.ref.data), ("modality", .str observation.modality),
    ("observed_at", observation.observedAt.data), ("received_at", .str observation.receivedAt),
    ("payload", observation.payload.data), ("scope", optionalData .str observation.scope)]

def ClaimKind.value : ClaimKind → String
  | .measurement => "measurement"
  | .interpretation => "interpretation"
  | .inference => "inference"
  | .hypothesis => "hypothesis"
  | .prior => "prior"
  | .prediction => "prediction"

def ClaimValue.data : ClaimValue → JsonValue
  | .json value => value.value
  | .entity reference => .obj [("entity_ref", reference.data)]

def ClaimValue.kind : ClaimValue → String
  | .json _ => "json"
  | .entity _ => "entity_ref"

def Claim.data (claim : Claim) : JsonValue :=
  .obj [("ref", claim.ref.data), ("subject", claim.subject.data),
    ("predicate", .str claim.predicate), ("value", claim.value.data),
    ("kind", .str claim.kind.value), ("source", .str claim.source),
    ("scope", optionalData .str claim.scope),
    ("evidence_refs", .arr (claim.evidenceRefs.map EvidenceRef.data)),
    ("asserted_at", .str claim.assertedAt),
    ("valid_at", optionalData ObservationTime.data claim.validAt),
    ("valid_for_ns", optionalData natData claim.validForNs),
    ("supersedes", .arr (claim.supersedes.map ClaimRef.data)),
    ("value_kind", .str claim.value.kind)]

/-- Two records with the same sorted data agree on every field they share. -/
theorem field_eq {fields others : List (String × JsonValue)}
    (h : sortKeys (.obj fields) = sortKeys (.obj others)) (distinct : (keys fields).Nodup)
    (distinct' : (keys others).Nodup) (key : String) {a b : JsonValue}
    (here : fields.lookup key = some a) (there : others.lookup key = some b) :
    sortKeys a = sortKeys b := by
  rw [sortKeys_obj, sortKeys_obj] at h
  have found := lookup_of_sorted_eq distinct distinct' (JsonValue.obj.inj h) key
  rw [here, there] at found
  exact Option.some.inj found

theorem str_eq {s t : String} (h : sortKeys (.str s) = sortKeys (.str t)) : s = t :=
  JsonValue.str.inj h

theorem nat_eq {n m : Nat} (h : sortKeys (natData n) = sortKeys (natData m)) : n = m :=
  Int.ofNat.inj (JsonValue.int.inj h)

theorem optional_eq {α : Type} {data : α → JsonValue} {x y : Option α}
    (present : ∀ a, sortKeys (data a) ≠ .null)
    (injective : ∀ a b, sortKeys (data a) = sortKeys (data b) → a = b)
    (h : sortKeys (optionalData data x) = sortKeys (optionalData data y)) : x = y := by
  cases x with
  | none =>
    cases y with
    | none => rfl
    | some b => exact absurd h.symm (present b)
  | some a =>
    cases y with
    | none => exact absurd h (present a)
    | some b => exact congrArg some (injective a b h)

theorem list_eq {α : Type} {data : α → JsonValue} {xs ys : List α}
    (injective : ∀ a b, sortKeys (data a) = sortKeys (data b) → a = b)
    (h : sortKeys (.arr (xs.map data)) = sortKeys (.arr (ys.map data))) : xs = ys := by
  rw [sortKeys_arr, sortKeys_arr, List.map_map, List.map_map] at h
  exact List.map_injective_iff.mpr injective (JsonValue.arr.inj h)

theorem EvidenceKind.value_injective (a b : EvidenceKind) (h : a.value = b.value) : a = b := by
  cases a <;> cases b <;> first | rfl | exact absurd h (by decide)

theorem ClaimKind.value_injective (a b : ClaimKind) (h : a.value = b.value) : a = b := by
  cases a <;> cases b <;> first | rfl | exact absurd h (by decide)

theorem ObservationTime.data_injective (s t : ObservationTime)
    (h : sortKeys s.data = sortKeys t.data) : s = t := by
  have field := field_eq h (by simp [keys]) (by simp [keys])
  exact ObservationTime.ext (str_eq (field "clock_id" rfl rfl))
    (nat_eq (field "nanoseconds" rfl rfl))

theorem ObservationRef.data_injective (s t : ObservationRef)
    (h : sortKeys s.data = sortKeys t.data) : s = t := by
  have field := field_eq h (by simp [keys]) (by simp [keys])
  exact ObservationRef.ext (str_eq (field "source" rfl rfl)) (str_eq (field "id" rfl rfl))

theorem EntityRef.data_injective (s t : EntityRef) (h : sortKeys s.data = sortKeys t.data) :
    s = t :=
  EntityRef.ext (str_eq (field_eq h (by simp [keys]) (by simp [keys]) "id" rfl rfl))

theorem ClaimRef.data_injective (s t : ClaimRef) (h : sortKeys s.data = sortKeys t.data) :
    s = t :=
  ClaimRef.ext (str_eq (field_eq h (by simp [keys]) (by simp [keys]) "id" rfl rfl))

theorem optionalText_eq {x y : Option String}
    (h : sortKeys (optionalData .str x) = sortKeys (optionalData .str y)) : x = y :=
  optional_eq (fun _ => by simp [sortKeys]) (fun _ _ => str_eq) h

theorem optionalNat_eq {x y : Option Nat}
    (h : sortKeys (optionalData natData x) = sortKeys (optionalData natData y)) : x = y :=
  optional_eq (fun _ => by simp [natData, sortKeys]) (fun _ _ => nat_eq) h

theorem EvidenceRef.data_injective (s t : EvidenceRef) (h : sortKeys s.data = sortKeys t.data) :
    s = t := by
  have field := field_eq h (by simp [keys]) (by simp [keys])
  exact EvidenceRef.ext (EvidenceKind.value_injective _ _ (str_eq (field "kind" rfl rfl)))
    (optionalText_eq (field "source" rfl rfl)) (str_eq (field "id" rfl rfl))

theorem ResourceRef.data_injective (s t : ResourceRef) (h : sortKeys s.data = sortKeys t.data) :
    s = t := by
  have field := field_eq h (by simp [keys]) (by simp [keys])
  exact ResourceRef.ext (str_eq (field "uri" rfl rfl)) (optionalText_eq (field "media_type" rfl rfl))
    (optionalNat_eq (field "size" rfl rfl)) (optionalText_eq (field "digest" rfl rfl))
    (JsonValue.bool.inj (field "available" rfl rfl))

theorem wellFormed_optionalData {α : Type} {data : α → JsonValue} {x : Option α}
    (h : ∀ a, wellFormed (data a) = true) : wellFormed (optionalData data x) = true := by
  cases x with
  | none => rfl
  | some a => exact h a

theorem ObservationTime.wellFormed_data (time : ObservationTime) :
    wellFormed time.data = true := by
  simp [ObservationTime.data, natData, wellFormed, wellFormedEntries]

theorem ResourceRef.wellFormed_data (r : ResourceRef) : wellFormed r.data = true := by
  have text (x : Option String) : wellFormed (optionalData .str x) = true :=
    wellFormed_optionalData fun _ => rfl
  have nat (x : Option Nat) : wellFormed (optionalData natData x) = true :=
    wellFormed_optionalData fun _ => rfl
  simp [ResourceRef.data, wellFormed, wellFormedEntries, text, nat]

theorem Payload.wellFormed_data (p : Payload) : wellFormed p.data = true := by
  cases p with
  | json value => exact value.frozen
  | resource r => exact r.wellFormed_data

theorem Observation.wellFormed_data (o : Observation) : wellFormed o.data = true := by
  have text (x : Option String) : wellFormed (optionalData .str x) = true :=
    wellFormed_optionalData fun _ => rfl
  simp [Observation.data, ObservationRef.data, wellFormed, wellFormedEntries, text,
    o.observedAt.wellFormed_data, o.payload.wellFormed_data]

theorem ClaimValue.wellFormed_data (value : ClaimValue) : wellFormed value.data = true := by
  cases value with
  | json value => exact value.frozen
  | entity e => simp [ClaimValue.data, EntityRef.data, wellFormed, wellFormedEntries]

theorem Claim.wellFormed_data (claim : Claim) : wellFormed claim.data = true := by
  have text (x : Option String) : wellFormed (optionalData .str x) = true :=
    wellFormed_optionalData fun _ => rfl
  have nat (x : Option Nat) : wellFormed (optionalData natData x) = true :=
    wellFormed_optionalData fun _ => rfl
  have time (x : Option ObservationTime) :=
    wellFormed_optionalData (x := x) ObservationTime.wellFormed_data
  have refs (x : List ClaimRef) : wellFormedItems (x.map ClaimRef.data) = true :=
    wellFormedItems_iff.mpr (List.forall_mem_map.mpr fun _ _ => rfl)
  have evidence (x : List EvidenceRef) : wellFormedItems (x.map EvidenceRef.data) = true :=
    wellFormedItems_iff.mpr (List.forall_mem_map.mpr fun ref _ => by
      simp [EvidenceRef.data, wellFormed, wellFormedEntries, text])
  simp [Claim.data, ClaimRef.data, EntityRef.data, wellFormed, wellFormedEntries, text, nat, time,
    claim.value.wellFormed_data, evidence]
  exact refs _

/-- The same JSON value up to key order, or the same resource reference; never one and the other. -/
def SamePayload : Payload → Payload → Prop
  | .json v, .json w => same v.value w.value = true
  | .resource r, .resource r' => r = r'
  | .json _, .resource _ | .resource _, .json _ => False

def SameValue : ClaimValue → ClaimValue → Prop
  | .json v, .json w => same v.value w.value = true
  | .entity e, .entity e' => e = e'
  | .json _, .entity _ | .entity _, .json _ => False

/-- Equal in every field but the payload. -/
structure SameFields (a b : Observation) : Prop where
  ref : a.ref = b.ref
  modality : a.modality = b.modality
  observedAt : a.observedAt = b.observedAt
  receivedAt : a.receivedAt = b.receivedAt
  scope : a.scope = b.scope

def SameObservation (a b : Observation) : Prop := SameFields a b ∧ SamePayload a.payload b.payload

/-- Equal in every field, the value as JSON. -/
structure SameClaim (a b : Claim) : Prop where
  ref : a.ref = b.ref
  subject : a.subject = b.subject
  predicate : a.predicate = b.predicate
  value : SameValue a.value b.value
  kind : a.kind = b.kind
  source : a.source = b.source
  scope : a.scope = b.scope
  evidenceRefs : a.evidenceRefs = b.evidenceRefs
  assertedAt : a.assertedAt = b.assertedAt
  validAt : a.validAt = b.validAt
  validForNs : a.validForNs = b.validForNs
  supersedes : a.supersedes = b.supersedes

theorem same_value (v w : FrozenJsonValue) :
    sortKeys v.value = sortKeys w.value ↔ same v.value w.value = true :=
  ⟨same_of_sortKeys_eq v.frozen w.frozen, sortKeys_eq_of_same v.frozen w.frozen⟩

theorem ObservationTime.optional_injective {x y : Option ObservationTime}
    (h : sortKeys (optionalData ObservationTime.data x) =
      sortKeys (optionalData ObservationTime.data y)) : x = y :=
  optional_eq (fun _ => by rw [ObservationTime.data, sortKeys_obj]; exact nofun)
    ObservationTime.data_injective h

theorem sameValue_iff (x y : ClaimValue) :
    SameValue x y ↔ sortKeys x.data = sortKeys y.data ∧ x.kind = y.kind := by
  cases x with
  | json v =>
    cases y with
    | json w => exact (same_value v w).symm.trans (and_iff_left rfl).symm
    | entity e =>
      exact iff_of_false nofun fun h => absurd h.2 (show "json" ≠ "entity_ref" by decide)
  | entity e =>
    cases y with
    | json w =>
      exact iff_of_false nofun fun h => absurd h.2 (show "entity_ref" ≠ "json" by decide)
    | entity e' =>
      constructor
      · rintro rfl
        exact ⟨rfl, rfl⟩
      · rintro ⟨h, -⟩
        exact EntityRef.data_injective e e'
          (field_eq h (by simp [keys]) (by simp [keys]) "entity_ref" rfl rfl)

theorem sameClaim_of_data {a b : Claim} (h : sortKeys a.data = sortKeys b.data) :
    SameClaim a b := by
  have field := field_eq h (by simp [keys]) (by simp [keys])
  exact {
    ref := ClaimRef.data_injective _ _ (field "ref" rfl rfl)
    subject := EntityRef.data_injective _ _ (field "subject" rfl rfl)
    predicate := str_eq (field "predicate" rfl rfl)
    value := (sameValue_iff _ _).mpr ⟨field "value" rfl rfl, str_eq (field "value_kind" rfl rfl)⟩
    kind := ClaimKind.value_injective _ _ (str_eq (field "kind" rfl rfl))
    source := str_eq (field "source" rfl rfl)
    scope := optionalText_eq (field "scope" rfl rfl)
    evidenceRefs := list_eq EvidenceRef.data_injective (field "evidence_refs" rfl rfl)
    assertedAt := str_eq (field "asserted_at" rfl rfl)
    validAt := ObservationTime.optional_injective (field "valid_at" rfl rfl)
    validForNs := optionalNat_eq (field "valid_for_ns" rfl rfl)
    supersedes := list_eq ClaimRef.data_injective (field "supersedes" rfl rfl) }

theorem sortKeys_obj_congr {fields others : List (String × JsonValue)}
    (h : sortEntries fields = sortEntries others) : sortKeys (.obj fields) = sortKeys (.obj others) := by
  rw [sortKeys_obj, sortKeys_obj, sorted, sorted, h]

theorem data_of_sameClaim {a b : Claim} (h : SameClaim a b) :
    sortKeys a.data = sortKeys b.data := by
  obtain ⟨value, kind⟩ := (sameValue_iff _ _).mp h.value
  refine sortKeys_obj_congr ?_
  simp only [sortEntries, h.ref, h.subject, h.predicate, value, kind, h.kind, h.source, h.scope,
    h.evidenceRefs, h.assertedAt, h.validAt, h.validForNs, h.supersedes]

theorem sameClaim_iff (a b : Claim) : SameClaim a b ↔ sortKeys a.data = sortKeys b.data :=
  ⟨data_of_sameClaim, sameClaim_of_data⟩

theorem sameFields_iff (a b : Observation) :
    sortKeys a.data = sortKeys b.data ↔
      SameFields a b ∧ sortKeys a.payload.data = sortKeys b.payload.data := by
  constructor
  · intro h
    have field := field_eq h (by simp [keys]) (by simp [keys])
    refine ⟨⟨ObservationRef.data_injective _ _ (field "ref" rfl rfl),
      str_eq (field "modality" rfl rfl),
      ObservationTime.data_injective _ _ (field "observed_at" rfl rfl),
      str_eq (field "received_at" rfl rfl), optionalText_eq (field "scope" rfl rfl)⟩,
      field "payload" rfl rfl⟩
  · rintro ⟨h, payload⟩
    refine sortKeys_obj_congr ?_
    simp only [sortEntries, h.ref, h.modality, h.observedAt, h.receivedAt, h.scope, payload]

/-- The JSON object of a resource reference, in the place of the reference. -/
def Disguised : Payload → Payload → Prop
  | .json v, .resource r | .resource r, .json v => same v.value r.data = true
  | .json _, .json _ | .resource _, .resource _ => False

theorem payload_data_iff (p q : Payload) :
    sortKeys p.data = sortKeys q.data ↔ SamePayload p q ∨ Disguised p q := by
  cases p with
  | json v =>
    cases q with
    | json w => exact (same_value v w).trans (or_iff_left id).symm
    | resource r =>
      refine Iff.trans ?_ (or_iff_right id).symm
      exact ⟨same_of_sortKeys_eq v.frozen r.wellFormed_data,
        sortKeys_eq_of_same v.frozen r.wellFormed_data⟩
  | resource r =>
    cases q with
    | json v =>
      refine Iff.trans ?_ (or_iff_right id).symm
      exact ⟨fun h => same_of_sortKeys_eq v.frozen r.wellFormed_data h.symm,
        fun h => (sortKeys_eq_of_same v.frozen r.wellFormed_data h).symm⟩
    | resource r' =>
      refine Iff.trans ⟨ResourceRef.data_injective r r', ?_⟩ (or_iff_left id).symm
      rintro rfl
      rfl

theorem not_disguised_of_same {p q : Payload} (h : SamePayload p q) : ¬Disguised p q := by
  cases p <;> cases q <;> first | exact id | cases h

/-- The data of two observations are the same if the observations are, or differ only in that a
resource reference stands for its JSON object. -/
theorem observation_data_iff (a b : Observation) :
    sortKeys a.data = sortKeys b.data ↔
      SameObservation a b ∨ SameFields a b ∧ Disguised a.payload b.payload := by
  rw [sameFields_iff, payload_data_iff, SameObservation, ← and_or_left]

end RoboAgent.WorldTypes
