import RoboAgent.WorldSnapshots
import RoboAgent.ContextEncoding
import RoboAgent.PriorityTrimming

/-! Which entries of a World snapshot come first in a context: those about entities that the
conversation names, those about entities that a tool depends on, then the others. -/

namespace RoboAgent.WorldRanking
open RoboAgent.FrozenJson RoboAgent.Dicts RoboAgent.Messages RoboAgent.WorldTypes
open RoboAgent.WorldSnapshots
open RoboAgent.ContextCompaction (messageGroups)
open RoboAgent.ContextEncoding (ToolDefinition ModelContext)
open RoboAgent.PriorityTrimming

/-! The entities that a JSON value names -/

/-- The id of an object with nothing but an id. -/
def entityId : JsonValue → Option String
  | .obj [("id", .str id)] => some id
  | _ => none

/-- The object is data of another World. -/
def isForeign (worldId : Option String) (entries : List (String × JsonValue)) : Bool :=
  worldId.any fun worldId => (entries.lookup "world_id").any fun value => value ≠ .str worldId

mutual
def entityRefs (worldId : Option String) : JsonValue → List String
  | .obj entries =>
    if isForeign worldId entries then []
    else
      (["entity_ref", "entity", "subject"].filterMap fun name =>
        (entries.lookup name).bind entityId) ++
      entriesRefs worldId (entries.lookup "value_kind" = some (.str "json")) entries
  | .arr items => itemsRefs worldId items
  | .null | .bool _ | .int _ | .float _ | .str _ => []

def itemsRefs (worldId : Option String) : List JsonValue → List String
  | [] => []
  | item :: items => entityRefs worldId item ++ itemsRefs worldId items

/-- A value that is any JSON is not looked into. -/
def entriesRefs (worldId : Option String) (anyJson : Bool) :
    List (String × JsonValue) → List String
  | [] => []
  | (name, child) :: entries =>
    (if name = "value" ∧ anyJson then [] else entityRefs worldId child) ++
      entriesRefs worldId anyJson entries
end

theorem sizeOf_lookup {entries : List (String × JsonValue)} {name : String} {child : JsonValue}
    (h : entries.lookup name = some child) : sizeOf child < sizeOf (JsonValue.obj entries) := by
  induction entries with
  | nil => cases h
  | cons entry entries ih =>
    obtain ⟨key, value⟩ := entry
    rw [List.lookup_cons] at h
    simp only [JsonValue.obj.sizeOf_spec, List.cons.sizeOf_spec, Prod.mk.sizeOf_spec] at ih ⊢
    split at h
    · cases h
      omega
    · have inside := ih h
      omega

/-- The constants of a oneOf branch, where the object has them. -/
def admits (fields : List (String × JsonValue)) : JsonValue → Bool
  | .obj branch =>
    match branch.lookup "properties" with
    | none => true
    | some (.obj properties) => properties.all fun
      | (name, .obj child) => (child.lookup "const").all fun const =>
        jsonEqual ((fields.lookup name).getD .null) const
      | _ => true
    | some _ => false
  | _ => false

/-- The entities that a value names where the schema has an annotation. A schema that a
ToolDefinition has checked has arrays under oneOf. -/
def schemaEntities (value : JsonValue) : JsonValue → List String
  | .obj schema =>
    match value with
    | .str text => if schema.lookup "x-world-entity-ref" = some (.bool true) then [text] else []
    | .arr items =>
      match _items : schema.lookup "items" with
      | some child => items.flatMap fun item => schemaEntities item child
      | none => []
    | .obj fields =>
      (match _properties : schema.lookup "properties" with
        | some (.obj properties) => properties.attach.flatMap fun property =>
          schemaEntities ((fields.lookup property.1.1).getD .null) property.1.2
        | _ => []) ++
      match _branches : schema.lookup "oneOf" with
        | some (.arr branches) => branches.attach.flatMap fun branch =>
          if admits fields branch.1 then schemaEntities value branch.1 else []
        | _ => []
    | .null | .bool _ | .int _ | .float _ => []
  | _ => []
termination_by schema => sizeOf schema
decreasing_by
  · exact sizeOf_lookup _items
  · have outer := sizeOf_lookup _properties
    have inner := List.sizeOf_lt_of_mem property.2
    obtain ⟨⟨name, child⟩, mem⟩ := property
    simp only [JsonValue.obj.sizeOf_spec, Prod.mk.sizeOf_spec] at outer inner ⊢
    omega
  · have outer := sizeOf_lookup _branches
    have inner := List.sizeOf_lt_of_mem branch.2
    simp only [JsonValue.obj.sizeOf_spec, JsonValue.arr.sizeOf_spec] at outer ⊢
    omega

def callEntities (tools : List ToolDefinition) (worldId : Option String) (call : ToolCall) :
    List String :=
  entityRefs worldId (.obj call.arguments.entries) ++
    ((tools.find? fun tool => tool.name = call.name).elim [] fun definition =>
      schemaEntities (.obj call.arguments.entries) (.obj definition.inputSchema.entries))

def messageEntities (tools : List ToolDefinition) (worldId : Option String)
    (message : AgentMessage) : List String :=
  (message.content.flatMap fun
    | .json value => entityRefs worldId value
    | _ => []) ++
  match message with
  | .assistant message => message.toolCalls.flatMap (callEntities tools worldId)
  | .user _ | .toolResult _ => []

def texts : JsonValue → List String
  | .arr items => items.filterMap fun
    | .str text => some text
    | _ => none
  | _ => []

/-- The entities that the annotations of the tools name. -/
def dependencies (tools : List ToolDefinition) : List String :=
  tools.flatMap fun tool => (tool.inputSchema.entries.lookup "x-world-entities").elim [] texts

/-! The order of the entries -/

/-- What a component of the Host answers. -/
inductive Answer (α : Type)
  | value (a : α)
  /-- It returns something else. -/
  | other
  /-- It raises a TokenEstimationError. -/
  | estimationError (reason : String)
  /-- It raises any other exception. -/
  | raised

structure CapturedSnapshot extends WorldSnapshot where
  capturedAt : String

/-- What a Run hands the manager. The constructor of the snapshot groups the transcript. -/
structure ContextRequest where
  transcript : List AgentMessage
  toolDefinitions : List ToolDefinition
  contextWindow : Option Nat
  maxOutputTokens : Option Nat
  currentCompaction : Option ContextSummary
  worldSnapshot : Option CapturedSnapshot
  modelInputProjection : Option (ModelContext → Answer ModelContext)
  grouped : ∃ groups, messageGroups transcript = .ok groups

section
variable (request : ContextRequest)

def entitiesOf (snapshot : CapturedSnapshot) (message : AgentMessage) : List String :=
  messageEntities request.toolDefinitions (some snapshot.worldId) message

/-- The last message that names each entity. -/
def mentioned (snapshot : CapturedSnapshot) : Dict String Nat :=
  request.transcript.zipIdx.foldl (fun mentioned message =>
    (entitiesOf request snapshot message.1).foldl (fun mentioned entity =>
      mentioned.put entity message.2) mentioned) .empty

def isUncertain : WorldStatus → Bool
  | .unknown | .stale | .conflicted => true
  | .known => false

/-- The tuple that entries are sorted by: its numbers, then its texts. -/
def rank (snapshot : CapturedSnapshot) (entry : WorldEntry × Nat) : List Int × List String :=
  let entity := entry.1.subject.id
  let named := (mentioned request snapshot).get entity
  let category : Int := if named.isSome then 0
    else if entity ∈ dependencies request.toolDefinitions then 1 else 2
  ([category, -(named.elim (-1) fun index => (index : Int)),
    if isUncertain entry.1.status ∧ category < 2 then 0 else 1, -(entry.2 : Int)],
    [entity, entry.1.predicate])

def rankLe (a b : List Int × List String) : Bool :=
  decide (a.1 < b.1) || (a.1 == b.1 && decide (a.2 ≤ b.2))

/-- The entries of the snapshot with their places in it, in rank order. -/
def rankedEntries (snapshot : CapturedSnapshot) : List (WorldEntry × Nat) :=
  snapshot.entries.zipIdx.mergeSort fun a b =>
    rankLe (rank request snapshot a) (rank request snapshot b)

def orderedWorldEntries : List WorldEntry :=
  request.worldSnapshot.elim [] fun snapshot => (rankedEntries request snapshot).map Prod.fst

/-- The keys of the entries that are not known, about the entities that matter here. -/
def protectedWorldEntries : List WorldEntryKey :=
  request.worldSnapshot.elim [] fun snapshot =>
    let entities := request.transcript.flatMap (entitiesOf request snapshot) ++
      dependencies request.toolDefinitions
    ((orderedWorldEntries request).filter fun entry =>
      entry.subject.id ∈ entities && entry.status ≠ .known).map WorldEntry.key

def isProtected (keys : List WorldEntryKey) (entry : WorldEntry) : Bool := decide (entry.key ∈ keys)

def boundedWorldEntries (keys : List WorldEntryKey) : List WorldEntry :=
  firstOf 64 (isProtected keys) (orderedWorldEntries request)

end

theorem rankLe_iff {a b : List Int × List String} :
    rankLe a b = true ↔ a.1 < b.1 ∨ a.1 = b.1 ∧ a.2 ≤ b.2 := by
  rw [rankLe, Bool.or_eq_true, Bool.and_eq_true, decide_eq_true_iff, decide_eq_true_iff,
    beq_iff_eq]

theorem rankLe_total (a b : List Int × List String) : (rankLe a b || rankLe b a) = true := by
  rw [Bool.or_eq_true, rankLe_iff, rankLe_iff]
  obtain less | same | more := lt_trichotomy a.1 b.1
  · exact .inl (.inl less)
  · obtain texts | texts := le_total a.2 b.2
    · exact .inl (.inr ⟨same, texts⟩)
    · exact .inr (.inr ⟨same.symm, texts⟩)
  · exact .inr (.inl more)

theorem rankLe_trans (a b c : List Int × List String) (h : rankLe a b = true)
    (h' : rankLe b c = true) : rankLe a c = true := by
  rw [rankLe_iff] at h h' ⊢
  obtain less | ⟨same, texts⟩ := h
  · obtain less' | ⟨same', -⟩ := h'
    · exact .inl (less.trans less')
    · exact .inl (same' ▸ less)
  · obtain less' | ⟨same', texts'⟩ := h'
    · exact .inl (same ▸ less')
    · exact .inr ⟨same.trans same', texts.trans texts'⟩

variable {request : ContextRequest} {snapshot : CapturedSnapshot} {keys : List WorldEntryKey}

/-- No entry stands before one of a lower rank. -/
theorem rankedEntries_pairwise (request : ContextRequest) (snapshot : CapturedSnapshot) :
    (rankedEntries request snapshot).Pairwise fun a b =>
      rankLe (rank request snapshot a) (rank request snapshot b) = true :=
  List.pairwise_mergeSort
    (fun a b c => rankLe_trans (rank request snapshot a) (rank request snapshot b)
      (rank request snapshot c))
    (fun a b => rankLe_total (rank request snapshot a) (rank request snapshot b)) _

theorem orderedWorldEntries_perm (present : request.worldSnapshot = some snapshot) :
    (orderedWorldEntries request).Perm snapshot.entries := by
  have perm : (rankedEntries request snapshot).Perm snapshot.entries.zipIdx :=
    List.mergeSort_perm ..
  have entries := perm.map Prod.fst
  rw [List.zipIdx_map_fst] at entries
  rw [orderedWorldEntries, present]
  exact entries

end RoboAgent.WorldRanking
