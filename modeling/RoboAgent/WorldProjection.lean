import RoboAgent.WorldRanking

/-! The World data in front of a model context. Two managers drop entries until the context fits:
one that raises where nothing is left to drop, and CompactingContextManager, which then shrinks the
conversation. -/

namespace RoboAgent.WorldProjection
open RoboAgent.FrozenJson RoboAgent.Messages RoboAgent.WorldTypes RoboAgent.WorldSnapshots
open RoboAgent.JsonIdentity RoboAgent.SessionTranscript RoboAgent.ExchangeGrammar
open RoboAgent.SessionState (CompactionUpdate)
open RoboAgent.ContextCompaction (Segment ContextBudget ContextError CompactingContextManager
  SummaryResult inputBudget messageGroups groupBoundaries projectSegments messageGroups_spec)
open RoboAgent.ContextPreparation (CompactionPolicy SummarizerRaises constructible endOf stillValid
  stillValid_boundary shrinkContext_spec shrinkContext_raises inputBudget_pos projectSegments_eq)
open RoboAgent.ContextEncoding (ContextDataSegment ModelContextSegment ToolDefinition ModelContext
  canonicalJsonDumps)
open RoboAgent.FalliblePrograms (Raises raises_ok raises_error raises_imp raises_bind raises_map
  ok_bind bind_eq_ok map_eq_ok)
open RoboAgent.PriorityTrimming RoboAgent.WorldRanking

/-! The data segment -/

def WorldStatus.value : WorldStatus → String
  | .known => "known"
  | .unknown => "unknown"
  | .stale => "stale"
  | .conflicted => "conflicted"

def WorldCandidate.data (candidate : WorldCandidate) : JsonValue :=
  .obj [("value", candidate.value.data),
    ("supporting_claims", .arr (candidate.supportingClaims.map ClaimRef.data)),
    ("evidence_refs", .arr (candidate.evidenceRefs.map EvidenceRef.data)),
    ("valid_at", optionalData ObservationTime.data candidate.validAt),
    ("value_kind", .str candidate.value.kind)]

def WorldEntry.data (entry : WorldEntry) : JsonValue :=
  .obj [("subject", entry.subject.data), ("predicate", .str entry.predicate),
    ("status", .str (WorldStatus.value entry.status)), ("value", entry.value.data),
    ("candidates", .arr (entry.candidates.map WorldCandidate.data)),
    ("supporting_claims", .arr (entry.supportingClaims.map ClaimRef.data)),
    ("evidence_refs", .arr (entry.evidenceRefs.map EvidenceRef.data)),
    ("valid_at", optionalData ObservationTime.data entry.validAt),
    ("scope", optionalData .str entry.scope), ("value_kind", .str entry.value.kind)]

inductive Failure
  | context (error : ContextError)
  /-- The ValueError of json.dumps for the World data. -/
  | value

/-- A computation whose errors are the manager's own. -/
def raising {α : Type} (result : Except ContextError α) : Except Failure α :=
  result.mapError .context

def worldSegment (floatText : PyFloat → List Char) (request : ContextRequest)
    (entries : List WorldEntry) : Except Failure (List ContextDataSegment) :=
  match request.worldSnapshot with
  | none => .ok []
  | some snapshot => do
    let omitted := snapshot.entries.length - entries.length
    let text ← (canonicalJsonDumps floatText (.arr (entries.map WorldEntry.data))).mapError
      fun _ => Failure.value
    .ok [{
      source := "world"
      sourceId := some snapshot.worldId
      revision := some snapshot.revision
      capturedAt := snapshot.capturedAt
      text := text
      truncated := decide (0 < omitted)
      omittedCount := omitted }]

/-! Estimates -/

abbrev Estimator := ModelContext → Answer Nat

/-- The TokenEstimationError that an answer other than the one asked for becomes. -/
def Answer.get {α : Type} (invalid : String) : Answer α → Except ContextError α
  | .value a => .ok a
  | .other => .error (.budget "token_estimation_error" invalid)
  | .estimationError reason => .error (.budget "token_estimation_error" reason)
  | .raised => .error (.budget "token_estimation_error" "estimator_failure")

def conservativeTokenEstimator (floatText : PyFloat → List Char) : Estimator := fun context =>
  match ContextEncoding.estimate floatText context with
  | .ok size => .value size
  | .error (.estimation reason) => .estimationError reason
  | .error _ => .raised

def estimateModelInput (estimator : Estimator) (request : ContextRequest) (context : ModelContext) :
    Except ContextError Nat := do
  let size ← Answer.get "invalid_estimate" (estimator context)
  match request.modelInputProjection with
  | none => .ok size
  | some projection =>
    let projected ← Answer.get "invalid_model_input_projection" (projection context)
    let provider ← Answer.get "invalid_estimate" (estimator projected)
    .ok (max size provider)

theorem constructible_world (segments : List Segment)
    (entries : List ContextCompaction.WorldEntry) :
    constructible (.world entries :: segments) = constructible segments := by
  rw [constructible, constructible, validateSegmentExchanges, List.dropWhile_cons, if_pos rfl]

theorem constructible_data (data : List ContextDataSegment) (segments : List ModelContextSegment) :
    constructible ((data.map ModelContextSegment.contextData ++ segments).map
        ModelContextSegment.checked) =
      constructible (segments.map ModelContextSegment.checked) := by
  induction data with
  | nil => rfl
  | cons segment data ih =>
    rw [List.map_cons, List.cons_append, List.map_cons, ModelContextSegment.checked,
      constructible_world, ih]

/-- The context with data in front of its segments. -/
def withData (context : ModelContext) (data : List ContextDataSegment) : ModelContext where
  systemPrompt := context.systemPrompt
  segments := data.map .contextData ++ context.segments
  tools := context.tools
  constructed := by rw [constructible_data, context.constructed]

/-! The loop of the managers that do not compact -/

section
variable (floatText : PyFloat → List Char) (request : ContextRequest)

/-- The limit on the input, where there is one. -/
def projectionBudget (budget : Option ContextBudget) : Except ContextError (Option Nat) :=
  if budget.isSome ∨ request.worldSnapshot.isSome ∨ request.modelInputProjection.isSome then
    let limits := budget.getD ⟨if request.contextWindow.isNone then some 8192 else none, 0⟩
    (inputBudget limits request.contextWindow request.maxOutputTokens 1024).map some
  else .ok none

/-- The test of the loop, on the context with the data of some entries. -/
def projectionFits (estimator : Estimator) (context : ModelContext) (limit : Option Nat)
    (entries : List WorldEntry) : Except Failure Bool := do
  let data ← worldSegment floatText request entries
  match limit with
  | none => .ok true
  | some limit =>
    let size ← raising (estimateModelInput estimator request (withData context data))
    .ok (size ≤ limit)

def minimumRetained (_ : List WorldEntry) : Except Failure (List WorldEntry) :=
  .error (.context (.budget "context_budget_exceeded" "minimum_retained_context"))

/-- _prepare_world_context, for any set of keys in the place of the protected ones. -/
def projectWorld (keys : List WorldEntryKey) (context : ModelContext)
    (budget : Option ContextBudget) (estimator : Option Estimator) :
    Except Failure ModelContext := do
  let estimator := estimator.getD (conservativeTokenEstimator floatText)
  let limit ← raising (projectionBudget request budget)
  let entries ← trim (isProtected keys) (projectionFits floatText request estimator context limit)
    minimumRetained (boundedWorldEntries request keys)
  let data ← worldSegment floatText request entries
  .ok (withData context data)

def prepareWorldContext (context : ModelContext) (budget : Option ContextBudget)
    (estimator : Option Estimator) : Except Failure ModelContext :=
  projectWorld floatText request (protectedWorldEntries request) context budget estimator

end

/-! CompactingContextManager -/

/-- The manager with its components; the summarizer raises only what the manager maps to an error of
its own. -/
structure Manager where
  budget : ContextBudget
  estimator : Estimator
  policy : CompactionPolicy
  providerDefaultReserve : Nat
  summaryFormatVersion : Nat
  checkSummarizerInput : Option ContextSummary → List AgentMessage → Except ContextError Unit
  summarize : Option ContextSummary → List AgentMessage → Except ContextError SummaryResult

/-- A segment of the conversation, behind the data. -/
def conversation : Segment → Option ModelContextSegment
  | .message message => some (.message message)
  | .summary text => some (.summary text)
  | .world _ => none

def conversationContext (prompt : Option String) (tools : List ToolDefinition)
    (data : List ContextDataSegment) (segments : List Segment) : Except ContextError ModelContext :=
  let all := data.map .contextData ++ segments.filterMap conversation
  if constructed : constructible (all.map ModelContextSegment.checked) = true then
    .ok ⟨prompt, all, tools, constructed⟩
  else .error (.transcript "A ModelContext segment split a ToolExchangeBlock.")

section
variable (floatText : PyFloat → List Char) (digest : List AgentMessage → String) (m : Manager)
  (request : ContextRequest) (prompt : Option String)

def sizeOf (data : List ContextDataSegment) (segments : List Segment) :
    Except ContextError Nat := do
  let context ← conversationContext prompt request.toolDefinitions data segments
  estimateModelInput m.estimator request context

/-- The manager with the World data fixed, to look at the conversation behind them. -/
def compacting (data : List ContextDataSegment) : CompactingContextManager where
  budget := m.budget
  minRecentTurns := m.policy.minRecentTurns
  target := m.policy.target
  providerDefaultReserve := m.providerDefaultReserve
  summaryFormatVersion := m.summaryFormatVersion
  estimate := sizeOf m request prompt data
  checkSummarizerInput := m.checkSummarizerInput
  summarize := m.summarize

/-- The request without its World. -/
def conversationRequest : ContextCompaction.ContextRequest where
  transcript := request.transcript
  currentCompaction := request.currentCompaction
  contextWindow := request.contextWindow
  maxOutputTokens := request.maxOutputTokens
  world := none

def entriesSize (segments : List Segment) (entries : List WorldEntry) : Except Failure Nat := do
  let data ← worldSegment floatText request entries
  raising (sizeOf m request prompt data segments)

/-- The prepared context and its compaction update, for any set of keys in the place of the
protected ones. -/
def compactWorld (keys : List WorldEntryKey) :
    Except Failure (ModelContext × Option CompactionUpdate) := do
  let groups ← raising (messageGroups request.transcript)
  let current := request.currentCompaction.filter fun old =>
    (compacting m request prompt []).validSummary digest old request.transcript
      (groupBoundaries groups)
  let clear := if current.isSome then none
    else request.currentCompaction.map fun old =>
      (⟨none, some old.sourceDigest⟩ : CompactionUpdate)
  let limit ← raising (inputBudget m.budget request.contextWindow request.maxOutputTokens
    m.providerDefaultReserve)
  let segments := projectSegments request.transcript current
  let size := entriesSize floatText m request prompt segments
  let entries ← trim (isProtected keys) (fun entries => (size entries).map fun size => size ≤ limit)
    .ok (boundedWorldEntries request keys)
  let data ← worldSegment floatText request entries
  if (← size entries) ≤ limit then
    let context ← raising (conversationContext prompt request.toolDefinitions data segments)
    .ok (context, clear)
  else do
    let prepared ← raising (ContextPreparation.shrinkContext digest
      (compacting m request prompt data) (conversationRequest request) groups [] current limit)
    let context ← raising (conversationContext prompt request.toolDefinitions data
      prepared.segments)
    .ok (context, prepared.update)

def prepare : Except Failure (ModelContext × Option CompactionUpdate) :=
  compactWorld floatText digest m request prompt (protectedWorldEntries request)

end

/-! What the data say of the snapshot -/

/-- The entries that were kept, and the data segment with them. -/
structure Projects (floatText : PyFloat → List Char) (request : ContextRequest)
    (snapshot : CapturedSnapshot) (keys : List WorldEntryKey) (kept : List WorldEntry)
    (data : ContextDataSegment) : Prop where
  ordered : kept.Sublist (orderedWorldEntries request)
  protects : ∀ entry ∈ snapshot.entries, isProtected keys entry = true → entry ∈ kept
  ranked : (kept.filter fun entry => !isProtected keys entry) <+:
    ((orderedWorldEntries request).take 64).filter fun entry => !isProtected keys entry
  text : canonicalJsonDumps floatText (.arr (kept.map WorldEntry.data)) = .ok data.text
  omitted : data.omittedCount = (snapshot.entries.diff kept).length
  truncated : data.truncated = decide (0 < data.omittedCount)

/-- The World data stand in front, and the context fits. -/
structure Prepares (floatText : PyFloat → List Char) (estimator : Estimator)
    (request : ContextRequest) (snapshot : CapturedSnapshot) (keys : List WorldEntryKey)
    (limit : Nat) (rest : List ModelContextSegment) (context : ModelContext) : Prop where
  front : ∃ kept data, context.segments = .contextData data :: rest ∧
    Projects floatText request snapshot keys kept data
  fits : ∃ size, estimateModelInput estimator request context = .ok size ∧ size ≤ limit

/-- Python can write every number of the entries. -/
def Writable (entries : List WorldEntry) : Prop :=
  ∀ entry ∈ entries, printable (WorldEntry.data entry) = true

variable {floatText : PyFloat → List Char} {digest : List AgentMessage → String} {m : Manager}
variable {request : ContextRequest} {snapshot : CapturedSnapshot} {keys : List WorldEntryKey}
variable {entries kept : List WorldEntry} {data : List ContextDataSegment} {prompt : Option String}

theorem printable_entries : printable (.arr (entries.map WorldEntry.data)) = true ↔
    Writable entries := by
  rw [printable_arr, List.all_map, List.all_eq_true]
  exact Iff.rfl

theorem worldSegment_of_not_writable (present : request.worldSnapshot = some snapshot)
    (h : ¬Writable entries) : worldSegment floatText request entries = .error .value := by
  have text : canonicalJsonDumps floatText (.arr (entries.map WorldEntry.data)) =
      .error .value := by
    rw [canonicalJsonDumps, if_neg (mt printable_entries.mp h)]
  rw [worldSegment, present]
  dsimp only
  rw [text]
  rfl

theorem worldSegment_of_writable (floatText : PyFloat → List Char)
    (present : request.worldSnapshot = some snapshot) (h : Writable entries) :
    ∃ segment, worldSegment floatText request entries = .ok [segment] ∧
      canonicalJsonDumps floatText (.arr (entries.map WorldEntry.data)) = .ok segment.text ∧
      segment.omittedCount = snapshot.entries.length - entries.length ∧
      segment.truncated = decide (0 < segment.omittedCount) := by
  have text : canonicalJsonDumps floatText (.arr (entries.map WorldEntry.data)) =
      .ok (String.ofList (JsonText.write floatText (.arr (entries.map WorldEntry.data)))) := by
    rw [canonicalJsonDumps, if_pos (printable_entries.mpr h)]
  rw [worldSegment, present]
  dsimp only
  rw [text]
  exact ⟨_, rfl, rfl, rfl, rfl⟩

/-- A thinning of the bounded entries is what the data segment says it is. -/
theorem projects_of_thinned (present : request.worldSnapshot = some snapshot)
    (thinned : Thinned (isProtected keys) (boundedWorldEntries request keys) kept)
    (made : worldSegment floatText request kept = .ok data) :
    ∃ segment, data = [segment] ∧ Projects floatText request snapshot keys kept segment := by
  have writable : Writable kept := by
    by_contra unwritable
    rw [worldSegment_of_not_writable present unwritable] at made
    cases made
  obtain ⟨segment, made', text, omitted, truncated⟩ := worldSegment_of_writable _ present writable
  have perm := orderedWorldEntries_perm present
  have ordered : kept.Sublist (orderedWorldEntries request) :=
    thinned.sublist.trans (firstOf_sublist 64 _)
  refine ⟨segment, Except.ok.inj (made.symm.trans made'), ordered, ?_, ?_, text, ?_, truncated⟩
  · intro entry inside stays
    exact thinned.mem (mem_firstOf (perm.mem_iff.mpr inside) stays) stays
  · rw [← filter_firstOf]
    exact thinned.others
  · rw [omitted, length_diff (ordered.subperm.trans perm.subperm)]

/-! The errors -/

def IsBudget (error : ContextError) : Prop := ∃ code reason, error = .budget code reason

/-- An error of the manager that is of this kind. -/
def Named (P : ContextError → Prop) : Failure → Prop
  | .context error => P error
  | .value => False

theorem raising_raises {α : Type} {P : ContextError → Prop} {result : Except ContextError α}
    (h : Raises P result) : Raises (Named P) (raising result) := by
  cases result with
  | error error => exact raises_error (P := Named P) (h error rfl)
  | ok a => exact raises_ok a

theorem raising_eq_ok {α : Type} {result : Except ContextError α} {a : α}
    (h : raising result = .ok a) : result = .ok a := by
  cases result with
  | error error => cases h
  | ok b => exact congrArg _ (Except.ok.inj h)

theorem get_raises {α : Type} (invalid : String) (answer : Answer α) :
    Raises IsBudget (Answer.get invalid answer) := by
  cases answer with
  | value a => exact raises_ok a
  | other => exact raises_error ⟨_, _, rfl⟩
  | estimationError reason => exact raises_error ⟨_, _, rfl⟩
  | raised => exact raises_error ⟨_, _, rfl⟩

theorem estimateModelInput_raises (estimator : Estimator) (request : ContextRequest)
    (context : ModelContext) : Raises IsBudget (estimateModelInput estimator request context) := by
  rw [estimateModelInput]
  refine raises_bind (get_raises _ _) fun size _ => ?_
  split
  · exact raises_ok size
  · refine raises_bind (get_raises _ _) fun projected _ => ?_
    exact raises_bind (get_raises _ _) fun provider _ => raises_ok _

theorem inputBudget_raises (budget : ContextBudget) (window output : Option Nat) (reserve : Nat) :
    Raises IsBudget (inputBudget budget window output reserve) := by
  rw [inputBudget]
  split
  · exact raises_error ⟨_, _, rfl⟩
  · dsimp only
    split_ifs
    · exact raises_error ⟨_, _, rfl⟩
    · exact raises_ok _

theorem projectionBudget_raises (request : ContextRequest) (budget : Option ContextBudget) :
    Raises IsBudget (projectionBudget request budget) := by
  rw [projectionBudget]
  by_cases bounded : budget.isSome ∨ request.worldSnapshot.isSome ∨
      request.modelInputProjection.isSome
  · rw [if_pos bounded]
    exact raises_map (inputBudget_raises _ _ _ _)
  · rw [if_neg bounded]
    exact raises_ok none

/-- What a preparation may end in: a context, or an error of this kind. -/
def Meets {α : Type} (P : ContextError → Prop) (good : α → Prop) : Except Failure α → Prop
  | .ok a => good a
  | .error failure => Named P failure

theorem meets_iff {α : Type} {P : ContextError → Prop} {good : α → Prop}
    {result : Except Failure α} : Meets P good result ↔
      Raises (Named P) result ∧ ∀ a, result = .ok a → good a := by
  cases result with
  | error failure =>
    refine ⟨fun h => ⟨raises_error h, nofun⟩, fun h => h.1 failure rfl⟩
  | ok a =>
    refine ⟨fun h => ⟨raises_ok a, ?_⟩, fun h => h.2 a rfl⟩
    rintro _ ⟨⟩
    exact h

/-! The loop of the managers that do not compact -/

section
variable {context projected : ModelContext} {budget : Option ContextBudget}
  {estimator : Option Estimator} {limit : Nat}

/-- With a World there is a limit. -/
theorem exists_projectionBudget (present : request.worldSnapshot = some snapshot)
    {limit : Option Nat} (h : projectionBudget request budget = .ok limit) :
    ∃ n, limit = some n := by
  rw [projectionBudget, present, if_pos (.inr (.inl rfl))] at h
  obtain ⟨n, -, same⟩ := map_eq_ok h
  exact ⟨n, same.symm⟩

theorem projectionFits_raises {estimator : Estimator} {limit : Option Nat}
    (present : request.worldSnapshot = some snapshot) (writable : Writable entries) :
    Raises (Named IsBudget) (projectionFits floatText request estimator context limit entries) := by
  obtain ⟨segment, made, -⟩ := worldSegment_of_writable floatText present writable
  rw [projectionFits, made, ok_bind]
  cases limit with
  | none => exact raises_ok true
  | some limit =>
    exact raises_bind (raising_raises (estimateModelInput_raises _ _ _)) fun _ _ => raises_ok _

theorem Writable.sublist (h : Writable entries) (sublist : kept.Sublist entries) : Writable kept :=
  fun entry mem => h entry (sublist.subset mem)

theorem projectWorld_raises (present : request.worldSnapshot = some snapshot)
    (writable : Writable (boundedWorldEntries request keys)) :
    Raises (Named IsBudget) (projectWorld floatText request keys context budget estimator) := by
  rw [projectWorld]
  refine raises_bind (raising_raises (projectionBudget_raises _ _)) fun limit _ => ?_
  refine raises_bind (trim_raises (fun last thinned =>
    projectionFits_raises present (writable.sublist thinned.sublist)) fun last _ =>
      raises_error ⟨_, _, rfl⟩) fun kept trimmed => ?_
  obtain ⟨last, thinned, ⟨rfl, -⟩ | absurd⟩ := trim_eq_ok trimmed
  · obtain ⟨segment, made, -⟩ := worldSegment_of_writable floatText present
      (writable.sublist thinned.sublist)
    rw [made]
    exact raises_ok _
  · cases absurd

theorem projectWorld_ok (present : request.worldSnapshot = some snapshot)
    (h : projectWorld floatText request keys context budget estimator = .ok projected) :
    ∃ limit, projectionBudget request budget = .ok (some limit) ∧
      Prepares floatText (estimator.getD (conservativeTokenEstimator floatText)) request snapshot
        keys limit context.segments projected := by
  rw [projectWorld] at h
  obtain ⟨limit, bounded, h⟩ := bind_eq_ok h
  obtain ⟨n, rfl⟩ := exists_projectionBudget present (raising_eq_ok bounded)
  obtain ⟨kept, trimmed, h⟩ := bind_eq_ok h
  obtain ⟨data, made, h⟩ := bind_eq_ok h
  cases h
  obtain ⟨last, thinned, ⟨rfl, passes⟩ | absurd⟩ := trim_eq_ok trimmed
  · obtain ⟨segment, rfl, projects⟩ := projects_of_thinned present thinned made
    rw [projectionFits, made, ok_bind] at passes
    obtain ⟨size, estimated, within⟩ := bind_eq_ok passes
    exact ⟨n, raising_eq_ok bounded, ⟨last, segment, rfl, projects⟩, size,
      raising_eq_ok estimated, of_decide_eq_true (Except.ok.inj within)⟩
  · cases absurd

/-- An entry that cannot be written stops the loop at its first round. -/
theorem projectWorld_of_not_writable (present : request.worldSnapshot = some snapshot)
    {limit : Option Nat} (bounded : projectionBudget request budget = .ok limit)
    (h : ¬Writable (boundedWorldEntries request keys)) :
    projectWorld floatText request keys context budget estimator = .error .value := by
  have unwritten : projectionFits floatText request
      (estimator.getD (conservativeTokenEstimator floatText)) context limit
      (boundedWorldEntries request keys) = .error .value := by
    rw [projectionFits, worldSegment_of_not_writable present h]
    rfl
  rw [projectWorld, bounded]
  change (trim _ _ _ _ >>= _) = _
  rw [trim_of_error unwritten]
  rfl

end

/-! CompactingContextManager -/

/-- The segments of a conversation: a summary or none, and messages. -/
def segmentsOf (text : Option String) (messages : List AgentMessage) : List Segment :=
  (text.map .summary).toList ++ messages.map .message

theorem checked_conversation (text : Option String) (messages : List AgentMessage) :
    ((segmentsOf text messages).filterMap conversation).map ModelContextSegment.checked =
      segmentsOf text messages := by
  have each : messages.map Segment.message = ((messages.map Segment.message).filterMap
      conversation).map ModelContextSegment.checked := by
    rw [List.filterMap_map, List.map_filterMap]
    exact (List.filterMap_eq_map (f := Segment.message) ▸ rfl)
  cases text with
  | none => exact each.symm
  | some text => exact congrArg _ each.symm

theorem constructible_segmentsOf (text : Option String) {messages : List AgentMessage}
    (grammar : Grammar messages) : constructible (segmentsOf text messages) = true := by
  have exchanges : validateSegmentExchanges (segmentsOf text messages) = .ok () := by
    cases text with
    | none => exact (validateSegmentExchanges_iff messages).mpr grammar
    | some text =>
      change validateSegmentExchanges (.summary text :: messages.map .message) = _
      rw [validateSegmentExchanges]
      exact (validateSegmentExchanges_iff messages).mpr grammar
  rw [constructible, exchanges, Bool.and_eq_true]
  refine ⟨List.all_eq_true.mpr fun segment mem => ?_, rfl⟩
  obtain summary | message := List.mem_append.mp ((List.dropWhile_sublist _).subset mem)
  · obtain ⟨_, -, rfl⟩ := Option.map_eq_some_iff.mp (Option.mem_toList.mp summary)
    rfl
  · obtain ⟨_, -, rfl⟩ := List.mem_map.mp message
    rfl

theorem conversationContext_ok (prompt : Option String) (tools : List ToolDefinition)
    (data : List ContextDataSegment) (text : Option String) {messages : List AgentMessage}
    (grammar : Grammar messages) : ∃ context,
      conversationContext prompt tools data (segmentsOf text messages) = .ok context := by
  have constructed : constructible ((data.map ModelContextSegment.contextData ++
      (segmentsOf text messages).filterMap conversation).map ModelContextSegment.checked) =
      true := by
    rw [constructible_data, checked_conversation, constructible_segmentsOf text grammar]
  rw [conversationContext, dif_pos constructed]
  exact ⟨_, rfl⟩

theorem conversationContext_segments {tools : List ToolDefinition} {segments : List Segment}
    {context : ModelContext} (h : conversationContext prompt tools data segments = .ok context) :
    context.segments = data.map .contextData ++ segments.filterMap conversation := by
  rw [conversationContext] at h
  split_ifs at h
  cases h
  rfl

/-- The conversation has no data. -/
theorem contextData_not_mem (segments : List Segment) (segment : ContextDataSegment) :
    ModelContextSegment.contextData segment ∉ segments.filterMap conversation := by
  intro mem
  obtain ⟨source, -, made⟩ := List.mem_filterMap.mp mem
  cases source <;> cases made

theorem sizeOf_raises (text : Option String) {messages : List AgentMessage}
    (grammar : Grammar messages) :
    Raises IsBudget (sizeOf m request prompt data (segmentsOf text messages)) := by
  obtain ⟨context, made⟩ := conversationContext_ok prompt request.toolDefinitions data text grammar
  rw [sizeOf, made, ok_bind]
  exact estimateModelInput_raises _ _ _

/-- What the manager does not raise of its own: the errors of the summarizer and of the check of its
input, and the ValueError for a summarizer with an empty name. -/
def FromSummarizer (m : Manager) (error : ContextError) : Prop :=
  ∃ existing messages, m.checkSummarizerInput existing messages = .error error ∨
    m.summarize existing messages = .error error ∨
    error = .invalid ∧ ∃ result, m.summarize existing messages = .ok result ∧
      result.summarizerId = some ""

def IsExplicit (m : Manager) (error : ContextError) : Prop :=
  IsBudget error ∨ FromSummarizer m error

theorem compacting_raises (m : Manager) (request : ContextRequest) (prompt : Option String)
    (data : List ContextDataSegment) :
    SummarizerRaises (compacting m request prompt data) (IsExplicit m) where
  check existing messages _ raised := .inr ⟨existing, messages, .inl raised⟩
  summarize existing messages _ raised := .inr ⟨existing, messages, .inr (.inl raised)⟩
  nameless existing messages result made nameless :=
    .inr ⟨existing, messages, .inr (.inr ⟨rfl, result, made, nameless⟩)⟩

/-- The record that a preparation starts from. -/
abbrev currentRecord (digest : List AgentMessage → String) (m : Manager) (request : ContextRequest)
    (prompt : Option String) (groups : List (List AgentMessage)) : Option ContextSummary :=
  stillValid digest (compacting m request prompt []) (conversationRequest request) groups

theorem projectSegments_current (transcript : List AgentMessage) (summary : Option ContextSummary) :
    projectSegments transcript summary =
      segmentsOf (summary.map ContextSummary.text) (transcript.drop (endOf summary)) := by
  rw [projectSegments_eq, segmentsOf, Option.map_map]
  rfl

section
variable {groups : List (List AgentMessage)}

/-- Every context that is estimated can be constructed, and so only the estimate raises. -/
theorem entriesSize_raises (present : request.worldSnapshot = some snapshot)
    (grouped : messageGroups request.transcript = .ok groups) (writable : Writable entries) :
    Raises (Named (IsExplicit m)) (entriesSize floatText m request prompt
      (projectSegments request.transcript (currentRecord digest m request prompt groups))
      entries) := by
  obtain ⟨segment, made, -⟩ := worldSegment_of_writable floatText present writable
  have boundary := stillValid_boundary digest (compacting m request prompt [])
    (conversationRequest request) groups
  rw [entriesSize, made, ok_bind, projectSegments_current]
  exact raising_raises (raises_imp (sizeOf_raises _ (grammar_drop_boundary grouped boundary))
    fun _ => .inl)

theorem shrinking_raises (grouped : messageGroups request.transcript = .ok groups)
    (data : List ContextDataSegment) (current : Option ContextSummary) (limit : Nat) :
    Raises (IsExplicit m) (ContextPreparation.shrinkContext digest
      (compacting m request prompt data) (conversationRequest request) groups [] current
        limit) := by
  refine shrinkContext_raises (fun code reason => .inl ⟨code, reason, rfl⟩)
    (compacting_raises m request prompt data) ?_ ?_ ?_
  · exact raises_imp (sizeOf_raises none .nil) fun _ => .inl
  · intro group mem
    exact raises_imp (sizeOf_raises none ((messageGroups_spec grouped).2 group mem)) fun _ => .inl
  · intro stop boundary text
    exact raises_imp (sizeOf_raises (some text) (grammar_drop_boundary grouped boundary))
      fun _ => .inl

theorem compactWorld_raises (present : request.worldSnapshot = some snapshot)
    (writable : Writable (boundedWorldEntries request keys)) :
    Raises (Named (IsExplicit m)) (compactWorld floatText digest m request prompt keys) := by
  obtain ⟨groups, grouped⟩ := request.grouped
  have sizes (entries : List WorldEntry) (within : Writable entries) :
      Raises (Named (IsExplicit m)) (entriesSize floatText m request prompt
        (projectSegments request.transcript (currentRecord digest m request prompt groups))
        entries) := entriesSize_raises present grouped within
  rw [compactWorld, grouped]
  change Raises _ (raising (inputBudget m.budget request.contextWindow request.maxOutputTokens
    m.providerDefaultReserve) >>= _)
  refine raises_bind (raising_raises (raises_imp (inputBudget_raises _ _ _ _) fun _ => .inl))
    fun limit _ => ?_
  refine raises_bind (trim_raises (fun last thinned =>
    raises_map (sizes last (writable.sublist thinned.sublist))) fun last _ => raises_ok last)
    fun kept trimmed => ?_
  obtain ⟨last, thinned, ends⟩ := trim_eq_ok trimmed
  obtain rfl : last = kept := ends.elim And.left Except.ok.inj
  have within := writable.sublist thinned.sublist
  obtain ⟨segment, made, -⟩ := worldSegment_of_writable floatText present within
  rw [made, ok_bind]
  refine raises_bind (sizes last within) fun size _ => ?_
  by_cases small : size ≤ limit
  · rw [if_pos small]
    have boundary := stillValid_boundary digest (compacting m request prompt [])
      (conversationRequest request) groups
    obtain ⟨context, constructed⟩ := conversationContext_ok prompt request.toolDefinitions [segment]
      ((currentRecord digest m request prompt groups).map ContextSummary.text)
      (grammar_drop_boundary grouped boundary)
    rw [← projectSegments_current] at constructed
    change Raises _ (raising (conversationContext prompt request.toolDefinitions [segment]
      (projectSegments request.transcript (currentRecord digest m request prompt groups))) >>= _)
    rw [constructed]
    exact raises_ok _
  · rw [if_neg small]
    refine raises_bind (raising_raises (shrinking_raises grouped [segment] _ limit))
      fun prepared shrunk => ?_
    obtain ⟨-, summary, boundary, -, -, compacts⟩ := shrinkContext_spec (raising_eq_ok shrunk)
    obtain ⟨size, estimated, -⟩ := compacts.fits
    obtain ⟨context, constructed, -⟩ := bind_eq_ok estimated
    rw [constructed]
    exact raises_ok _

theorem compactWorld_ok (present : request.worldSnapshot = some snapshot)
    {context : ModelContext} {update : Option CompactionUpdate}
    (h : compactWorld floatText digest m request prompt keys = .ok (context, update)) :
    ∃ limit rest, inputBudget m.budget request.contextWindow request.maxOutputTokens
        m.providerDefaultReserve = .ok limit ∧
      (∀ segment, ModelContextSegment.contextData segment ∉ rest) ∧
      Prepares floatText m.estimator request snapshot keys limit rest context := by
  rw [compactWorld] at h
  obtain ⟨groups, -, h⟩ := bind_eq_ok h
  dsimp only at h
  obtain ⟨limit, bounded, looped⟩ := bind_eq_ok h
  obtain ⟨kept, trimmed, rendered⟩ := bind_eq_ok looped
  obtain ⟨data, made, tested⟩ := bind_eq_ok rendered
  obtain ⟨size, sized, ending⟩ := bind_eq_ok tested
  have bounded := raising_eq_ok bounded
  obtain ⟨last, thinned, ends⟩ := trim_eq_ok trimmed
  obtain rfl : last = kept := ends.elim And.left Except.ok.inj
  obtain ⟨segment, rfl, projects⟩ := projects_of_thinned present thinned made
  -- The context was constructed to be estimated, and is constructed again to be returned.
  have prepares {segments : List Segment} {built : ModelContext} {size : Nat}
      (constructed : conversationContext prompt request.toolDefinitions [segment] segments =
        .ok built) (sized : sizeOf m request prompt [segment] segments = .ok size)
      (small : size ≤ limit) : Prepares floatText m.estimator request snapshot keys limit
        (segments.filterMap conversation) built := by
    rw [sizeOf, constructed, ok_bind] at sized
    exact ⟨⟨last, segment, conversationContext_segments constructed, projects⟩, size, sized, small⟩
  by_cases small : size ≤ limit
  · rw [if_pos small] at ending
    obtain ⟨built, constructed, same⟩ := bind_eq_ok ending
    cases same
    rw [entriesSize, made, ok_bind] at sized
    exact ⟨limit, _, bounded, contextData_not_mem _,
      prepares (raising_eq_ok constructed) (raising_eq_ok sized) small⟩
  · rw [if_neg small] at ending
    obtain ⟨prepared, shrunk, built⟩ := bind_eq_ok ending
    obtain ⟨built, constructed, same⟩ := bind_eq_ok built
    cases same
    obtain ⟨-, summary, -, -, -, compacts⟩ := shrinkContext_spec (raising_eq_ok shrunk)
    obtain ⟨size, estimated, fits⟩ := compacts.fits
    exact ⟨limit, _, bounded, contextData_not_mem _, prepares (raising_eq_ok constructed) estimated
      (fits.trans (m.policy.target_le (inputBudget_pos bounded)))⟩

theorem compactWorld_of_not_writable (present : request.worldSnapshot = some snapshot) {limit : Nat}
    (bounded : inputBudget m.budget request.contextWindow request.maxOutputTokens
      m.providerDefaultReserve = .ok limit)
    (h : ¬Writable (boundedWorldEntries request keys)) :
    compactWorld floatText digest m request prompt keys = .error .value := by
  obtain ⟨groups, grouped⟩ := request.grouped
  rw [compactWorld, grouped]
  change (raising (inputBudget m.budget request.contextWindow request.maxOutputTokens
    m.providerDefaultReserve) >>= _) = _
  rw [bounded]
  change (trim _ _ _ _ >>= _) = _
  rw [trim_of_error (show _ = Except.error Failure.value from ?_)]
  · rfl
  · rw [entriesSize, worldSegment_of_not_writable present h]
    rfl

end

/-- Both loops drop the same entries: the first is the second, and one more look where it raises. -/
theorem loops_agree (keys : List WorldEntryKey) (fits : List WorldEntry → Except Failure Bool)
    (entries : List WorldEntry) : trim (isProtected keys) fits minimumRetained entries = (do
      let last ← trim (isProtected keys) fits .ok entries
      if ← fits last then .ok last else minimumRetained last) :=
  trim_eq fits minimumRetained entries

/-- The managers that do not compact end in a context with the World data in front, or in a budget
error. -/
def Projected (floatText : PyFloat → List Char) (request : ContextRequest)
    (snapshot : CapturedSnapshot) (keys : List WorldEntryKey) (context : ModelContext)
    (budget : Option ContextBudget) (estimator : Option Estimator) : Prop :=
  Meets IsBudget (fun projected => ∃ limit,
    projectionBudget request budget = .ok (some limit) ∧
    Prepares floatText (estimator.getD (conservativeTokenEstimator floatText)) request snapshot
      keys limit context.segments projected)
    (projectWorld floatText request keys context budget estimator)

/-- CompactingContextManager ends in such a context, or in a budget error or what the summarizer
brings. -/
def Compacted (floatText : PyFloat → List Char) (digest : List AgentMessage → String) (m : Manager)
    (request : ContextRequest) (snapshot : CapturedSnapshot) (keys : List WorldEntryKey)
    (prompt : Option String) : Prop :=
  Meets (IsExplicit m) (fun prepared => ∃ limit rest,
    inputBudget m.budget request.contextWindow request.maxOutputTokens m.providerDefaultReserve =
      .ok limit ∧
    (∀ segment, ModelContextSegment.contextData segment ∉ rest) ∧
    Prepares floatText m.estimator request snapshot keys limit rest prepared.1)
    (compactWorld floatText digest m request prompt keys)

theorem projected_iff (present : request.worldSnapshot = some snapshot) (context : ModelContext)
    (budget : Option ContextBudget) (estimator : Option Estimator) :
    Projected floatText request snapshot keys context budget estimator ↔
      (∃ error, projectionBudget request budget = .error error) ∨
        Writable (boundedWorldEntries request keys) := by
  rw [Projected]
  constructor
  · intro h
    cases bounded : projectionBudget request budget with
    | error error => exact .inl ⟨error, rfl⟩
    | ok limit =>
      by_contra unwritable
      rw [projectWorld_of_not_writable present bounded (not_or.mp unwritable).2] at h
      exact h
  · rintro (⟨error, bounded⟩ | writable)
    · have raised : projectWorld floatText request keys context budget estimator =
          .error (.context error) := by
        rw [projectWorld, bounded]
        rfl
      rw [raised]
      exact projectionBudget_raises request budget error bounded
    · exact meets_iff.mpr ⟨projectWorld_raises present writable, fun _ => projectWorld_ok present⟩

theorem compacted_iff (present : request.worldSnapshot = some snapshot) :
    Compacted floatText digest m request snapshot keys prompt ↔
      (∃ error, inputBudget m.budget request.contextWindow request.maxOutputTokens
        m.providerDefaultReserve = .error error) ∨
        Writable (boundedWorldEntries request keys) := by
  rw [Compacted]
  constructor
  · intro h
    cases bounded : inputBudget m.budget request.contextWindow request.maxOutputTokens
        m.providerDefaultReserve with
    | error error => exact .inl ⟨error, rfl⟩
    | ok limit =>
      by_contra unwritable
      rw [compactWorld_of_not_writable present bounded (not_or.mp unwritable).2] at h
      exact h
  · rintro (⟨error, bounded⟩ | writable)
    · obtain ⟨groups, grouped⟩ := request.grouped
      have raised : compactWorld floatText digest m request prompt keys =
          .error (.context error) := by
        rw [compactWorld, grouped]
        change (raising (inputBudget m.budget request.contextWindow request.maxOutputTokens
          m.providerDefaultReserve) >>= _) = _
        rw [bounded]
        rfl
      rw [raised]
      exact .inl (inputBudget_raises _ _ _ _ error bounded)
    · exact meets_iff.mpr ⟨compactWorld_raises present writable, fun prepared h =>
        compactWorld_ok present h⟩

def serial : Nat := 10 ^ 4300

def oversized : WorldEntry where
  subject := ⟨"lamp"⟩
  predicate := "serial"
  status := .known
  value := .json ⟨.int serial, rfl⟩
  candidates := []
  supportingClaims := []
  evidenceRefs := []
  validAt := none
  scope := none

def oversizedSnapshot : CapturedSnapshot where
  worldId := "world"
  revision := 1
  entries := [oversized]
  capturedAt := "2026-01-01T00:00:00+00:00"

def oversizedRequest : ContextRequest where
  transcript := []
  toolDefinitions := []
  contextWindow := some 4096
  maxOutputTokens := none
  currentCompaction := none
  worldSnapshot := some oversizedSnapshot
  modelInputProjection := none
  grouped := ⟨[], by rw [messageGroups]⟩

def emptyContext : ModelContext := ⟨none, [], [], by
  rw [List.map_nil, constructible, validateSegmentExchanges]
  rfl⟩

def countingManager : Manager where
  budget := ⟨none, 0⟩
  estimator context := .value context.segments.length
  policy := ContextPreparation.wholePolicy
  providerDefaultReserve := 1024
  summaryFormatVersion := 1
  checkSummarizerInput _ _ := .ok ()
  summarize _ _ := .ok ⟨"summary", none⟩

theorem printable_natCast (n : Nat) :
    printable (.int n) = true ↔ (Nat.toDigits 10 n).length ≤ 4300 := by
  rw [printable, decide_eq_true_iff, Int.natAbs_natCast]

theorem length_toDigits_pow {k : Nat} (positive : 0 < k) :
    ¬(Nat.toDigits 10 (10 ^ k)).length ≤ k := by
  rw [Nat.length_toDigits_le_iff (by decide) positive]
  exact Nat.lt_irrefl _

theorem oversized_not_writable (keys : List WorldEntryKey) :
    ¬Writable (boundedWorldEntries oversizedRequest keys) := by
  have ordered : orderedWorldEntries oversizedRequest = [oversized] :=
    List.perm_singleton.mp (show (orderedWorldEntries oversizedRequest).Perm
      oversizedSnapshot.entries from orderedWorldEntries_perm rfl)
  have inside : oversized ∈ boundedWorldEntries oversizedRequest keys := by
    rw [boundedWorldEntries, ordered]
    exact List.mem_singleton_self oversized
  intro writable
  have printed := writable oversized inside
  rw [WorldEntry.data, printable_obj, List.all_eq_true] at printed
  have number := printed ("value", oversized.value.data) (by simp)
  exact length_toDigits_pow (Nat.succ_pos 4299) ((printable_natCast serial).mp number)

end RoboAgent.WorldProjection
