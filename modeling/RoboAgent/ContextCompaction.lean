import RoboAgent.SessionTranscript
import RoboAgent.FalliblePrograms

/-! CompactingContextManager. A summary stands for a prefix of the transcript that ends between two
groups, a group being one message or one whole tool exchange; its digest is that of the prefix. -/

namespace RoboAgent.ContextCompaction
open RoboAgent.Messages RoboAgent.FrozenJson RoboAgent.SessionState RoboAgent.SessionTranscript
open RoboAgent.FalliblePrograms (bind_eq_ok map_eq_ok)

inductive ContextError
  | transcript (message : String)
  | budget (code reason : String)
  /-- A ValueError of a constructor. -/
  | invalid
  | cancelled
deriving DecidableEq

def isToolResult : AgentMessage → Bool
  | .toolResult _ => true
  | .user _ | .assistant _ => false

def answersCall (call : ToolCall) : AgentMessage → Bool
  | .toolResult result => call.id == result.toolCallId && call.name == result.toolName
  | .user _ | .assistant _ => false

/-- As many of the following messages as the assistant message has calls. -/
def resultsAfter (message : AssistantMessage) (rest : List AgentMessage) : List AgentMessage :=
  rest.take message.toolCalls.length

def messageGroups : List AgentMessage → Except ContextError (List (List AgentMessage))
  | [] => .ok []
  | .assistant message :: rest =>
    if message.toolCalls = [] then (messageGroups rest).map ([.assistant message] :: ·)
    else if (resultsAfter message rest).length ≠ message.toolCalls.length ∨
        ¬(resultsAfter message rest).all isToolResult then
      .error (.transcript "Incomplete ToolExchangeBlock.")
    else if ¬(message.toolCalls.zip (resultsAfter message rest)).all
        fun pair => answersCall pair.1 pair.2 then
      .error (.transcript "Mismatched ToolExchangeBlock.")
    else (messageGroups (rest.drop message.toolCalls.length)).map
      ((.assistant message :: resultsAfter message rest) :: ·)
  | .toolResult _ :: _ => .error (.transcript "Orphan ToolResultMessage.")
  | .user message :: rest => (messageGroups rest).map ([.user message] :: ·)
termination_by messages => messages.length
decreasing_by
  all_goals simp only [List.length_cons, List.length_drop]; omega

/-- Where the groups end, with the start of the first. -/
def groupBoundaries (groups : List (List AgentMessage)) : List Nat :=
  groups.scanl (fun n group => n + group.length) 0

def startsWithUser : List AgentMessage → Bool
  | .user _ :: _ => true
  | _ => false

/-- The loop of _minimum_tail_start, over the groups from the last one back. -/
def scanBack (turns : Nat) : Nat → List (List AgentMessage × Nat) → Nat
  | _, [] => 0
  | seen, (group, index) :: rest =>
    if startsWithUser group then
      if seen + 1 = turns then index else scanBack turns (seen + 1) rest
    else scanBack turns seen rest

def minimumTailStart (groups : List (List AgentMessage)) (turns : Nat) : Nat :=
  scanBack turns 0 groups.zipIdx.reverse

structure ContextBudget where
  maxTokens : Option Nat
  reserveTokens : Nat

def inputBudget (budget : ContextBudget) (contextWindow maxOutputTokens : Option Nat)
    (providerDefaultReserve : Nat) : Except ContextError Nat :=
  match (budget.maxTokens.toList ++ contextWindow.toList).min? with
  | none => .error (.budget "context_budget_unavailable" "missing_context_window")
  | some effective =>
    let reserve := max budget.reserveTokens
      ((maxOutputTokens.filter (· ≠ 0)).getD providerDefaultReserve)
    if effective ≤ reserve then .error (.budget "context_budget_invalid" "reserve_exhausts_window")
    else .ok (effective - reserve)

/-- An entry of the world data, and whether the request protects its key. -/
structure WorldEntry where
  key : String
  isProtected : Bool

inductive Segment
  | world (entries : List WorldEntry)
  | summary (text : String)
  | message (message : AgentMessage)

structure SummaryResult where
  text : String
  summarizerId : Option String

/-- The manager with the components it is given. The target is the share of the input budget that
target_ratio asks for; a summarizer raises only what the manager maps to an error of its own. -/
structure CompactingContextManager where
  budget : ContextBudget
  minRecentTurns : Nat
  target : Nat → Nat
  providerDefaultReserve : Nat
  summaryFormatVersion : Nat
  estimate : List Segment → Except ContextError Nat
  checkSummarizerInput : Option ContextSummary → List AgentMessage → Except ContextError Unit
  summarize : Option ContextSummary → List AgentMessage → Except ContextError SummaryResult

/-- What a Run hands the manager; the world entries are the ordered and bounded ones, and none
without a world snapshot. -/
structure ContextRequest where
  transcript : List AgentMessage
  currentCompaction : Option ContextSummary
  contextWindow : Option Nat
  maxOutputTokens : Option Nat
  world : Option (List WorldEntry)

def worldSegment (request : ContextRequest) (entries : List WorldEntry) : List Segment :=
  request.world.toList.map fun _ => .world entries

/-- The entries without the last one that is not protected. -/
def removeLast : List WorldEntry → Option (List WorldEntry)
  | [] => none
  | entry :: rest =>
    match removeLast rest with
    | some shorter => some (entry :: shorter)
    | none => if entry.isProtected then none else some rest

theorem removeLast_length {entries shorter : List WorldEntry}
    (h : removeLast entries = some shorter) : shorter.length < entries.length := by
  induction entries generalizing shorter with
  | nil => cases h
  | cons entry rest ih =>
    rw [removeLast] at h
    split at h
    · rename_i removed
      cases h
      exact Nat.succ_lt_succ (ih removed)
    · split_ifs at h
      cases h
      exact Nat.lt_succ_self _

/-- Drop world entries from the end until the context fits. -/
def trimWorld (fits : List WorldEntry → Except ContextError Bool) (entries : List WorldEntry) :
    Except ContextError (List WorldEntry) := do
  if ← fits entries then .ok entries
  else
    match _removed : removeLast entries with
    | none => .ok entries
    | some shorter => trimWorld fits shorter
termination_by entries.length
decreasing_by exact removeLast_length _removed

def projectSegments (transcript : List AgentMessage) :
    Option ContextSummary → List Segment
  | none => transcript.map .message
  | some summary => .summary summary.text ::
    (transcript.drop summary.sourceEndExclusive).map .message

namespace CompactingContextManager

variable (digest : List AgentMessage → String)

variable (m : CompactingContextManager)

def validSummary (summary : ContextSummary) (transcript : List AgentMessage)
    (boundaries : List Nat) : Bool :=
  summary.summaryFormatVersion == m.summaryFormatVersion &&
    boundaries.contains summary.sourceEndExclusive &&
    summary.sourceEndExclusive ≤ transcript.length &&
    summary.sourceDigest == digest (transcript.take summary.sourceEndExclusive)

/-- The first boundary that leaves a context within the target. -/
def firstFitting (fits : Nat → Except ContextError Bool) :
    List Nat → Except ContextError (Option Nat)
  | [] => .ok none
  | boundary :: rest => do
    if ← fits boundary then .ok (some boundary) else firstFitting fits rest

/-- Make a summary of the messages before a boundary, and check that it fits. -/
def compact (request : ContextRequest) (world : List Segment) (current : Option ContextSummary)
    (target stop : Nat) : Except ContextError CompactionUpdate := do
  let oldEnd := current.elim 0 ContextSummary.sourceEndExclusive
  let messages := (request.transcript.take stop).drop oldEnd
  m.checkSummarizerInput current messages
  let result ← m.summarize current messages
  if result.summarizerId = some "" then .error .invalid
  else
    let summary : ContextSummary := {
      sourceStart := .int 0
      sourceEndExclusive := stop
      sourceDigest := digest (request.transcript.take stop)
      text := result.text
      summaryFormatVersion := m.summaryFormatVersion
      summarizerId := result.summarizerId }
    let size ← m.estimate (world ++ projectSegments request.transcript (some summary))
    if target < size then .error (.budget "context_budget_exceeded" "summary_and_minimum_tail")
    else .ok ⟨some summary, request.currentCompaction.map ContextSummary.sourceDigest⟩

/-- The part of prepare after the whole transcript was found too large. -/
def shrink (request : ContextRequest) (groups : List (List AgentMessage)) (world : List Segment)
    (current : Option ContextSummary) (budget : Nat) : Except ContextError CompactionUpdate := do
  if budget < (← m.estimate world) then
    .error (.budget "context_budget_exceeded" "static_overhead")
  else
    let tailStart := minimumTailStart groups m.minRecentTurns
    if tailStart = 0 then .error (.budget "context_budget_exceeded" "minimum_retained_tail")
    else
      for group in groups.drop tailStart do
        if budget < (← m.estimate (world ++ group.map .message)) then
          throw (.budget "context_budget_exceeded" "atomic_group_too_large")
      let oldEnd := current.elim 0 ContextSummary.sourceEndExclusive
      let last := ((groups.take tailStart).map List.length).sum
      let candidates := (groupBoundaries groups).filter fun boundary =>
        decide (oldEnd < boundary ∧ boundary ≤ last)
      let target := max 1 (m.target budget)
      let placeholder := current.elim "Earlier conversation summary." ContextSummary.text
      let fits (boundary : Nat) : Except ContextError Bool := do
        let size ← m.estimate (world ++
          .summary placeholder :: (request.transcript.drop boundary).map .message)
        .ok (size ≤ target)
      match ← firstFitting fits candidates with
      | none => .error (.budget "context_budget_exceeded" "summary_and_minimum_tail")
      | some stop => m.compact digest request world current target stop

/-- The compaction update of the prepared context, if it carries one. -/
def prepare (request : ContextRequest) : Except ContextError (Option CompactionUpdate) := do
  let groups ← messageGroups request.transcript
  let boundaries := groupBoundaries groups
  let current := request.currentCompaction.filter fun old =>
    m.validSummary digest old request.transcript boundaries
  let clear := if current.isSome then none
    else request.currentCompaction.map fun old =>
      (⟨none, some old.sourceDigest⟩ : CompactionUpdate)
  let budget ← inputBudget m.budget request.contextWindow request.maxOutputTokens
    m.providerDefaultReserve
  let estimate (entries : List WorldEntry) : Except ContextError Nat :=
    m.estimate (worldSegment request entries ++ projectSegments request.transcript current)
  let entries ← trimWorld (fun entries => (estimate entries).map fun size => size ≤ budget)
    (request.world.getD [])
  let size ← estimate entries
  if size ≤ budget then .ok clear
  else do
    let update ← m.shrink digest request groups (worldSegment request entries) current budget
    .ok (some update)

end CompactingContextManager

theorem grammar_append {first second : List AgentMessage} (h : Grammar first)
    (later : Grammar second) : Grammar (first ++ second) := by
  induction h with
  | nil => exact later
  | user tail ih => exact .user ih
  | exchange answers tail ih =>
    rw [List.append_assoc]
    exact .exchange answers ih

/-- Results that answer the calls one by one close an exchange. -/
theorem closes_of_answersCall {calls : List ToolCall} {results : List AgentMessage}
    (length : results.length = calls.length)
    (answers : (calls.zip results).all (fun pair => answersCall pair.1 pair.2) = true) :
    Closes calls results := by
  induction calls generalizing results with
  | nil =>
    rw [List.length_eq_zero_iff.mp length, closes_nil]
    exact .nil
  | cons call calls ih =>
    cases results with
    | nil => cases length
    | cons result results =>
      rw [List.zip_cons_cons, List.all_cons, Bool.and_eq_true] at answers
      cases result with
      | toolResult result =>
        rw [answersCall, Bool.and_eq_true, beq_iff_eq, beq_iff_eq] at answers
        exact closes_cons.mpr ⟨result, results, rfl, ⟨answers.1.1.symm, answers.1.2.symm⟩,
          ih (Nat.succ.inj length) answers.2⟩
      | user message => cases answers.1
      | assistant message => cases answers.1

/-- The groups are the transcript, cut between complete exchanges. -/
theorem messageGroups_spec {messages : List AgentMessage} {groups : List (List AgentMessage)}
    (h : messageGroups messages = .ok groups) :
    groups.flatten = messages ∧ ∀ group ∈ groups, Grammar group := by
  induction messages using messageGroups.induct generalizing groups with
  | case1 =>
    rw [messageGroups] at h
    cases h
    exact ⟨rfl, nofun⟩
  | case2 message rest empty ih =>
    rw [messageGroups, if_pos empty] at h
    obtain ⟨later, made, rfl⟩ := map_eq_ok h
    obtain ⟨flat, grammar⟩ := ih made
    refine ⟨by rw [List.flatten_cons, flat]; rfl, List.forall_mem_cons.mpr ⟨?_, grammar⟩⟩
    exact grammar_assistant.mpr (empty ▸ closes_nil.mpr .nil)
  | case3 message rest calls incomplete =>
    rw [messageGroups, if_neg calls, if_pos incomplete] at h
    cases h
  | case4 message rest calls complete mismatched =>
    rw [messageGroups, if_neg calls, if_neg complete, if_pos mismatched] at h
    cases h
  | case5 message rest calls complete matched ih =>
    rw [messageGroups, if_neg calls, if_neg complete, if_neg matched] at h
    obtain ⟨later, made, rfl⟩ := map_eq_ok h
    obtain ⟨flat, grammar⟩ := ih made
    refine ⟨?_, List.forall_mem_cons.mpr ⟨grammar_assistant.mpr ?_, grammar⟩⟩
    · rw [List.flatten_cons, flat, List.cons_append, resultsAfter, List.take_append_drop]
    · rw [not_or, not_not, not_not] at complete
      exact closes_of_answersCall complete.1 (not_not.mp matched)
  | case6 message rest =>
    rw [messageGroups] at h
    cases h
  | case7 message rest ih =>
    rw [messageGroups] at h
    obtain ⟨later, made, rfl⟩ := map_eq_ok h
    obtain ⟨flat, grammar⟩ := ih made
    exact ⟨by rw [List.flatten_cons, flat]; rfl,
      List.forall_mem_cons.mpr ⟨.user .nil, grammar⟩⟩

theorem mem_scanl_length {groups : List (List AgentMessage)} {start n : Nat}
    (h : n ∈ groups.scanl (fun n group => n + group.length) start) :
    ∃ k, n = start + ((groups.take k).flatten).length := by
  induction groups generalizing start with
  | nil => exact ⟨0, List.mem_singleton.mp h⟩
  | cons group groups ih =>
    rw [List.scanl_cons, List.mem_cons] at h
    obtain rfl | later := h
    · exact ⟨0, rfl⟩
    · obtain ⟨k, same⟩ := ih later
      refine ⟨k + 1, ?_⟩
      rw [same, List.take_succ_cons, List.flatten_cons, List.length_append, Nat.add_assoc]

/-- The messages before a boundary form complete exchanges. -/
theorem grammar_take_boundary {messages : List AgentMessage} {groups : List (List AgentMessage)}
    {n : Nat} (made : messageGroups messages = .ok groups) (h : n ∈ groupBoundaries groups) :
    n ≤ messages.length ∧ Grammar (messages.take n) := by
  obtain ⟨flat, grammar⟩ := messageGroups_spec made
  obtain ⟨k, same⟩ := mem_scanl_length h
  rw [Nat.zero_add] at same
  have split : messages = (groups.take k).flatten ++ (groups.drop k).flatten := by
    rw [← List.flatten_append, List.take_append_drop, flat]
  constructor
  · rw [same, split, List.length_append]
    exact Nat.le_add_right ..
  · rw [same, split, List.take_left]
    have initial : ∀ group ∈ groups.take k, Grammar group :=
      fun group mem => grammar group (List.mem_of_mem_take mem)
    generalize groups.take k = before at initial
    induction before with
    | nil => exact .nil
    | cons group before ih =>
      rw [List.flatten_cons]
      exact grammar_append (initial group List.mem_cons_self)
        (ih fun g mem => initial g (List.mem_cons_of_mem _ mem))

theorem firstFitting_mem {fits : Nat → Except ContextError Bool} {candidates : List Nat}
    {n : Nat} (h : CompactingContextManager.firstFitting fits candidates = .ok (some n)) :
    n ∈ candidates := by
  induction candidates with
  | nil => cases h
  | cons boundary rest ih =>
    rw [CompactingContextManager.firstFitting] at h
    obtain ⟨fit, -, h⟩ := bind_eq_ok h
    cases fit with
    | true =>
      cases h
      exact List.mem_cons_self
    | false => exact List.mem_cons_of_mem _ (ih h)

/-- What a compaction update is made for: clearing the record, or a prefix of complete exchanges
with its digest. -/
def Stands (digest : List AgentMessage → String) (messages : List AgentMessage)
    (summary : ContextSummary) : Prop :=
  summary.sourceEndExclusive ≤ messages.length ∧
    Grammar (messages.take summary.sourceEndExclusive) ∧
    digest (messages.take summary.sourceEndExclusive) = summary.sourceDigest

variable {digest : List AgentMessage → String} {m : CompactingContextManager}
  {request : ContextRequest}

theorem compact_stands {world : List Segment} {current : Option ContextSummary}
    {target stop : Nat} {groups : List (List AgentMessage)} {update : CompactionUpdate} {summary : ContextSummary}
    (grouped : messageGroups request.transcript = .ok groups)
    (boundary : stop ∈ groupBoundaries groups)
    (h : m.compact digest request world current target stop = .ok update)
    (made : update.summary = some summary) :
    Stands digest request.transcript summary := by
  rw [CompactingContextManager.compact] at h
  obtain ⟨-, -, h⟩ := bind_eq_ok h
  obtain ⟨result, -, h⟩ := bind_eq_ok h
  split_ifs at h
  obtain ⟨size, -, h⟩ := bind_eq_ok h
  split_ifs at h
  cases h
  cases made
  obtain ⟨within, grammar⟩ := grammar_take_boundary grouped boundary
  exact ⟨within, grammar, rfl⟩

theorem shrink_stands {world : List Segment} {current : Option ContextSummary} {budget : Nat}
    {groups : List (List AgentMessage)} {update : CompactionUpdate} {summary : ContextSummary}
    (grouped : messageGroups request.transcript = .ok groups)
    (h : m.shrink digest request groups world current budget = .ok update)
    (made : update.summary = some summary) : Stands digest request.transcript summary := by
  rw [CompactingContextManager.shrink] at h
  obtain ⟨static, -, h⟩ := bind_eq_ok h
  split_ifs at h with exceeds
  dsimp only at h
  split_ifs at h with retained
  obtain ⟨-, -, h⟩ := bind_eq_ok h
  obtain ⟨found, first, h⟩ := bind_eq_ok h
  cases found with
  | none => cases h
  | some stop =>
    exact compact_stands grouped (List.mem_filter.mp (firstFitting_mem first)).1 h made

/-- The update of a context that fits whole only clears a record that is no longer valid. -/
theorem clear_summary {current clear : Option ContextSummary} {update : CompactionUpdate}
    {summary : ContextSummary}
    (h : (if current.isSome then none
      else clear.map fun old => (⟨none, some old.sourceDigest⟩ : CompactionUpdate)) = some update)
    (made : update.summary = some summary) : False := by
  split_ifs at h
  obtain ⟨old, -, rfl⟩ := Option.map_eq_some_iff.mp h
  cases made

/-- A summary that prepare asks to commit stands for a prefix of the transcript it was given. -/
theorem prepare_stands {update : CompactionUpdate} {summary : ContextSummary}
    (h : m.prepare digest request = .ok (some update)) (made : update.summary = some summary) :
    Stands digest request.transcript summary := by
  rw [CompactingContextManager.prepare] at h
  obtain ⟨groups, grouped, h⟩ := bind_eq_ok h
  dsimp only at h
  obtain ⟨budget, -, h⟩ := bind_eq_ok h
  obtain ⟨entries, -, h⟩ := bind_eq_ok h
  obtain ⟨size, -, h⟩ := bind_eq_ok h
  by_cases fits : size ≤ budget
  · rw [if_pos fits] at h
    exact (clear_summary (Except.ok.inj h) made).elim
  · rw [if_neg fits] at h
    obtain ⟨update', shrunk, h⟩ := bind_eq_ok h
    cases h
    exact shrink_stands grouped shrunk made

end RoboAgent.ContextCompaction
