import Mathlib
import RoboAgent.ExchangeGrammar
import RoboAgent.SessionRestore

/-! What CompactingContextManager.prepare returns, and what it asks the summarizer. The estimator
stands with the constructor of the ModelContext it is given, which may refuse the segments. -/

namespace RoboAgent.ContextPreparation
open RoboAgent.Messages RoboAgent.SessionState RoboAgent.SessionWorld RoboAgent.SessionTranscript
open RoboAgent.ContextCompaction RoboAgent.ContextCompaction.CompactingContextManager
open RoboAgent.ExchangeGrammar
open RoboAgent.FalliblePrograms (Raises raises_ok raises_error raises_bind raises_forIn ok_bind
  bind_eq_ok map_eq_ok)

/-- A policy whose constructor has checked it. -/
structure CompactionPolicy where
  targetRatio : Rat
  minRecentTurns : Nat
  ratioInRange : 0 < targetRatio ∧ targetRatio ≤ 1
  turnsPositive : 1 ≤ minRecentTurns

/-- The share of the input budget that the target ratio asks for. -/
def CompactionPolicy.target (policy : CompactionPolicy) (budget : Nat) : Nat :=
  ⌊(budget : Rat) * policy.targetRatio⌋.toNat

structure SummaryRequest where
  existing : Option ContextSummary
  messages : List AgentMessage

/-- The segments of the prepared context, its compaction update, and what the summarizer was asked
for it. -/
structure PreparedContext where
  segments : List Segment
  update : Option CompactionUpdate
  summarized : Option SummaryRequest

/-- The checks of the constructor of ModelContext on its segments. -/
def constructible (segments : List Segment) : Bool :=
  ((segments.dropWhile fun segment => segment matches .world _).all
    fun segment => !segment matches .world _) &&
  (validateSegmentExchanges segments).isOk

section
variable (digest : List AgentMessage → String) (m : CompactingContextManager)

def compactContext (request : ContextRequest) (world : List Segment)
    (current : Option ContextSummary) (target stop : Nat) :
    Except ContextError PreparedContext := do
  let oldEnd := current.elim 0 ContextSummary.sourceEndExclusive
  let messages := (request.transcript.take stop).drop oldEnd
  m.checkSummarizerInput current messages
  let result ← m.summarize current messages
  if result.summarizerId = some "" then .error .invalid
  else
    let summary : ContextSummary := {
      sourceStart := .int 0
      sourceEndExclusive := stop
      sourceDigest := digest (request.transcript.take stop)
      text := result.text
      summaryFormatVersion := m.summaryFormatVersion
      summarizerId := result.summarizerId }
    let projected := world ++ projectSegments request.transcript (some summary)
    let size ← m.estimate projected
    if target < size then .error (.budget "context_budget_exceeded" "summary_and_minimum_tail")
    else .ok {
      segments := projected
      update := some ⟨some summary, request.currentCompaction.map ContextSummary.sourceDigest⟩
      summarized := some ⟨current, messages⟩ }

def shrinkContext (request : ContextRequest) (groups : List (List AgentMessage))
    (world : List Segment) (current : Option ContextSummary) (budget : Nat) :
    Except ContextError PreparedContext := do
  if budget < (← m.estimate world) then
    .error (.budget "context_budget_exceeded" "static_overhead")
  else
    let tailStart := minimumTailStart groups m.minRecentTurns
    if tailStart = 0 then .error (.budget "context_budget_exceeded" "minimum_retained_tail")
    else
      for group in groups.drop tailStart do
        if budget < (← m.estimate (world ++ group.map .message)) then
          throw (.budget "context_budget_exceeded" "atomic_group_too_large")
      let oldEnd := current.elim 0 ContextSummary.sourceEndExclusive
      let last := ((groups.take tailStart).map List.length).sum
      let candidates := (groupBoundaries groups).filter fun boundary =>
        decide (oldEnd < boundary ∧ boundary ≤ last)
      let target := max 1 (m.target budget)
      let placeholder := current.elim "Earlier conversation summary." ContextSummary.text
      let fits (boundary : Nat) : Except ContextError Bool := do
        let size ← m.estimate (world ++
          .summary placeholder :: (request.transcript.drop boundary).map .message)
        .ok (size ≤ target)
      match ← firstFitting fits candidates with
      | none => .error (.budget "context_budget_exceeded" "summary_and_minimum_tail")
      | some stop => compactContext digest m request world current target stop

def prepareContext (request : ContextRequest) : Except ContextError PreparedContext := do
  let groups ← messageGroups request.transcript
  let boundaries := groupBoundaries groups
  let current := request.currentCompaction.filter fun old =>
    m.validSummary digest old request.transcript boundaries
  let clear := if current.isSome then none
    else request.currentCompaction.map fun old =>
      (⟨none, some old.sourceDigest⟩ : CompactionUpdate)
  let budget ← inputBudget m.budget request.contextWindow request.maxOutputTokens
    m.providerDefaultReserve
  let context (entries : List WorldEntry) : List Segment :=
    worldSegment request entries ++ projectSegments request.transcript current
  let entries ← trimWorld (fun entries => (m.estimate (context entries)).map fun size =>
    size ≤ budget) (request.world.getD [])
  let size ← m.estimate (context entries)
  if size ≤ budget then .ok ⟨context entries, clear, none⟩
  else shrinkContext digest m request groups (worldSegment request entries) current budget

end

variable {digest : List AgentMessage → String} {m : CompactingContextManager}
variable {request : ContextRequest}

theorem map_bind {ε α β γ : Type} {f : β → γ} (x : Except ε α) (next : α → Except ε β) :
    (x >>= next).map f = x >>= fun a => (next a).map f := by
  cases x <;> rfl

theorem compactContext_update {world : List Segment} {current : Option ContextSummary}
    {target stop : Nat} :
    (compactContext digest m request world current target stop).map PreparedContext.update =
      (m.compact digest request world current target stop).map some := by
  simp only [compactContext, compact, map_bind]
  refine bind_congr fun _ => bind_congr fun result => ?_
  split_ifs
  · rfl
  · simp only [map_bind]
    refine bind_congr fun size => ?_
    split_ifs <;> rfl

theorem shrinkContext_update {groups : List (List AgentMessage)} {world : List Segment}
    {current : Option ContextSummary} {budget : Nat} :
    (shrinkContext digest m request groups world current budget).map PreparedContext.update =
      (m.shrink digest request groups world current budget).map some := by
  simp only [shrinkContext, shrink, map_bind]
  refine bind_congr fun size => ?_
  split_ifs
  · rfl
  · rfl
  · simp only [map_bind]
    refine bind_congr fun _ => bind_congr fun found => ?_
    cases found with
    | none => rfl
    | some stop => exact compactContext_update

/-- The update of the prepared context is the one a Run commits. -/
theorem prepareContext_update :
    (prepareContext digest m request).map PreparedContext.update = m.prepare digest request := by
  simp only [prepareContext, CompactingContextManager.prepare, map_bind]
  refine bind_congr fun groups => bind_congr fun budget => bind_congr fun entries =>
    bind_congr fun size => ?_
  by_cases fits : size ≤ budget
  · rw [if_pos fits, if_pos fits]
    rfl
  · rw [if_neg fits, if_neg fits, shrinkContext_update]
    cases m.shrink digest request groups (worldSegment request entries) _ budget <;> rfl

/-- A summary of the messages before a boundary was made, and the context with it fits. -/
structure Compacts (digest : List AgentMessage → String) (m : CompactingContextManager)
    (request : ContextRequest) (world : List Segment) (current : Option ContextSummary)
    (target : Nat) (prepared : PreparedContext) (summary : ContextSummary) : Prop where
  digested : summary.sourceDigest = digest (request.transcript.take summary.sourceEndExclusive)
  version : summary.summaryFormatVersion = m.summaryFormatVersion
  segments : prepared.segments = world ++ projectSegments request.transcript (some summary)
  update : prepared.update =
    some ⟨some summary, request.currentCompaction.map ContextSummary.sourceDigest⟩
  summarized : prepared.summarized = some ⟨current,
    (request.transcript.take summary.sourceEndExclusive).drop
      (current.elim 0 ContextSummary.sourceEndExclusive)⟩
  fits : ∃ size, m.estimate prepared.segments = .ok size ∧ size ≤ target

theorem compactContext_spec {world : List Segment} {current : Option ContextSummary}
    {target stop : Nat} {prepared : PreparedContext}
    (h : compactContext digest m request world current target stop = .ok prepared) :
    ∃ summary, summary.sourceEndExclusive = stop ∧
      Compacts digest m request world current target prepared summary := by
  rw [compactContext] at h
  obtain ⟨-, -, h⟩ := bind_eq_ok h
  obtain ⟨result, -, h⟩ := bind_eq_ok h
  split_ifs at h
  obtain ⟨size, estimated, h⟩ := bind_eq_ok h
  split_ifs at h with large
  cases h
  exact ⟨_, rfl, rfl, rfl, rfl, rfl, rfl, size, estimated, Nat.le_of_not_lt large⟩

/-- What a preparation past the first estimate ends in. -/
theorem shrinkContext_spec {groups : List (List AgentMessage)} {world : List Segment}
    {current : Option ContextSummary} {budget : Nat} {prepared : PreparedContext}
    (h : shrinkContext digest m request groups world current budget = .ok prepared) :
    minimumTailStart groups m.minRecentTurns ≠ 0 ∧
    ∃ summary, summary.sourceEndExclusive ∈ groupBoundaries groups ∧
      current.elim 0 ContextSummary.sourceEndExclusive < summary.sourceEndExclusive ∧
      summary.sourceEndExclusive ≤
        ((groups.take (minimumTailStart groups m.minRecentTurns)).map List.length).sum ∧
      Compacts digest m request world current (max 1 (m.target budget)) prepared summary := by
  rw [shrinkContext] at h
  obtain ⟨static, -, h⟩ := bind_eq_ok h
  split_ifs at h with exceeds
  dsimp only at h
  split_ifs at h with retained
  obtain ⟨-, -, h⟩ := bind_eq_ok h
  obtain ⟨found, first, h⟩ := bind_eq_ok h
  cases found with
  | none => cases h
  | some stop =>
    obtain ⟨boundary, within⟩ := List.mem_filter.mp (firstFitting_mem first)
    obtain ⟨later, before⟩ := of_decide_eq_true within
    obtain ⟨summary, rfl, compacts⟩ := compactContext_spec h
    exact ⟨retained, summary, boundary, later, before, compacts⟩

theorem firstFitting_raises {P : ContextError → Prop} {fits : Nat → Except ContextError Bool}
    {candidates : List Nat} (h : ∀ n ∈ candidates, Raises P (fits n)) :
    Raises P (firstFitting fits candidates) := by
  induction candidates with
  | nil => exact raises_ok none
  | cons n candidates ih =>
    obtain ⟨first, later⟩ := List.forall_mem_cons.mp h
    rw [firstFitting]
    refine raises_bind first fun fit _ => ?_
    split_ifs
    · exact raises_ok _
    · exact ih later

/-- What the summarizer and the check of its input raise, and the ValueError for a summarizer with
an empty name. -/
structure SummarizerRaises (m : CompactingContextManager) (P : ContextError → Prop) : Prop where
  check : ∀ existing messages, Raises P (m.checkSummarizerInput existing messages)
  summarize : ∀ existing messages, Raises P (m.summarize existing messages)
  nameless : ∀ existing messages result, m.summarize existing messages = .ok result →
    result.summarizerId = some "" → P .invalid

/-- The errors past the first estimate: budget errors, and those of an estimate or the
summarizer. -/
theorem shrinkContext_raises {P : ContextError → Prop} {groups : List (List AgentMessage)}
    {world : List Segment} {current : Option ContextSummary} {budget : Nat}
    (budgets : ∀ code reason, P (.budget code reason)) (summarizer : SummarizerRaises m P)
    (static : Raises P (m.estimate world))
    (group : ∀ group ∈ groups, Raises P (m.estimate (world ++ group.map .message)))
    (cut : ∀ stop ∈ groupBoundaries groups, ∀ text, Raises P (m.estimate
      (world ++ .summary text :: (request.transcript.drop stop).map .message))) :
    Raises P (shrinkContext digest m request groups world current budget) := by
  rw [shrinkContext]
  refine raises_bind static fun size _ => ?_
  split_ifs
  · exact raises_error (budgets _ _)
  dsimp only
  split_ifs
  · exact raises_error (budgets _ _)
  refine raises_bind (raises_forIn _ fun g mem _ => ?_) fun _ _ => ?_
  · refine raises_bind (group g (List.mem_of_mem_drop mem)) fun size _ => ?_
    split_ifs
    · exact raises_error (budgets _ _)
    · exact raises_ok _
  refine raises_bind (firstFitting_raises fun stop mem => ?_) fun found first => ?_
  · exact raises_bind (cut stop (List.mem_of_mem_filter mem) _) fun _ _ => raises_ok _
  cases found with
  | none => exact raises_error (budgets _ _)
  | some stop =>
    have boundary := List.mem_of_mem_filter (firstFitting_mem first)
    dsimp only
    rw [compactContext]
    refine raises_bind (summarizer.check _ _) fun _ _ => ?_
    refine raises_bind (summarizer.summarize _ _) fun result summarized => ?_
    split_ifs with nameless
    · exact raises_error (summarizer.nameless _ _ result summarized nameless)
    refine raises_bind (cut stop boundary result.text) fun size _ => ?_
    split_ifs
    · exact raises_error (budgets _ _)
    · exact raises_ok _

def isUser : AgentMessage → Bool
  | .user _ => true
  | .assistant _ | .toolResult _ => false

/-- The scan back counts the groups that a user message opens. -/
theorem scanBack_spec {turns seen : Nat} (groups : List (List AgentMessage))
    (h : scanBack turns seen groups.zipIdx.reverse ≠ 0) :
    turns = seen + (groups.drop (scanBack turns seen groups.zipIdx.reverse)).countP
      startsWithUser ∧ scanBack turns seen groups.zipIdx.reverse < groups.length := by
  induction groups using List.reverseRecOn generalizing seen with
  | nil => exact absurd rfl h
  | append_singleton groups group ih =>
    have last : (groups ++ [group]).zipIdx.reverse =
        (group, groups.length) :: groups.zipIdx.reverse := by
      rw [List.zipIdx_append, List.reverse_append]
      simp
    rw [last, scanBack] at h ⊢
    rw [List.length_append, List.length_singleton]
    by_cases user : startsWithUser group = true
    · rw [if_pos user] at h ⊢
      by_cases enough : seen + 1 = turns
      · rw [if_pos enough, List.drop_left, List.countP_singleton, if_pos user]
        exact ⟨enough.symm, Nat.lt_succ_self _⟩
      · rw [if_neg enough] at h ⊢
        obtain ⟨count, within⟩ := ih h
        rw [List.drop_append_of_le_length within.le, List.countP_append, List.countP_singleton,
          if_pos user]
        omega
    · rw [if_neg user] at h ⊢
      obtain ⟨count, within⟩ := ih h
      rw [List.drop_append_of_le_length within.le, List.countP_append, List.countP_singleton,
        if_neg user]
      omega

theorem countP_startsWithUser_le (groups : List (List AgentMessage)) :
    groups.countP startsWithUser ≤ groups.flatten.countP isUser := by
  induction groups with
  | nil => exact Nat.le_refl _
  | cons group groups ih =>
    rw [List.countP_cons, List.flatten_cons, List.countP_append, Nat.add_comm]
    refine Nat.add_le_add ?_ ih
    match group with
    | [] | .assistant _ :: _ | .toolResult _ :: _ => exact Nat.zero_le _
    | .user _ :: rest =>
      rw [List.countP_cons]
      exact Nat.le_add_left ..

/-- The last user turns lie after a cut before the minimum tail. -/
theorem turns_le_countP {groups : List (List AgentMessage)} {turns stop : Nat}
    (retained : minimumTailStart groups turns ≠ 0)
    (before : stop ≤ ((groups.take (minimumTailStart groups turns)).map List.length).sum) :
    turns ≤ (groups.flatten.drop stop).countP isUser := by
  obtain ⟨count, -⟩ := scanBack_spec groups retained
  rw [← List.length_flatten] at before
  have split : groups.flatten = (groups.take (minimumTailStart groups turns)).flatten ++
      (groups.drop (minimumTailStart groups turns)).flatten := by
    rw [← List.flatten_append, List.take_append_drop]
  rw [split, List.drop_append_of_le_length before, List.countP_append]
  have tail := countP_startsWithUser_le (groups.drop (minimumTailStart groups turns))
  rw [minimumTailStart] at tail ⊢
  omega

theorem removeLast_sublist {entries shorter : List WorldEntry}
    (h : removeLast entries = some shorter) : shorter.Sublist entries := by
  induction entries generalizing shorter with
  | nil => cases h
  | cons entry rest ih =>
    rw [removeLast] at h
    split at h
    · rename_i removed
      cases h
      exact (ih removed).cons_cons _
    · split_ifs at h
      cases h
      exact List.sublist_cons_self ..

theorem trimWorld_eq (fits : List WorldEntry → Except ContextError Bool)
    (entries : List WorldEntry) : trimWorld fits entries = (do
      if ← fits entries then .ok entries
      else (removeLast entries).elim (.ok entries) (trimWorld fits)) := by
  rw [trimWorld]
  refine bind_congr fun fit => ?_
  split_ifs
  · rfl
  · split <;> rename_i removed <;> rw [removed] <;> rfl

theorem trimWorld_sublist {fits : List WorldEntry → Except ContextError Bool}
    {entries kept : List WorldEntry} (h : trimWorld fits entries = .ok kept) :
    kept.Sublist entries := by
  induction entries using trimWorld.induct with
  | case1 entries ih =>
    rw [trimWorld_eq] at h
    obtain ⟨fit, -, h⟩ := bind_eq_ok h
    split_ifs at h
    · cases h
      exact List.Sublist.refl _
    · cases removed : removeLast entries with
      | none =>
        rw [removed] at h
        cases h
        exact List.Sublist.refl _
      | some shorter =>
        rw [removed] at h
        exact (ih shorter removed h).trans (removeLast_sublist removed)

/-- Trimming again from the start, with a test that the first result passes, ends at or before that
result. -/
theorem trimWorld_again {fits fits' : List WorldEntry → Except ContextError Bool}
    {entries kept : List WorldEntry} (h : trimWorld fits entries = .ok kept)
    (answers : ∀ entries, ∃ fit, fits' entries = .ok fit) (passes : fits' kept = .ok true) :
    ∃ kept', trimWorld fits' entries = .ok kept' ∧ fits' kept' = .ok true ∧
      kept.Sublist kept' := by
  induction entries using trimWorld.induct with
  | case1 entries ih =>
    have grows := trimWorld_sublist h
    obtain ⟨fit', tested'⟩ := answers entries
    rw [trimWorld_eq, tested', ok_bind]
    cases fit' with
    | true => exact ⟨entries, rfl, tested', grows⟩
    | false =>
      rw [trimWorld_eq] at h
      obtain ⟨fit, -, h⟩ := bind_eq_ok h
      have stays : kept ≠ entries := by
        rintro rfl
        cases tested'.symm.trans passes
      split_ifs at h
      · exact absurd (Except.ok.inj h).symm stays
      · cases removed : removeLast entries with
        | none =>
          rw [removed] at h
          exact absurd (Except.ok.inj h).symm stays
        | some shorter =>
          rw [removed] at h
          exact ih shorter removed h

theorem validSummary_iff {summary : ContextSummary} {transcript : List AgentMessage}
    {boundaries : List Nat} :
    m.validSummary digest summary transcript boundaries = true ↔
      summary.summaryFormatVersion = m.summaryFormatVersion ∧
      summary.sourceEndExclusive ∈ boundaries ∧
      summary.sourceEndExclusive ≤ transcript.length ∧
      summary.sourceDigest = digest (transcript.take summary.sourceEndExclusive) := by
  simp only [validSummary, Bool.and_eq_true, beq_iff_eq, List.contains_iff_mem, decide_eq_true_eq,
    and_assoc]

/-- The current record, if it still stands for a prefix of the transcript. -/
def stillValid (digest : List AgentMessage → String) (m : CompactingContextManager)
    (request : ContextRequest) (groups : List (List AgentMessage)) : Option ContextSummary :=
  request.currentCompaction.filter fun old =>
    m.validSummary digest old request.transcript (groupBoundaries groups)

/-- The segments a preparation first looks at, with some of the world entries. -/
def projected (request : ContextRequest) (current : Option ContextSummary)
    (entries : List WorldEntry) : List Segment :=
  worldSegment request entries ++ projectSegments request.transcript current

def withinBudget (m : CompactingContextManager) (request : ContextRequest)
    (current : Option ContextSummary) (budget : Nat) (entries : List WorldEntry) :
    Except ContextError Bool :=
  (m.estimate (projected request current entries)).map fun size => size ≤ budget

/-- How a preparation that succeeds went: the context fits with the record there is, or a summary
was made. -/
inductive Preparation (digest : List AgentMessage → String) (m : CompactingContextManager)
    (request : ContextRequest) (groups : List (List AgentMessage)) (budget : Nat)
    (entries : List WorldEntry) : PreparedContext → Prop
  | fits {size : Nat}
    (estimated : m.estimate (projected request (stillValid digest m request groups) entries) =
      .ok size) (within : size ≤ budget) :
    Preparation digest m request groups budget entries {
      segments := projected request (stillValid digest m request groups) entries
      update := if (stillValid digest m request groups).isSome then none
        else request.currentCompaction.map fun old => ⟨none, some old.sourceDigest⟩
      summarized := none }
  | shrunk {prepared : PreparedContext}
    (made : shrinkContext digest m request groups (worldSegment request entries)
      (stillValid digest m request groups) budget = .ok prepared) :
    Preparation digest m request groups budget entries prepared

theorem prepareContext_spec {prepared : PreparedContext}
    (h : prepareContext digest m request = .ok prepared) :
    ∃ groups budget entries, messageGroups request.transcript = .ok groups ∧
      inputBudget m.budget request.contextWindow request.maxOutputTokens m.providerDefaultReserve =
        .ok budget ∧
      trimWorld (withinBudget m request (stillValid digest m request groups) budget)
        (request.world.getD []) = .ok entries ∧
      Preparation digest m request groups budget entries prepared := by
  rw [prepareContext] at h
  obtain ⟨groups, grouped, h⟩ := bind_eq_ok h
  dsimp only at h
  obtain ⟨budget, bounded, h⟩ := bind_eq_ok h
  obtain ⟨entries, trimmed, h⟩ := bind_eq_ok h
  obtain ⟨size, estimated, h⟩ := bind_eq_ok h
  refine ⟨groups, budget, entries, grouped, bounded, trimmed, ?_⟩
  by_cases within : size ≤ budget
  · rw [if_pos within] at h
    cases h
    exact .fits estimated within
  · rw [if_neg within] at h
    exact .shrunk h

theorem inputBudget_pos {limits : ContextBudget} {window output : Option Nat} {reserve budget : Nat}
    (h : inputBudget limits window output reserve = .ok budget) : 0 < budget := by
  rw [inputBudget] at h
  split at h
  · cases h
  · dsimp only at h
    split_ifs at h with exhausted
    cases h
    omega

theorem CompactionPolicy.target_le (policy : CompactionPolicy) {budget : Nat}
    (positive : 0 < budget) : max 1 (policy.target budget) ≤ budget := by
  refine max_le positive ?_
  have share : (budget : Rat) * policy.targetRatio ≤ budget :=
    mul_le_of_le_one_right (Nat.cast_nonneg _) policy.ratioInRange.2
  have floors := Int.floor_mono share
  rw [Int.floor_natCast] at floors
  rw [CompactionPolicy.target]
  omega

/-- The manager was given this policy. -/
structure Follows (m : CompactingContextManager) (policy : CompactionPolicy) : Prop where
  turns : m.minRecentTurns = policy.minRecentTurns
  target : m.target = policy.target

def endOf (summary : Option ContextSummary) : Nat := summary.elim 0 ContextSummary.sourceEndExclusive

/-- The segments are the world data, the summary in force, and every message it does not stand
for. -/
structure Covers (digest : List AgentMessage → String) (request : ContextRequest)
    (groups : List (List AgentMessage)) (entries : List WorldEntry)
    (inForce : Option ContextSummary) (prepared : PreparedContext) : Prop where
  world : entries.Sublist (request.world.getD [])
  boundary : endOf inForce ∈ groupBoundaries groups
  digested : ∀ summary, inForce = some summary →
    summary.sourceDigest = digest (request.transcript.take summary.sourceEndExclusive)
  segments : prepared.segments = worldSegment request entries ++
    (inForce.map fun summary => Segment.summary summary.text).toList ++
    (request.transcript.drop (endOf inForce)).map .message

/-- The summary was made for this request: it leaves the last turns, and the summarizer had the valid
record before it and the messages in between. -/
structure MadeFor (digest : List AgentMessage → String) (m : CompactingContextManager)
    (request : ContextRequest) (groups : List (List AgentMessage)) (prepared : PreparedContext)
    (summary : ContextSummary) : Prop where
  recent : m.minRecentTurns ≤ (request.transcript.drop summary.sourceEndExclusive).countP isUser
  later : endOf (stillValid digest m request groups) < summary.sourceEndExclusive
  summarized : prepared.summarized = some ⟨stillValid digest m request groups,
    (request.transcript.take summary.sourceEndExclusive).drop
      (endOf (stillValid digest m request groups))⟩
  update : prepared.update =
    some ⟨some summary, request.currentCompaction.map ContextSummary.sourceDigest⟩

theorem zero_mem_boundaries (groups : List (List AgentMessage)) : 0 ∈ groupBoundaries groups :=
  length_mem_boundaries [] groups

theorem projectSegments_eq (transcript : List AgentMessage) (summary : Option ContextSummary) :
    projectSegments transcript summary =
      (summary.map fun summary => Segment.summary summary.text).toList ++
        (transcript.drop (endOf summary)).map .message := by
  cases summary <;> rfl

theorem stillValid_spec {groups : List (List AgentMessage)} {summary : ContextSummary}
    (h : stillValid digest m request groups = some summary) :
    request.currentCompaction = some summary ∧
      m.validSummary digest summary request.transcript (groupBoundaries groups) = true :=
  Option.filter_eq_some_iff.mp h

theorem stillValid_boundary (digest : List AgentMessage → String) (m : CompactingContextManager)
    (request : ContextRequest) (groups : List (List AgentMessage)) :
    endOf (stillValid digest m request groups) ∈ groupBoundaries groups := by
  cases current : stillValid digest m request groups with
  | none => exact zero_mem_boundaries groups
  | some summary => exact (validSummary_iff.mp (stillValid_spec current).2).2.1

theorem covers_stillValid {groups : List (List AgentMessage)} {entries : List WorldEntry}
    {prepared : PreparedContext} (world : entries.Sublist (request.world.getD []))
    (segments : prepared.segments =
      projected request (stillValid digest m request groups) entries) :
    Covers digest request groups entries (stillValid digest m request groups) prepared where
  world := world
  boundary := stillValid_boundary digest m request groups
  digested summary current := (validSummary_iff.mp (stillValid_spec current).2).2.2.2
  segments := by rw [segments, projected, projectSegments_eq, List.append_assoc]

/-- The policy that asks for the whole budget. -/
def wholePolicy : CompactionPolicy := ⟨1, 1, by norm_num, Nat.le_refl 1⟩

theorem narrowManager_follows : Follows SessionRestore.narrowManager wholePolicy where
  turns := rfl
  target := by
    funext budget
    simp [SessionRestore.narrowManager, CompactionPolicy.target, wholePolicy]

/-- Two turns, where the manager has room for a summary and the second. -/
def twoTurns : ContextRequest where
  transcript := [.user greeting, .assistant SessionRestore.replied, .user greeting]
  currentCompaction := none
  contextWindow := none
  maxOutputTokens := none
  world := none

theorem twoTurns_prepared :
    (prepareContext SessionRestore.countDigest SessionRestore.narrowManager twoTurns).toOption.any
      (fun prepared => prepared.segments.length == 2 && prepared.update.any fun update =>
        update.summary.isSome && update.expectedSummaryDigest.isNone) = true := by
  decide +kernel

theorem exists_twoTurns :
    ∃ prepared update summary, prepareContext SessionRestore.countDigest
        SessionRestore.narrowManager twoTurns = .ok prepared ∧
      prepared.segments.length = 2 ∧ prepared.update = some update ∧
      update.summary = some summary ∧ update.expectedSummaryDigest = none := by
  have made := twoTurns_prepared
  cases result : prepareContext SessionRestore.countDigest SessionRestore.narrowManager twoTurns with
  | error error =>
    rw [result] at made
    cases made
  | ok prepared =>
    rw [result] at made
    obtain ⟨two, updates⟩ := Bool.and_eq_true_iff.mp made
    obtain ⟨update, present, fine⟩ := (Option.any_eq_true ..).mp updates
    obtain ⟨summarized, fresh⟩ := Bool.and_eq_true_iff.mp fine
    obtain ⟨summary, made⟩ := Option.isSome_iff_exists.mp summarized
    exact ⟨prepared, update, summary, rfl, beq_iff_eq.mp two, present, made,
      Option.isNone_iff_eq_none.mp fresh⟩

/-- The estimator answers for every context that can be constructed. -/
def Answers (m : CompactingContextManager) : Prop :=
  ∀ segments, constructible segments = true → ∃ size, m.estimate segments = .ok size

theorem worldSegment_cases (request : ContextRequest) (entries : List WorldEntry) :
    worldSegment request entries = [] ∨ worldSegment request entries = [.world entries] := by
  rw [worldSegment]
  cases request.world with
  | none => exact .inl rfl
  | some _ => exact .inr rfl

/-- A context of world data, a summary and the messages after a boundary can be constructed. -/
theorem constructible_summarized {summary : ContextSummary} {entries : List WorldEntry}
    (grammar : Grammar (request.transcript.drop summary.sourceEndExclusive)) :
    constructible (projected request (some summary) entries) = true := by
  have transcript : ∀ segment ∈ projectSegments request.transcript (some summary),
      (!segment matches Segment.world _) = true := by
    intro segment mem
    obtain rfl | mem := List.mem_cons.mp mem
    · rfl
    · obtain ⟨message, -, rfl⟩ := List.mem_map.mp mem
      rfl
  have exchanges : validateSegmentExchanges (projectSegments request.transcript (some summary)) =
      .ok () := by
    rw [projectSegments, validateSegmentExchanges]
    exact (validateSegmentExchanges_iff _).mpr grammar
  rw [constructible, projected, Bool.and_eq_true]
  obtain absent | present := worldSegment_cases request entries
  · rw [absent, List.nil_append, exchanges]
    exact ⟨List.all_eq_true.mpr fun segment mem =>
      transcript segment ((List.dropWhile_sublist _).subset mem), rfl⟩
  · rw [present, List.singleton_append, validateSegmentExchanges, exchanges, List.dropWhile_cons,
      if_pos rfl]
    exact ⟨List.all_eq_true.mpr fun segment mem =>
      transcript segment ((List.dropWhile_sublist _).subset mem), rfl⟩

variable {groups : List (List AgentMessage)} {budget : Nat} {entries : List WorldEntry}

/-- A preparation whose context fits with the record there is. -/
theorem prepareContext_fits {size : Nat} (grouped : messageGroups request.transcript = .ok groups)
    (bounded : inputBudget m.budget request.contextWindow request.maxOutputTokens
      m.providerDefaultReserve = .ok budget)
    (trimmed : trimWorld (withinBudget m request (stillValid digest m request groups) budget)
      (request.world.getD []) = .ok entries)
    (estimated : m.estimate (projected request (stillValid digest m request groups) entries) =
      .ok size) (within : size ≤ budget) :
    prepareContext digest m request = .ok {
      segments := projected request (stillValid digest m request groups) entries
      update := if (stillValid digest m request groups).isSome then none
        else request.currentCompaction.map fun old => ⟨none, some old.sourceDigest⟩
      summarized := none } := by
  rw [prepareContext, grouped, ok_bind]
  dsimp only
  rw [bounded, ok_bind]
  change (trimWorld (withinBudget m request (stillValid digest m request groups) budget)
    (request.world.getD []) >>= _) = _
  rw [trimmed, ok_bind]
  change (m.estimate (projected request (stillValid digest m request groups) entries) >>= _) = _
  rw [estimated, ok_bind, if_pos within]
  rfl

theorem withinBudget_eq_true {current : Option ContextSummary} :
    withinBudget m request current budget entries = .ok true ↔
      ∃ size, m.estimate (projected request current entries) = .ok size ∧ size ≤ budget := by
  rw [withinBudget]
  constructor
  · intro h
    obtain ⟨size, estimated, within⟩ := map_eq_ok h
    exact ⟨size, estimated, of_decide_eq_true within⟩
  · rintro ⟨size, estimated, within⟩
    rw [estimated, FalliblePrograms.map_ok, decide_eq_true within]

/-- The second preparation has the same summary and messages, and no less of the world data. -/
def Keeps (request : ContextRequest) (first again : PreparedContext) : Prop :=
  ∃ before after rest, before.Sublist after ∧ (∀ entries, Segment.world entries ∉ rest) ∧
    first.segments = worldSegment request before ++ rest ∧
    again.segments = worldSegment request after ++ rest

theorem world_not_mem (transcript : List AgentMessage) (summary : Option ContextSummary)
    (entries : List WorldEntry) : Segment.world entries ∉ projectSegments transcript summary := by
  rw [projectSegments_eq]
  intro mem
  obtain mem | mem := List.mem_append.mp mem
  · obtain ⟨_, -, absurd⟩ := Option.map_eq_some_iff.mp (Option.mem_toList.mp mem)
    cases absurd
  · obtain ⟨_, -, absurd⟩ := List.mem_map.mp mem
    cases absurd

/-- With the summary it made as the record, a manager has nothing more to do. -/
theorem stable_of_compacts {summary : ContextSummary} {prepared : PreparedContext} {target : Nat}
    (answers : Answers m) (bound : target ≤ budget)
    (grouped : messageGroups request.transcript = .ok groups)
    (bounded : inputBudget m.budget request.contextWindow request.maxOutputTokens
      m.providerDefaultReserve = .ok budget)
    (trimmed : trimWorld (withinBudget m request (stillValid digest m request groups) budget)
      (request.world.getD []) = .ok entries)
    (boundary : summary.sourceEndExclusive ∈ groupBoundaries groups)
    (compacts : Compacts digest m request (worldSegment request entries)
      (stillValid digest m request groups) target prepared summary) :
    ∃ again, prepareContext digest m { request with currentCompaction := some summary } =
        .ok again ∧
      again.summarized = none ∧ again.update = none ∧ Keeps request prepared again := by
  let later : ContextRequest := { request with currentCompaction := some summary }
  have valid : stillValid digest m later groups = some summary := by
    refine Option.filter_eq_some_iff.mpr ⟨rfl, validSummary_iff.mpr ?_⟩
    exact ⟨compacts.version, boundary, (grammar_take_boundary grouped boundary).1,
      compacts.digested⟩
  have total (entries : List WorldEntry) :
      ∃ fit, withinBudget m later (some summary) budget entries = .ok fit := by
    obtain ⟨size, estimated⟩ := answers (projected later (some summary) entries)
      (constructible_summarized (grammar_drop_boundary grouped boundary))
    exact ⟨_, by rw [withinBudget, estimated, FalliblePrograms.map_ok]⟩
  have passes : withinBudget m later (some summary) budget entries = .ok true := by
    obtain ⟨size, estimated, small⟩ := compacts.fits
    rw [compacts.segments] at estimated
    exact withinBudget_eq_true.mpr ⟨size, estimated, small.trans bound⟩
  obtain ⟨entries', trimmed', fits, grows⟩ := trimWorld_again trimmed total passes
  obtain ⟨size, estimated, within⟩ := withinBudget_eq_true.mp fits
  rw [← valid] at trimmed' estimated
  have again : prepareContext digest m later = _ :=
    prepareContext_fits grouped bounded trimmed' estimated within
  rw [valid, Option.isSome_some, if_pos rfl] at again
  exact ⟨_, again, rfl, rfl, entries, entries', _, grows, world_not_mem _ (some summary),
    compacts.segments, rfl⟩

/-- A record that is no longer valid counts for nothing, and so does none. -/
theorem stable_of_cleared {prepared : PreparedContext} {update : CompactionUpdate}
    (h : prepareContext digest m request = .ok prepared) (updates : prepared.update = some update)
    (cleared : update.summary = none) :
    ∃ again, prepareContext digest m { request with currentCompaction := none } = .ok again ∧
      again.summarized = none ∧ again.update = none ∧ Keeps request prepared again := by
  obtain ⟨groups, budget, entries, grouped, bounded, trimmed, preparation⟩ := prepareContext_spec h
  cases preparation with
  | @fits size estimated within =>
    dsimp only at updates
    have invalid : stillValid digest m request groups = none := by
      by_contra valid
      rw [if_pos (Option.isSome_iff_ne_none.mpr valid)] at updates
      cases updates
    rw [invalid] at trimmed estimated
    let later : ContextRequest := { request with currentCompaction := none }
    have again : prepareContext digest m later = _ :=
      prepareContext_fits grouped bounded trimmed estimated within
    refine ⟨_, again, rfl, rfl, entries, entries, projectSegments request.transcript none,
      List.Sublist.refl _, world_not_mem _ none, ?_, rfl⟩
    change projected request (stillValid digest m request groups) entries = _
    rw [invalid]
    rfl
  | shrunk made =>
    obtain ⟨-, summary, -, -, -, compacts⟩ := shrinkContext_spec made
    cases compacts.update.symm.trans updates
    cases cleared

end RoboAgent.ContextPreparation
