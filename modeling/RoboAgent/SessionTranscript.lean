import Mathlib
import RoboAgent.SessionSteps

/-! The shape of a transcript and of the queue beside it. The validator accepts the transcripts made
of user messages, of replies without calls, and of complete tool exchanges; every critical section
of a Session keeps its transcript one of them. -/

namespace RoboAgent.SessionTranscript
open RoboAgent.Messages RoboAgent.FrozenJson RoboAgent.SessionState RoboAgent.SessionWorld
open RoboAgent.SessionWorld.World RoboAgent.SessionSteps RoboAgent.Runs

def Answers (call : ToolCall) (result : ToolResultMessage) : Prop :=
  result.toolCallId = call.id ∧ result.toolName = call.name

/-- The complete tool-exchange grammar: an assistant message is followed by one result for each of
its calls, in call order, and results stand nowhere else. -/
inductive Grammar : List AgentMessage → Prop
  | nil : Grammar []
  | user {message : UserMessage} {rest : List AgentMessage} (tail : Grammar rest) :
    Grammar (.user message :: rest)
  | exchange {message : AssistantMessage} {results : List ToolResultMessage}
    {rest : List AgentMessage} (answers : List.Forall₂ Answers message.toolCalls results)
    (tail : Grammar rest) : Grammar (.assistant message :: results.map .toolResult ++ rest)

/-- What is left of a transcript inside an exchange: the results of the open calls, then the rest. -/
def Closes (calls : List ToolCall) (messages : List AgentMessage) : Prop :=
  ∃ results rest, messages = results.map .toolResult ++ rest ∧
    List.Forall₂ Answers calls results ∧ Grammar rest

theorem closes_nil {messages : List AgentMessage} : Closes [] messages ↔ Grammar messages := by
  constructor
  · rintro ⟨results, rest, rfl, answers, tail⟩
    cases answers
    exact tail
  · intro grammar
    exact ⟨[], messages, rfl, .nil, grammar⟩

theorem closes_cons {call : ToolCall} {calls : List ToolCall} {messages : List AgentMessage} :
    Closes (call :: calls) messages ↔
      ∃ result rest, messages = .toolResult result :: rest ∧ Answers call result ∧
        Closes calls rest := by
  constructor
  · rintro ⟨results, rest, rfl, answers, tail⟩
    cases answers with
    | cons first later => exact ⟨_, _, rfl, first, _, rest, rfl, later, tail⟩
  · rintro ⟨result, rest, rfl, first, results, after, rfl, later, tail⟩
    exact ⟨result :: results, after, rfl, .cons first later, tail⟩

theorem grammar_assistant {message : AssistantMessage} {rest : List AgentMessage} :
    Grammar (.assistant message :: rest) ↔ Closes message.toolCalls rest := by
  constructor
  · intro grammar
    cases grammar with
    | exchange answers tail => exact ⟨_, _, rfl, answers, tail⟩
  · rintro ⟨results, after, rfl, answers, tail⟩
    exact .exchange answers tail

theorem validateExchanges_iff (messages : List AgentMessage) :
    ∀ calls, validateExchanges calls messages = true ↔ Closes calls messages := by
  induction messages with
  | nil =>
    intro calls
    cases calls with
    | nil => exact iff_of_true rfl (closes_nil.mpr .nil)
    | cons call calls =>
      refine iff_of_false (by simp [validateExchanges]) fun closes => ?_
      obtain ⟨_, _, absent, -⟩ := closes_cons.mp closes
      cases absent
  | cons message rest ih =>
    intro calls
    cases calls with
    | nil =>
      rw [closes_nil]
      cases message with
      | user message =>
        rw [validateExchanges, ih, closes_nil]
        exact ⟨.user, fun grammar => by cases grammar; assumption⟩
      | assistant message => rw [validateExchanges, ih, grammar_assistant]
      | toolResult message =>
        refine iff_of_false (by simp [validateExchanges]) fun grammar => ?_
        cases grammar
    | cons call calls =>
      rw [closes_cons]
      cases message with
      | toolResult message =>
        rw [validateExchanges, Bool.and_eq_true, Bool.and_eq_true, beq_iff_eq, beq_iff_eq, ih]
        constructor
        · rintro ⟨answers, closes⟩
          exact ⟨message, rest, rfl, answers, closes⟩
        · rintro ⟨_, _, same, answers, closes⟩
          cases same
          exact ⟨answers, closes⟩
      | user message =>
        refine iff_of_false (by simp [validateExchanges]) ?_
        rintro ⟨_, _, same, -⟩
        cases same
      | assistant message =>
        refine iff_of_false (by simp [validateExchanges]) ?_
        rintro ⟨_, _, same, -⟩
        cases same

theorem validateTranscript_iff {limits : MediaLimits} {messages : List AgentMessage} :
    validateTranscript limits messages = true ↔
      (∀ message ∈ messages, limits.admits message.content = true) ∧ Grammar messages := by
  rw [validateTranscript, Bool.and_eq_true, List.all_eq_true, validateExchanges_iff, closes_nil]

/-- What every reachable Session satisfies: its own validator accepts its transcript, and its queue
is in sequence order below the counter. -/
structure Sound (s : Session) : Prop where
  transcript : s.validate s.messages = true
  increasing : (sequences s.pending).Pairwise (· < ·)
  bounded : ∀ n ∈ sequences s.pending, n ≤ s.sequence
  owned : ∀ item ∈ s.pending, item.receipt.sessionId = s.sessionId

theorem sequences_append (first second : List PendingInput) :
    sequences (first ++ second) = sequences first ++ sequences second :=
  List.map_append ..

theorem create_sound {sessionId : String} {mediaLimits : MediaLimits} {hasRepository : Bool}
    {messages : List AgentMessage} {metadata : FrozenJsonObject} {session : Session}
    (made : create sessionId mediaLimits hasRepository messages metadata = .ok session) :
    Sound session := by
  unfold create at made
  split_ifs at made with valid
  cases made
  exact ⟨valid, .nil, nofun, nofun⟩

theorem restore_sound {digest : List AgentMessage → String} {limits : MediaLimits}
    {hasRepository : Bool} {snapshot : SessionSnapshot} {session : Session}
    (made : restore digest limits hasRepository snapshot = .ok session) : Sound session := by
  obtain ⟨-, increasing, bounded, -⟩ := restore_eq_ok made
  unfold restore at made
  split_ifs at made with version transcript owner increasing' stale
  cases made
  rw [Bool.not_eq_true', Bool.not_eq_false] at transcript
  refine ⟨transcript, increasing, bounded, fun item mem => ?_⟩
  by_contra other
  exact owner (List.any_eq_true.mpr ⟨item, mem, bne_iff_ne.mpr other⟩)

theorem fresh_sound {session : Session} (fresh : Fresh session) : Sound session := by
  cases fresh with
  | created made => exact create_sound made
  | restored made => exact restore_sound made

variable {s : Session}

theorem Sound.sublist (h : Sound s) {pending : List PendingInput}
    (kept : pending.Sublist s.pending) : (sequences pending).Pairwise (· < ·) ∧
      (∀ n ∈ sequences pending, n ≤ s.sequence) ∧
      ∀ item ∈ pending, item.receipt.sessionId = s.sessionId :=
  ⟨h.increasing.sublist (kept.map _), fun n mem => h.bounded n ((kept.map _).subset mem),
    fun item mem => h.owned item (kept.subset mem)⟩

/-- A section that only takes inputs from the queue and leaves a transcript that validates. -/
theorem Sound.taken (h : Sound s) {messages : List AgentMessage} {pending : List PendingInput}
    {compaction : Option ContextSummary} {metadata : FrozenJsonObject} {revision : Nat}
    (valid : s.validate messages = true) (kept : pending.Sublist s.pending) :
    Sound { s with
      messages, pending, metadata
      currentCompaction := compaction
      runtimeRevision := revision } :=
  ⟨valid, (h.sublist kept).1, (h.sublist kept).2.1, (h.sublist kept).2.2⟩

theorem Sound.enqueued (h : Sound s) (kind : InputKind) (message : UserMessage)
    (inputId : String) {revision : Nat} : Sound { s with
      sequence := s.sequence + 1
      pending := s.pending ++ [⟨⟨inputId, s.sequence + 1, s.sessionId⟩, message, kind⟩]
      runtimeRevision := revision } := by
  constructor
  · exact h.transcript
  · rw [sequences_append, List.pairwise_append]
    refine ⟨h.increasing, List.pairwise_singleton .., fun n mem m single => ?_⟩
    rw [List.mem_singleton.mp single]
    exact Nat.lt_succ_of_le (h.bounded n mem)
  · intro n mem
    rw [sequences_append] at mem
    obtain old | new := List.mem_append.mp mem
    · exact (h.bounded n old).trans (Nat.le_succ _)
    · exact (List.mem_singleton.mp new).le
  · intro item mem
    obtain old | new := List.mem_append.mp mem
    · exact h.owned item old
    · rw [List.mem_singleton.mp new]

theorem outcome_sound (h : Sound s) {run : Option Run} {operation : Operation} {x : Section}
    (outcome : operation.outcome s run = some (.ok x)) : Sound x.session := by
  cases operation with
  | enqueue kind message inputId =>
    simp only [Operation.outcome, Option.some.injEq, Session.enqueue] at outcome
    split at outcome <;> cases outcome
    exact h.enqueued kind message inputId
  | commitInitialInput cancelled =>
    obtain ⟨run, -, outcome⟩ := Option.map_eq_some_iff.mp outcome
    simp only [Session.commitInitialInput] at outcome
    split_ifs at outcome with owner stop empty valid <;> cases outcome
    · exact h
    · exact h.taken valid (List.drop_sublist ..)
  | consumePending cancelled =>
    obtain ⟨run, -, outcome⟩ := Option.map_eq_some_iff.mp outcome
    simp only [Session.consumePending] at outcome
    split_ifs at outcome with owner stop empty valid <;> cases outcome
    · exact h
    · exact h.taken valid (List.nil_sublist _)
  | clearPending =>
    simp only [Operation.outcome, Option.some.injEq, Session.clearPending] at outcome
    split_ifs at outcome <;> cases outcome
    · exact h
    · exact h.taken h.transcript (List.nil_sublist _)
  | commitMessage runId message =>
    simp only [Operation.outcome, Option.some.injEq, Session.commitMessage] at outcome
    split_ifs at outcome with owner valid
    cases outcome
    exact h.taken valid (List.Sublist.refl _)
  | commitExchange runId assistant results =>
    simp only [Operation.outcome, Option.some.injEq, Session.commitExchange] at outcome
    split_ifs at outcome with owner valid
    cases outcome
    exact h.taken valid (List.Sublist.refl _)
  | commitCompaction runId update =>
    simp only [Operation.outcome, Option.some.injEq, Session.commitCompaction] at outcome
    split_ifs at outcome <;> cases outcome
    · exact h
    · exact h.taken h.transcript (List.Sublist.refl _)
  | setMetadata metadata =>
    simp only [Operation.outcome, Option.some.injEq, Session.setMetadata] at outcome
    split_ifs at outcome <;> cases outcome
    · exact h
    · exact h.taken h.transcript (List.Sublist.refl _)
  | persist =>
    simp only [Operation.outcome, Option.some.injEq, Session.persist] at outcome
    split_ifs at outcome
    cases outcome
    exact h

/-- The same Session, for another owner, closed or not, with another durable revision. -/
def Rehandled (s t : Session) : Prop :=
  t = { s with
    activeRun := t.activeRun, closed := t.closed, durableRevision := t.durableRevision }

theorem Sound.rehandled (h : Sound s) {t : Session} (same : Rehandled s t) : Sound t := by
  rw [same]
  exact ⟨h.transcript, h.increasing, h.bounded, h.owned⟩

variable {w w' : World}

/-- A step of the world is a critical section, or leaves the Session's own data alone. -/
theorem stepped_session {a : Action} (h : Stepped w a w') :
    (∃ operation x, a = .perform operation ∧ operation.outcome w.session w.run = some (.ok x) ∧
      w'.session = x.session) ∨
    (∀ operation, a ≠ .perform operation) ∧ Rehandled w.session w'.session := by
  cases h with
  | perform outcome => exact .inl ⟨_, _, rfl, outcome, (enter_spec ..).session⟩
  | start started =>
    obtain ⟨-, rfl, -⟩ := start_eq_ok started
    exact .inr ⟨fun _ same => SessionWorld.Action.noConfusion same, rfl⟩
  | @cancel id dropped =>
    refine .inr ⟨fun _ same => SessionWorld.Action.noConfusion same, ?_⟩
    obtain same | ⟨-, same⟩ := cancelCall_eq w id dropped
    · exact same ▸ rfl
    · exact same ▸ rfl
  | _ => exact .inr ⟨fun _ same => SessionWorld.Action.noConfusion same, rfl⟩

theorem stepped_sound {a : Action} (inv : Sound w.session) (h : Stepped w a w') :
    Sound w'.session := by
  obtain ⟨operation, x, -, outcome, same⟩ | ⟨-, same⟩ := stepped_session h
  · rw [same]
    exact outcome_sound inv outcome
  · exact inv.rehandled same

theorem run_sound {session : Session} {record : Option SessionSnapshot} {actions : List Action}
    (fresh : Fresh session) (h : run step (opened session record) actions = some w) :
    Sound w.session :=
  run_invariant_all (I := fun w => Sound w.session)
    (fun _ _ _ inv h => stepped_sound inv (stepped h)) (fresh_sound fresh) h

end RoboAgent.SessionTranscript
