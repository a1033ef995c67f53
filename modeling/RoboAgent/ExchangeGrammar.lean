import RoboAgent.ContextCompaction
import RoboAgent.SessionCommits

/-! The tool-exchange grammar. The transcript validator, the grouping of messages and the check of
the segments of a ModelContext go through a list each in its own way, and accept the same lists. -/

namespace RoboAgent.ExchangeGrammar
open RoboAgent.Messages RoboAgent.SessionTranscript RoboAgent.ContextCompaction
open RoboAgent.FalliblePrograms (ok_bind bind_eq_ok map_eq_ok)

def asMessage : Segment → Option AgentMessage
  | .message message => some message
  | .world _ | .summary _ => none

def validateSegmentExchanges : List Segment → Except ContextError Unit
  | [] => .ok ()
  | .message (.assistant message) :: rest => do
    if message.toolCalls = [] then validateSegmentExchanges rest
    else
      let count := message.toolCalls.length
      let results := rest.take count
      if results.length ≠ count ∨ ¬results.all fun item => (asMessage item).isSome then
        .error (.transcript "A ModelContext segment split a ToolExchangeBlock.")
      else
        let _ ← messageGroups (.assistant message :: results.filterMap asMessage)
        validateSegmentExchanges (rest.drop count)
  | .message (.toolResult _) :: _ =>
    .error (.transcript "Orphan ToolResultMessage in ModelContext.")
  | .message (.user _) :: rest => validateSegmentExchanges rest
  | .world _ :: rest => validateSegmentExchanges rest
  | .summary _ :: rest => validateSegmentExchanges rest
termination_by segments => segments.length
decreasing_by
  all_goals simp only [List.length_cons, List.length_drop]; omega

/-- An exchange is closed by as many results as it has calls, before the rest. -/
theorem closes_iff_take {calls : List ToolCall} {messages : List AgentMessage} :
    Closes calls messages ↔
      Closes calls (messages.take calls.length) ∧ Grammar (messages.drop calls.length) := by
  induction calls generalizing messages with
  | nil =>
    rw [closes_nil, List.length_nil, List.take_zero, List.drop_zero, closes_nil]
    exact (and_iff_right .nil).symm
  | cons call calls ih =>
    cases messages with
    | nil =>
      have never : ¬Closes (call :: calls) [] := by
        intro h
        obtain ⟨_, _, absent, -⟩ := closes_cons.mp h
        cases absent
      exact iff_of_false never fun h => never h.1
    | cons first rest =>
      rw [List.length_cons, List.take_succ_cons, List.drop_succ_cons, closes_cons, closes_cons]
      constructor
      · rintro ⟨result, tail, same, answers, closes⟩
        cases same
        obtain ⟨here, later⟩ := ih.mp closes
        exact ⟨⟨result, _, rfl, answers, here⟩, later⟩
      · rintro ⟨⟨result, tail, same, answers, here⟩, later⟩
        cases same
        exact ⟨result, rest, rfl, answers, ih.mpr ⟨here, later⟩⟩

theorem closes_length {calls : List ToolCall} {messages : List AgentMessage}
    (h : Closes calls messages) : calls.length ≤ messages.length := by
  obtain ⟨results, rest, rfl, answers, -⟩ := h
  rw [answers.length_eq, List.length_append, List.length_map]
  exact Nat.le_add_right ..

/-- Messages that close an exchange and are no more than its calls answer them one by one. -/
theorem answersCall_of_closes {calls : List ToolCall} {messages : List AgentMessage}
    (h : Closes calls messages) (length : messages.length = calls.length) :
    messages.all isToolResult = true ∧
      (calls.zip messages).all (fun pair => answersCall pair.1 pair.2) = true := by
  induction calls generalizing messages with
  | nil =>
    rw [List.length_eq_zero_iff.mp length]
    exact ⟨rfl, rfl⟩
  | cons call calls ih =>
    obtain ⟨result, rest, rfl, answers, closes⟩ := closes_cons.mp h
    obtain ⟨results, pairs⟩ := ih closes (Nat.succ.inj length)
    refine ⟨results, ?_⟩
    rw [List.zip_cons_cons, List.all_cons, pairs, Bool.and_true, answersCall, Bool.and_eq_true,
      beq_iff_eq, beq_iff_eq]
    exact ⟨answers.1.symm, answers.2.symm⟩

theorem grammar_flatten {groups : List (List AgentMessage)}
    (each : ∀ group ∈ groups, Grammar group) : Grammar groups.flatten := by
  induction groups with
  | nil => exact .nil
  | cons group groups ih =>
    rw [List.flatten_cons]
    exact grammar_append (each group List.mem_cons_self)
      (ih fun g mem => each g (List.mem_cons_of_mem _ mem))

theorem map_isOk {ε α β : Type} {f : α → β} (result : Except ε α) :
    (∃ b, result.map f = .ok b) ↔ ∃ a, result = .ok a := by
  cases result with
  | error e => exact iff_of_false (fun ⟨_, h⟩ => by cases h) fun ⟨_, h⟩ => by cases h
  | ok a => exact iff_of_true ⟨f a, rfl⟩ ⟨a, rfl⟩

/-- What _message_groups accepts. -/
theorem messageGroups_iff (messages : List AgentMessage) :
    (∃ groups, messageGroups messages = .ok groups) ↔ Grammar messages := by
  constructor
  · rintro ⟨groups, made⟩
    obtain ⟨flat, grammar⟩ := messageGroups_spec made
    exact flat ▸ grammar_flatten grammar
  · induction messages using messageGroups.induct with
    | case1 => exact fun _ => ⟨[], by rw [messageGroups]⟩
    | case2 message rest empty ih =>
      intro grammar
      rw [messageGroups, if_pos empty, map_isOk]
      rw [grammar_assistant, empty, closes_nil] at grammar
      exact ih grammar
    | case3 message rest calls incomplete =>
      intro grammar
      rw [grammar_assistant, closes_iff_take] at grammar
      have length := (List.length_take_le ..).antisymm (closes_length grammar.1)
      obtain ⟨results, -⟩ := answersCall_of_closes grammar.1 length
      exact absurd incomplete (not_or.mpr ⟨not_not.mpr length, not_not.mpr results⟩)
    | case4 message rest calls complete mismatched =>
      intro grammar
      rw [grammar_assistant, closes_iff_take] at grammar
      have length := (List.length_take_le ..).antisymm (closes_length grammar.1)
      exact absurd (answersCall_of_closes grammar.1 length).2 mismatched
    | case5 message rest calls complete matched ih =>
      intro grammar
      rw [messageGroups, if_neg calls, if_neg complete, if_neg matched, map_isOk]
      rw [grammar_assistant, closes_iff_take] at grammar
      exact ih grammar.2
    | case6 message rest =>
      intro grammar
      cases grammar
    | case7 message rest ih =>
      intro grammar
      rw [messageGroups, map_isOk]
      cases grammar with
      | user tail => exact ih tail

theorem asMessage_message (message : AgentMessage) :
    asMessage (.message message) = some message := rfl

theorem filterMap_asMessage (messages : List AgentMessage) :
    (messages.map Segment.message).filterMap asMessage = messages := by
  rw [List.filterMap_map]
  exact List.filterMap_some

theorem all_asMessage (messages : List AgentMessage) :
    ((messages.map Segment.message).all fun item => (asMessage item).isSome) = true := by
  rw [List.all_map]
  exact List.all_eq_true.mpr fun _ _ => rfl

theorem bind_isOk {ε α β : Type} {result : Except ε α} {next : Except ε β} {b : β} :
    (result >>= fun _ => next) = .ok b ↔ (∃ a, result = .ok a) ∧ next = .ok b := by
  cases result with
  | error e => exact iff_of_false (fun h => by cases h) fun ⟨⟨_, h⟩, _⟩ => by cases h
  | ok a => exact (and_iff_right ⟨a, rfl⟩).symm

/-- At an assistant message with calls, of segments that are all messages. -/
theorem validateSegmentExchanges_assistant {message : AssistantMessage} {rest : List AgentMessage}
    (calls : message.toolCalls ≠ []) :
    validateSegmentExchanges ((.assistant message :: rest).map .message) = .ok () ↔
      (resultsAfter message rest).length = message.toolCalls.length ∧
      (∃ groups, messageGroups (.assistant message :: resultsAfter message rest) = .ok groups) ∧
      validateSegmentExchanges ((rest.drop message.toolCalls.length).map .message) = .ok () := by
  rw [List.map_cons, validateSegmentExchanges, if_neg calls]
  simp only [← List.map_take, ← List.map_drop,
    filterMap_asMessage, all_asMessage, List.length_map, not_true_eq_false, or_false]
  by_cases short : (rest.take message.toolCalls.length).length ≠ message.toolCalls.length
  · rw [if_pos short]
    exact iff_of_false nofun fun h => short h.1
  · rw [if_neg short, bind_isOk]
    exact (and_iff_right (not_not.mp short)).symm

/-- What _validate_segment_exchanges accepts of segments that are all messages. -/
theorem validateSegmentExchanges_iff (messages : List AgentMessage) :
    validateSegmentExchanges (messages.map .message) = .ok () ↔ Grammar messages := by
  induction length : messages.length using Nat.strong_induction_on generalizing messages with
  | h n ih =>
    subst length
    cases messages with
    | nil =>
      rw [List.map_nil, validateSegmentExchanges]
      exact iff_of_true rfl .nil
    | cons first rest =>
      cases first with
      | user message =>
        rw [List.map_cons, validateSegmentExchanges, ih _ (Nat.lt_succ_self _) rest rfl]
        exact ⟨.user, fun grammar => by cases grammar; assumption⟩
      | toolResult message =>
        rw [List.map_cons, validateSegmentExchanges]
        refine iff_of_false nofun fun grammar => ?_
        cases grammar
      | assistant message =>
        by_cases calls : message.toolCalls = []
        · rw [List.map_cons, validateSegmentExchanges, if_pos calls,
            ih _ (Nat.lt_succ_self _) rest rfl, grammar_assistant, calls, closes_nil]
        · have shorter : (rest.drop message.toolCalls.length).length < (rest.length + 1) := by
            rw [List.length_drop]
            omega
          rw [validateSegmentExchanges_assistant calls, messageGroups_iff, ih _ shorter _ rfl,
            grammar_assistant, grammar_assistant, resultsAfter, ← and_assoc, and_assoc,
            ← closes_iff_take]
          refine and_iff_right_of_imp fun closes => ?_
          exact (List.length_take_le ..).antisymm (closes_length (closes_iff_take.mp closes).1)

/-- Groups of a list that ends between two exchanges come first among those of a longer one. -/
theorem messageGroups_append {first second : List AgentMessage} {groups : List (List AgentMessage)}
    (h : messageGroups first = .ok groups) :
    messageGroups (first ++ second) = (messageGroups second).map (groups ++ ·) := by
  have map_map {α β γ : Type} {f : α → β} {g : β → γ} (result : Except ContextError α) :
      (result.map f).map g = result.map fun a => g (f a) := by cases result <;> rfl
  induction first using messageGroups.induct generalizing groups with
  | case1 =>
    rw [messageGroups] at h
    cases h
    rw [List.nil_append]
    cases messageGroups second <;> rfl
  | case2 message rest empty ih =>
    rw [messageGroups, if_pos empty] at h
    obtain ⟨later, made, rfl⟩ := map_eq_ok h
    rw [List.cons_append, messageGroups, if_pos empty, ih made, map_map]
    rfl
  | case3 message rest calls incomplete =>
    rw [messageGroups, if_neg calls, if_pos incomplete] at h
    cases h
  | case4 message rest calls complete mismatched =>
    rw [messageGroups, if_neg calls, if_neg complete, if_pos mismatched] at h
    cases h
  | case5 message rest calls complete matched ih =>
    rw [messageGroups, if_neg calls, if_neg complete, if_neg matched] at h
    obtain ⟨later, made, rfl⟩ := map_eq_ok h
    have enough : message.toolCalls.length ≤ rest.length := by
      have length := not_not.mp (not_or.mp complete).1
      rw [resultsAfter, List.length_take] at length
      omega
    have same : resultsAfter message (rest ++ second) = resultsAfter message rest :=
      List.take_append_of_le_length enough
    rw [List.cons_append, messageGroups, same, if_neg calls, if_neg complete, if_neg matched,
      List.drop_append_of_le_length enough, ih made, map_map]
    rfl
  | case6 message rest =>
    rw [messageGroups] at h
    cases h
  | case7 message rest ih =>
    rw [messageGroups] at h
    obtain ⟨later, made, rfl⟩ := map_eq_ok h
    rw [List.cons_append, messageGroups, ih made, map_map]
    rfl

/-- The length of the first groups is a boundary. -/
theorem length_mem_boundaries (before after : List (List AgentMessage)) :
    before.flatten.length ∈ groupBoundaries (before ++ after) := by
  have go (start : Nat) : start + before.flatten.length ∈
      (before ++ after).scanl (fun n group => n + group.length) start := by
    induction before generalizing start with
    | nil =>
      cases after with
      | nil => exact List.mem_singleton_self _
      | cons group after =>
        rw [List.nil_append, List.scanl_cons]
        exact List.mem_cons_self
    | cons group before ih =>
      rw [List.cons_append, List.scanl_cons, List.flatten_cons, List.length_append, ← Nat.add_assoc]
      exact List.mem_cons_of_mem _ (ih _)
  exact Nat.zero_add before.flatten.length ▸ go 0

/-- The messages after a boundary form complete exchanges. -/
theorem grammar_drop_boundary {messages : List AgentMessage} {groups : List (List AgentMessage)}
    {n : Nat} (made : messageGroups messages = .ok groups) (h : n ∈ groupBoundaries groups) :
    Grammar (messages.drop n) := by
  obtain ⟨flat, grammar⟩ := messageGroups_spec made
  obtain ⟨k, same⟩ := mem_scanl_length h
  have split : messages = (groups.take k).flatten ++ (groups.drop k).flatten := by
    rw [← List.flatten_append, List.take_append_drop, flat]
  rw [same, split, Nat.zero_add, List.drop_left]
  exact grammar_flatten fun group mem => grammar group (List.mem_of_mem_drop mem)

/-- A list of messages splits between complete exchanges just at the boundaries of its groups. -/
theorem mem_groupBoundaries_iff {messages : List AgentMessage} {groups : List (List AgentMessage)}
    (made : messageGroups messages = .ok groups) {n : Nat} (within : n ≤ messages.length) :
    n ∈ groupBoundaries groups ↔ Grammar (messages.take n) ∧ Grammar (messages.drop n) := by
  constructor
  · intro h
    exact ⟨(grammar_take_boundary made h).2, grammar_drop_boundary made h⟩
  · rintro ⟨before, after⟩
    obtain ⟨first, grouped⟩ := (messageGroups_iff _).mpr before
    obtain ⟨second, grouped'⟩ := (messageGroups_iff _).mpr after
    have whole : messageGroups (messages.take n ++ messages.drop n) =
        (messageGroups (messages.drop n)).map (first ++ ·) := messageGroups_append grouped
    rw [List.take_append_drop, made, grouped'] at whole
    have length := congrArg List.length (messageGroups_spec grouped).1
    rw [List.length_take, Nat.min_eq_left within] at length
    rw [Except.ok.inj whole, ← length]
    exact length_mem_boundaries first second

/-- The validator, the grouping and the check of the segments accept the same lists of messages
whose contents are within the limits; the groups of such a list put together are the list, and it
splits into two that are accepted just at the boundaries of its groups. -/
theorem grammars_agree (limits : MediaLimits) (messages : List AgentMessage)
    (admitted : ∀ message ∈ messages, limits.admits message.content = true) :
    (validateTranscript limits messages = true ↔ ∃ groups, messageGroups messages = .ok groups) ∧
    (validateTranscript limits messages = true ↔
      validateSegmentExchanges (messages.map .message) = .ok ()) ∧
    ∀ groups, messageGroups messages = .ok groups → groups.flatten = messages ∧
      ∀ n ≤ messages.length,
        (validateTranscript limits (messages.take n) = true ∧
          validateTranscript limits (messages.drop n) = true) ↔ n ∈ groupBoundaries groups := by
  have accepted {part : List AgentMessage} (mem : ∀ message ∈ part, message ∈ messages) :
      validateTranscript limits part = true ↔ Grammar part :=
    validateTranscript_iff.trans (and_iff_right fun message h => admitted message (mem message h))
  rw [accepted fun _ => id, messageGroups_iff, validateSegmentExchanges_iff]
  refine ⟨Iff.rfl, Iff.rfl, fun groups made => ⟨(messageGroups_spec made).1, fun n within => ?_⟩⟩
  rw [accepted fun _ => List.mem_of_mem_take, accepted fun _ => List.mem_of_mem_drop,
    mem_groupBoundaries_iff made within]

theorem grammars_agree_exchange :
    ∃ groups, messageGroups [.assistant SessionCommits.calling,
        .toolResult SessionCommits.answered] = .ok groups ∧
      groups.flatten.length = 2 ∧ ¬1 ∈ groupBoundaries groups := by
  obtain ⟨accepted, -, cuts⟩ := grammars_agree {} [.assistant SessionCommits.calling,
    .toolResult SessionCommits.answered] (by decide)
  obtain ⟨groups, made⟩ := accepted.mp (by decide)
  obtain ⟨flat, cut⟩ := cuts groups made
  refine ⟨groups, made, congrArg List.length flat, fun boundary => ?_⟩
  exact absurd ((cut 1 (by decide)).mpr boundary) (by decide)

end RoboAgent.ExchangeGrammar
