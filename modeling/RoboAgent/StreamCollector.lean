import RoboAgent.StreamAdapter
import RoboAgent.FalliblePrograms

/-! collect_model_stream past the check of the context: a state machine over the events of a stream,
and what it makes of the last one. The observer of the events does not raise. -/

namespace RoboAgent.StreamCollector
open RoboAgent.FrozenJson RoboAgent.KeyedLists RoboAgent.Messages RoboAgent.ModelEvents
open RoboAgent.Dicts RoboAgent.StreamAdapter RoboAgent.StreamAdapter.Assembly
open RoboAgent.FalliblePrograms (bind_eq_ok ok_bind)

/-- What is known of a call that started: its id, its name if the event had one, and its end. -/
structure CallProgress where
  callId : String
  name : Option String
  done : Bool
deriving DecidableEq

structure Collection where
  expectedSequence : Nat := 0
  started : Bool := false
  completed : Option ModelResponse := none
  calls : Dict Int ToolCall := .empty
  callStates : Dict Int CallProgress := .empty
  callIds : List String := []
  latestUsage : Option Usage := none

/-- The equality of two tuples of ToolCalls. -/
def callsEqual : List ToolCall → List ToolCall → Bool
  | [], [] => true
  | call :: calls, other :: others =>
    call.id == other.id && call.name == other.name && call.arguments.equal other.arguments &&
      callsEqual calls others
  | [], _ :: _ | _ :: _, [] => false

namespace Collection

def incomplete (k : Collection) : Bool := k.callStates.entries.any fun entry => !entry.2.done

def expectedCalls (k : Collection) : List ToolCall :=
  (k.calls.entries.insertionSort fun entry other => entry.1 ≤ other.1).map Prod.snd

def complete (k : Collection) (response : ModelResponse) : Except Failure Collection :=
  if k.incomplete then
    .error (.modelProtocol .incompleteToolCall
      "ResponseCompleted has an incomplete ToolCall.")
  else if ¬callsEqual response.message.toolCalls k.expectedCalls then
    .error (.modelProtocol .toolCallResponseMismatch
      "Final ToolCalls differ from stream events.")
  else if k.latestUsage.any fun usage => response.usage ≠ some usage then
    .error (.modelProtocol .invalidProviderResponse
      "Final usage differs from latest usage event.")
  else .ok { k with completed := some response }

def completeCall (k : Collection) (index : Int) (call : ToolCall) : Except Failure Collection :=
  match k.callStates.get index with
  | none =>
    .error (.modelProtocol .invalidToolCallDeltaState "ToolCall completed before it started.")
  | some state =>
    if state.done ∨ (k.calls.get index).isSome then
      .error (.modelProtocol .duplicateToolCallCompleted "ToolCall completed twice.")
    else if state.callId ≠ call.id ∨ state.name.any (· ≠ call.name) then
      .error (.modelProtocol .invalidToolCallDeltaState "Completed ToolCall identity changed.")
    else .ok { k with
      callStates := k.callStates.put index { state with done := true }
      calls := k.calls.put index call }

/-- An event after ResponseStarted. -/
def follow (k : Collection) : ModelEvent → Except Failure Collection
  | .toolCallStarted _ index callId name =>
    if (k.callStates.get index).isSome then
      .error (.modelProtocol .duplicateToolCallStarted "ToolCall started twice.")
    else if callId ∈ k.callIds then
      .error (.modelProtocol .duplicateToolCallId "ToolCall IDs must be unique.")
    else .ok { k with
      callIds := callId :: k.callIds
      callStates := k.callStates.put index ⟨callId, name, false⟩ }
  | .toolCallArgumentsDelta _ index callId _ =>
    if (k.callStates.get index).any fun state => !state.done && state.callId == callId then .ok k
    else
      .error (.modelProtocol .invalidToolCallDeltaState
        "ToolCall argument delta is out of state.")
  | .toolCallCompleted _ index call => k.completeCall index call
  | .usageUpdated _ usage => .ok { k with latestUsage := some usage }
  | .responseCompleted _ response => k.complete response
  | .responseStarted _ _ | .textDelta _ _ => .ok k

def observe (k : Collection) (event : ModelEvent) : Except Failure Collection :=
  if event.sequence ≠ k.expectedSequence then
    .error (.modelProtocol .invalidStreamSequence "Model event sequence is not contiguous.")
  else
    let k := { k with expectedSequence := k.expectedSequence + 1 }
    if k.completed.isSome then
      .error (.modelProtocol .invalidStreamSequence "No events may follow ResponseCompleted.")
    else
      match event with
      | .responseStarted first _ =>
        if k.started then
          .error (.modelProtocol .duplicateResponseStarted "ResponseStarted occurred twice.")
        else if first ≠ 0 then
          .error (.modelProtocol .invalidStreamSequence "ResponseStarted must be first.")
        else .ok { k with started := true }
      | event =>
        if k.started then k.follow event
        else .error (.modelProtocol .invalidStreamSequence "ResponseStarted must be first.")

/-- The identity the caller allocated before the stream started is adopted. -/
def adopt (completed : ModelResponse) : Option String → Except Failure ModelResponse
  | none => .ok completed
  | some messageId =>
    if completed.message.messageId = messageId then .ok completed
    else do
      let message ← assistantMessage completed.message.content completed.message.toolCalls
        completed.message.reasoningContent completed.message.timestamp messageId
      return { completed with message }

def conclude (capabilities : ModelCapabilities) (messageId : Option String) (k : Collection) :
    Except Failure ModelResponse :=
  match k.completed with
  | none =>
    .error (.modelProtocol .missingTerminalResponse
      "Model stream ended without ResponseCompleted.")
  | some completed =>
    if ¬k.started then
      .error (.modelProtocol .missingTerminalResponse
        "Model stream ended without ResponseCompleted.")
    else if k.incomplete then
      .error (.modelProtocol .incompleteToolCall
        "Model stream ended with an incomplete ToolCall.")
    else if completed.message.content.any (modality · ∉ capabilities.outputModalities) then
      .error (.modelCapability .unsupportedOutputModality "Model emitted an unsupported modality.")
    else if completed.message.toolCalls ≠ [] ∧ ¬capabilities.toolCalling then
      .error (.modelCapability .modelDoesNotSupportTools
        "Model emitted ToolCalls without tool capability.")
    else if ¬capabilities.parallelToolCalls ∧ 1 < completed.message.toolCalls.length then
      .error (.modelCapability .parallelToolCallsUnsupported
        "Model emitted parallel ToolCalls.")
    else adopt completed messageId

end Collection

open Collection

def collectModelStream (capabilities : ModelCapabilities) (messageId : Option String)
    (events : List ModelEvent) : Except Failure ModelResponse := do
  let k ← events.foldlM observe {}
  k.conclude capabilities messageId

/-- What the collector knows of a call that the adapter assembles. -/
def Progressing (state : CallState) (progress : CallProgress) : Prop :=
  progress.callId = state.id ∧ progress.done = false ∧
    ∀ name, progress.name = some name → name ≠ "" ∧ state.name = name

/-- The collector after the events an assembly has yielded. -/
structure Mirrors (s : Assembly) (k : Collection) : Prop where
  expected : k.expectedSequence = s.sequence
  started : k.started = true
  completed : k.completed = none
  calls : k.calls.entries = []
  states : ∀ index state, s.calls.get index = some state →
    ∃ progress, k.callStates.get index = some progress ∧ Progressing state progress
  unstarted : ∀ index, s.calls.get index = none → k.callStates.get index = none
  ids : ∀ id ∈ k.callIds, ∃ index state, s.calls.get index = some state ∧ state.id = id
  usage : k.latestUsage = s.usage

def Accepted (s : Assembly) : Prop := ∃ k, s.emitted.foldlM observe {} = .ok k ∧ Mirrors s k

def callIds (s : Assembly) : List String := s.calls.entries.map fun entry => entry.2.id

variable {host : Host} {s s' : Assembly}

theorem Accepted.of_eq (h : Accepted s) (emitted : s'.emitted = s.emitted)
    (sequence : s'.sequence = s.sequence) (calls : s'.calls = s.calls)
    (usage : s'.usage = s.usage) : Accepted s' := by
  obtain ⟨k, collected, mirrors⟩ := h
  refine ⟨k, emitted ▸ collected, sequence ▸ mirrors.expected, mirrors.started, mirrors.completed,
    mirrors.calls, ?_, ?_, ?_, usage ▸ mirrors.usage⟩
  · rw [calls]
    exact mirrors.states
  · rw [calls]
    exact mirrors.unstarted
  · rw [calls]
    exact mirrors.ids

/-- One more event is observed in the state its predecessors left. -/
theorem Accepted.yielded {event : Nat → ModelEvent} {k k' : Collection}
    (collected : s.emitted.foldlM observe {} = .ok k)
    (observed : observe k (event s.sequence) = .ok k') (mirrors : Mirrors (s.yielded event) k') :
    Accepted (s.yielded event) := by
  refine ⟨k', ?_, mirrors⟩
  rw [Assembly.yielded, List.foldlM_append, collected]
  exact (bind_pure _).trans observed

/-- After the start, and before the end, an event in sequence is followed. -/
theorem observe_next {k : Collection} (started : k.started = true) (completed : k.completed = none)
    (event : ModelEvent) (sequence : event.sequence = k.expectedSequence)
    (later : ∀ first responseId, event ≠ .responseStarted first responseId) :
    observe k event = { k with expectedSequence := k.expectedSequence + 1 }.follow event := by
  have running : ¬k.completed.isSome = true := by
    rw [completed]
    nofun
  rw [observe, if_neg (not_not.mpr sequence)]
  dsimp only
  rw [if_neg running]
  cases event with
  | responseStarted first responseId => exact absurd rfl (later first responseId)
  | _ =>
    dsimp only
    rw [if_pos started]

theorem Mirrors.observe {k : Collection} (mirrors : Mirrors s k) (event : Nat → ModelEvent)
    (sequence : (event s.sequence).sequence = s.sequence)
    (later : ∀ sequence responseId, event s.sequence ≠ .responseStarted sequence responseId) :
    observe k (event s.sequence) =
      { k with expectedSequence := k.expectedSequence + 1 }.follow (event s.sequence) :=
  observe_next mirrors.started mirrors.completed (event s.sequence)
    (sequence.trans mirrors.expected.symm) later

theorem accepted_text {text : String} (h : Accepted s) :
    Accepted ({ s with textParts := s.textParts ++ [text] }.yielded (.textDelta · text)) := by
  obtain ⟨k, collected, mirrors⟩ := h
  have observed := mirrors.observe (.textDelta · text) rfl nofun
  exact Accepted.yielded (s := { s with textParts := s.textParts ++ [text] }) collected observed
    ⟨congrArg (· + 1) mirrors.expected, mirrors.started, mirrors.completed, mirrors.calls,
      mirrors.states, mirrors.unstarted, mirrors.ids, mirrors.usage⟩

theorem accepted_usage {usage : Usage} (h : Accepted s) :
    Accepted ({ s with usage := some usage }.yielded (.usageUpdated · usage)) := by
  obtain ⟨k, collected, mirrors⟩ := h
  have observed := mirrors.observe (.usageUpdated · usage) rfl nofun
  exact Accepted.yielded (s := { s with usage := some usage }) collected observed
    ⟨congrArg (· + 1) mirrors.expected, mirrors.started, mirrors.completed, mirrors.calls,
      mirrors.states, mirrors.unstarted, mirrors.ids, rfl⟩

/-- The collector has not seen an id that no call of the assembly has. -/
theorem Mirrors.unseen {k : Collection} (mirrors : Mirrors s k) {id : String}
    (fresh : id ∉ callIds s) : id ∉ k.callIds := by
  intro seen
  obtain ⟨index, state, found, rfl⟩ := mirrors.ids id seen
  exact fresh (List.mem_map.mpr ⟨(index, state), Dict.get_eq_some_iff.mp found, rfl⟩)

theorem accepted_opened {fragment : ToolCallFragment} (unknown : s.calls.get fragment.index = none)
    (accepted : fault host s (.fragment fragment) = none)
    (fresh : (opened host fragment).id ∉ callIds s) (h : Accepted s) :
    Accepted (advanceOpen host s fragment) := by
  obtain ⟨k, collected, mirrors⟩ := h
  rw [fault, unknown] at accepted
  obtain ⟨-, -, named⟩ := refused_started_eq_none.mp (Option.map_eq_none_iff.mp accepted)
  rw [advanceOpen, unknown]
  have observed := mirrors.observe (.toolCallStarted · fragment.index
    (opened host fragment).id (fragment.function.bind FunctionFragment.name)) rfl (by rintro _ _ ⟨⟩)
  have unstarted := Option.isSome_eq_false_iff.mpr (Option.isNone_iff_eq_none.mpr
    (mirrors.unstarted fragment.index unknown))
  rw [follow, if_neg (Bool.eq_false_iff.mp unstarted), if_neg (mirrors.unseen fresh)] at observed
  refine Accepted.yielded (s := { s with
    calls := s.calls.put fragment.index (opened host fragment) }) collected observed
    ⟨congrArg (· + 1) mirrors.expected, mirrors.started, mirrors.completed, mirrors.calls,
      fun index state found => ?_, fun index missing => ?_, fun id seen => ?_, mirrors.usage⟩
  · dsimp only [Assembly.yielded] at found ⊢
    rw [Dict.get_put] at found ⊢
    split_ifs at found ⊢
    · cases found
      refine ⟨_, rfl, rfl, rfl, fun name same => ⟨fun empty => named (empty ▸ same), ?_⟩⟩
      rw [opened]
      dsimp only at same ⊢
      rw [same]
      rfl
    · exact mirrors.states index state found
  · dsimp only [Assembly.yielded] at missing ⊢
    rw [Dict.get_put] at missing ⊢
    split_ifs at missing ⊢
    exact mirrors.unstarted index missing
  · dsimp only [Assembly.yielded]
    cases seen with
    | head => exact ⟨fragment.index, opened host fragment, Dict.get_put_self .., rfl⟩
    | tail _ before =>
      obtain ⟨index, state, found, same⟩ := mirrors.ids id before
      refine ⟨index, state, ?_, same⟩
      have other : index ≠ fragment.index := by
        rintro rfl
        cases unknown.symm.trans found
      rw [Dict.get_put, if_neg other]
      exact found

theorem progressing_extended {state : CallState} {progress : CallProgress}
    {function : FunctionFragment} (progressing : Progressing state progress)
    (kept : ∀ name, given function.name = some name → state.name = "" ∨ state.name = name) :
    Progressing (extended state function) progress := by
  obtain ⟨sameId, running, sameName⟩ := progressing
  refine ⟨sameId, running, fun name named => ⟨(sameName name named).1, ?_⟩⟩
  obtain ⟨nonempty, same⟩ := sameName name named
  rw [extended]
  dsimp only
  cases later : given function.name with
  | none => exact same
  | some other =>
    obtain empty | equal := kept other later
    · exact absurd (same.symm.trans empty) nonempty
    · exact equal.symm.trans same

theorem accepted_extended {index : Int} {state : CallState} {function : FunctionFragment}
    (found : s.calls.get index = some state)
    (kept : ∀ name, given function.name = some name → state.name = "" ∨ state.name = name)
    (h : Accepted s) : Accepted (advanceFunction s index state function) := by
  obtain ⟨k, collected, mirrors⟩ := h
  obtain ⟨progress, started, progressing⟩ := mirrors.states index state found
  have after : Mirrors { s with calls := s.calls.put index (extended state function) } k := by
    refine ⟨mirrors.expected, mirrors.started, mirrors.completed, mirrors.calls,
      fun place other there => ?_, fun place missing => ?_, fun id seen => ?_, mirrors.usage⟩
    · dsimp only at there
      rw [Dict.get_put] at there
      split_ifs at there with here
      · cases there
        exact ⟨progress, here ▸ started, progressing_extended progressing kept⟩
      · exact mirrors.states place other there
    · dsimp only at missing
      rw [Dict.get_put] at missing
      split_ifs at missing
      exact mirrors.unstarted place missing
    · obtain ⟨place, other, there, same⟩ := mirrors.ids id seen
      by_cases here : place = index
      · subst here
        cases found.symm.trans there
        exact ⟨place, extended state function, Dict.get_put_self .., same⟩
      · exact ⟨place, other, (Dict.get_put ..).trans ((if_neg here).trans there), same⟩
  rw [advanceFunction]
  split_ifs with silent
  · exact ⟨k, collected, after⟩
  · have observed := after.observe
      (.toolCallArgumentsDelta · index state.id (orEmpty function.arguments)) rfl (by rintro _ _ ⟨⟩)
    rw [follow] at observed
    dsimp only at observed
    rw [started, if_pos] at observed
    · exact Accepted.yielded (s := { s with calls := s.calls.put index (extended state function) })
        collected observed ⟨congrArg (· + 1) after.expected, after.started, after.completed,
          after.calls, after.states, after.unstarted, after.ids, after.usage⟩
    · rw [Option.any_some, progressing.1, progressing.2.1]
      simp

/-- The state in which a fragment finds or puts its call. -/
def stateOf (host : Host) (s : Assembly) (fragment : ToolCallFragment) : CallState :=
  (s.calls.get fragment.index).getD (opened host fragment)

theorem get_advanceOpen (host : Host) (s : Assembly) (fragment : ToolCallFragment) :
    (advanceOpen host s fragment).calls.get fragment.index = some (stateOf host s fragment) :=
  (calls_advanceOpen s fragment fragment.index).trans (if_pos rfl)

theorem kept_of_fault {fragment : ToolCallFragment} {function : FunctionFragment}
    (accepted : fault host s (.fragment fragment) = none) (called : fragment.function = some function)
    {name : String} (named : given function.name = some name) :
    (stateOf host s fragment).name = "" ∨ (stateOf host s fragment).name = name := by
  have unchanged : changed (stateOf host s fragment) fragment = none := by
    rw [stateOf]
    cases known : s.calls.get fragment.index with
    | none => exact changed_opened host fragment
    | some state =>
      rw [fault, known] at accepted
      exact accepted
  rw [changed, called, Option.bind_some, named, Option.any_some] at unchanged
  split_ifs at unchanged with other differs
  rw [decide_eq_true_eq, not_and_or, not_not, not_not] at differs
  exact differs

theorem callIds_advanceOpen (s : Assembly) (fragment : ToolCallFragment) :
    callIds (advanceOpen host s fragment) =
      if s.calls.get fragment.index = none then callIds s ++ [(opened host fragment).id]
      else callIds s := by
  rw [advanceOpen]
  cases known : s.calls.get fragment.index with
  | some state => rfl
  | none =>
    rw [if_pos rfl, callIds, Assembly.yielded]
    dsimp only
    rw [Dict.put_eq_append _ known, List.map_append]
    rfl

theorem callIds_advance_fragment (s : Assembly) (fragment : ToolCallFragment) :
    callIds (advance host s (.fragment fragment)) = callIds (advanceOpen host s fragment) := by
  rw [advance]
  cases fragment.function with
  | none => rfl
  | some function =>
    have put : ((advanceOpen host s fragment).calls.put fragment.index
        (extended (stateOf host s fragment) function)).entries.map (fun entry => entry.2.id) =
          callIds (advanceOpen host s fragment) :=
      Dict.map_put (get_advanceOpen host s fragment) rfl
    rw [Option.elim_some, advanceFunction]
    split_ifs <;> exact put

/-- The calls keep their ids and their order; a new call comes last. -/
theorem callIds_advance (host : Host) (s : Assembly) (item : Item) :
    ∃ more, callIds (advance host s item) = callIds s ++ more := by
  obtain ⟨fragment, rfl⟩ | other := fragment_or item
  · rw [callIds_advance_fragment, callIds_advanceOpen]
    split_ifs
    · exact ⟨_, rfl⟩
    · exact ⟨[], (List.append_nil _).symm⟩
  · rw [callIds, calls_advance_other s other]
    exact ⟨[], (List.append_nil _).symm⟩

theorem accepted_fragment {fragment : ToolCallFragment}
    (accepted : fault host s (.fragment fragment) = none)
    (distinct : (callIds (advance host s (.fragment fragment))).Nodup) (h : Accepted s) :
    Accepted (advance host s (.fragment fragment)) := by
  rw [callIds_advance_fragment] at distinct
  have started : Accepted (advanceOpen host s fragment) := by
    cases known : s.calls.get fragment.index with
    | some state =>
      rw [advanceOpen, known]
      exact h
    | none =>
      rw [callIds_advanceOpen, if_pos known, List.nodup_append] at distinct
      refine accepted_opened known accepted (fun seen => ?_) h
      exact distinct.2.2 _ seen _ List.mem_cons_self rfl
  rw [advance]
  cases called : fragment.function with
  | none => exact started
  | some function =>
    exact accepted_extended (get_advanceOpen host s fragment)
      (fun name => kept_of_fault accepted called) started

/-- The collector accepts what an item yields, if the ids of the calls stay distinct. -/
theorem accepted_advance {item : Item} (accepted : fault host s item = none)
    (distinct : (callIds (advance host s item)).Nodup) (h : Accepted s) :
    Accepted (advance host s item) := by
  cases item with
  | id chunkId =>
    obtain ⟨responseId, same⟩ := receiveId_frame s chunkId
    rw [advance, same]
    exact h.of_eq rfl rfl rfl rfl
  | usage raw => exact accepted_usage h
  | reason reason => exact h.of_eq rfl rfl rfl rfl
  | reasoning text =>
    rw [advance, receiveReasoning_eq]
    exact h.of_eq rfl rfl rfl rfl
  | content text =>
    rw [advance]
    cases given text with
    | none => exact h
    | some text => exact accepted_text h
  | fragment fragment => exact accepted_fragment accepted distinct h

/-- What the events yielded so far say of texts, of the usage and of completed calls. -/
structure Recorded (s : Assembly) : Prop where
  texts : s.emitted.filterMap ModelEvent.text? = s.textParts
  written : ∀ part ∈ s.textParts, part ≠ ""
  usage : (s.emitted.filterMap ModelEvent.usage?).getLast? = s.usage
  calls : s.emitted.filterMap ModelEvent.completedCall? = []

/-- An event that is neither a text, a usage nor a completed call records nothing. -/
theorem Recorded.yielded (recorded : Recorded s) {event : Nat → ModelEvent}
    (text : (event s.sequence).text? = none) (usage : (event s.sequence).usage? = none)
    (call : (event s.sequence).completedCall? = none) : Recorded (s.yielded event) := by
  have texts := recorded.texts
  have usages := recorded.usage
  have calls := recorded.calls
  refine ⟨?_, recorded.written, ?_, ?_⟩ <;>
    rw [Assembly.yielded] <;> dsimp only <;> rw [List.filterMap_append, List.filterMap_cons]
  · rw [text, texts]
    exact List.append_nil _
  · rw [usage]
    exact (congrArg List.getLast? (List.append_nil _)).trans usages
  · rw [call, calls]
    rfl

theorem Recorded.of_eq (recorded : Recorded s) (emitted : s'.emitted = s.emitted)
    (texts : s'.textParts = s.textParts) (usage : s'.usage = s.usage) : Recorded s' where
  texts := by rw [emitted, texts, recorded.texts]
  written := by rw [texts]; exact recorded.written
  usage := by rw [emitted, usage, recorded.usage]
  calls := by rw [emitted, recorded.calls]

theorem recorded_fragment {fragment : ToolCallFragment} (recorded : Recorded s) :
    Recorded (advance host s (.fragment fragment)) := by
  have started : Recorded (advanceOpen host s fragment) := by
    rw [advanceOpen]
    cases s.calls.get fragment.index with
    | some state => exact recorded
    | none =>
      have put : Recorded { s with
        calls := s.calls.put fragment.index (opened host fragment) } := recorded.of_eq rfl rfl rfl
      exact put.yielded rfl rfl rfl
  rw [advance]
  cases fragment.function with
  | none => exact started
  | some function =>
    rw [Option.elim_some, advanceFunction]
    have put : Recorded { advanceOpen host s fragment with
        calls := (advanceOpen host s fragment).calls.put fragment.index
          (extended (stateOf host s fragment) function) } := started.of_eq rfl rfl rfl
    split_ifs
    · exact put
    · exact put.yielded rfl rfl rfl

theorem recorded_advance (item : Item) (recorded : Recorded s) :
    Recorded (advance host s item) := by
  cases item with
  | id chunkId =>
    obtain ⟨responseId, same⟩ := receiveId_frame s chunkId
    rw [advance, same]
    exact recorded.of_eq rfl rfl rfl
  | reason reason => exact recorded.of_eq rfl rfl rfl
  | reasoning text =>
    rw [advance, receiveReasoning_eq]
    exact recorded.of_eq rfl rfl rfl
  | fragment fragment => exact recorded_fragment recorded
  | usage raw =>
    refine ⟨?_, recorded.written, ?_, ?_⟩ <;>
      rw [advance, Assembly.yielded] <;> dsimp only <;> rw [List.filterMap_append]
    · exact (List.append_nil _).trans recorded.texts
    · exact List.getLast?_concat
    · exact (List.append_nil _).trans recorded.calls
  | content text =>
    rw [advance]
    cases present : given text with
    | none => exact recorded
    | some text =>
      rw [Option.elim_some]
      refine ⟨?_, fun part mem => ?_, ?_, ?_⟩
      · rw [Assembly.yielded]
        dsimp only
        rw [List.filterMap_append, recorded.texts]
        rfl
      · obtain old | new := List.mem_append.mp mem
        · exact recorded.written part old
        · exact List.mem_singleton.mp new ▸ (given_eq_some.mp present).2
      · rw [Assembly.yielded]
        dsimp only
        rw [List.filterMap_append]
        exact (congrArg List.getLast? (List.append_nil _)).trans recorded.usage
      · rw [Assembly.yielded]
        dsimp only
        rw [List.filterMap_append, recorded.calls]
        rfl

/-- Reading a stream to its end: if the ids of its calls are distinct there, the collector has
accepted all that was yielded. -/
theorem received {items : List Item} (h : items.foldlM (receive host) s = .ok s')
    (sound : Sound s) (recorded : Recorded s) :
    Sound s' ∧ Recorded s' ∧ (∃ more, callIds s' = callIds s ++ more) ∧
      (Accepted s → (callIds s').Nodup → Accepted s') := by
  induction items generalizing s with
  | nil =>
    cases h
    exact ⟨sound, recorded, ⟨[], (List.append_nil _).symm⟩, fun accepted _ => accepted⟩
  | cons item items ih =>
    rw [List.foldlM_cons] at h
    obtain ⟨next, first, later⟩ := bind_eq_ok h
    obtain ⟨accepted, rfl⟩ := receive_eq_ok sound first
    obtain ⟨sound', recorded', ⟨more, grown⟩, ending⟩ :=
      ih later (sound_advance sound accepted) (recorded_advance item recorded)
    obtain ⟨new, one⟩ := callIds_advance host s item
    refine ⟨sound', recorded', ⟨new ++ more, ?_⟩, fun start distinct => ?_⟩
    · rw [grown, one, List.append_assoc]
    · have before : (callIds (advance host s item)).Nodup :=
        (List.nodup_append.mp (grown ▸ distinct)).1
      exact ending (accepted_advance accepted before start) distinct

/-- The call that was made of an entry. -/
def Normalizes (entry : Int × CallState) (call : ToolCall) : Prop :=
  call.id = entry.2.id ∧ call.name = entry.2.name

def completions : Nat → List (Int × CallState) → List ToolCall → List ModelEvent
  | next, entry :: entries, call :: later =>
    .toolCallCompleted next entry.1 call :: completions (next + 1) entries later
  | _, _, _ => []

theorem normalizes {entry : Int × CallState} {call : ToolCall}
    (h : Assembly.normalize host entry.2 = .ok call) : Normalizes entry call := by
  rw [Assembly.normalize] at h
  by_cases unnamed : entry.2.name = ""
  · rw [if_pos unnamed] at h
    cases h
  · rw [if_neg unnamed] at h
    split at h
    · cases h
    · cases h
    · split_ifs at h
      cases h
      exact ⟨rfl, rfl⟩
    · cases h

theorem completeCall_eq_ok {entry : Int × CallState} {calls : List ToolCall}
    {progress : Assembly × List ToolCall}
    (h : Assembly.completeCall host (s, calls) entry = .ok progress) :
    ∃ call, Normalizes entry call ∧ call.id ∉ calls.map ToolCall.id ∧
      progress = (s.yielded (.toolCallCompleted · entry.1 call), calls ++ [call]) := by
  obtain ⟨call, made, h⟩ := bind_eq_ok h
  split_ifs at h with repeated
  obtain ⟨next, yielded, h⟩ := bind_eq_ok h
  refine ⟨call, normalizes made, fun seen => repeated ?_, ?_⟩
  · obtain ⟨other, mem, same⟩ := List.mem_map.mp seen
    exact List.any_eq_true.mpr ⟨other, mem, decide_eq_true same⟩
  · rw [← emit_eq_ok yielded]
    exact (Except.ok.inj h).symm

/-- The assembly after completed calls. -/
def afterCalls (s : Assembly) (entries : List (Int × CallState)) (calls : List ToolCall) :
    Assembly :=
  { s with
    sequence := s.sequence + entries.length
    emitted := s.emitted ++ completions s.sequence entries calls }

/-- The loop over the calls: each is completed in turn, and no id comes twice. -/
theorem completed_calls {entries : List (Int × CallState)} {calls : List ToolCall}
    {progress : Assembly × List ToolCall}
    (h : entries.foldlM (Assembly.completeCall host) (s, calls) = .ok progress)
    (distinct : (calls.map ToolCall.id).Nodup) :
    ∃ new, List.Forall₂ Normalizes entries new ∧ ((calls ++ new).map ToolCall.id).Nodup ∧
      progress = (afterCalls s entries new, calls ++ new) := by
  induction entries generalizing s calls with
  | nil =>
    cases h
    refine ⟨[], .nil, ?_, ?_⟩
    · rw [List.append_nil]
      exact distinct
    · rw [afterCalls, completions, List.append_nil, List.append_nil]
      · rfl
      · nofun
  | cons entry entries ih =>
    rw [List.foldlM_cons] at h
    obtain ⟨middle, first, later⟩ := bind_eq_ok h
    obtain ⟨call, made, fresh, rfl⟩ := completeCall_eq_ok first
    have distinct' : ((calls ++ [call]).map ToolCall.id).Nodup := by
      rw [List.map_append, List.map_singleton, ← List.concat_eq_append]
      exact distinct.concat fresh
    obtain ⟨new, forall₂, nodup, same⟩ := ih later distinct'
    refine ⟨call :: new, .cons made forall₂, ?_, ?_⟩
    · rwa [List.append_cons]
    · rw [same, afterCalls, afterCalls, Assembly.yielded, completions, List.length_cons]
      dsimp only
      rw [List.append_assoc, List.append_assoc, Nat.add_assoc, Nat.add_comm 1]
      rfl

/-- The collector while the adapter completes its calls: those of `rest` are still to come. -/
structure Finishing (rest : List (Int × CallState)) (sequence : Nat) (usage : Option Usage)
    (finished : List (Int × ToolCall)) (k : Collection) : Prop where
  expected : k.expectedSequence = sequence
  started : k.started = true
  completed : k.completed = none
  calls : k.calls.entries = finished
  waiting : ∀ entry ∈ rest, ∃ progress, k.callStates.get entry.1 = some progress ∧
    Progressing entry.2 progress
  others : ∀ index progress, k.callStates.get index = some progress →
    progress.done = true ∨ index ∈ keys rest
  unfinished : ∀ entry ∈ rest, k.calls.get entry.1 = none
  usage : k.latestUsage = usage

theorem Finishing.observe {entry : Int × CallState} {rest : List (Int × CallState)} {sequence : Nat}
    {usage : Option Usage} {finished : List (Int × ToolCall)} {k : Collection} {call : ToolCall}
    (h : Finishing (entry :: rest) sequence usage finished k) (made : Normalizes entry call)
    (distinct : (keys (entry :: rest)).Nodup) :
    ∃ k', Collection.observe k (.toolCallCompleted sequence entry.1 call) = .ok k' ∧
      Finishing rest (sequence + 1) usage (finished ++ [(entry.1, call)]) k' := by
  obtain ⟨progress, found, sameId, running, sameName⟩ := h.waiting entry List.mem_cons_self
  have unfinished := h.unfinished entry List.mem_cons_self
  have fresh : entry.1 ∉ keys rest := (List.nodup_cons.mp distinct).1
  have named : ¬progress.name.any (· ≠ call.name) = true := by
    cases known : progress.name with
    | none => nofun
    | some name => simp [made.2, (sameName name known).2]
  have other : ∀ later ∈ rest, later.1 ≠ entry.1 := by
    intro later mem same
    exact fresh (same ▸ List.mem_map.mpr ⟨later, mem, rfl⟩)
  refine ⟨{ k with
    expectedSequence := k.expectedSequence + 1
    callStates := k.callStates.put entry.1 { progress with done := true }
    calls := k.calls.put entry.1 call }, ?_, ?_⟩
  · rw [observe_next h.started h.completed (.toolCallCompleted sequence entry.1 call)
      h.expected.symm nofun, follow, Collection.completeCall]
    dsimp only
    rw [found]
    dsimp only
    rw [if_neg, if_neg]
    · rintro (different | different)
      · exact different (sameId.trans made.1.symm)
      · exact named different
    · rw [running, unfinished]
      rintro (ended | ended) <;> cases ended
  · refine ⟨congrArg (· + 1) h.expected, h.started, h.completed, ?_, fun later mem => ?_,
      fun index state there => ?_, fun later mem => ?_, h.usage⟩
    · exact (Dict.put_eq_append _ unfinished).trans (congrArg (· ++ _) h.calls)
    · obtain ⟨state, there, progressing⟩ := h.waiting later (List.mem_cons_of_mem _ mem)
      exact ⟨state, (Dict.get_put ..).trans ((if_neg (other later mem)).trans there), progressing⟩
    · dsimp only at there
      rw [Dict.get_put] at there
      split_ifs at there with here
      · cases there
        exact .inl rfl
      · refine (h.others index state there).imp_right fun mem => ?_
        exact (List.mem_cons.mp mem).resolve_left here
    · exact (Dict.get_put ..).trans
        ((if_neg (other later mem)).trans (h.unfinished later (List.mem_cons_of_mem _ mem)))

theorem Finishing.run {entries : List (Int × CallState)} {new : List ToolCall} {sequence : Nat}
    {usage : Option Usage} {finished : List (Int × ToolCall)} {k : Collection}
    (made : List.Forall₂ Normalizes entries new) (distinct : (keys entries).Nodup)
    (h : Finishing entries sequence usage finished k) :
    ∃ k', (completions sequence entries new).foldlM Collection.observe k = .ok k' ∧
      Finishing [] (sequence + entries.length) usage (finished ++ (keys entries).zip new) k' := by
  induction made generalizing sequence finished k with
  | nil => exact ⟨k, rfl, (List.append_nil finished).symm ▸ h⟩
  | @cons entry call rest calls first later ih =>
    obtain ⟨next, observed, finishing⟩ := h.observe first distinct
    obtain ⟨last, collected, ended⟩ := ih (List.nodup_cons.mp distinct).2 finishing
    refine ⟨last, ?_, ?_⟩
    · rw [completions, List.foldlM_cons, observed]
      exact collected
    · rw [List.append_assoc, Nat.add_assoc, Nat.add_comm 1] at ended
      exact ended

/-- The ids of completed calls are those of the assembled ones. -/
theorem ids_of_normalizes {entries : List (Int × CallState)} {new : List ToolCall}
    (made : List.Forall₂ Normalizes entries new) :
    new.map ToolCall.id = entries.map fun entry => entry.2.id := by
  induction made with
  | nil => rfl
  | cons first later ih => rw [List.map_cons, List.map_cons, ih, first.1]

theorem Mirrors.finishing {k : Collection} (mirrors : Mirrors s k) :
    Finishing s.sortedCalls s.sequence s.usage [] k where
  expected := mirrors.expected
  started := mirrors.started
  completed := mirrors.completed
  calls := mirrors.calls
  waiting entry mem := mirrors.states entry.1 entry.2
    (Dict.get_eq_some_iff.mpr ((sortedCalls_perm s).mem_iff.mp mem))
  others index progress found := by
    right
    cases known : s.calls.get index with
    | none => cases (mirrors.unstarted index known).symm.trans found
    | some state =>
      exact List.mem_map.mpr ⟨(index, state),
        (sortedCalls_perm s).mem_iff.mpr (Dict.get_eq_some_iff.mp known), rfl⟩
  unfinished entry mem := by
    rw [Dict.get, mirrors.calls]
    rfl
  usage := mirrors.usage

theorem callsEqual_refl (list : List ToolCall) : callsEqual list list = true := by
  induction list with
  | nil => rfl
  | cons call list ih =>
    rw [callsEqual, beq_self_eq_true, beq_self_eq_true, call.arguments.equal_refl, ih]
    rfl

/-- After its last call the collector takes the response the adapter makes of them. -/
theorem Finishing.complete {sequence : Nat} {entries : List (Int × CallState)}
    {new : List ToolCall} {k : Collection} {response : ModelResponse}
    (h : Finishing [] sequence response.usage ((keys entries).zip new) k)
    (increasing : (keys entries).Pairwise (· < ·)) (length : entries.length = new.length)
    (calls : response.message.toolCalls = new) :
    ∃ k', Collection.observe k (.responseCompleted sequence response) = .ok k' ∧
      k'.completed = some response ∧ k'.started = true ∧ k'.incomplete = false := by
  have ended : k.incomplete = false := by
    rw [incomplete, List.any_eq_false]
    rintro ⟨index, progress⟩ mem
    have done := (h.others index progress (Dict.get_eq_some_iff.mpr mem)).resolve_right
      List.not_mem_nil
    rw [done]
    nofun
  have expected : k.expectedCalls = new := by
    have sorted : ((keys entries).zip new).Pairwise fun entry other => entry.1 ≤ other.1 := by
      have ordered := increasing.imp le_of_lt
      have firsts : ((keys entries).zip new).map Prod.fst = keys entries :=
        List.map_fst_zip (by rw [keys, List.length_map, length])
      refine List.pairwise_map.mp ?_
      rw [firsts]
      exact ordered
    rw [expectedCalls, h.calls, sorted.insertionSort_eq]
    exact List.map_snd_zip (by rw [keys, List.length_map, length])
  refine ⟨{ k with
    expectedSequence := k.expectedSequence + 1
    completed := some response }, ?_, rfl, h.started, ended⟩
  rw [observe_next h.started h.completed (.responseCompleted sequence response)
    h.expected.symm nofun, follow, Collection.complete]
  rw [if_neg, if_neg, if_neg]
  · dsimp only
    rw [h.usage]
    cases response.usage <;> simp
  · have same := callsEqual_refl response.message.toolCalls
    rw [not_not]
    convert same using 1
    exact congrArg _ (expected.trans calls.symm)
  · rw [Bool.not_eq_true]
    exact ended

theorem accepted_started (host : Host) :
    Accepted ((started host).yielded (.responseStarted · host.responseId)) :=
  ⟨_, rfl, rfl, rfl, rfl, rfl, nofun, fun _ _ => rfl, nofun, rfl⟩

theorem recorded_started (host : Host) :
    Recorded ((started host).yielded (.responseStarted · host.responseId)) :=
  ⟨rfl, nofun, rfl, rfl⟩

theorem completions_texts {entries : List (Int × CallState)} {new : List ToolCall} (sequence : Nat) :
    (completions sequence entries new).filterMap ModelEvent.text? = [] ∧
      (completions sequence entries new).filterMap ModelEvent.usage? = [] := by
  induction entries generalizing sequence new with
  | nil => exact ⟨rfl, rfl⟩
  | cons entry entries ih =>
    cases new with
    | nil => exact ⟨rfl, rfl⟩
    | cons call later => exact ih (sequence + 1)

theorem completions_calls {entries : List (Int × CallState)} {new : List ToolCall} (sequence : Nat) :
    (completions sequence entries new).filterMap ModelEvent.completedCall? =
      (keys entries).zip new := by
  induction entries generalizing sequence new with
  | nil => rfl
  | cons entry entries ih =>
    cases new with
    | nil => rfl
    | cons call later => exact congrArg ((entry.1, call) :: ·) (ih (sequence + 1))

theorem respond_eq_ok {calls : List ToolCall} {response : ModelResponse}
    (h : s.respond host calls = .ok response) (written : ∀ part ∈ s.textParts, part ≠ "") :
    response.message.content = contentOf (String.join s.textParts) ∧
      response.message.toolCalls = calls ∧ response.usage = s.usage ∧
      ∀ messageId ≠ some "", adopt response messageId = .ok (identifiedAs messageId response) := by
  rw [respond] at h
  split_ifs at h
  obtain ⟨message, made, h⟩ := bind_eq_ok h
  obtain ⟨rfl, anew⟩ := assistantMessage_eq_ok made
  cases h
  refine ⟨?_, rfl, rfl, fun messageId identified => ?_⟩
  · dsimp only
    exact answer_eq written
  · cases messageId with
    | none => rfl
    | some messageId =>
      rw [adopt]
      split_ifs with same
      · exact same ▸ rfl
      · dsimp only
        rw [anew messageId fun empty => identified (congrArg some empty)]
        rfl

theorem conclude_eq {k : Collection} {response : ModelResponse} (started : k.started = true)
    (completed : k.completed = some response) (complete : k.incomplete = false)
    {capabilities : ModelCapabilities} (tools : capabilities.toolCalling = true)
    (parallel : capabilities.parallelToolCalls = true)
    (text : Modality.text ∈ capabilities.outputModalities) {answer : String}
    (content : response.message.content = contentOf answer) (messageId : Option String) :
    k.conclude capabilities messageId = adopt response messageId := by
  have modalities : ¬response.message.content.any (modality · ∉ capabilities.outputModalities) =
      true := by
    rw [content, contentOf]
    split_ifs
    · exact Bool.false_ne_true
    · rw [List.any_cons, List.any_nil, Bool.or_false, decide_eq_true_eq, not_not]
      exact text
  rw [conclude, completed]
  dsimp only
  rw [if_neg (not_not.mpr started), if_neg (complete ▸ Bool.false_ne_true), if_neg modalities,
    if_neg fun both => both.2 tools, if_neg fun both => both.1 parallel]

/-- What the events of a finished stream record. -/
theorem events_record {read : Assembly} (recorded : Recorded read)
    (entries : List (Int × CallState)) (new : List ToolCall) (sequence : Nat)
    (response : ModelResponse) :
    let events := (read.emitted ++ completions read.sequence entries new) ++
      [.responseCompleted sequence response]
    events.filterMap ModelEvent.text? = read.textParts ∧
      events.filterMap ModelEvent.completedCall? = (keys entries).zip new ∧
      (events.filterMap ModelEvent.usage?).getLast? = read.usage := by
  obtain ⟨texts, usages⟩ := @completions_texts entries new read.sequence
  dsimp only
  simp only [List.filterMap_append, texts, usages, completions_calls, recorded.texts,
    recorded.calls]
  refine ⟨?_, ?_, ?_⟩
  · exact (List.append_nil _).trans (List.append_nil _)
  · exact List.append_nil _
  · rw [← recorded.usage, List.append_nil]
    exact congrArg _ (List.append_nil _)

/-- The collector takes every stream the adapter finishes, and returns its response. -/
theorem stream_collected {chunks : List Chunk} {events : List ModelEvent}
    {response : ModelResponse} (h : streamChunks host chunks = .ok (events, response))
    {capabilities : ModelCapabilities} (tools : capabilities.toolCalling = true)
    (parallel : capabilities.parallelToolCalls = true)
    (text : Modality.text ∈ capabilities.outputModalities) {messageId : Option String}
    (identified : messageId ≠ some "") :
    collectModelStream capabilities messageId events = .ok (identifiedAs messageId response) ∧
      (∃ sequence, events.getLast? = some (.responseCompleted sequence response)) ∧
      response.message.content = contentOf (String.join (events.filterMap ModelEvent.text?)) ∧
      response.message.toolCalls = (events.filterMap ModelEvent.completedCall?).map Prod.snd ∧
      (events.filterMap ModelEvent.completedCall?).Pairwise (fun call other => call.1 < other.1) ∧
      response.usage = (events.filterMap ModelEvent.usage?).getLast? := by
  obtain ⟨first, yielded, h⟩ := bind_eq_ok h
  cases emit_eq_ok yielded
  obtain ⟨read, reading, h⟩ := bind_eq_ok h
  obtain ⟨⟨s, calls⟩, completing, h⟩ := bind_eq_ok h
  obtain ⟨response, responded, h⟩ := bind_eq_ok h
  obtain ⟨last, ended, h⟩ := bind_eq_ok h
  cases emit_eq_ok ended
  cases h
  rw [receiveChunks_items] at reading
  obtain ⟨-, recorded, -, ending⟩ := received reading nofun (recorded_started host)
  obtain ⟨new, made, distinct, same⟩ := completed_calls completing List.nodup_nil
  cases same
  rw [List.nil_append] at distinct responded
  have callsDistinct : (callIds read).Nodup := by
    rw [ids_of_normalizes made] at distinct
    exact ((sortedCalls_perm read).map _).nodup_iff.mp distinct
  obtain ⟨k, collected, mirrors⟩ := ending (accepted_started host) callsDistinct
  obtain ⟨content, toolCalls, usage, adopted⟩ := respond_eq_ok responded recorded.written
  obtain ⟨k', finished, finishing⟩ := mirrors.finishing.run made (sortedCalls_distinct read)
  rw [← show response.usage = read.usage from usage, List.nil_append] at finishing
  have increasing := sortedCalls_increasing read
  obtain ⟨last, observed, completed, started, complete⟩ :=
    finishing.complete increasing made.length_eq toolCalls
  obtain ⟨texts, zipped, usages⟩ := events_record recorded read.sortedCalls new
    (read.sequence + read.sortedCalls.length) response
  refine ⟨?_, ⟨_, List.getLast?_concat⟩, ?_, ?_, ?_, usage.trans usages.symm⟩
  · have collects : ((read.emitted ++ completions read.sequence read.sortedCalls new) ++
        [ModelEvent.responseCompleted (read.sequence + read.sortedCalls.length) response]).foldlM
          Collection.observe {} = .ok last := by
      rw [List.foldlM_append, List.foldlM_append, collected, ok_bind, finished, ok_bind]
      exact (bind_pure _).trans observed
    refine (congrArg (· >>= _) collects).trans ?_
    exact (conclude_eq started completed complete tools parallel text content messageId).trans
      (adopted messageId identified)
  · exact content.trans (congrArg _ (congrArg _ texts.symm))
  · rw [toolCalls]
    refine Eq.symm ((congrArg _ zipped).trans (List.map_snd_zip ?_))
    rw [keys, List.length_map, made.length_eq]
  · refine zipped ▸ List.pairwise_map.mp ?_
    rw [List.map_fst_zip (by rw [keys, List.length_map, made.length_eq])]
    exact increasing

/-- Two interleaved calls after a text, the usage in the last chunk. -/
def lookupChunks : List Chunk :=
  [textChunk "look", callChunk 1 (some "b") (some "stop") none,
    callChunk 0 none (some "lookup") (some "\x7b\"value\":"), textChunk "ing",
    callChunk 0 none none (some "1\x7d"),
    ⟨some "c", some ⟨some 7, some 3, some 10⟩, [⟨some "tool_calls", ⟨none, none, []⟩⟩]⟩]

theorem stream_collected_lookup :
    ∃ events response, streamChunks lookupHost lookupChunks = .ok (events, response) ∧
      collectModelStream ⟨[.text], true, true⟩ (some "run") events =
        .ok (identifiedAs (some "run") response) := by
  cases h : streamChunks lookupHost lookupChunks with
  | error failure =>
    have finishes : (streamChunks lookupHost lookupChunks).isOk = true := by decide +kernel
    rw [h] at finishes
    cases finishes
  | ok result =>
    exact ⟨result.1, result.2, rfl,
      (stream_collected h rfl rfl List.mem_cons_self (by decide)).1⟩

/-- Tool-capable capabilities need not admit text, and an identity may be refused. -/
theorem text_not_collected :
    ∃ events response, streamChunks lookupHost [textChunk "hi"] = .ok (events, response) ∧
      collectModelStream ⟨[], true, true⟩ none events = .error
        (.modelCapability .unsupportedOutputModality "Model emitted an unsupported modality.") ∧
      collectModelStream ⟨[.text], true, true⟩ (some "") events = .error
        (.messageProtocol "message_id must be a non-empty string.") :=
  ⟨_, _, rfl, rfl, rfl⟩

end RoboAgent.StreamCollector
