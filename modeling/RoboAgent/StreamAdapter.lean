import Mathlib
import RoboAgent.ModelEvents
import RoboAgent.Dicts

/-! The OpenAI-compatible adapter: the chunks of a provider turned into canonical events. What the
adapter yields is kept in order; when it raises, only the exception is. -/

namespace RoboAgent.StreamAdapter
open RoboAgent.FrozenJson RoboAgent.KeyedLists RoboAgent.Messages RoboAgent.ModelEvents
open RoboAgent.Dicts

/-- What json.loads does with the arguments of a call. -/
inductive Loaded
  | value (value : JsonValue)
  | decodeError
  | raised (exception : String)

/-- The arguments of _stream_chunks and what it takes from its host: json.loads, the clock, and the
identities drawn by uuid4, for a call by its index. -/
structure Host where
  modelName : String
  preserveReasoningContent : Bool
  loads : String → Loaded
  callSuffix : Int → String
  now : PyFloat
  responseId : String
  messageId : String
  finite : now.isFinite = true
  identified : responseId ≠ "" ∧ messageId ≠ ""

def Host.generatedId (host : Host) (index : Int) : String :=
  host.modelName ++ ":tool:" ++ toString index ++ ":" ++ host.callSuffix index

structure CallState where
  id : String
  name : String
  arguments : String
deriving DecidableEq

/-- The variables of _stream_chunks, and the events it has yielded. -/
structure Assembly where
  responseId : String
  sequence : Nat := 0
  textParts : List String := []
  reasoningParts : List String := []
  calls : Dict Int CallState := .empty
  finishReason : FinishReason := .other
  usage : Option Usage := none
  emitted : List ModelEvent := []

namespace Assembly

def yielded (s : Assembly) (event : Nat → ModelEvent) : Assembly :=
  { s with sequence := s.sequence + 1, emitted := s.emitted ++ [event s.sequence] }

/-- Build the next event and yield it. -/
def emit (s : Assembly) (event : Nat → ModelEvent) : Except Failure Assembly :=
  match (event s.sequence).refused with
  | some message => .error (.valueError message)
  | none => .ok (s.yielded event)

def receiveId (s : Assembly) (chunkId : Option String) : Assembly :=
  match given chunkId with
  | none => s
  | some id =>
    if s.responseId ≠ id ∧ s.textParts = [] ∧ s.calls.entries.isEmpty then
      { s with responseId := id }
    else s

def receiveUsage (s : Assembly) (raw : RawUsage) : Except Failure Assembly :=
  if raw.normalized.checked then
    { s with usage := some raw.normalized }.emit (.usageUpdated · raw.normalized)
  else .error (.valueError "Usage values must be non-negative integers.")

def finishReasonOf (value : String) : FinishReason :=
  match value with
  | "stop" => .stop
  | "tool_calls" => .toolCall
  | "function_call" => .toolCall
  | "length" => .length
  | "content_filter" => .contentFilter
  | _ => .other

def receiveReason (s : Assembly) (reason : String) : Assembly :=
  { s with finishReason := finishReasonOf reason }

def receiveReasoning (host : Host) (s : Assembly) (text : Option String) : Assembly :=
  match given text with
  | none => s
  | some text =>
    if host.preserveReasoningContent then
      { s with reasoningParts := s.reasoningParts ++ [text] }
    else s

def receiveContent (s : Assembly) (text : Option String) : Except Failure Assembly :=
  match given text with
  | none => .ok s
  | some text => { s with textParts := s.textParts ++ [text] }.emit (.textDelta · text)

/-- The state the first fragment of an index gives its call, before its arguments. -/
def opened (host : Host) (fragment : ToolCallFragment) : CallState where
  id := (given fragment.id).getD (host.generatedId fragment.index)
  name := orEmpty (fragment.function.bind FunctionFragment.name)
  arguments := ""

def openCall (host : Host) (s : Assembly) (fragment : ToolCallFragment) :
    Except Failure (Assembly × CallState) :=
  match s.calls.get fragment.index with
  | some state => .ok (s, state)
  | none => do
    let state := opened host fragment
    let s ← { s with calls := s.calls.put fragment.index state }.emit
      (.toolCallStarted · fragment.index state.id (fragment.function.bind FunctionFragment.name))
    return (s, state)

def extended (state : CallState) (function : FunctionFragment) : CallState where
  id := state.id
  name := (given function.name).getD state.name
  arguments := state.arguments ++ orEmpty function.arguments

def receiveFunction (s : Assembly) (index : Int) (state : CallState)
    (function : FunctionFragment) : Except Failure Assembly :=
  if (given function.name).any fun name => state.name ≠ "" ∧ state.name ≠ name then
    .error (.modelProtocol .invalidToolCallDeltaState "Tool name changed during streaming.")
  else
    let s := { s with calls := s.calls.put index (extended state function) }
    if orEmpty function.arguments = "" then .ok s
    else s.emit (.toolCallArgumentsDelta · index state.id (orEmpty function.arguments))

/-- A fragment whose call is open. -/
def receiveOpened (s : Assembly) (state : CallState) (fragment : ToolCallFragment) :
    Except Failure Assembly :=
  if (given fragment.id).any (· ≠ state.id) then
    .error (.modelProtocol .invalidToolCallDeltaState "ToolCall ID changed during streaming.")
  else
    match fragment.function with
    | none => .ok s
    | some function => receiveFunction s fragment.index state function

def receiveFragment (host : Host) (s : Assembly) (fragment : ToolCallFragment) :
    Except Failure Assembly := do
  let (s, state) ← openCall host s fragment
  receiveOpened s state fragment

def receiveChoice (host : Host) (s : Assembly) (choice : Choice) : Except Failure Assembly := do
  let s := choice.finishReason.elim s s.receiveReason
  let s := s.receiveReasoning host choice.delta.reasoningContent
  let s ← s.receiveContent choice.delta.content
  choice.delta.toolCalls.foldlM (receiveFragment host) s

def receiveChunk (host : Host) (s : Assembly) (chunk : Chunk) : Except Failure Assembly := do
  let s := s.receiveId chunk.id
  let s ← chunk.usage.elim (.ok s) s.receiveUsage
  chunk.choices.foldlM (receiveChoice host) s

/-- The call that the fragments of an index make. -/
def normalize (host : Host) (state : CallState) : Except Failure ToolCall :=
  if state.name = "" then .error (.modelProtocol .incompleteToolCall "ToolCall has no name.")
  else
    match host.loads (if state.arguments = "" then "\x7b\x7d" else state.arguments) with
    | .decodeError =>
      .error (.modelProtocol .invalidToolArguments "Tool arguments are invalid JSON.")
    | .raised exception => .error (.arguments exception)
    | .value (.obj entries) =>
      if h : wellFormed (.obj entries) = true ∧ state.id ≠ "" then
        .ok ⟨state.id, state.name, entries, h.1⟩
      else
        .error (.modelProtocol .invalidToolArguments "Tool arguments are not canonical JSON.")
    | .value _ =>
      .error (.modelProtocol .invalidToolArguments "Tool arguments must be a JSON object.")

def completeCall (host : Host) (progress : Assembly × List ToolCall) (entry : Int × CallState) :
    Except Failure (Assembly × List ToolCall) := do
  let call ← normalize host entry.2
  if progress.2.any (·.id = call.id) then
    .error (.modelProtocol .duplicateToolCallId "ToolCall IDs must be unique.")
  else
    let s ← progress.1.emit (.toolCallCompleted · entry.1 call)
    return (s, progress.2 ++ [call])

/-- The calls by index. -/
def sortedCalls (s : Assembly) : List (Int × CallState) :=
  s.calls.entries.insertionSort fun entry other => entry.1 ≤ other.1

def answer (s : Assembly) : List MessageContent :=
  if s.textParts.isEmpty then [] else [.text (String.join s.textParts)]

/-- The response of the texts and of the calls that were completed. -/
def respond (host : Host) (s : Assembly) (normalized : List ToolCall) :
    Except Failure ModelResponse :=
  if s.answer.isEmpty ∧ normalized.isEmpty then
    .error (.modelProtocol .emptyModelResponse
      "Provider completed without text or a tool call.")
  else do
    let message ← assistantMessage s.answer normalized
      (given (some (String.join s.reasoningParts))) host.now host.messageId
    return ⟨message, s.finishReason, s.usage⟩

end Assembly

open Assembly

def started (host : Host) : Assembly := ⟨host.responseId, 0, [], [], .empty, .other, none, []⟩

/-- _stream_chunks: the events and the response of the last one. -/
def streamChunks (host : Host) (chunks : List Chunk) :
    Except Failure (List ModelEvent × ModelResponse) := do
  let s ← (started host).emit (.responseStarted · host.responseId)
  let s ← chunks.foldlM (receiveChunk host) s
  let (s, normalized) ← s.sortedCalls.foldlM (completeCall host) (s, [])
  let response ← s.respond host normalized
  let s ← s.emit (.responseCompleted · response)
  return (s.emitted, response)

/-- What a chunk carries, in the order in which the adapter reads it. -/
inductive Item
  | id (chunkId : Option String)
  | usage (raw : RawUsage)
  | reason (reason : String)
  | reasoning (text : Option String)
  | content (text : Option String)
  | fragment (fragment : ToolCallFragment)
deriving DecidableEq

def choiceItems (choice : Choice) : List Item :=
  (choice.finishReason.toList.map Item.reason ++
    [.reasoning choice.delta.reasoningContent, .content choice.delta.content]) ++
    choice.delta.toolCalls.map Item.fragment

def chunkItems (chunk : Chunk) : List Item :=
  (.id chunk.id :: chunk.usage.toList.map Item.usage) ++ chunk.choices.flatMap choiceItems

def streamItems (chunks : List Chunk) : List Item := chunks.flatMap chunkItems

def receive (host : Host) (s : Assembly) : Item → Except Failure Assembly
  | .id chunkId => .ok (s.receiveId chunkId)
  | .usage raw => s.receiveUsage raw
  | .reason reason => .ok (s.receiveReason reason)
  | .reasoning text => .ok (s.receiveReasoning host text)
  | .content text => s.receiveContent text
  | .fragment fragment => receiveFragment host s fragment

theorem foldlM_flatMap {α β σ ε : Type} (f : σ → β → Except ε σ) (g : α → List β) (list : List α)
    (s : σ) : (list.flatMap g).foldlM f s = list.foldlM (fun s a => (g a).foldlM f s) s := by
  induction list generalizing s with
  | nil => rfl
  | cons a rest ih =>
    rw [List.flatMap_cons, List.foldlM_append, List.foldlM_cons]
    exact congrArg _ (funext ih)

variable {host : Host}

theorem receiveChoice_items (s : Assembly) (choice : Choice) :
    receiveChoice host s choice = (choiceItems choice).foldlM (receive host) s := by
  have rest : ∀ s, (do
      let s ← (receiveReasoning host s choice.delta.reasoningContent).receiveContent
        choice.delta.content
      choice.delta.toolCalls.foldlM (receiveFragment host) s) =
        ([Item.reasoning choice.delta.reasoningContent, Item.content choice.delta.content] ++
          choice.delta.toolCalls.map Item.fragment).foldlM (receive host) s := by
    intro s
    have content : (receiveReasoning host s choice.delta.reasoningContent).receiveContent
        choice.delta.content = [Item.reasoning choice.delta.reasoningContent,
          Item.content choice.delta.content].foldlM (receive host) s := (bind_pure _).symm
    rw [List.foldlM_append, ← content]
    refine bind_congr fun s => ?_
    rw [List.foldlM_map]
    rfl
  rw [choiceItems, List.append_assoc, List.foldlM_append, receiveChoice]
  cases choice.finishReason with
  | none => exact rest s
  | some reason => exact rest (s.receiveReason reason)

theorem receiveChunk_items (s : Assembly) (chunk : Chunk) :
    receiveChunk host s chunk = (chunkItems chunk).foldlM (receive host) s := by
  have choices : ∀ s, chunk.choices.foldlM (receiveChoice host) s =
      (chunk.choices.flatMap choiceItems).foldlM (receive host) s := by
    intro s
    rw [foldlM_flatMap]
    exact congrArg (chunk.choices.foldlM · s) (funext₂ receiveChoice_items)
  rw [chunkItems, List.foldlM_append, receiveChunk]
  cases chunk.usage with
  | none => exact choices _
  | some raw =>
    have read : (s.receiveId chunk.id).receiveUsage raw =
        (Item.id chunk.id :: [Item.usage raw]).foldlM (receive host) s := (bind_pure _).symm
    exact (congrArg (· >>= _) read).trans (bind_congr choices)

/-- Only the order of the items matters, not how they are put into chunks and choices. -/
theorem receiveChunks_items (s : Assembly) (chunks : List Chunk) :
    chunks.foldlM (receiveChunk host) s = (streamItems chunks).foldlM (receive host) s := by
  rw [streamItems, foldlM_flatMap]
  exact congrArg (chunks.foldlM · s) (funext₂ receiveChunk_items)

/-- What the first exception of a fragment is, once its call is open. -/
def changed (state : CallState) (fragment : ToolCallFragment) : Option Failure :=
  if (given fragment.id).any (· ≠ state.id) then
    some (.modelProtocol .invalidToolCallDeltaState "ToolCall ID changed during streaming.")
  else if (fragment.function.bind fun function => given function.name).any fun name =>
      state.name ≠ "" ∧ state.name ≠ name then
    some (.modelProtocol .invalidToolCallDeltaState "Tool name changed during streaming.")
  else none

/-- The exception an item raises. -/
def fault (host : Host) (s : Assembly) : Item → Option Failure
  | .usage raw =>
    if raw.normalized.checked then none
    else some (.valueError "Usage values must be non-negative integers.")
  | .fragment fragment =>
    match s.calls.get fragment.index with
    | none =>
      (ModelEvent.toolCallStarted s.sequence fragment.index (opened host fragment).id
        (fragment.function.bind FunctionFragment.name)).refused.map .valueError
    | some state => changed state fragment
  | .id _ | .reason _ | .reasoning _ | .content _ => none

def advanceOpen (host : Host) (s : Assembly) (fragment : ToolCallFragment) : Assembly :=
  match s.calls.get fragment.index with
  | some _ => s
  | none =>
    let state := opened host fragment
    { s with calls := s.calls.put fragment.index state }.yielded
      (.toolCallStarted · fragment.index state.id (fragment.function.bind FunctionFragment.name))

def advanceFunction (s : Assembly) (index : Int) (state : CallState)
    (function : FunctionFragment) : Assembly :=
  let s := { s with calls := s.calls.put index (extended state function) }
  if orEmpty function.arguments = "" then s
  else s.yielded (.toolCallArgumentsDelta · index state.id (orEmpty function.arguments))

/-- What an item that raises nothing makes of the assembly. -/
def advance (host : Host) (s : Assembly) : Item → Assembly
  | .id chunkId => s.receiveId chunkId
  | .usage raw =>
    { s with usage := some raw.normalized }.yielded (.usageUpdated · raw.normalized)
  | .reason reason => s.receiveReason reason
  | .reasoning text => s.receiveReasoning host text
  | .content text =>
    (given text).elim s fun text =>
      { s with textParts := s.textParts ++ [text] }.yielded (.textDelta · text)
  | .fragment fragment =>
    fragment.function.elim (advanceOpen host s fragment) fun function =>
      advanceFunction (advanceOpen host s fragment) fragment.index
        ((s.calls.get fragment.index).getD (opened host fragment)) function

/-- The calls an assembly holds have an index and an id that events accept. -/
def Sound (s : Assembly) : Prop :=
  ∀ index state, s.calls.get index = some state → 0 ≤ index ∧ state.id ≠ ""

theorem generatedId_ne (host : Host) (index : Int) : host.generatedId index ≠ "" := by
  intro empty
  have length := congrArg String.length empty
  simp only [Host.generatedId, String.length_append] at length
  have colon : ":tool:".length = 6 := rfl
  have none : "".length = 0 := rfl
  omega

theorem opened_id_ne (host : Host) (fragment : ToolCallFragment) :
    (opened host fragment).id ≠ "" := by
  rw [opened]
  cases identified : given fragment.id with
  | none => exact generatedId_ne host fragment.index
  | some id => exact (given_eq_some.mp identified).2

theorem refused_delta {sequence : Nat} {index : Int} {callId piece : String} (inside : 0 ≤ index)
    (identified : callId ≠ "") :
    (ModelEvent.toolCallArgumentsDelta sequence index callId piece).refused = none := by
  rw [ModelEvent.refused, if_neg]
  · exact if_neg identified
  · rw [ModelEvent.callIndex?, Option.any_some, decide_eq_true_eq]
    omega

theorem refused_started_eq_none {sequence : Nat} {index : Int} {callId : String}
    {name : Option String} :
    (ModelEvent.toolCallStarted sequence index callId name).refused = none ↔
      0 ≤ index ∧ callId ≠ "" ∧ name ≠ some "" := by
  rw [ModelEvent.refused, ModelEvent.callIndex?, Option.any_some]
  split_ifs with negative missing unnamed
  · exact iff_of_false nofun fun h => absurd (of_decide_eq_true negative) (not_lt.mpr h.1)
  · exact iff_of_false nofun fun h => h.2.1 missing
  · exact iff_of_false nofun fun h => h.2.2 unnamed
  · rw [decide_eq_true_eq, not_lt] at negative
    exact iff_of_true rfl ⟨negative, missing, unnamed⟩

theorem changed_opened (host : Host) (fragment : ToolCallFragment) :
    changed (opened host fragment) fragment = none := by
  have sameId : (given fragment.id).any (· ≠ (opened host fragment).id) = false := by
    rw [opened]
    cases given fragment.id <;> simp
  have sameName : (fragment.function.bind fun function => given function.name).any (fun name =>
      (opened host fragment).name ≠ "" ∧ (opened host fragment).name ≠ name) = false := by
    rw [opened]
    cases fragment.function with
    | none => rfl
    | some function =>
      dsimp only [Option.bind_some]
      cases named : given function.name with
      | none => rfl
      | some name => simp [orEmpty, (given_eq_some.mp named).1]
  rw [changed, sameId, sameName]
  rfl

theorem emit_of_accepted {s : Assembly} {event : Nat → ModelEvent}
    (accepted : (event s.sequence).refused = none) : s.emit event = .ok (s.yielded event) := by
  rw [emit, accepted]

theorem emit_eq_ok {s s' : Assembly} {event : Nat → ModelEvent} (h : s.emit event = .ok s') :
    s' = s.yielded event := by
  rw [emit] at h
  split at h
  · cases h
  · exact (Except.ok.inj h).symm

theorem receiveFunction_eq (s : Assembly) {index : Int} {state : CallState}
    (function : FunctionFragment) (inside : 0 ≤ index) (identified : state.id ≠ "") :
    receiveFunction s index state function =
      if (given function.name).any fun name => state.name ≠ "" ∧ state.name ≠ name then
        .error (.modelProtocol .invalidToolCallDeltaState "Tool name changed during streaming.")
      else .ok (advanceFunction s index state function) := by
  rw [receiveFunction, advanceFunction]
  dsimp only
  rw [emit_of_accepted (refused_delta inside identified)]
  split_ifs <;> rfl

theorem receiveOpened_eq (s : Assembly) {state : CallState} (fragment : ToolCallFragment)
    (inside : 0 ≤ fragment.index) (identified : state.id ≠ "") :
    receiveOpened s state fragment = (changed state fragment).elim
      (.ok (fragment.function.elim s (advanceFunction s fragment.index state))) .error := by
  rw [receiveOpened]
  rw [changed]
  split_ifs with idChanged nameChanged
  · rfl
  · cases called : fragment.function with
    | none =>
      rw [called] at nameChanged
      cases nameChanged
    | some function =>
      rw [called] at nameChanged
      exact (receiveFunction_eq s function inside identified).trans (if_pos nameChanged)
  · cases called : fragment.function with
    | none => rfl
    | some function =>
      rw [called] at nameChanged
      exact (receiveFunction_eq s function inside identified).trans (if_neg nameChanged)

theorem receiveFragment_eq {s : Assembly} (sound : Sound s) (fragment : ToolCallFragment) :
    receiveFragment host s fragment = (fault host s (.fragment fragment)).elim
      (.ok (advance host s (.fragment fragment))) .error := by
  rw [receiveFragment, openCall, fault, advance, advanceOpen]
  cases known : s.calls.get fragment.index with
  | some state =>
    obtain ⟨inside, identified⟩ := sound _ _ known
    exact receiveOpened_eq s fragment inside identified
  | none =>
    dsimp only [emit]
    cases refused : (ModelEvent.toolCallStarted s.sequence fragment.index (opened host fragment).id
        (fragment.function.bind FunctionFragment.name)).refused with
    | some message => rfl
    | none =>
      obtain ⟨inside, identified, -⟩ := refused_started_eq_none.mp refused
      refine (receiveOpened_eq _ fragment inside identified).trans ?_
      rw [changed_opened]
      rfl

/-- An item is received unless it raises. -/
theorem receive_eq {s : Assembly} (sound : Sound s) (item : Item) :
    receive host s item = (fault host s item).elim (.ok (advance host s item)) .error := by
  cases item with
  | fragment fragment => exact receiveFragment_eq sound fragment
  | usage raw =>
    rw [receive, receiveUsage, fault, advance]
    split_ifs <;> rfl
  | content text =>
    rw [receive, receiveContent, fault, advance]
    cases given text <;> rfl
  | id _ | reason _ | reasoning _ => rfl

theorem receive_eq_ok {s s' : Assembly} {item : Item} (sound : Sound s)
    (h : receive host s item = .ok s') : fault host s item = none ∧ s' = advance host s item := by
  rw [receive_eq sound] at h
  cases raised : fault host s item with
  | none =>
    rw [raised] at h
    exact ⟨rfl, (Except.ok.inj h).symm⟩
  | some failure =>
    rw [raised] at h
    cases h

theorem calls_advanceOpen (s : Assembly) (fragment : ToolCallFragment) (index : Int) :
    (advanceOpen host s fragment).calls.get index =
      if index = fragment.index then
        some ((s.calls.get fragment.index).getD (opened host fragment))
      else s.calls.get index := by
  rw [advanceOpen]
  cases known : s.calls.get fragment.index with
  | none => exact Dict.get_put ..
  | some state =>
    split_ifs with here
    · exact here ▸ known
    · rfl

theorem calls_advanceFunction (s : Assembly) (place : Int) (state : CallState)
    (function : FunctionFragment) (index : Int) :
    (advanceFunction s place state function).calls.get index =
      if index = place then some (extended state function) else s.calls.get index := by
  have put := Dict.get_put s.calls place (extended state function) index
  rw [advanceFunction]
  split_ifs at put ⊢ <;> exact put

/-- How a fragment changes the calls. -/
theorem calls_advance_fragment (s : Assembly) (fragment : ToolCallFragment) (index : Int) :
    (advance host s (.fragment fragment)).calls.get index =
      if index = fragment.index then
        let state := (s.calls.get fragment.index).getD (opened host fragment)
        some (fragment.function.elim state (extended state))
      else s.calls.get index := by
  rw [advance]
  cases fragment.function with
  | none => exact calls_advanceOpen s fragment index
  | some function =>
    rw [Option.elim_some, calls_advanceFunction, calls_advanceOpen]
    split_ifs <;> rfl

theorem fragment_or (item : Item) :
    (∃ fragment, item = .fragment fragment) ∨ ∀ fragment, item ≠ .fragment fragment := by
  cases item with
  | fragment fragment => exact .inl ⟨fragment, rfl⟩
  | _ => exact .inr fun _ same => nomatch same

theorem receiveId_frame (s : Assembly) (chunkId : Option String) :
    ∃ responseId, s.receiveId chunkId = { s with responseId } := by
  rw [receiveId]
  cases given chunkId with
  | none => exact ⟨s.responseId, rfl⟩
  | some id =>
    dsimp only
    split_ifs
    · exact ⟨id, rfl⟩
    · exact ⟨s.responseId, rfl⟩

theorem receiveReasoning_eq (s : Assembly) (text : Option String) :
    s.receiveReasoning host text = { s with reasoningParts := s.reasoningParts ++
      if host.preserveReasoningContent then (given text).toList else [] } := by
  rw [receiveReasoning]
  cases given text with
  | none =>
    rw [Option.toList_none, ite_self, List.append_nil]
  | some text =>
    dsimp only
    split_ifs
    · rfl
    · rw [List.append_nil]

/-- Whatever is not a fragment leaves the calls alone. -/
theorem calls_advance_other (s : Assembly) {item : Item}
    (other : ∀ fragment, item ≠ .fragment fragment) : (advance host s item).calls = s.calls := by
  cases item with
  | fragment fragment => exact absurd rfl (other fragment)
  | id chunkId =>
    obtain ⟨responseId, same⟩ := receiveId_frame s chunkId
    rw [advance, same]
  | reasoning text => rw [advance, receiveReasoning_eq]
  | content text =>
    rw [advance]
    cases given text <;> rfl
  | reason _ | usage _ => rfl

theorem sound_advance {s : Assembly} {item : Item} (sound : Sound s)
    (accepted : fault host s item = none) : Sound (advance host s item) := by
  intro index state found
  obtain ⟨fragment, rfl⟩ | other := fragment_or item
  · rw [calls_advance_fragment] at found
    split_ifs at found with here
    · subst here
      have former : 0 ≤ fragment.index ∧
          ((s.calls.get fragment.index).getD (opened host fragment)).id ≠ "" := by
        rw [fault] at accepted
        cases known : s.calls.get fragment.index with
        | some state => exact sound _ _ known
        | none =>
          rw [known] at accepted
          have started := refused_started_eq_none.mp (Option.map_eq_none_iff.mp accepted)
          exact ⟨started.1, started.2.1⟩
      cases Option.some.inj found
      refine ⟨former.1, ?_⟩
      cases fragment.function <;> exact former.2
    · exact sound index state found
  · rw [calls_advance_other s other] at found
    exact sound index state found

theorem sortedCalls_perm (s : Assembly) : s.sortedCalls.Perm s.calls.entries :=
  List.perm_insertionSort ..

theorem sortedCalls_distinct (s : Assembly) : (keys s.sortedCalls).Nodup :=
  ((sortedCalls_perm s).map Prod.fst).nodup_iff.mpr s.calls.distinct

theorem sortedCalls_increasing (s : Assembly) : (keys s.sortedCalls).Pairwise (· < ·) := by
  have sorted : s.sortedCalls.Pairwise fun entry other => entry.1 ≤ other.1 :=
    List.pairwise_insertionSort ..
  have ordered : (keys s.sortedCalls).Pairwise (· ≤ ·) := List.pairwise_map.mpr sorted
  exact (ordered.and (sortedCalls_distinct s)).imp fun both => lt_of_le_of_ne both.1 both.2

/-- The content of an answer with this text. -/
def contentOf (text : String) : List MessageContent := if text = "" then [] else [.text text]

theorem join_eq_empty {parts : List String} (written : ∀ part ∈ parts, part ≠ "") :
    String.join parts = "" ↔ parts = [] := by
  cases parts with
  | nil => exact iff_of_true rfl rfl
  | cons part parts =>
    refine iff_of_false (fun empty => ?_) nofun
    rw [String.join_cons, String.append_eq_empty_iff] at empty
    exact written part List.mem_cons_self empty.1

theorem answer_eq {s : Assembly} (written : ∀ part ∈ s.textParts, part ≠ "") :
    s.answer = contentOf (String.join s.textParts) := by
  rw [contentOf, answer]
  simp only [join_eq_empty written, List.isEmpty_iff]

/-- A host whose json.loads reads two texts. -/
def lookupHost : Host where
  modelName := "model"
  preserveReasoningContent := true
  loads text :=
    if text = "\x7b\"value\":1\x7d" then .value (.obj [("value", .int 1)])
    else if text = "\x7b\x7d" then .value (.obj [])
    else .decodeError
  callSuffix _ := "0a1b2c3d"
  now := ⟨0⟩
  responseId := "r"
  messageId := "m"
  finite := by decide
  identified := by decide

def textChunk (text : String) : Chunk := ⟨some "c", none, [⟨none, ⟨none, some text, []⟩⟩]⟩

def callChunk (index : Int) (id name arguments : Option String) : Chunk :=
  ⟨some "c", none, [⟨none, ⟨none, none, [⟨index, id, some ⟨name, arguments⟩⟩]⟩⟩]⟩

end RoboAgent.StreamAdapter
