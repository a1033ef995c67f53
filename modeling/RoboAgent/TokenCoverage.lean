import RoboAgent.TokenEstimation
import RoboAgent.SessionRestore

/-! Every text that is not counted made one character longer. The call ids of results are those of
calls, so the ids of calls grow with them. What the encoding gains past the count is the number of
such texts. -/

namespace RoboAgent.TokenCoverage
open RoboAgent.FrozenJson RoboAgent.ToolEffects RoboAgent.Messages RoboAgent.ContextCompaction
open RoboAgent.ContextPreparation RoboAgent.ExchangeGrammar RoboAgent.SessionTranscript
open RoboAgent.ContextEncoding RoboAgent.TokenEstimation RoboAgent.FalliblePrograms

def stretchType (mediaType : String) : String := if mediaType = "" then "" else mediaType ++ "x"

def stretchContent : MessageContent → MessageContent
  | .artifact reference =>
    .artifact { reference with mediaType := reference.mediaType.map stretchType }
  | content => content

def stretchCall (call : ToolCall) : ToolCall := { call with id := call.id ++ "x" }

def stretchResult (result : ToolResultMessage) : ToolResultMessage :=
  { result with
    content := result.content.map stretchContent
    toolCallId := result.toolCallId ++ "x" }

def stretchMessage : AgentMessage → AgentMessage
  | .user message => .user { message with content := message.content.map stretchContent }
  | .assistant message => .assistant { message with
      content := message.content.map stretchContent
      toolCalls := message.toolCalls.map stretchCall
      reasoningContent := message.reasoningContent.map (· ++ "x") }
  | .toolResult message => .toolResult (stretchResult message)

def stretchSegment : ModelContextSegment → ModelContextSegment
  | .message message => .message (stretchMessage message)
  | segment => segment

theorem grammar_stretch {messages : List AgentMessage} (h : Grammar messages) :
    Grammar (messages.map stretchMessage) := by
  induction h with
  | nil => exact .nil
  | user tail ih => exact .user ih
  | @exchange message results rest answers tail ih =>
    have results' : (results.map AgentMessage.toolResult).map stretchMessage =
        (results.map stretchResult).map .toolResult := by
      rw [List.map_map, List.map_map]
      rfl
    rw [List.cons_append, List.map_cons, List.map_append, results']
    refine .exchange ?_ ih
    rw [List.forall₂_map_left_iff, List.forall₂_map_right_iff]
    exact answers.imp fun call result same => ⟨congrArg (· ++ "x") same.1, same.2⟩

def stretchChecked : Segment → Segment
  | .message message => .message (stretchMessage message)
  | segment => segment

theorem asMessage_stretch (segment : Segment) :
    asMessage (stretchChecked segment) = (asMessage segment).map stretchMessage := by
  cases segment <;> rfl

theorem all_asMessage_stretch (segments : List Segment) :
    ((segments.map stretchChecked).all fun item => (asMessage item).isSome) =
      segments.all fun item => (asMessage item).isSome := by
  rw [List.all_map]
  congr
  funext item
  rw [Function.comp_apply, asMessage_stretch, Option.isSome_map]

theorem filterMap_asMessage_stretch (segments : List Segment) :
    (segments.map stretchChecked).filterMap asMessage =
      (segments.filterMap asMessage).map stretchMessage := by
  rw [List.filterMap_map, List.map_filterMap]
  congr
  funext item
  exact asMessage_stretch item

theorem validate_stretch {segments : List Segment}
    (h : validateSegmentExchanges segments = .ok ()) :
    validateSegmentExchanges (segments.map stretchChecked) = .ok () := by
  induction segments using validateSegmentExchanges.induct with
  | case1 => exact h
  | case2 message rest empty ih =>
    rw [validateSegmentExchanges, if_pos empty] at h
    have empty' : message.toolCalls.map stretchCall = [] := by rw [empty, List.map_nil]
    rw [List.map_cons, stretchChecked, stretchMessage, validateSegmentExchanges, if_pos empty']
    exact ih h
  | case3 message rest calls count results broken =>
    rw [validateSegmentExchanges, if_neg calls, if_pos broken] at h
    cases h
  | case4 message rest calls count results whole ih =>
    rw [validateSegmentExchanges, if_neg calls, if_neg whole, bind_isOk, messageGroups_iff] at h
    have calls' : message.toolCalls.map stretchCall ≠ [] := by
      rwa [Ne, List.map_eq_nil_iff]
    rw [List.map_cons, stretchChecked, stretchMessage, validateSegmentExchanges, if_neg calls']
    simp only [List.length_map, ← List.map_take, ← List.map_drop, all_asMessage_stretch,
      filterMap_asMessage_stretch]
    rw [if_neg whole, bind_isOk, messageGroups_iff]
    exact ⟨grammar_stretch h.1, ih h.2⟩
  | case5 message rest =>
    rw [validateSegmentExchanges] at h
    cases h
  | case6 message rest ih =>
    rw [validateSegmentExchanges] at h
    rw [List.map_cons, stretchChecked, stretchMessage, validateSegmentExchanges]
    exact ih h
  | case7 entries rest ih =>
    rw [validateSegmentExchanges] at h
    rw [List.map_cons, stretchChecked, validateSegmentExchanges]
    exacts [ih h, fun _ same => Segment.noConfusion same]
  | case8 text rest ih =>
    rw [validateSegmentExchanges] at h
    rw [List.map_cons, stretchChecked, validateSegmentExchanges]
    exacts [ih h, fun _ same => Segment.noConfusion same]

theorem checked_stretch (segments : List ModelContextSegment) :
    (segments.map stretchSegment).map ModelContextSegment.checked =
      (segments.map ModelContextSegment.checked).map stretchChecked := by
  rw [List.map_map, List.map_map]
  refine List.map_congr_left fun segment _ => ?_
  cases segment <;> rfl

theorem dropWhile_map_all {α : Type} {p : α → Bool} {f : α → α} (keeps : ∀ a, p (f a) = p a)
    (values : List α) :
    ((values.map f).dropWhile p).all (fun a => !p a) = (values.dropWhile p).all fun a => !p a := by
  have same : p ∘ f = p := funext keeps
  rw [List.dropWhile_map, List.all_map, same]
  congr
  exact funext fun a => congrArg Bool.not (keeps a)

theorem constructible_stretch {segments : List Segment} (h : constructible segments = true) :
    constructible (segments.map stretchChecked) = true := by
  rw [constructible, Bool.and_eq_true] at h ⊢
  obtain ⟨first, exchanges⟩ := h
  refine ⟨(dropWhile_map_all (fun segment => by cases segment <;> rfl) segments).trans first, ?_⟩
  cases made : validateSegmentExchanges segments with
  | error raised =>
    rw [made] at exchanges
    cases exchanges
  | ok =>
    rw [validate_stretch made]
    rfl

def stretch (context : ModelContext) : ModelContext where
  systemPrompt := context.systemPrompt
  segments := context.segments.map stretchSegment
  tools := context.tools
  constructed := checked_stretch context.segments ▸ constructible_stretch context.constructed

theorem isImage_stretch {mediaType : Option String}
    (h : isImage (mediaType.map stretchType) = true) : isImage mediaType = true := by
  cases mediaType with
  | none => exact h
  | some text =>
    rw [isImage, Option.map_some, Option.any_some, stretchType] at h
    rw [isImage, Option.any_some]
    split_ifs at h with empty
    · rw [empty]
      exact h
    · have extra : "x".toList = ['x'] := by decide
      rw [List.isPrefixOf_iff_prefix, String.toList_append, extra] at h
      rw [List.isPrefixOf_iff_prefix]
      obtain whole | shorter := List.prefix_concat_iff.mp h
      · have last := congrArg List.getLast? whole
        rw [List.getLast?_concat] at last
        exact absurd last (by decide)
      · exact shorter

theorem textual_stretch {client : Client} {content : MessageContent}
    (h : client.textual content = true) : client.textual (stretchContent content) = true := by
  cases content with
  | artifact reference =>
    rw [Client.textual, Bool.not_eq_true', Bool.and_eq_false_iff] at h
    rw [stretchContent, Client.textual, Bool.not_eq_true', Bool.and_eq_false_iff]
    refine h.imp_right fun other => ?_
    rw [← Bool.not_eq_true] at other ⊢
    exact fun image => other (isImage_stretch image)
  | _ => exact h

theorem plain_stretch {client : Client} {context : ModelContext} (h : client.Plain context) :
    client.Plain (stretch context) := by
  refine List.forall_mem_map.mpr fun segment mem => ?_
  have inside := h segment mem
  cases segment with
  | message message =>
    rw [stretchSegment, Client.textualSegment, List.all_eq_true]
    rw [Client.textualSegment, List.all_eq_true] at inside
    have each : ∀ content ∈ message.content.map stretchContent, client.textual content = true :=
      List.forall_mem_map.mpr fun content mem => textual_stretch (inside content mem)
    cases message <;> exact each
  | _ => rfl

theorem length_stretch (text : String) : (text ++ "x").length = text.length + 1 := by
  have extra : "x".length = 1 := by decide
  rw [String.length_append, extra]

theorem lengthens_stretchType (mediaType : Option String) :
    Lengthens mediaType (mediaType.map stretchType) := by
  cases mediaType with
  | none => exact .absent
  | some text =>
    rw [Option.map_some, stretchType]
    split_ifs with empty
    · rw [empty]
      exact .empty
    · exact .text empty (length_stretch text ▸ Nat.le_succ _)

section
variable {client : Client}

theorem contents_lengthen {items : List MessageContent} (plain : items.all client.textual = true) :
    List.Forall₂ (ContentLengthens client.floatText) items (items.map stretchContent) := by
  rw [List.forall₂_map_right_iff, List.forall₂_same]
  intro item mem
  have textual := List.all_eq_true.mp plain item mem
  cases item with
  | text => exact .text (Nat.le_refl _)
  | json => exact .json (Nat.le_refl _)
  | artifact reference =>
    exact .artifact ⟨Nat.le_refl _, Nat.le_refl _, rfl, lengthens_stretchType _, .refl _⟩
  | _ => cases textual

theorem calls_lengthen (calls : List ToolCall) :
    List.Forall₂ (CallLengthens client.floatText) calls (calls.map stretchCall) := by
  rw [List.forall₂_map_right_iff, List.forall₂_same]
  exact fun call _ => ⟨length_stretch call.id ▸ Nat.le_succ _, Nat.le_refl _, Nat.le_refl _⟩

theorem message_lengthens {message : AgentMessage}
    (plain : message.content.all client.textual = true) :
    MessageLengthens client.floatText message (stretchMessage message) := by
  cases message with
  | user message => exact .user (contents_lengthen plain)
  | toolResult message =>
    exact .toolResult (contents_lengthen plain)
      (length_stretch message.toolCallId ▸ Nat.le_succ _) rfl
  | assistant message =>
    refine .assistant (contents_lengthen plain) (calls_lengthen _) ?_
    cases message.reasoningContent with
    | none => exact .none
    | some text => exact .some (length_stretch text ▸ Nat.le_succ _)

theorem context_lengthens {context : ModelContext} (plain : client.Plain context) :
    ContextLengthens client.floatText context (stretch context) where
  systemPrompt := .refl _
  tools := List.forall₂_same.mpr fun _ _ => ⟨Nat.le_refl _, Nat.le_refl _, Nat.le_refl _⟩
  segments := by
    rw [stretch, List.forall₂_map_right_iff, List.forall₂_same]
    intro segment mem
    cases segment with
    | message message => exact .message (message_lengthens (plain _ mem))
    | summary => exact .summary (Nat.le_refl _)
    | workspaceReference => exact .workspaceReference (Nat.le_refl _) (.refl _) (.refl _)
    | contextData => exact .contextData (Nat.le_refl _)

/-- The texts of a message that are sent and not counted. -/
def uncounted (client : Client) (message : AgentMessage) : Nat :=
  (message.content.map fun content => (namesMediaType content).toNat).sum +
    match message with
    | .user _ => 0
    | .assistant message =>
      if client.preserveReasoningContent then message.reasoningContent.elim 0 fun _ => 1 else 0
    | .toolResult _ => 1

def callsOf : AgentMessage → Nat
  | .assistant message => message.toolCalls.length
  | .user _ | .toolResult _ => 0

def ofMessage (count : AgentMessage → Nat) : ModelContextSegment → Nat
  | .message message => count message
  | .summary _ | .workspaceReference .. | .contextData _ => 0

theorem block_stretch {content : MessageContent} {block : Block}
    (plain : client.textual content = true) (made : client.encodeBlock content = .ok block) :
    ∃ block', client.encodeBlock (stretchContent content) = .ok block' ∧
      block'.size = block.size + (namesMediaType content).toNat := by
  cases content with
  | text | json => exact ⟨block, made, rfl⟩
  | artifact reference =>
    have plain' := textual_stretch plain
    rw [stretchContent, Client.textual, Bool.not_eq_true'] at plain'
    rw [Client.textual, Bool.not_eq_true'] at plain
    rw [Client.encodeBlock, plain, if_neg Bool.false_ne_true] at made
    cases made
    refine ⟨_, by rw [stretchContent, Client.encodeBlock, plain', if_neg Bool.false_ne_true], ?_⟩
    have types := (lengthens_stretchType reference.mediaType).lines mediaTypeLines 13
      length_mediaTypeLines
    have one : ((reference.mediaType.map stretchType).getD "").length =
        (reference.mediaType.getD "").length + (namesMediaType (.artifact reference)).toNat := by
      rw [namesMediaType]
      cases reference.mediaType with
      | none => rfl
      | some text =>
        rw [Option.map_some, Option.getD_some, Option.getD_some, stretchType]
        split_ifs with empty
        · rw [empty]
          rfl
        · rw [given_some empty, length_stretch]
          rfl
    rw [Block.size, Block.size, length_artifactText, length_artifactText]
    dsimp only
    omega
  | _ => cases plain

theorem content_stretch {items : List MessageContent} {content : EncodedContent}
    (plain : items.all client.textual = true) (made : client.encodeContent items = .ok content) :
    ∃ content', client.encodeContent (items.map stretchContent) = .ok content' ∧
      content'.size = content.size +
        (items.map fun content => (namesMediaType content).toNat).sum := by
  obtain ⟨blocks, each, size⟩ := blocks_of_encodeContent made
  obtain ⟨blocks', each', sums⟩ := mapM_extra Block.size stretchContent
    (fun content => (namesMediaType content).toNat) each fun item mem block encoded =>
    block_stretch (List.all_eq_true.mp plain item mem) encoded
  obtain ⟨content', made', size'⟩ := encodeContent_of_blocks each'
  exact ⟨content', made', by rw [size', sums, size]⟩

theorem sum_map_one (calls : List ToolCall) : (calls.map fun _ => 1).sum = calls.length := by
  rw [List.map_const', List.sum_replicate_nat, Nat.mul_one]

theorem calls_stretch {calls : List ToolCall} {encoded : List EncodedCall}
    (made : calls.mapM client.encodeCall = .ok encoded) :
    ∃ encoded', (calls.map stretchCall).mapM client.encodeCall = .ok encoded' ∧
      (encoded'.map EncodedCall.size).sum =
        (encoded.map EncodedCall.size).sum + calls.length := by
  rw [← sum_map_one]
  refine mapM_extra EncodedCall.size stretchCall (fun _ => 1) made fun call _ one sent => ?_
  obtain ⟨arguments, written, rfl⟩ := map_eq_ok sent
  refine ⟨⟨call.id ++ "x", call.name, arguments⟩, ?_, ?_⟩
  · rw [Client.encodeCall, stretchCall, written, map_ok]
  · simp only [EncodedCall.size, length_stretch]
    omega

theorem message_stretch {message : AgentMessage} {encoded : EncodedMessage}
    (plain : message.content.all client.textual = true)
    (made : client.encodeMessage message = .ok encoded) :
    ∃ encoded', client.encodeMessage (stretchMessage message) = .ok encoded' ∧
      encoded'.size = encoded.size + (callsOf message + uncounted client message) := by
  obtain ⟨content, contents, made⟩ := bind_eq_ok made
  obtain ⟨content', contents', size⟩ := content_stretch plain contents
  cases message with
  | user message =>
    cases made
    refine ⟨.user content', bind_of_ok contents' _, ?_⟩
    simp only [EncodedMessage.size, size, callsOf, uncounted]
    omega
  | toolResult message =>
    cases made
    refine ⟨.tool (message.toolCallId ++ "x") content', bind_of_ok contents' _, ?_⟩
    simp only [EncodedMessage.size, length_stretch, size, callsOf, uncounted]
    omega
  | assistant message =>
    obtain ⟨calls, called, made⟩ := bind_eq_ok made
    obtain ⟨calls', called', sums⟩ := calls_stretch called
    cases made
    refine ⟨_, (bind_of_ok contents' _).trans (bind_of_ok called' _), ?_⟩
    simp only [EncodedMessage.size, EncodedContent.size_orNone, encoded_calls_size, size, callsOf,
      uncounted, sums]
    by_cases preserved : client.preserveReasoningContent = true
    · rw [if_pos preserved, if_pos preserved, if_pos preserved]
      cases message.reasoningContent with
      | none =>
        simp only [Option.map_none, Option.elim_none]
        omega
      | some text =>
        simp only [Option.map_some, Option.elim_some, length_stretch]
        omega
    · rw [if_neg preserved, if_neg preserved, if_neg preserved]
      simp only [Option.elim_none]
      omega

theorem contentCharacters_stretch (floatText : PyFloat → List Char) (content : MessageContent) :
    contentCharacters floatText (stretchContent content) = contentCharacters floatText content := by
  cases content <;> rfl

theorem partCharacters_stretch {floatText : PyFloat → List Char} {message : AgentMessage}
    {count : Nat} (counted : partCharacters floatText message = .ok count) :
    partCharacters floatText (stretchMessage message) = .ok (count + callsOf message) := by
  cases message with
  | user | toolResult => exact counted
  | assistant message =>
    obtain ⟨counts, each, rfl⟩ := map_eq_ok counted
    obtain ⟨counts', each', sums⟩ := mapM_extra id stretchCall (fun _ => 1) each
      fun call _ count here => by
        obtain ⟨arguments, written, rfl⟩ := map_eq_ok here
        refine ⟨(call.id ++ "x").length + call.name.length + arguments.length, ?_, ?_⟩
        · rw [callCharacters, stretchCall, written, map_ok]
        · rw [id, id, length_stretch]
          omega
    rw [List.map_id, List.map_id, sum_map_one] at sums
    rw [stretchMessage, partCharacters, each', map_ok, sums, callsOf]

theorem messageCharacters_stretch {floatText : PyFloat → List Char} {message : AgentMessage}
    {count : Nat} (counted : messageCharacters floatText message = .ok count) :
    messageCharacters floatText (stretchMessage message) = .ok (count + callsOf message) := by
  obtain ⟨contents, each, counted⟩ := bind_eq_ok counted
  obtain ⟨part, parts, counted⟩ := bind_eq_ok counted
  cases counted
  have same : (stretchMessage message).content = message.content.map stretchContent := by
    cases message <;> rfl
  rw [messageCharacters, same, List.mapM_map]
  simp only [Function.comp_def, contentCharacters_stretch]
  rw [each, ok_bind, partCharacters_stretch parts, ok_bind, ← Nat.add_assoc]

theorem encode_stretch {context : ModelContext} {request : Request} (plain : client.Plain context)
    (made : client.encode context = .ok request) :
    ∃ request', client.encode (stretch context) = .ok request' ∧
      request'.size client.floatText = request.size client.floatText +
        (context.segments.map (ofMessage fun message =>
          callsOf message + uncounted client message)).sum := by
  obtain ⟨messages, encoded, made⟩ := bind_eq_ok made
  cases made
  obtain ⟨messages', encoded', sums⟩ := mapM_extra EncodedMessage.size stretchSegment
    (ofMessage fun message => callsOf message + uncounted client message) encoded
    fun segment mem message sent => by
      cases segment with
      | message item => exact message_stretch (plain _ mem) sent
      | _ => exact ⟨message, sent, rfl⟩
  refine ⟨_, bind_of_ok encoded' _, ?_⟩
  simp only [Request.size, List.map_append, List.sum_append, sums, stretch]
  omega

theorem characters_stretch {floatText : PyFloat → List Char} {context : ModelContext} {count : Nat}
    (counted : characters floatText context = .ok count) :
    characters floatText (stretch context) =
      .ok (count + (context.segments.map (ofMessage callsOf)).sum) := by
  obtain ⟨tools, defined, counted⟩ := bind_eq_ok counted
  obtain ⟨counts, each, counted⟩ := bind_eq_ok counted
  cases counted
  obtain ⟨counts', each', sums⟩ := mapM_extra id stretchSegment (ofMessage callsOf) each
    fun segment _ count here => by
      cases segment with
      | message item => exact ⟨_, messageCharacters_stretch here, rfl⟩
      | _ => exact ⟨count, here, rfl⟩
  rw [List.map_id, List.map_id] at sums
  refine (bind_of_ok defined _).trans ((bind_of_ok each' _).trans ?_)
  rw [sums, ← Nat.add_assoc]
  rfl

theorem sum_ofMessage_add (segments : List ModelContextSegment) (f g : AgentMessage → Nat) :
    (segments.map (ofMessage fun message => f message + g message)).sum =
      (segments.map (ofMessage f)).sum + (segments.map (ofMessage g)).sum := by
  induction segments with
  | nil => rfl
  | cons segment segments ih =>
    have here : ofMessage (fun message => f message + g message) segment =
        ofMessage f segment + ofMessage g segment := by
      cases segment <;> rfl
    simp only [List.map_cons, List.sum_cons, ih, here]
    omega

theorem covered_of_uncounted {message : AgentMessage} (h : uncounted client message = 0) :
    CoveredMessage client message := by
  rw [uncounted.eq_def, Nat.add_eq_zero_iff] at h
  obtain ⟨contents, own⟩ := h
  refine ⟨fun content mem => ?_, ?_⟩
  · have none := List.sum_eq_zero_iff_forall_eq_nat.mp contents _ (List.mem_map_of_mem mem)
    cases named : namesMediaType content with
    | false => rfl
    | true =>
      rw [named] at none
      cases none
  · cases message with
    | user => trivial
    | toolResult => cases own
    | assistant message =>
      intro preserved
      dsimp only at own
      rw [if_pos preserved] at own
      cases reasoning : message.reasoningContent with
      | none => rfl
      | some text =>
        rw [reasoning] at own
        cases own

/-- The estimator counts every text that a context sends, just when the context sends no reasoning,
no tool result and no media type of an artifact. -/
theorem counted_iff_covered {context : ModelContext} {request : Request} {count : Nat}
    (plain : client.Plain context) (made : client.encode context = .ok request)
    (counted : characters client.floatText context = .ok count) :
    Counted client context ↔ Covered client context := by
  refine ⟨fun h message mem => ?_, counted_of_covered plain⟩
  obtain ⟨request', made', grown⟩ := encode_stretch plain made
  have bound := h (stretch context) request request' _ _ _ (context_lengthens plain)
    (plain_stretch plain) made made' counted (characters_stretch counted) grown
  rw [sum_ofMessage_add] at bound
  have none : (context.segments.map (ofMessage (uncounted client))).sum = 0 := by omega
  exact covered_of_uncounted
    (List.sum_eq_zero_iff_forall_eq_nat.mp none _ (List.mem_map_of_mem mem))

end

def deepSeek : Client where
  floatText _ := []
  preserveReasoningContent := true
  artifactReader := false
  dataUrl _ := .error .mediaResolution

/-- A conversation with an answer that was reasoned about. -/
def reasoned (reasoning : String) : ModelContext where
  systemPrompt := some "Be brief."
  segments := [.message (.user SessionWorld.greeting),
    .message (.assistant { SessionRestore.replied with reasoningContent := some reasoning })]
  tools := []
  constructed := by
    simp [constructible, ModelContextSegment.checked, validateSegmentExchanges,
      SessionRestore.replied, Except.isOk, Except.toBool]

theorem reasoned_plain (reasoning : String) : deepSeek.Plain (reasoned reasoning) := by
  refine List.forall_mem_cons.mpr ⟨rfl, List.forall_mem_cons.mpr ⟨rfl, ?_⟩⟩
  exact List.forall_mem_nil _

theorem counted_iff_covered_reasoned :
    Counted deepSeek (reasoned "a") ↔ Covered deepSeek (reasoned "a") :=
  counted_iff_covered (reasoned_plain "a") rfl rfl

/-- Reasoning that is sent back grows by a character, and the count stays. -/
theorem reasoning_uncounted :
    deepSeek.Plain (reasoned "a") ∧ ¬Counted deepSeek (reasoned "a") := by
  refine ⟨reasoned_plain "a", fun h => ?_⟩
  have grows : ContextLengthens deepSeek.floatText (reasoned "a") (reasoned "ab") := {
    systemPrompt := .refl _
    tools := .nil
    segments := .cons (.message (.user (.cons (.text (Nat.le_refl _)) .nil)))
      (.cons (.message (.assistant (.cons (.text (Nat.le_refl _)) .nil) .nil
        (.some (by decide)))) .nil) }
  have bound := h _ _ _ _ _ 1 grows (reasoned_plain "ab") rfl rfl rfl rfl (by decide)
  exact absurd bound (by decide)

end RoboAgent.TokenCoverage
