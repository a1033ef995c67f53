import RoboAgent.ContextEncoding

/-! Growing texts. A context whose texts are counted as they are sent has a count that grows with
its encoding. -/

namespace RoboAgent.TokenEstimation
open RoboAgent.FrozenJson RoboAgent.JsonText RoboAgent.ToolEffects RoboAgent.Messages
open RoboAgent.ContextEncoding RoboAgent.FalliblePrograms

/-- A text and one at least as long; a text that is not sent stays so. -/
inductive Lengthens : Option String → Option String → Prop
  | absent : Lengthens none none
  | empty : Lengthens (some "") (some "")
  | text {s t : String} (sent : s ≠ "") (longer : s.length ≤ t.length) :
    Lengthens (some s) (some t)

theorem Lengthens.refl (text : Option String) : Lengthens text text := by
  cases text with
  | none => exact .absent
  | some text =>
    by_cases empty : text = ""
    · rw [empty]
      exact .empty
    · exact .text empty (Nat.le_refl _)

structure ArtifactLengthens (before after : ArtifactReferenceContent) : Prop where
  uri : before.uri.length ≤ after.uri.length
  digest : before.digest.length ≤ after.digest.length
  size : before.size = after.size
  mediaType : Lengthens before.mediaType after.mediaType
  preview : Lengthens before.preview after.preview

section
variable (floatText : PyFloat → List Char)

def JsonLengthens (before after : JsonValue) : Prop :=
  (write floatText before).length ≤ (write floatText after).length

inductive ContentLengthens : MessageContent → MessageContent → Prop
  | text {s t : String} (longer : s.length ≤ t.length) : ContentLengthens (.text s) (.text t)
  | json {v w : JsonValue} (longer : JsonLengthens floatText v w) :
    ContentLengthens (.json v) (.json w)
  | artifact {a b : ArtifactReferenceContent} (longer : ArtifactLengthens a b) :
    ContentLengthens (.artifact a) (.artifact b)

structure CallLengthens (before after : ToolCall) : Prop where
  id : before.id.length ≤ after.id.length
  name : before.name.length ≤ after.name.length
  arguments : JsonLengthens floatText (.obj before.arguments.entries) (.obj after.arguments.entries)

inductive MessageLengthens : AgentMessage → AgentMessage → Prop
  | user {m n : UserMessage}
    (content : List.Forall₂ (ContentLengthens floatText) m.content n.content) :
    MessageLengthens (.user m) (.user n)
  | assistant {m n : AssistantMessage}
    (content : List.Forall₂ (ContentLengthens floatText) m.content n.content)
    (calls : List.Forall₂ (CallLengthens floatText) m.toolCalls n.toolCalls)
    (reasoning : Option.Rel (fun s t => String.length s ≤ String.length t)
      m.reasoningContent n.reasoningContent) :
    MessageLengthens (.assistant m) (.assistant n)
  | toolResult {m n : ToolResultMessage}
    (content : List.Forall₂ (ContentLengthens floatText) m.content n.content)
    (id : m.toolCallId.length ≤ n.toolCallId.length) (error : m.error = n.error) :
    MessageLengthens (.toolResult m) (.toolResult n)

inductive SegmentLengthens : ModelContextSegment → ModelContextSegment → Prop
  | message {m n : AgentMessage} (longer : MessageLengthens floatText m n) :
    SegmentLengthens (.message m) (.message n)
  | summary {s t : String} (longer : s.length ≤ t.length) :
    SegmentLengthens (.summary s) (.summary t)
  | workspaceReference {uri uri' : String} {preview preview' mediaType mediaType' : Option String}
    (longer : uri.length ≤ uri'.length) (previews : Lengthens preview preview')
    (mediaTypes : Lengthens mediaType mediaType') :
    SegmentLengthens (.workspaceReference uri preview mediaType)
      (.workspaceReference uri' preview' mediaType')
  | contextData {d e : ContextDataSegment}
    (longer : JsonLengthens floatText (worldData d) (worldData e)) :
    SegmentLengthens (.contextData d) (.contextData e)

structure ToolLengthens (before after : ToolDefinition) : Prop where
  name : before.name.length ≤ after.name.length
  description : before.description.length ≤ after.description.length
  inputSchema : JsonLengthens floatText (.obj before.inputSchema.entries)
    (.obj after.inputSchema.entries)

/-- The same context, with each of its texts at least as long. -/
structure ContextLengthens (before after : ModelContext) : Prop where
  systemPrompt : Lengthens before.systemPrompt after.systemPrompt
  segments : List.Forall₂ (SegmentLengthens floatText) before.segments after.segments
  tools : List.Forall₂ (ToolLengthens floatText) before.tools after.tools

end

/-- The texts of the encoding cannot grow by some characters without the count growing by them. -/
def Counted (client : Client) (context : ModelContext) : Prop :=
  ∀ later request request' counted counted' n,
    ContextLengthens client.floatText context later → client.Plain later →
    client.encode context = .ok request → client.encode later = .ok request' →
    characters client.floatText context = .ok counted →
    characters client.floatText later = .ok counted' →
    request'.size client.floatText = request.size client.floatText + n → counted + n ≤ counted'

def namesMediaType : MessageContent → Bool
  | .artifact reference => !(given reference.mediaType).isEmpty
  | _ => false

/-- Every text that is sent of a message is counted. -/
def CoveredMessage (client : Client) (message : AgentMessage) : Prop :=
  (∀ content ∈ message.content, namesMediaType content = false) ∧
    match message with
    | .user _ => True
    | .assistant message => client.preserveReasoningContent = true → message.reasoningContent = none
    | .toolResult _ => False

def Covered (client : Client) (context : ModelContext) : Prop :=
  ∀ message, .message message ∈ context.segments → CoveredMessage client message

theorem length_intercalate (separator text : String) (texts : List String) :
    (separator.intercalate (text :: texts)).length =
      text.length + (texts.map fun text => separator.length + text.length).sum := by
  induction texts generalizing text with
  | nil => simp
  | cons next texts ih =>
    rw [String.intercalate_cons_cons, String.length_append, String.length_append, ih]
    simp only [List.map_cons, List.sum_cons]
    omega

theorem given_eq_nil {text : Option String} : given text = [] ↔ text = none ∨ text = some "" := by
  cases text with
  | none => exact iff_of_true rfl (.inl rfl)
  | some s => by_cases empty : s = "" <;> simp [given, empty]

theorem given_some {text : String} (sent : text ≠ "") : given (some text) = [text] := by
  simp [given, sent]

theorem Lengthens.unsent {before after : Option String} (h : Lengthens before after)
    (unsent : given before = []) :
    (before.getD "").length = 0 ∧ (after.getD "").length = 0 := by
  cases h with
  | absent | empty => exact ⟨rfl, rfl⟩
  | text sent longer =>
    rw [given_some sent] at unsent
    cases unsent

/-- What the joined lines after the first add for a text, behind its label. -/
theorem Lengthens.lines {before after : Option String} (h : Lengthens before after)
    (lines : String → List String) (extra : Nat)
    (each : ∀ text, ((lines text).map fun line => 1 + line.length).sum = extra + text.length) :
    (((given after).flatMap lines).map fun line => 1 + line.length).sum +
        (before.getD "").length =
      (((given before).flatMap lines).map fun line => 1 + line.length).sum +
        (after.getD "").length := by
  cases h with
  | absent => rfl
  | empty => rfl
  | @text s t sent longer =>
    have sent' : t ≠ "" := by
      rintro rfl
      exact sent (String.length_eq_zero_iff.mp (Nat.le_zero.mp longer))
    rw [given_some sent, given_some sent', List.flatMap_singleton, List.flatMap_singleton, each,
      each, Option.getD_some, Option.getD_some]
    omega


theorem length_dumps {floatText : PyFloat → List Char} {value : JsonValue} {text : String}
    (h : canonicalJsonDumps floatText value = .ok text) :
    text.length = (write floatText value).length := by
  rw [canonicalJsonDumps] at h
  split_ifs at h
  cases h
  exact String.length_ofList

theorem length_artifactText (reference : ArtifactReferenceContent) :
    (artifactText reference).length =
      42 + reference.uri.length + reference.digest.length + reference.size.repr.length +
      (((given reference.mediaType).flatMap mediaTypeLines).map
        fun line => 1 + line.length).sum +
      (((given reference.preview).flatMap previewLines).map
        fun line => 1 + line.length).sum := by
  have newline : "\n".length = 1 := by decide
  have labels : "Workspace artifact: ".length = 20 ∧ "Digest: ".length = 8 ∧ "Size: ".length = 6 ∧
      " bytes".length = 6 := by decide
  obtain ⟨artifact, digest, size, bytes⟩ := labels
  rw [artifactText, List.append_assoc, List.cons_append, length_intercalate, newline]
  simp only [List.cons_append, List.nil_append, List.map_cons, List.map_append, List.sum_cons,
    List.sum_append, String.length_append, artifact, digest, size, bytes]
  omega

theorem length_referenceText (uri : String) (preview mediaType : Option String) :
    (referenceText uri preview mediaType).length =
      20 + uri.length +
      (((given mediaType).flatMap mediaTypeLines).map fun line => 1 + line.length).sum +
      (((given preview).flatMap previewLines).map fun line => 1 + line.length).sum := by
  have newline : "\n".length = 1 := by decide
  have label : "Workspace artifact: ".length = 20 := by decide
  rw [referenceText, List.append_assoc, List.cons_append, length_intercalate, newline]
  simp only [List.nil_append, List.map_append, List.sum_append, String.length_append, label]
  omega

theorem length_mediaTypeLines (text : String) :
    ((mediaTypeLines text).map fun line => 1 + line.length).sum = 13 + text.length := by
  have label : "Media type: ".length = 12 := by decide
  simp only [mediaTypeLines, List.map_cons, List.map_nil, List.sum_cons, List.sum_nil,
    String.length_append, label]
  omega

theorem length_previewLines (text : String) :
    ((previewLines text).map fun line => 1 + line.length).sum = 10 + text.length := by
  have label : "Preview:".length = 8 := by decide
  simp only [previewLines, List.map_cons, List.map_nil, List.sum_cons, List.sum_nil, label]
  omega


section
variable {client : Client}

theorem block_covered {before after : MessageContent} {block block' : Block} {count count' : Nat}
    (longer : ContentLengthens client.floatText before after)
    (plain : client.textual before = true) (plain' : client.textual after = true)
    (unnamed : namesMediaType before = false)
    (made : client.encodeBlock before = .ok block) (made' : client.encodeBlock after = .ok block')
    (counted : contentCharacters client.floatText before = .ok count)
    (counted' : contentCharacters client.floatText after = .ok count') :
    block'.size + count ≤ block.size + count' := by
  cases longer with
  | text longer =>
    cases made
    cases made'
    cases counted
    cases counted'
    exact (Nat.add_comm ..).le
  | json longer =>
    obtain ⟨text, written, rfl⟩ := map_eq_ok made
    obtain ⟨text', written', rfl⟩ := map_eq_ok made'
    obtain ⟨same, again, rfl⟩ := map_eq_ok counted
    obtain ⟨same', again', rfl⟩ := map_eq_ok counted'
    cases written.symm.trans again
    cases written'.symm.trans again'
    exact (Nat.add_comm ..).le
  | @artifact a b longer =>
    rw [Client.textual, Bool.not_eq_true'] at plain plain'
    rw [Client.encodeBlock, plain, if_neg Bool.false_ne_true] at made
    rw [Client.encodeBlock, plain', if_neg Bool.false_ne_true] at made'
    cases made
    cases made'
    cases counted
    cases counted'
    have types := longer.mediaType.lines mediaTypeLines 13 length_mediaTypeLines
    have previews := longer.preview.lines previewLines 10 length_previewLines
    rw [namesMediaType, Bool.not_eq_false', List.isEmpty_iff] at unnamed
    have silent := longer.mediaType.unsent unnamed
    rw [Block.size, Block.size, length_artifactText, length_artifactText, longer.size]
    omega

/-- All contents that are text go out as one, others as blocks of the same size. -/
theorem mapM_encodeBlock_text {items : List MessageContent} (texts : items.all isText = true) :
    ∃ blocks, items.mapM client.encodeBlock = .ok blocks ∧
      (textOf items).length = (blocks.map Block.size).sum := by
  induction items with
  | nil => exact ⟨[], rfl, rfl⟩
  | cons item items ih =>
    rw [List.all_cons, Bool.and_eq_true] at texts
    obtain ⟨blocks, made, sums⟩ := ih texts.2
    cases item with
    | text s =>
      refine ⟨.text s :: blocks, ?_, ?_⟩
      · rw [List.mapM_cons, made]
        rfl
      · rw [textOf, String.length_join] at sums ⊢
        have here : textPart (.text s) = some s := rfl
        rw [List.filterMap_cons_some here, List.map_cons, List.sum_cons, sums]
        rfl
    | _ => cases texts.1

theorem encodeContent_of_blocks {items : List MessageContent} {blocks : List Block}
    (h : items.mapM client.encodeBlock = .ok blocks) :
    ∃ content, client.encodeContent items = .ok content ∧
      content.size = (blocks.map Block.size).sum := by
  by_cases texts : items.all isText = true
  · obtain ⟨blocks', made, sums⟩ := @mapM_encodeBlock_text client _ texts
    cases h.symm.trans made
    exact ⟨.text (textOf items), by rw [Client.encodeContent, if_pos texts], sums⟩
  · exact ⟨_, by rw [Client.encodeContent, if_neg texts, h, map_ok], rfl⟩

theorem blocks_of_encodeContent {items : List MessageContent} {content : EncodedContent}
    (h : client.encodeContent items = .ok content) :
    ∃ blocks, items.mapM client.encodeBlock = .ok blocks ∧
      content.size = (blocks.map Block.size).sum := by
  by_cases texts : items.all isText = true
  · rw [Client.encodeContent, if_pos texts] at h
    cases h
    exact mapM_encodeBlock_text texts
  · rw [Client.encodeContent, if_neg texts] at h
    obtain ⟨blocks, made, rfl⟩ := map_eq_ok h
    exact ⟨blocks, made, rfl⟩

theorem EncodedContent.size_orNone (content : EncodedContent) :
    content.orNone.elim 0 EncodedContent.size = content.size := by
  rw [EncodedContent.orNone.eq_def]
  split <;> rfl

theorem call_size {call : ToolCall} {encoded : EncodedCall} {count : Nat}
    (made : client.encodeCall call = .ok encoded)
    (counted : callCharacters client.floatText call = .ok count) : encoded.size = count := by
  obtain ⟨arguments, written, rfl⟩ := map_eq_ok made
  obtain ⟨same, again, rfl⟩ := map_eq_ok counted
  cases written.symm.trans again
  rfl

theorem contents_covered {items items' : List MessageContent} {content content' : EncodedContent}
    {counts counts' : List Nat}
    (longer : List.Forall₂ (ContentLengthens client.floatText) items items')
    (plain : items.all client.textual = true) (plain' : items'.all client.textual = true)
    (unnamed : ∀ item ∈ items, namesMediaType item = false)
    (made : client.encodeContent items = .ok content)
    (made' : client.encodeContent items' = .ok content')
    (counted : items.mapM (contentCharacters client.floatText) = .ok counts)
    (counted' : items'.mapM (contentCharacters client.floatText) = .ok counts') :
    content'.size + counts.sum ≤ content.size + counts'.sum := by
  obtain ⟨blocks, each, size⟩ := blocks_of_encodeContent made
  obtain ⟨blocks', each', size'⟩ := blocks_of_encodeContent made'
  rw [size, size']
  refine sum_le_of_mapM _ longer (fun item mem item' mem' block block' count count' => ?_) each
    each' counted counted'
  intro grows encoded encoded' here here'
  exact block_covered grows (List.all_eq_true.mp plain item mem)
    (List.all_eq_true.mp plain' item' mem') (unnamed item mem) encoded encoded' here here'

theorem calls_covered {calls calls' : List ToolCall} {encoded encoded' : List EncodedCall}
    {counts counts' : List Nat} (made : calls.mapM client.encodeCall = .ok encoded)
    (made' : calls'.mapM client.encodeCall = .ok encoded')
    (counted : calls.mapM (callCharacters client.floatText) = .ok counts)
    (counted' : calls'.mapM (callCharacters client.floatText) = .ok counts')
    (longer : List.Forall₂ (CallLengthens client.floatText) calls calls') :
    (encoded'.map EncodedCall.size).sum + counts.sum ≤
      (encoded.map EncodedCall.size).sum + counts'.sum := by
  refine sum_le_of_mapM _ longer (fun call _ call' _ x x' count count' => ?_) made made' counted
    counted'
  intro _ one one' here here'
  rw [call_size one here, call_size one' here']
  exact (Nat.add_comm ..).le

theorem encoded_calls_size (calls : List EncodedCall) :
    (if calls = [] then none else some calls).elim 0
        (fun calls => (calls.map EncodedCall.size).sum) =
      (calls.map EncodedCall.size).sum := by
  split_ifs with empty
  · rw [empty]
    rfl
  · rfl

theorem message_covered {before after : AgentMessage} {encoded encoded' : EncodedMessage}
    {count count' : Nat} (longer : MessageLengthens client.floatText before after)
    (plain : before.content.all client.textual = true)
    (plain' : after.content.all client.textual = true) (covered : CoveredMessage client before)
    (made : client.encodeMessage before = .ok encoded)
    (made' : client.encodeMessage after = .ok encoded')
    (counted : messageCharacters client.floatText before = .ok count)
    (counted' : messageCharacters client.floatText after = .ok count') :
    encoded'.size + count ≤ encoded.size + count' := by
  obtain ⟨unnamed, own⟩ := covered
  obtain ⟨content, contents, made⟩ := bind_eq_ok made
  obtain ⟨content', contents', made'⟩ := bind_eq_ok made'
  obtain ⟨counts, each, counted⟩ := bind_eq_ok counted
  obtain ⟨counts', each', counted'⟩ := bind_eq_ok counted'
  obtain ⟨part, parts, counted⟩ := bind_eq_ok counted
  obtain ⟨part', parts', counted'⟩ := bind_eq_ok counted'
  cases counted
  cases counted'
  cases longer with
  | user grows =>
    have inside := contents_covered grows plain plain' unnamed contents contents' each each'
    cases made
    cases made'
    cases parts
    cases parts'
    simp only [EncodedMessage.size]
    omega
  | toolResult => exact own.elim
  | @assistant m n grows calls reasoning =>
    have inside := contents_covered grows plain plain' unnamed contents contents' each each'
    obtain ⟨encoded, sent, made⟩ := bind_eq_ok made
    obtain ⟨encoded', sent', made'⟩ := bind_eq_ok made'
    obtain ⟨numbers, answers, rfl⟩ := map_eq_ok parts
    obtain ⟨numbers', answers', rfl⟩ := map_eq_ok parts'
    cases made
    cases made'
    have called := calls_covered sent sent' answers answers' calls
    simp only [EncodedMessage.size, EncodedContent.size_orNone, encoded_calls_size]
    by_cases preserved : client.preserveReasoningContent = true
    · have silent := own preserved
      have silent' : n.reasoningContent = none := by
        rw [silent] at reasoning
        cases later : n.reasoningContent with
        | none => rfl
        | some text =>
          rw [later] at reasoning
          cases reasoning
      rw [silent, silent']
      simp only [ite_self, Option.elim_none]
      omega
    · rw [if_neg preserved, if_neg preserved]
      simp only [Option.elim_none]
      omega

theorem segment_covered {before after : ModelContextSegment} {encoded encoded' : EncodedMessage}
    {count count' : Nat} (longer : SegmentLengthens client.floatText before after)
    (plain : client.textualSegment before = true) (plain' : client.textualSegment after = true)
    (covered : ∀ message, before = .message message → CoveredMessage client message)
    (made : client.encodeSegment before = .ok encoded)
    (made' : client.encodeSegment after = .ok encoded')
    (counted : segmentCharacters client.floatText before = .ok count)
    (counted' : segmentCharacters client.floatText after = .ok count') :
    encoded'.size + count ≤ encoded.size + count' := by
  cases longer with
  | message longer =>
    exact message_covered longer plain plain' (covered _ rfl) made made' counted counted'
  | summary longer =>
    cases made
    cases made'
    cases counted
    cases counted'
    simp only [EncodedMessage.size, EncodedContent.size, summaryText, String.length_append]
    omega
  | workspaceReference longer previews mediaTypes =>
    cases made
    cases made'
    cases counted
    cases counted'
    have types := mediaTypes.lines mediaTypeLines 13 length_mediaTypeLines
    have shown := previews.lines previewLines 10 length_previewLines
    simp only [EncodedMessage.size, EncodedContent.size, length_referenceText]
    omega
  | contextData longer =>
    obtain ⟨text, written, rfl⟩ := map_eq_ok made
    obtain ⟨text', written', rfl⟩ := map_eq_ok made'
    obtain ⟨same, again, rfl⟩ := map_eq_ok counted
    obtain ⟨same', again', rfl⟩ := map_eq_ok counted'
    cases written.symm.trans again
    cases written'.symm.trans again'
    exact (Nat.add_comm ..).le

theorem system_size (prompt : Option String) :
    (((given prompt).map EncodedMessage.system).map EncodedMessage.size).sum =
      (prompt.getD "").length := by
  cases prompt with
  | none => rfl
  | some text =>
    by_cases empty : text = ""
    · rw [empty]
      rfl
    · rw [given_some empty]
      rfl

theorem tools_size {floatText : PyFloat → List Char} {tools : List ToolDefinition}
    {counts : List Nat} (h : tools.mapM (toolCharacters floatText) = .ok counts) :
    ((tools.map encodeTool).map (EncodedTool.size floatText)).sum = counts.sum := by
  rw [mapM_eq_ok_iff] at h
  induction h with
  | nil => rfl
  | cons counted _ ih =>
    obtain ⟨schema, written, rfl⟩ := map_eq_ok counted
    rw [List.map_cons, List.map_cons, List.sum_cons, List.sum_cons, ih, length_dumps written]
    rfl

/-- The sizes of an encoding and of a count, by the segments. -/
theorem sizes {context : ModelContext} {request : Request} {counted : Nat}
    (made : client.encode context = .ok request)
    (count : characters client.floatText context = .ok counted) :
    ∃ messages counts frame, context.segments.mapM client.encodeSegment = .ok messages ∧
      context.segments.mapM (segmentCharacters client.floatText) = .ok counts ∧
      request.size client.floatText = frame + (messages.map EncodedMessage.size).sum ∧
      counted = frame + counts.sum := by
  obtain ⟨messages, encoded, made⟩ := bind_eq_ok made
  obtain ⟨tools, defined, count⟩ := bind_eq_ok count
  obtain ⟨counts, each, count⟩ := bind_eq_ok count
  cases made
  cases count
  refine ⟨messages, counts, _, encoded, each, ?_, rfl⟩
  simp only [Request.size, List.map_append, List.sum_append, system_size, tools_size defined]
  omega

theorem counted_of_covered {context : ModelContext} (plain : client.Plain context)
    (covered : Covered client context) : Counted client context := by
  intro later request request' counted counted' n longer plain' made made' count count' grown
  obtain ⟨messages, counts, frame, encoded, each, size, rfl⟩ := sizes made count
  obtain ⟨messages', counts', frame', encoded', each', size', rfl⟩ := sizes made' count'
  have inside := sum_le_of_mapM EncodedMessage.size longer.segments
    (fun segment mem segment' mem' message message' count count' grows one one' here here' =>
      segment_covered grows (plain segment mem) (plain' segment' mem')
        (fun item same => covered item (same ▸ mem)) one one' here here')
    encoded encoded' each each'
  omega

end

end RoboAgent.TokenEstimation
