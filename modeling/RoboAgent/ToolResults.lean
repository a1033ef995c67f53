import RoboAgent.FalliblePrograms
import RoboAgent.ToolTypes
import RoboAgent.MessageChecks
import RoboAgent.ContextCompaction
import RoboAgent.SessionCommits

/-! Tool results on their way into the transcript: what the materializers and the executor let a
batch hold, the message made of a result, and the commit of the exchange. -/

namespace RoboAgent.ToolResults
open RoboAgent.FrozenJson RoboAgent.ToolErrors RoboAgent.ToolEffects RoboAgent.Messages
open RoboAgent.ToolTypes hiding Program ask
open RoboAgent.FalliblePrograms RoboAgent.MessageChecks
open RoboAgent.SessionState RoboAgent.SessionWorld RoboAgent.SessionTranscript RoboAgent.Runs
open RoboAgent.SessionWorld.World
open RoboAgent.ContextCompaction (grammar_append)
open RoboAgent.SessionCommits (calling)

structure ToolOutputLimits where
  maxRawBytes : Nat := 8 * 1024 * 1024
  maxInlineBytes : Nat := 64 * 1024
  ordered : 0 < maxInlineBytes ∧ maxInlineBytes ≤ maxRawBytes := by decide

structure ToolMaterializationError where
  code : String
  message : String
deriving DecidableEq

/-- How materializing a raw result may fail. -/
inductive Unmaterialized
  | materialization (error : ToolMaterializationError)
  | cancelled
  | other (typeName : String)
deriving DecidableEq

/-- The constructor has normalized the path. -/
structure WorkspaceEntry where
  path : String
  size : Nat
  digest : Option String

/-- What a materializer awaits and calls, in a world with state `σ`: the token of the call, the
write method of the workspace, canonical_json_dumps, which may raise a ValueError, and the
hexadecimal SHA-256. -/
structure Host (σ : Type) where
  cancelled : σ → Bool
  write : String → List UInt8 → Option String → Program σ Unmaterialized WorkspaceEntry
  canonicalJsonDumps : JsonValue → Option String
  sha256 : List UInt8 → String
  lib : Library

def utf8 (text : String) : List UInt8 := text.toUTF8.toList

/-- The longest part from the start that fits in so many bytes. -/
def fitting : Nat → List Char → List Char
  | _, [] => []
  | limit, c :: rest =>
    if c.utf8Size ≤ limit then c :: fitting (limit - c.utf8Size) rest else []

/-- Cutting the encoding and dropping what is left of a cut character. -/
def preview (text : String) : Option String :=
  match fitting 4096 text.toList with
  | [] => none
  | cut => some (String.ofList cut)

def workspaceUri (path : String) : String := "workspace://" ++ path

section
variable {σ : Type} (host : Host σ)

def raiseIfCancelled : Program σ Unmaterialized Unit := do
  if host.cancelled (← get) then throw .cancelled

def jsonText (value : JsonValue) : Except Unmaterialized String :=
  match host.canonicalJsonDumps value with
  | some text => .ok text
  | none => .error (.other "ValueError")

def rawBlockSize : RawToolContent → Except Unmaterialized Nat
  | .text text _ => .ok text.utf8ByteSize
  | .json value => do
    let text ← jsonText host value
    .ok text.utf8ByteSize
  | .binary data _ => .ok data.length
  | .resource _ (some data) _ => .ok data.length
  | .resource uri none _ => .ok uri.utf8ByteSize

/-- Every block counts for one byte more than it has. -/
def rawResultSize (raw : List RawToolContent) : Except Unmaterialized Nat := do
  let sizes ← raw.mapM (rawBlockSize host)
  .ok (sizes.map (· + 1)).sum

def outputTooLarge : Unmaterialized :=
  .materialization ⟨"tool_output_too_large", "Tool output exceeds max_raw_bytes."⟩

def artifactMissing : Unmaterialized :=
  .materialization ⟨"workspace_artifact_missing", "Remote resource bytes are unavailable."⟩

def materializationError (message : String) : Unmaterialized :=
  .materialization ⟨"tool_materialization_error", message⟩

/-- InlineToolResultMaterializer on one block. -/
def inlineBlock : RawToolContent → Program σ Unmaterialized ToolContent
  | .text text truncated => pure (.text text truncated)
  | .json value => pure (.json value)
  | .resource _ none _ => throw artifactMissing
  | .resource _ (some _) _ | .binary _ _ =>
    throw (materializationError "Binary content requires a Workspace.")

def InlineToolResultMaterializer.materialize (limits : ToolOutputLimits)
    (raw : List RawToolContent) : Program σ Unmaterialized (List ToolContent) := do
  raiseIfCancelled host
  let size ← raising (rawResultSize host raw)
  if size > limits.maxRawBytes then throw outputTooLarge
  else if size > limits.maxInlineBytes then
    throw (materializationError "Tool output requires a Workspace.")
  else
    let result ← raw.mapM inlineBlock
    raiseIfCancelled host
    pure result

/-- The bytes of a block, their media type, and a preview of a text. -/
def blockBytes : RawToolContent →
    Except Unmaterialized (List UInt8 × Option String × Option String)
  | .text text _ => .ok (utf8 text, some "text/plain", preview text)
  | .json value => do
    let text ← jsonText host value
    .ok (utf8 text, some "application/json", preview text)
  | .binary data mediaType => .ok (data, some mediaType, none)
  | .resource _ (some data) mediaType => .ok (data, mediaType, none)
  | .resource _ none _ => .error (materializationError "Resource bytes are unavailable.")

/-- Storing one block under its digest, and the reference to it. -/
def storeBlock (item : RawToolContent) : Program σ Unmaterialized ToolContent := do
  let (data, mediaType, preview) ← raising (blockBytes host item)
  let digest := host.sha256 data
  let path := "blobs/sha256/" ++ digest
  let entry ← host.write path data mediaType
  if entry.path ≠ path ∨ entry.size ≠ data.length ∨ entry.digest ≠ some ("sha256:" ++ digest) then
    throw (materializationError "Workspace returned inconsistent artifact metadata.")
  else
    let reference : ArtifactReferenceContent :=
      ⟨workspaceUri entry.path, mediaType, entry.size, "sha256:" ++ digest, preview⟩
    if artifactChecked host.lib reference then pure (.artifact reference)
    else throw (.other "ProtocolError")

/-- WorkspaceToolResultMaterializer on one block. -/
def workspaceBlock (inlineAll : Bool) (item : RawToolContent) :
    Program σ Unmaterialized ToolContent := do
  raiseIfCancelled host
  match item, inlineAll with
  | .text text truncated, true => pure (.text text truncated)
  | .json value, true => pure (.json value)
  | .resource _ none _, _ => throw artifactMissing
  | item, _ => storeBlock host item

def WorkspaceToolResultMaterializer.materialize (limits : ToolOutputLimits)
    (raw : List RawToolContent) : Program σ Unmaterialized (List ToolContent) := do
  raiseIfCancelled host
  let size ← raising (rawResultSize host raw)
  if size > limits.maxRawBytes then throw outputTooLarge
  else
    let result ← raw.mapM (workspaceBlock host (size ≤ limits.maxInlineBytes))
    raiseIfCancelled host
    pure result

inductive ToolResultMaterializer
  | inline (limits : ToolOutputLimits)
  | workspace (limits : ToolOutputLimits)

def ToolResultMaterializer.materialize :
    ToolResultMaterializer → List RawToolContent → Program σ Unmaterialized (List ToolContent)
  | .inline limits => InlineToolResultMaterializer.materialize host limits
  | .workspace limits => WorkspaceToolResultMaterializer.materialize host limits

/-- What a call of a batch that is neither aborted nor cancelled ended in: an error of its
preparation or of its handler, a raw result, or the content of a composite outcome. -/
inductive ToolOutput
  | failed (error : ToolErrorInfo)
  | raw (content : List RawToolContent)
  | composite (content : List ToolContent)

/-- The constructor of ToolExecutionResult. -/
def ToolExecutionResult.new (callId name : String)
    (outcome : Except ToolErrorInfo (List ToolContent)) :
    Except Unmaterialized ToolExecutionResult :=
  if callId = "" ∨ name = "" then .error (.other "ValueError") else .ok ⟨callId, name, outcome⟩

/-- What the executor makes of it. The content of a composite outcome is canonical, as
_validate_composite_content finds; nothing bounds it. -/
def executionResult (materializer : ToolResultMaterializer) (call : ToolCall) :
    ToolOutput → Program σ Unmaterialized ToolExecutionResult
  | .failed error => raising (ToolExecutionResult.new call.id call.name (.error error))
  | .raw content => do
    let content ← materializer.materialize host content
    raising (ToolExecutionResult.new call.id call.name (.ok content))
  | .composite content => raising (ToolExecutionResult.new call.id call.name (.ok content))

/-- A call of a batch with its output and the result the batch holds for it, which was made from
some state of the world to some other. -/
structure FinishedCall (materializer : ToolResultMaterializer) where
  call : ToolCall
  output : ToolOutput
  result : ToolExecutionResult
  held : ∃ s s', exec (executionResult host materializer call output) s = (.ok result, s')

end

def ToolOutput.blocks : ToolOutput → Nat
  | .failed _ => 1
  | .raw content => content.length
  | .composite content => content.length

/-- The reading of the clock and the fresh identity a message is made with. -/
structure Stamp where
  timestamp : PyFloat
  messageId : String
  finite : timestamp.isFinite = true
  named : messageId ≠ ""

/-- The constructor of ToolResultMessage. -/
def ToolResultMessage.new (stamp : Stamp) (toolCallId toolName : String)
    (status : ToolResultStatus) (content : List MessageContent) (error : Option ToolErrorInfo)
    (limits : MediaLimits := {}) : Except SessionError ToolResultMessage :=
  if toolCallId = "" ∨ toolName = "" then .error .protocol
  else if status = .success ∧ error.isSome then .error .protocol
  else if status = .error ∧ error.isNone then .error .protocol
  else if limits.admits content then
    .ok ⟨toolCallId, toolName, status, content, error, stamp.timestamp, stamp.messageId⟩
  else .error .protocol

def canonicalContent : ToolContent → MessageContent
  | .text text _ => .text text
  | .json value => .json value
  | .artifact reference => .artifact reference

def resultMessage (stamp : Stamp) (result : ToolExecutionResult) :
    Except SessionError ToolResultMessage :=
  match result.outcome with
  | .ok content =>
    ToolResultMessage.new stamp result.callId result.name .success (content.map canonicalContent) none
  | .error error =>
    ToolResultMessage.new stamp result.callId result.name .error [.text error.message] (some error)

/-- What run_loop does with the results of a batch: a message of each, made in turn. -/
def resultMessages (stamps : Nat → Stamp) :
    List ToolExecutionResult → Except SessionError (List ToolResultMessage)
  | [] => .ok []
  | result :: results => do
    let message ← resultMessage (stamps 0) result
    let messages ← resultMessages (fun n => stamps (n + 1)) results
    .ok (message :: messages)

/-- The end of a turn with calls: the messages of the results are made and committed with the
assistant message, and stand in the transcript. -/
def Committed (s : Session) (runId : Nat) (assistant : AssistantMessage) (stamps : Nat → Stamp)
    (results : List ToolExecutionResult) : Prop :=
  ∃ messages x, resultMessages stamps results = .ok messages ∧
    s.commitExchange runId assistant messages = .ok x ∧
    x.session.messages = s.messages ++ .assistant assistant :: messages.map .toolResult

section
variable {σ : Type} {host : Host σ}

/-- A materializer keeps the number of blocks: what it bounds is their bytes. -/
theorem materialize_length {materializer : ToolResultMaterializer} {raw : List RawToolContent}
    {content : List ToolContent} {s s' : σ}
    (h : exec (materializer.materialize host raw) s = (.ok content, s')) :
    content.length = raw.length := by
  cases materializer with
  | inline limits =>
    obtain ⟨⟨⟩, s, -, h⟩ := exec_bind_ok h
    obtain ⟨size, s, -, h⟩ := exec_bind_ok h
    rw [exec_ite, exec_ite] at h
    split_ifs at h
    · cases h
    · cases h
    · obtain ⟨result, s, made, h⟩ := exec_bind_ok h
      obtain ⟨⟨⟩, s, -, h⟩ := exec_bind_ok h
      cases h
      exact length_of_exec_mapM made
  | workspace limits =>
    obtain ⟨⟨⟩, s, -, h⟩ := exec_bind_ok h
    obtain ⟨size, s, -, h⟩ := exec_bind_ok h
    rw [exec_ite] at h
    split_ifs at h
    · cases h
    · obtain ⟨result, s, made, h⟩ := exec_bind_ok h
      obtain ⟨⟨⟩, s, -, h⟩ := exec_bind_ok h
      cases h
      exact length_of_exec_mapM made

end

def blockCount (result : ToolExecutionResult) : Nat :=
  match result.outcome with
  | .ok content => content.length
  | .error _ => 1

theorem new_eq_ok {callId name : String} {outcome : Except ToolErrorInfo (List ToolContent)}
    {result : ToolExecutionResult} (h : ToolExecutionResult.new callId name outcome = .ok result) :
    callId ≠ "" ∧ name ≠ "" ∧ result = ⟨callId, name, outcome⟩ := by
  unfold ToolExecutionResult.new at h
  split_ifs at h with absent
  cases h
  exact ⟨fun h => absent (.inl h), fun h => absent (.inr h), rfl⟩

/-- What the executor lets a batch hold: the result identifies its call, and has as many blocks as
the output it was made of. -/
theorem FinishedCall.checked {σ : Type} {host : Host σ} {materializer : ToolResultMaterializer}
    (finished : FinishedCall host materializer) :
    finished.result.callId = finished.call.id ∧ finished.result.name = finished.call.name ∧
      finished.result.callId ≠ "" ∧ finished.result.name ≠ "" ∧
      blockCount finished.result = finished.output.blocks := by
  obtain ⟨call, output, result, s, s', held⟩ := finished
  cases output with
  | failed error =>
    obtain ⟨id, name, rfl⟩ := new_eq_ok (Prod.mk.inj held).1
    exact ⟨rfl, rfl, id, name, rfl⟩
  | raw raw =>
    obtain ⟨content, s, made, held⟩ := exec_bind_ok held
    obtain ⟨id, name, rfl⟩ := new_eq_ok (Prod.mk.inj held).1
    exact ⟨rfl, rfl, id, name, materialize_length made⟩
  | composite content =>
    obtain ⟨id, name, rfl⟩ := new_eq_ok (Prod.mk.inj held).1
    exact ⟨rfl, rfl, id, name, rfl⟩

/-- Canonical tool content has no inline media, so only the number of blocks counts. -/
theorem admits_canonicalContent (limits : MediaLimits) (content : List ToolContent) :
    limits.admits (content.map canonicalContent) = true ↔
      content.length ≤ limits.maxContentsPerMessage := by
  rw [MediaLimits.admits, Bool.and_eq_true, decide_eq_true_iff, List.length_map]
  refine and_iff_left (List.all_eq_true.mpr fun block mem => ?_)
  obtain ⟨item, -, rfl⟩ := List.mem_map.mp mem
  cases item <;> rfl

/-- The message of a result as the transcript reads it. -/
def MessageOf (result : ToolExecutionResult) (message : ToolResultMessage) : Prop :=
  message.toolCallId = result.callId ∧ message.toolName = result.name

theorem resultMessage_eq_ok {stamp : Stamp} {result : ToolExecutionResult}
    {message : ToolResultMessage} (h : resultMessage stamp result = .ok message) :
    blockCount result ≤ 16 ∧ MessageOf result message ∧
      ({} : MediaLimits).admits message.content = true := by
  obtain ⟨callId, name, error | content⟩ := result
  · simp only [resultMessage, ToolResultMessage.new] at h
    split_ifs at h with named admitted
    cases h
    exact ⟨(by decide : 1 ≤ 16), ⟨rfl, rfl⟩, rfl⟩
  · simp only [resultMessage, ToolResultMessage.new] at h
    split_ifs at h with named succeeds fails admitted
    cases h
    exact ⟨(admits_canonicalContent {} content).mp admitted, ⟨rfl, rfl⟩, admitted⟩

theorem resultMessage_made (stamp : Stamp) {result : ToolExecutionResult}
    (id : result.callId ≠ "") (name : result.name ≠ "") (few : blockCount result ≤ 16) :
    ∃ message, resultMessage stamp result = .ok message := by
  obtain ⟨callId, tool, error | content⟩ := result
  · exact ⟨_, (if_neg (not_or_intro id name)).trans rfl⟩
  · have admitted := (admits_canonicalContent {} content).mpr few
    exact ⟨_, (if_neg (not_or_intro id name)).trans ((if_neg (by simp)).trans
      ((if_neg (by simp)).trans (if_pos admitted)))⟩

theorem resultMessages_eq_ok {stamps : Nat → Stamp} {results : List ToolExecutionResult}
    {messages : List ToolResultMessage} (h : resultMessages stamps results = .ok messages) :
    (∀ result ∈ results, blockCount result ≤ 16) ∧ List.Forall₂ MessageOf results messages ∧
      ∀ message ∈ messages, ({} : MediaLimits).admits message.content = true := by
  induction results generalizing stamps messages with
  | nil =>
    cases h
    exact ⟨List.forall_mem_nil _, .nil, List.forall_mem_nil _⟩
  | cons result results ih =>
    obtain ⟨message, made, h⟩ := bind_eq_ok h
    obtain ⟨rest, later, h⟩ := bind_eq_ok h
    cases h
    obtain ⟨few, of, admitted⟩ := resultMessage_eq_ok made
    obtain ⟨fews, ofs, admitteds⟩ := ih later
    exact ⟨List.forall_mem_cons.mpr ⟨few, fews⟩, .cons of ofs,
      List.forall_mem_cons.mpr ⟨admitted, admitteds⟩⟩

theorem resultMessages_made (stamps : Nat → Stamp) {results : List ToolExecutionResult}
    (h : ∀ result ∈ results, result.callId ≠ "" ∧ result.name ≠ "" ∧ blockCount result ≤ 16) :
    ∃ messages, resultMessages stamps results = .ok messages := by
  induction results generalizing stamps with
  | nil => exact ⟨[], rfl⟩
  | cons result results ih =>
    obtain ⟨⟨id, name, few⟩, later⟩ := List.forall_mem_cons.mp h
    obtain ⟨message, made⟩ := resultMessage_made (stamps 0) id name few
    obtain ⟨messages, rest⟩ := ih (fun n => stamps (n + 1)) later
    exact ⟨message :: messages, by rw [resultMessages, made, ok_bind, rest, ok_bind]⟩

/-- A complete exchange whose messages keep to the limits is accepted after a valid transcript. -/
theorem commitExchange_accepts {s : Session} (sound : Sound s) {runId : Nat}
    (owned : s.activeRun = some runId) {assistant : AssistantMessage}
    {messages : List ToolResultMessage} (admitted : s.mediaLimits.admits assistant.content = true)
    (kept : ∀ message ∈ messages, s.mediaLimits.admits message.content = true)
    (answers : List.Forall₂ Answers assistant.toolCalls messages) :
    ∃ x, s.commitExchange runId assistant messages = .ok x ∧
      x.session.messages = s.messages ++ .assistant assistant :: messages.map .toolResult := by
  obtain ⟨before, grammar⟩ := validateTranscript_iff.mp sound.transcript
  have exchange : Grammar (.assistant assistant :: messages.map .toolResult) := by
    simpa only [List.append_nil] using Grammar.exchange answers .nil
  have valid : s.validate (s.messages ++ .assistant assistant :: messages.map .toolResult) := by
    refine validateTranscript_iff.mpr ⟨?_, grammar_append grammar exchange⟩
    intro message mem
    obtain old | new := List.mem_append.mp mem
    · exact before message old
    · obtain rfl | new := List.mem_cons.mp new
      · exact admitted
      · obtain ⟨result, inside, rfl⟩ := List.mem_map.mp new
        exact kept result inside
  exact ⟨_, (if_neg (not_not_intro owned)).trans (if_pos valid), rfl⟩

/-- In every reachable Session with the default limits: the exchange of a finished batch is
committed if and only if no output of the batch has more than sixteen blocks. -/
theorem results_commit_iff {σ : Type} {host : Host σ} {materializer : ToolResultMaterializer}
    {session : Session} {record : Option SessionSnapshot} {actions : List Action} {w : World}
    (fresh : Fresh session) (h : run step (opened session record) actions = some w)
    (limits : w.session.mediaLimits = {}) {runId : Nat}
    (owned : w.session.activeRun = some runId) {assistant : AssistantMessage}
    (admitted : ({} : MediaLimits).admits assistant.content = true) (stamps : Nat → Stamp)
    {batch : List (FinishedCall host materializer)}
    (answered : batch.map FinishedCall.call = assistant.toolCalls) :
    Committed w.session runId assistant stamps (batch.map FinishedCall.result) ↔
      ∀ finished ∈ batch, finished.output.blocks ≤ 16 := by
  constructor
  · rintro ⟨messages, -, made, -⟩ finished mem
    obtain ⟨-, -, -, -, blocks⟩ := finished.checked
    exact blocks.symm.le.trans ((resultMessages_eq_ok made).1 _ (List.mem_map_of_mem mem))
  · intro few
    have made : ∀ result ∈ batch.map FinishedCall.result,
        result.callId ≠ "" ∧ result.name ≠ "" ∧ blockCount result ≤ 16 := by
      refine List.forall_mem_map.mpr fun finished mem => ?_
      obtain ⟨-, -, id, name, blocks⟩ := finished.checked
      exact ⟨id, name, blocks.le.trans (few finished mem)⟩
    obtain ⟨messages, made⟩ := resultMessages_made stamps made
    obtain ⟨-, pairs, kept⟩ := resultMessages_eq_ok made
    have answers : List.Forall₂ Answers assistant.toolCalls messages := by
      rw [← answered, List.forall₂_map_left_iff]
      refine (List.forall₂_map_left_iff.mp pairs).imp fun finished message h => ?_
      obtain ⟨id, name, -⟩ := finished.checked
      exact ⟨h.1.trans id, h.2.trans name⟩
    obtain ⟨x, accepted, grown⟩ := commitExchange_accepts (run_sound fresh h) owned
      (limits.symm ▸ admitted) (limits.symm ▸ kept) answers
    exact ⟨messages, x, made, accepted, grown⟩

/-- A host that is never cancelled and has no workspace, for results that stay inline. -/
def inlineHost : Host Unit where
  cancelled _ := false
  write _ _ _ := throw (.other "WorkspaceError")
  canonicalJsonDumps _ := none
  sha256 _ := ""
  lib := ⟨fun _ => none, fun _ => none, fun _ => "", fun _ => "", fun _ => none, fun _ => none,
    fun _ => none⟩

/-- The limits of the materializer a Session has without one of its own. -/
def inlineLimits : ToolOutputLimits where
  maxRawBytes := 64 * 1024

def readCall : ToolCall := ⟨"call", "read", ⟨[], wellFormed_empty⟩⟩

/-- A read that returned so many empty texts. -/
def readTexts (count : Nat) (held : exec (executionResult inlineHost (.inline inlineLimits) readCall
    (.raw (List.replicate count (.text "" false)))) () =
      (.ok ⟨"call", "read", .ok (List.replicate count (.text "" false))⟩, ())) :
    FinishedCall inlineHost (.inline inlineLimits) where
  call := readCall
  output := .raw (List.replicate count (.text "" false))
  result := ⟨"call", "read", .ok (List.replicate count (.text "" false))⟩
  held := ⟨(), (), held⟩

theorem zero_finite : (⟨0⟩ : PyFloat).isFinite = true := by decide

theorem result_identified : "result" ≠ "" := by decide

def stamp : Stamp := ⟨⟨0⟩, "result", zero_finite, result_identified⟩

def askedRun : List Action := [.start 7 (some greeting), .perform (.commitInitialInput false)]

theorem results_commit_sixteen :
    ∃ w, run step (opened newSession none) askedRun = some w ∧
      Committed w.session 7 calling (fun _ => stamp) [(readTexts 16 rfl).result] := by
  have answered : [readTexts 16 rfl].map FinishedCall.call = calling.toolCalls := rfl
  refine ⟨_, rfl, ?_⟩
  exact (results_commit_iff newSession_fresh
    (show run step (opened newSession none) askedRun = some _ from rfl) rfl rfl (by decide)
    (fun _ => stamp) answered).mpr (by decide)

/-- Seventeen empty texts pass the materializer with seventeen bytes, and their message is refused:
the result of the finished call is lost. -/
theorem seventeen_texts_lost :
    ∃ w, run step (opened newSession none) askedRun = some w ∧
      w.session.activeRun = some 7 ∧ w.session.mediaLimits = {} ∧
      [(readTexts 17 rfl).call] = calling.toolCalls ∧
      resultMessages (fun _ => stamp) [(readTexts 17 rfl).result] = .error .protocol ∧
      ¬Committed w.session 7 calling (fun _ => stamp) [(readTexts 17 rfl).result] := by
  have refused : resultMessages (fun _ => stamp) [(readTexts 17 rfl).result] =
      .error .protocol := rfl
  refine ⟨_, rfl, rfl, rfl, rfl, refused, ?_⟩
  rintro ⟨messages, -, made, -⟩
  rw [refused] at made
  cases made

end RoboAgent.ToolResults
