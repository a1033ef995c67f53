import RoboAgent.FalliblePrograms
import RoboAgent.ModelEvents
import RoboAgent.MessageChecks

/-! The output of a child agent on its way to the parent: its media are copied, chunk by chunk, to a
destination of the parent, and the message is made again around the references. -/

namespace RoboAgent.OutputPromotion
open RoboAgent.FrozenJson RoboAgent.ToolErrors RoboAgent.ToolEffects RoboAgent.FalliblePrograms
open RoboAgent.Messages RoboAgent.MessageChecks
open RoboAgent.ModelEvents (assistantMessage assistantMessage_ok)

inductive Failure
  | lifecycle (code message : String)
  | cancelled
  | protocol
  | other
deriving DecidableEq

inductive Chunk
  | bytes (data : List UInt8)
  | invalid
deriving DecidableEq

/-- What an iteration yields, and what it raises in the end. -/
structure Chunks where
  yielded : List Chunk
  raised : Option Failure

def Chunk.data : Chunk → Option (List UInt8)
  | .bytes data => some data
  | .invalid => none

/-- The bytes of an iteration that comes to its end. -/
def Chunks.data (chunks : Chunks) : Option (List UInt8) :=
  if chunks.raised.isSome then none else (chunks.yielded.mapM Chunk.data).map List.flatten

/-- A block of a file, or what reading it or opening the file raises. -/
inductive Reading
  | block (data : List UInt8)
  | osError
  | raised (failure : Failure)
deriving DecidableEq

def fileChunks : List Reading → Chunks
  | [] | .block [] :: _ => ⟨[], none⟩
  | .block data :: rest => ⟨.bytes data :: (fileChunks rest).yielded, (fileChunks rest).raised⟩
  | .osError :: _ =>
    ⟨[], some (.lifecycle "child_output_materialization_failed"
      "Child file output could not be read.")⟩
  | .raised failure :: _ => ⟨[], some failure⟩

structure Destination (σ ω : Type) where
  createTemp : Option String → Program σ Failure ω
  write : ω → List UInt8 → Program σ Failure Unit
  publish : ω → Program σ Failure ArtifactReferenceContent
  abort : ω → Program σ Failure Unit

/-- What the promotion is given, in a world with state `σ` whose writers are known by `ω`. What is
read depends on the state when the reading starts; other tasks run while a chunk is awaited. -/
structure Surroundings (σ ω : Type) where
  destination : Destination σ ω
  iterBytes : ArtifactReferenceContent → Nat → σ → Chunks
  readFile : String → Nat → σ → List Reading
  meanwhile : σ → σ
  cancelled : σ → Bool
  sha256 : List UInt8 → String
  maxBytes : Nat
  chunkSize : Nat

section
variable {σ ω : Type} (env : Surroundings σ ω)

def raiseIfCancelled : Program σ Failure Unit := do
  if env.cancelled (← get) then throw .cancelled

def writeAll (writer : ω) : List Chunk → List UInt8 → Program σ Failure (List UInt8)
  | [], data => pure data
  | chunk :: rest, data => do
    modify env.meanwhile
    raiseIfCancelled env
    match chunk with
    | .invalid =>
      throw (.lifecycle "child_output_materialization_failed"
        "Artifact reader returned invalid bytes.")
    | .bytes bytes =>
      if env.maxBytes < data.length + bytes.length then
        throw (.lifecycle "child_artifact_too_large" "Child artifact exceeds the configured limit.")
      else
        env.destination.write writer bytes
        writeAll writer rest (data ++ bytes)

def publishChunks (writer : ω) (chunks : Chunks) (expectedDigest : Option String)
    (expectedSize : Option Nat) : Program σ Failure ArtifactReferenceContent := do
  let data ← writeAll env writer chunks.yielded []
  raising (chunks.raised.elim (.ok ()) .error)
  let actual := "sha256:" ++ env.sha256 data
  if expectedSize.any (· ≠ data.length) then
    throw (.lifecycle "child_output_materialization_failed"
      "Child artifact size does not match its reference.")
  else if expectedDigest.any (· ≠ actual) then
    throw (.lifecycle "child_artifact_digest_mismatch" "Child artifact digest does not match.")
  else
    raiseIfCancelled env
    let published ← env.destination.publish writer
    if published.size ≠ data.length ∨ published.digest ≠ actual then
      throw (.lifecycle "child_output_materialization_failed"
        "Artifact destination returned inconsistent metadata.")
    else pure published

/-- What goes on after the writer was aborted. -/
def Failure.reraised : Failure → Failure
  | .cancelled => .cancelled
  | .lifecycle code message => .lifecycle code message
  | _ => .lifecycle "child_output_materialization_failed" "Child artifact promotion failed."

def writeChunks (chunks : σ → Chunks) (mediaType : Option String)
    (expectedDigest : Option String) (expectedSize : Option Nat) :
    Program σ Failure ArtifactReferenceContent := do
  let writer ← env.destination.createTemp mediaType
  let s ← get
  tryCatch (publishChunks env writer (chunks s) expectedDigest expectedSize) fun failure => do
    env.destination.abort writer
    throw failure.reraised

def promoteSource (source : MediaSource) (mediaType : Option String) :
    Program σ Failure ArtifactReferenceContent :=
  match source with
  | .bytes data => writeChunks env (fun _ => ⟨[.bytes data], none⟩) mediaType none none
  | .file path =>
    writeChunks env (fun s => fileChunks (env.readFile path env.chunkSize s)) mediaType none none
  | .url _ =>
    throw (.lifecycle "child_output_materialization_failed"
      "Child output media source cannot be materialized.")

def copyArtifact (reference : ArtifactReferenceContent) :
    Program σ Failure ArtifactReferenceContent :=
  writeChunks env (env.iterBytes reference env.chunkSize) reference.mediaType reference.digest
    reference.size

def promoteItem (item : MessageContent) : Program σ Failure MessageContent := do
  raiseIfCancelled env
  match item with
  | .text _ | .json _ => pure item
  | .artifact reference => return .artifact (← copyArtifact env reference)
  | .image source mediaType _ | .audio source mediaType _ | .file source mediaType _ =>
    return .artifact (← promoteSource env source mediaType)

def promoteChildOutput (output : AssistantMessage) : Program σ Failure AssistantMessage := do
  let promoted ← output.content.mapM (promoteItem env)
  match assistantMessage promoted output.toolCalls none output.timestamp output.messageId with
  | .ok message => pure message
  | .error _ => throw .protocol

end

/-- What a destination keeps to. `later` is how the world may go on, `apart` how it does while this
call publishes nothing, and `holds` says what an open writer was given. -/
structure Sound {σ ω : Type} (env : Surroundings σ ω) (apart later : σ → σ → Prop)
    (holds : σ → ω → Option String → List UInt8 → Prop) : Prop where
  apart_refl : ∀ s, apart s s
  apart_trans : ∀ s t u, apart s t → apart t u → apart s u
  later_trans : ∀ s t u, later s t → later t u → later s u
  later_of_apart : ∀ {s t}, apart s t → later s t
  meanwhile : ∀ s, apart s (env.meanwhile s)
  holds_meanwhile : ∀ {s w mediaType data}, holds s w mediaType data →
    holds (env.meanwhile s) w mediaType data
  createTemp : ∀ s mediaType, mimeChecked mediaType "" = true →
    Triple (· = s) (env.destination.createTemp mediaType)
      (fun w t => apart s t ∧ holds t w mediaType []) (fun _ t => apart s t)
  write : ∀ {s w mediaType data}, holds s w mediaType data → ∀ bytes,
    Triple (· = s) (env.destination.write w bytes)
      (fun _ t => apart s t ∧ holds t w mediaType (data ++ bytes)) (fun _ t => apart s t)
  publish : ∀ {s w mediaType data}, holds s w mediaType data →
    Triple (· = s) (env.destination.publish w)
      (fun reference t => later s t ∧ reference.size = data.length ∧
        reference.digest = "sha256:" ++ env.sha256 data ∧ reference.mediaType = mediaType)
      (fun _ t => apart s t)
  abort : ∀ s w, Triple (· = s) (env.destination.abort w) (fun _ t => apart s t)
    (fun _ t => apart s t)

/-- The destination takes these bytes whenever they come. -/
structure Takes {σ ω : Type} (env : Surroundings σ ω) (later : σ → σ → Prop)
    (holds : σ → ω → Option String → List UInt8 → Prop) (s : σ) (mediaType : Option String)
    (data : List UInt8) : Prop where
  createTemp : ∀ t, later s t → ∃ w u, exec (env.destination.createTemp mediaType) t = (.ok w, u)
  write : ∀ t w written bytes, later s t → holds t w mediaType written →
    written ++ bytes <+: data → ∃ u, exec (env.destination.write w bytes) t = (.ok (), u)
  publish : ∀ t w, later s t → holds t w mediaType data →
    ∃ reference u, exec (env.destination.publish w) t = (.ok reference, u)

/-- The media type of an item that is not carried over as it is. -/
def mediaType : MessageContent → Option (Option String)
  | .text _ | .json _ => none
  | .image _ mediaType _ | .audio _ mediaType _ | .file _ mediaType _ => some mediaType
  | .artifact reference => some reference.mediaType

section
variable {σ ω : Type} (env : Surroundings σ ω) (later : σ → σ → Prop)
  (holds : σ → ω → Option String → List UInt8 → Prop) (s : σ)

def SourceReads (source : MediaSource) (data : List UInt8) : Prop :=
  match source with
  | .bytes bytes => bytes = data
  | .file path =>
    ∀ t, later s t → (fileChunks (env.readFile path env.chunkSize t)).data = some data
  | .url _ => False

/-- The bytes of an item, whenever it is read. -/
def Reads (item : MessageContent) (data : List UInt8) : Prop :=
  match item with
  | .text _ | .json _ => False
  | .image source _ _ | .audio source _ _ | .file source _ _ => SourceReads env later s source data
  | .artifact reference =>
    (∀ t, later s t → (env.iterBytes reference env.chunkSize t).data = some data) ∧
      reference.size = data.length ∧ reference.digest = "sha256:" ++ env.sha256 data

/-- An item is carried over, or replaced by a reference to its bytes. -/
def PromotedItem (item promoted : MessageContent) : Prop :=
  match mediaType item with
  | none => promoted = item
  | some mediaType => ∃ data reference, Reads env later s item data ∧
      promoted = .artifact reference ∧ reference.size = data.length ∧
      reference.digest = "sha256:" ++ env.sha256 data ∧ reference.mediaType = mediaType

structure Promoted (output result : AssistantMessage) : Prop where
  content : List.Forall₂ (PromotedItem env later s) output.content result.content
  toolCalls : result.toolCalls = output.toolCalls
  reasoningContent : result.reasoningContent = output.reasoningContent
  timestamp : result.timestamp = output.timestamp
  messageId : result.messageId = output.messageId

/-- The media can be read within the limit, the destination takes them, and nobody cancels. -/
structure Readable (output : AssistantMessage) : Prop where
  uncancelled : ∀ t, later s t → env.cancelled t = false
  media : ∀ item ∈ output.content, ∀ kind, mediaType item = some kind →
    ∃ data, Reads env later s item data ∧ data.length ≤ env.maxBytes ∧
      Takes env later holds s kind data

end

/-- What the constructor of the message has checked, whatever its limits were. -/
structure Made (output : AssistantMessage) : Prop where
  distinct : (output.toolCalls.map ToolCall.id).Nodup
  finite : output.timestamp.isFinite = true
  identified : output.messageId ≠ ""
  typed : ∀ item ∈ output.content, ∀ kind, mediaType item = some kind →
    mimeChecked kind "" = true

section
variable {σ ω : Type} {env : Surroundings σ ω} {apart later : σ → σ → Prop}
  {holds : σ → ω → Option String → List UInt8 → Prop}

theorem exec_raiseIfCancelled (s : σ) :
    exec (raiseIfCancelled env) s =
      if env.cancelled s then (.error .cancelled, s) else (.ok (), s) := by
  rw [raiseIfCancelled, exec_bind, exec_get]
  dsimp only
  rw [exec_ite]
  rfl

theorem triple_raiseIfCancelled (s : σ) {R : Failure → σ → Prop} (raised : R .cancelled s) :
    Triple (· = s) (raiseIfCancelled env) (fun _ t => t = s) R := by
  rintro t rfl
  rw [exec_raiseIfCancelled]
  split_ifs with cancelled
  · exact raised
  · rfl

variable (sound : Sound env apart later holds)
include sound

/-- Writing leaves the writer with all that was read, or publishes nothing. -/
theorem triple_writeAll {w : ω} {mediaType : Option String} (chunks : List Chunk) {s : σ}
    {data : List UInt8} (held : holds s w mediaType data) :
    Triple (· = s) (writeAll env w chunks data)
      (fun written t => apart s t ∧ holds t w mediaType written) (fun _ t => apart s t) := by
  induction chunks generalizing s data with
  | nil =>
    refine triple_pure ?_
    rintro t rfl
    exact ⟨sound.apart_refl t, held⟩
  | cons chunk rest ih =>
    refine triple_modify_bind ?_
    rintro t rfl
    have waited := sound.meanwhile t
    refine triple_bind (triple_raiseIfCancelled (env.meanwhile t) waited) fun _ => ?_
    cases chunk with
    | invalid => exact triple_throw fun u here => here ▸ waited
    | bytes bytes =>
      dsimp only
      split_ifs with large
      · exact triple_throw fun u here => here ▸ waited
      refine triple_bind (triple_consequence (sound.write (sound.holds_meanwhile held) bytes)
        (fun _ h => h) (fun _ _ h => h) (fun _ _ h => sound.apart_trans _ _ _ waited h)) fun _ => ?_
      refine triple_pointwise fun u wrote => ?_
      have here := sound.apart_trans _ _ _ waited wrote.1
      exact triple_consequence (ih wrote.2) (fun _ h => h)
        (fun _ _ h => ⟨sound.apart_trans _ _ _ here h.1, h.2⟩)
        (fun _ _ h => sound.apart_trans _ _ _ here h)

theorem triple_publishChunks {w : ω} {mediaType : Option String} (chunks : Chunks)
    (expectedDigest : Option String) (expectedSize : Option Nat) {s : σ}
    (held : holds s w mediaType []) :
    Triple (· = s) (publishChunks env w chunks expectedDigest expectedSize)
      (fun _ t => later s t) (fun _ t => apart s t) := by
  refine triple_bind (triple_writeAll sound chunks.yielded held) fun data => ?_
  refine triple_pointwise fun t ⟨here, held⟩ => ?_
  refine triple_bind (M := fun _ u => u = t) ?_ fun _ => ?_
  · refine triple_raising (fun _ u _ same => same) fun _ u _ same => ?_
    exact same ▸ here
  dsimp only
  split_ifs with size digest
  · exact triple_throw fun u same => same ▸ here
  · exact triple_throw fun u same => same ▸ here
  refine triple_bind (triple_raiseIfCancelled t here) fun _ => ?_
  refine triple_bind (triple_consequence (sound.publish held) (fun _ h => h) (fun _ _ h => h)
    (fun _ _ h => sound.apart_trans _ _ _ here h)) fun reference => ?_
  refine triple_pointwise fun u ⟨after, size, digest, _⟩ => ?_
  rw [if_neg (not_or_intro (not_not_intro size) (not_not_intro digest))]
  refine triple_pure ?_
  rintro v rfl
  exact sound.later_trans _ _ _ (sound.later_of_apart here) after

theorem triple_writeChunks (chunks : σ → Chunks) {mediaType : Option String}
    (typed : mimeChecked mediaType "" = true) (expectedDigest : Option String)
    (expectedSize : Option Nat) (s : σ) :
    Triple (· = s) (writeChunks env chunks mediaType expectedDigest expectedSize)
      (fun _ t => later s t) (fun _ t => apart s t) := by
  refine triple_bind (sound.createTemp s mediaType typed) fun w => triple_get_bind ?_
  rintro t ⟨here, held⟩
  refine triple_tryCatch (C := fun _ u => apart s u) ?_ fun failure => ?_
  · exact triple_consequence
      (triple_publishChunks sound (chunks t) expectedDigest expectedSize held) (fun _ h => h)
      (fun _ _ h => sound.later_trans _ _ _ (sound.later_of_apart here) h)
      (fun _ _ h => sound.apart_trans _ _ _ here h)
  · refine triple_pointwise fun u before => ?_
    refine triple_bind (M := fun _ v => apart s v) ?_ fun _ => triple_throw fun v h => h
    exact triple_consequence (sound.abort u w) (fun _ h => h)
      (fun _ _ h => sound.apart_trans _ _ _ before h)
      (fun _ _ h => sound.apart_trans _ _ _ before h)

/-- An item that fails leaves nothing published. -/
theorem triple_promoteItem {item : MessageContent}
    (typed : ∀ kind, mediaType item = some kind → mimeChecked kind "" = true) (s : σ) :
    Triple (· = s) (promoteItem env item) (fun _ t => later s t) (fun _ t => apart s t) := by
  have same := sound.later_of_apart (sound.apart_refl s)
  have wrapped : ∀ {program : Program σ Failure ArtifactReferenceContent},
      Triple (· = s) program (fun _ t => later s t) (fun _ t => apart s t) →
      Triple (· = s) (do return .artifact (← program) : Program σ Failure MessageContent)
        (fun _ t => later s t) (fun _ t => apart s t) :=
    fun triple => triple_bind triple fun _ => triple_pure fun _ h => h
  have source : ∀ (source : MediaSource) {mediaType : Option String},
      mimeChecked mediaType "" = true → Triple (· = s) (promoteSource env source mediaType)
        (fun _ t => later s t) (fun _ t => apart s t) := by
    intro source mediaType typed
    cases source with
    | bytes data => exact triple_writeChunks sound _ typed _ _ s
    | file path => exact triple_writeChunks sound _ typed _ _ s
    | url url => exact triple_throw fun t here => here ▸ sound.apart_refl s
  refine triple_bind (triple_raiseIfCancelled s (sound.apart_refl s)) fun _ => ?_
  cases item with
  | text text => exact triple_pure fun t here => here ▸ same
  | json value => exact triple_pure fun t here => here ▸ same
  | artifact reference => exact wrapped (triple_writeChunks sound _ (typed _ rfl) _ _ s)
  | image media kind detail => exact wrapped (source media (typed _ rfl))
  | audio media kind transcript => exact wrapped (source media (typed _ rfl))
  | file media kind filename => exact wrapped (source media (typed _ rfl))

/-- Bytes that fit and are taken are all written. -/
theorem exec_writeAll {s₀ : σ} {w : ω} {mediaType : Option String} {data : List UInt8}
    (uncancelled : ∀ t, later s₀ t → env.cancelled t = false) (fits : data.length ≤ env.maxBytes)
    (takes : Takes env later holds s₀ mediaType data) (chunks : List Chunk) {s : σ}
    {written : List UInt8} {blocks : List (List UInt8)} (reached : later s₀ s)
    (held : holds s w mediaType written) (read : chunks.mapM Chunk.data = some blocks)
    (all : written ++ blocks.flatten = data) :
    ∃ t, exec (writeAll env w chunks written) s = (.ok data, t) := by
  induction chunks generalizing s written blocks with
  | nil =>
    rw [List.mapM_nil] at read
    cases read
    rw [List.flatten_nil, List.append_nil] at all
    exact ⟨s, by rw [writeAll, exec_pure, all]⟩
  | cons chunk rest ih =>
    obtain ⟨bytes, blocks, rfl, more, rfl⟩ : ∃ bytes blocks', chunk = .bytes bytes ∧
        rest.mapM Chunk.data = some blocks' ∧ blocks = bytes :: blocks' := by
      rw [List.mapM_cons] at read
      obtain ⟨bytes, first, read⟩ := Option.bind_eq_some_iff.mp read
      obtain ⟨blocks', more, read⟩ := Option.bind_eq_some_iff.mp read
      cases read
      cases chunk with
      | invalid => cases first
      | bytes data =>
        cases first
        exact ⟨bytes, blocks', rfl, more, rfl⟩
    rw [List.flatten_cons, ← List.append_assoc] at all
    have part : written ++ bytes <+: data := ⟨blocks.flatten, all⟩
    have waited : later s₀ (env.meanwhile s) :=
      sound.later_trans _ _ _ reached (sound.later_of_apart (sound.meanwhile s))
    have held := sound.holds_meanwhile held
    obtain ⟨u, wrote⟩ := takes.write _ w written bytes waited held part
    obtain ⟨here, held⟩ := ok_of_triple (sound.write held bytes) rfl wrote
    have reached := sound.later_trans _ _ _ waited (sound.later_of_apart here)
    obtain ⟨t, later_⟩ := ih reached held more all
    refine ⟨t, ?_⟩
    have small : ¬env.maxBytes < written.length + bytes.length := by
      rw [← List.length_append]
      exact not_lt.mpr (part.length_le.trans fits)
    have free : exec (raiseIfCancelled env) (env.meanwhile s) = (.ok (), env.meanwhile s) := by
      rw [exec_raiseIfCancelled, uncancelled _ waited]
      rfl
    rw [writeAll, exec_bind_of_ok (exec_modify env.meanwhile s), exec_bind_of_ok free,
      if_neg small, exec_bind_of_ok wrote, later_]

theorem exec_publishChunks {s₀ : σ} {w : ω} {mediaType : Option String} {data : List UInt8}
    (uncancelled : ∀ t, later s₀ t → env.cancelled t = false) (fits : data.length ≤ env.maxBytes)
    (takes : Takes env later holds s₀ mediaType data) {chunks : Chunks} {s : σ}
    (reached : later s₀ s) (held : holds s w mediaType []) (read : chunks.data = some data)
    {expectedDigest : Option String} {expectedSize : Option Nat}
    (digest : ∀ digest ∈ expectedDigest, digest = "sha256:" ++ env.sha256 data)
    (size : ∀ size ∈ expectedSize, size = data.length) :
    ∃ reference t, exec (publishChunks env w chunks expectedDigest expectedSize) s =
        (.ok reference, t) ∧ reference.size = data.length ∧
      reference.digest = "sha256:" ++ env.sha256 data ∧ reference.mediaType = mediaType := by
  obtain ⟨yielded, raised⟩ := chunks
  rw [Chunks.data] at read
  cases raised with
  | some failure => cases read
  | none =>
    obtain ⟨blocks, each, all⟩ := Option.map_eq_some_iff.mp read
    obtain ⟨t, wrote⟩ := exec_writeAll sound uncancelled fits takes yielded reached held each all
    obtain ⟨here, held⟩ := ok_of_triple (triple_writeAll sound yielded held) rfl wrote
    have reached := sound.later_trans _ _ _ reached (sound.later_of_apart here)
    obtain ⟨reference, u, published⟩ := takes.publish t w reached held
    obtain ⟨-, sized, digested, typed⟩ := ok_of_triple (sound.publish held) rfl published
    have free : exec (raiseIfCancelled env) t = (.ok (), t) := by
      rw [exec_raiseIfCancelled, uncancelled _ reached]
      rfl
    have sameSize : ¬expectedSize.any (fun size => decide (size ≠ data.length)) = true := by
      rw [Option.any_eq_true]
      rintro ⟨expected, mem, differs⟩
      exact of_decide_eq_true differs (size expected mem)
    have sameDigest : ¬expectedDigest.any
        (fun digest => decide (digest ≠ "sha256:" ++ env.sha256 data)) = true := by
      rw [Option.any_eq_true]
      rintro ⟨expected, mem, differs⟩
      exact of_decide_eq_true differs (digest expected mem)
    refine ⟨reference, u, ?_, sized, digested, typed⟩
    rw [publishChunks, exec_bind_of_ok wrote, exec_bind, exec_raising]
    dsimp only [Option.elim]
    rw [if_neg sameSize, if_neg sameDigest, exec_bind_of_ok free, exec_bind_of_ok published,
      if_neg (not_or_intro (not_not_intro sized) (not_not_intro digested)), exec_pure]

theorem exec_writeChunks {s₀ s : σ} {mediaType : Option String} {data : List UInt8}
    (typed : mimeChecked mediaType "" = true)
    (uncancelled : ∀ t, later s₀ t → env.cancelled t = false) (fits : data.length ≤ env.maxBytes)
    (takes : Takes env later holds s₀ mediaType data) {chunks : σ → Chunks} (reached : later s₀ s)
    (read : ∀ t, later s₀ t → (chunks t).data = some data)
    (expectedDigest : Option String) (expectedSize : Option Nat)
    (digest : ∀ digest ∈ expectedDigest, digest = "sha256:" ++ env.sha256 data)
    (size : ∀ size ∈ expectedSize, size = data.length) :
    ∃ reference t, exec (writeChunks env chunks mediaType expectedDigest expectedSize) s =
        (.ok reference, t) ∧ reference.size = data.length ∧
      reference.digest = "sha256:" ++ env.sha256 data ∧ reference.mediaType = mediaType := by
  obtain ⟨w, t, created⟩ := takes.createTemp s reached
  obtain ⟨here, held⟩ := ok_of_triple (sound.createTemp s mediaType typed) rfl created
  have reached := sound.later_trans _ _ _ reached (sound.later_of_apart here)
  obtain ⟨reference, u, published, facts⟩ :=
    exec_publishChunks sound uncancelled fits takes reached held (read t reached) digest size
  refine ⟨reference, u, ?_, facts⟩
  rw [writeChunks, exec_bind_of_ok created, exec_bind_of_ok (exec_get t), exec_tryCatch, published]

theorem exec_promoteSource {s₀ s : σ} {source : MediaSource} {mediaType : Option String}
    {data : List UInt8} (typed : mimeChecked mediaType "" = true)
    (uncancelled : ∀ t, later s₀ t → env.cancelled t = false)
    (fits : data.length ≤ env.maxBytes) (takes : Takes env later holds s₀ mediaType data)
    (reached : later s₀ s) (reads : SourceReads env later s₀ source data) :
    ∃ reference t, exec (promoteSource env source mediaType) s = (.ok reference, t) ∧
      reference.size = data.length ∧ reference.digest = "sha256:" ++ env.sha256 data ∧
      reference.mediaType = mediaType := by
  cases source with
  | bytes bytes =>
    have read : (⟨[.bytes bytes], none⟩ : Chunks).data = some data := by
      rw [← show bytes = data from reads]
      exact congrArg some (List.append_nil bytes)
    exact exec_writeChunks sound typed uncancelled fits takes reached (fun _ _ => read) none none
      nofun nofun
  | file path =>
    exact exec_writeChunks sound typed uncancelled fits takes reached reads none none nofun nofun
  | url url => cases reads

/-- An item of a message that can be read is promoted. -/
theorem exec_promoteItem {s₀ s : σ} {output : AssistantMessage} (made : Made output)
    (readable : Readable env later holds s₀ output) {item : MessageContent}
    (mem : item ∈ output.content) (reached : later s₀ s) :
    ∃ promoted t, exec (promoteItem env item) s = (.ok promoted, t) ∧
      PromotedItem env later s₀ item promoted := by
  have free : exec (raiseIfCancelled env) s = (.ok (), s) := by
    rw [exec_raiseIfCancelled, readable.uncancelled s reached]
    rfl
  have uncancelled := readable.uncancelled
  have wrapped : ∀ {program : Program σ Failure ArtifactReferenceContent} {reference t},
      exec program s = (.ok reference, t) →
      exec (do return .artifact (← program) : Program σ Failure MessageContent) s =
        (.ok (.artifact reference), t) := by
    intro program reference t ran
    rw [exec_bind_of_ok ran, exec_pure]
  have media := readable.media item mem
  have typed := made.typed item mem
  cases item with
  | text text => exact ⟨_, s, (exec_bind_of_ok free).trans rfl, rfl⟩
  | json value => exact ⟨_, s, (exec_bind_of_ok free).trans rfl, rfl⟩
  | artifact reference =>
    obtain ⟨data, reads, fits, takes⟩ := media _ rfl
    obtain ⟨read, size, digest⟩ := reads
    obtain ⟨copy, t, ran, sized, digested, kind⟩ := exec_writeChunks sound (typed _ rfl) uncancelled
      fits takes reached read (some reference.digest) (some reference.size)
      (fun _ h => by cases h; exact digest) (fun _ h => by cases h; exact size)
    exact ⟨_, t, (exec_bind_of_ok free).trans (wrapped ran), data, copy, ⟨read, size, digest⟩, rfl,
      sized, digested, kind⟩
  | image source kind detail =>
    obtain ⟨data, reads, fits, takes⟩ := media _ rfl
    obtain ⟨copy, t, ran, facts⟩ :=
      exec_promoteSource sound (typed _ rfl) uncancelled fits takes reached reads
    exact ⟨_, t, (exec_bind_of_ok free).trans (wrapped ran), data, copy, reads, rfl, facts⟩
  | audio source kind transcript =>
    obtain ⟨data, reads, fits, takes⟩ := media _ rfl
    obtain ⟨copy, t, ran, facts⟩ :=
      exec_promoteSource sound (typed _ rfl) uncancelled fits takes reached reads
    exact ⟨_, t, (exec_bind_of_ok free).trans (wrapped ran), data, copy, reads, rfl, facts⟩
  | file source kind filename =>
    obtain ⟨data, reads, fits, takes⟩ := media _ rfl
    obtain ⟨copy, t, ran, facts⟩ :=
      exec_promoteSource sound (typed _ rfl) uncancelled fits takes reached reads
    exact ⟨_, t, (exec_bind_of_ok free).trans (wrapped ran), data, copy, reads, rfl, facts⟩

theorem exec_promoteItems {s₀ s : σ} {output : AssistantMessage} (made : Made output)
    (readable : Readable env later holds s₀ output) {items : List MessageContent}
    (inside : ∀ item ∈ items, item ∈ output.content) (reached : later s₀ s) :
    ∃ promoted t, exec (items.mapM (promoteItem env)) s = (.ok promoted, t) ∧
      List.Forall₂ (PromotedItem env later s₀) items promoted := by
  induction items generalizing s with
  | nil => exact ⟨[], s, rfl, .nil⟩
  | cons item items ih =>
    obtain ⟨here, rest⟩ := List.forall_mem_cons.mp inside
    obtain ⟨first, t, ran, of⟩ := exec_promoteItem sound made readable here reached
    have after := ok_of_triple (triple_promoteItem sound (made.typed item here) s) rfl ran
    obtain ⟨promoted, u, later_, all⟩ := ih rest (sound.later_trans _ _ _ reached after)
    refine ⟨first :: promoted, u, ?_, .cons of all⟩
    rw [List.mapM_cons, exec_bind_of_ok ran, exec_bind_of_ok later_, exec_pure]

end

/-- Promoted content has no inline media, so only the number of items counts. -/
theorem admits_promoted {σ ω : Type} {env : Surroundings σ ω} {later : σ → σ → Prop} {s : σ}
    {content promoted : List MessageContent}
    (h : List.Forall₂ (PromotedItem env later s) content promoted) :
    ({} : MediaLimits).admits promoted = true ↔ content.length ≤ 16 := by
  rw [MediaLimits.admits, Bool.and_eq_true, decide_eq_true_iff, ← h.length_eq]
  refine and_iff_left (List.all_eq_true.mpr fun item mem => ?_)
  obtain ⟨original, -, of⟩ := exists_of_mem_right h item mem
  cases original with
  | text text => exact of ▸ rfl
  | json value => exact of ▸ rfl
  | artifact reference =>
    obtain ⟨_, _, _, rfl, _⟩ := of
    rfl
  | image source kind detail =>
    obtain ⟨_, _, _, rfl, _⟩ := of
    rfl
  | audio source kind transcript =>
    obtain ⟨_, _, _, rfl, _⟩ := of
    rfl
  | file source kind filename =>
    obtain ⟨_, _, _, rfl, _⟩ := of
    rfl

/-- The message is made again, if it has no more items than the default limits admit. -/
theorem assistantMessage_promoted {σ ω : Type} {env : Surroundings σ ω} {later : σ → σ → Prop}
    {s : σ} {output : AssistantMessage} (made : Made output) {promoted : List MessageContent}
    (h : List.Forall₂ (PromotedItem env later s) output.content promoted) :
    (∃ result, assistantMessage promoted output.toolCalls none output.timestamp output.messageId =
      .ok result) ↔ output.content.length ≤ 16 := by
  constructor
  · rintro ⟨result, built⟩
    rw [assistantMessage] at built
    split_ifs at built with many admitted
    exact (admits_promoted h).mp admitted
  · intro few
    exact ⟨_, assistantMessage_ok (h.length_eq ▸ few) ((admits_promoted h).mpr few) made.distinct
      made.finite made.identified⟩

theorem reasoningContent_of_promote {σ ω : Type} {env : Surroundings σ ω}
    {output result : AssistantMessage} {s t : σ}
    (h : exec (promoteChildOutput env output) s = (.ok result, t)) :
    result.reasoningContent = none := by
  obtain ⟨promoted, u, -, h⟩ := exec_bind_ok h
  cases built : assistantMessage promoted output.toolCalls none output.timestamp
      output.messageId with
  | error raised =>
    rw [built] at h
    cases h
  | ok message =>
    rw [built] at h
    cases h
    rw [(ModelEvents.assistantMessage_eq_ok built).1]

end RoboAgent.OutputPromotion
