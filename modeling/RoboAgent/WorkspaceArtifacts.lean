import RoboAgent.MaterializedBlobs
import RoboAgent.OutputPromotion

/-! The artifact destination and reader of a workspace in memory, which keep to what the promotion
of a child output asks of them. -/

namespace RoboAgent.WorkspaceArtifacts
open RoboAgent.Dicts RoboAgent.FrozenJson RoboAgent.ToolErrors RoboAgent.ToolEffects
open RoboAgent.FalliblePrograms RoboAgent.Messages RoboAgent.MessageChecks
open RoboAgent.ToolResults (workspaceUri WorkspaceEntry)
open RoboAgent.FilesystemTools (parts asPosix)
open RoboAgent.Workspaces RoboAgent.OutputPromotion
open RoboAgent.MaterializedBlobs hiding State

structure Writer where
  mediaType : Option String
  data : List UInt8
  published : Bool
  aborted : Bool

structure State where
  scene : MaterializedBlobs.State
  writers : List Writer

/-- range(0, len(data), chunk_size) and the slices from there. -/
def slices (chunkSize : Nat) (data : List UInt8) : List (List UInt8) :=
  (List.range ((data.length + chunkSize - 1) / chunkSize)).map fun i =>
    (data.drop (i * chunkSize)).take chunkSize

section
variable (base : MaterializedBlobs.Surroundings)

def State.wait (s : State) : State := { s with scene := s.scene.wait base }

def createTemp (mediaType : Option String) : Program State Failure Nat := do
  let s ← get
  let writer : Writer := ⟨mediaType, [], false, false⟩
  set { s with writers := s.writers ++ [writer] }
  pure s.writers.length

def State.set (s : State) (w : Nat) (writer : Writer) : State :=
  { s with writers := s.writers.set w writer }

def write (w : Nat) (chunk : List UInt8) : Program State Failure Unit := do
  let s ← get
  match s.writers[w]? with
  | none => throw .other
  | some writer =>
    if writer.published ∨ writer.aborted then throw .other
    else set (s.set w { writer with data := writer.data ++ chunk })

/-- workspace_uri and the constructor of the reference. -/
def blobReference (path : String) (mediaType : Option String) (size : Nat) (digest : String) :
    Except Failure ArtifactReferenceContent :=
  match normalizeWorkspacePath path false with
  | .error _ => .error .other
  | .ok normalized =>
    let reference : ArtifactReferenceContent :=
      ⟨workspaceUri normalized, mediaType, size, digest, none⟩
    if artifactChecked base.lib reference then .ok reference else .error .protocol

def publishWriter (w : Nat) (writer : Writer) :
    Program State Failure ArtifactReferenceContent := do
  let digest := base.sha256 writer.data
  modify (State.wait base)
  let s ← get
  match s.scene.workspace.write base.sha256 (blobPrefix ++ digest) writer.data writer.mediaType with
  | .error _ => throw .other
  | .ok (next, entry) =>
    set { s with scene.workspace := next }
    if entry.size ≠ writer.data.length ∨ entry.digest ≠ some ("sha256:" ++ digest) then throw .other
    else
      modify fun s => s.set w { writer with published := true }
      raising (blobReference base (blobPrefix ++ digest) writer.mediaType writer.data.length
        ("sha256:" ++ digest))

def publish (w : Nat) : Program State Failure ArtifactReferenceContent := do
  let s ← get
  match s.writers[w]? with
  | none => throw .other
  | some writer =>
    if writer.published ∨ writer.aborted then throw .other else publishWriter base w writer

def abort (w : Nat) : Program State Failure Unit := do
  let s ← get
  match s.writers[w]? with
  | none => throw .other
  | some writer =>
    if writer.published then pure () else set (s.set w { writer with aborted := true })

/-- WorkspaceArtifactReader.iter_bytes. -/
def iterBytes (reference : ArtifactReferenceContent) (chunkSize : Nat) (s : State) : Chunks :=
  if chunkSize = 0 then ⟨[], some .other⟩
  else
    match workspacePath base.lib reference.uri >>= s.scene.workspace.read with
    | .error _ => ⟨[], some .other⟩
    | .ok data => ⟨(slices chunkSize data).map .bytes, none⟩

/-- The promotion with the destination and the reader of one workspace. -/
def surroundings (readFile : String → Nat → State → List Reading) (maxBytes chunkSize : Nat) :
    Surroundings State Nat where
  destination := ⟨createTemp, write, publish base, abort⟩
  iterBytes := iterBytes base
  readFile := readFile
  meanwhile := State.wait base
  cancelled s := base.cancelled s.scene.time
  sha256 := base.sha256
  maxBytes := maxBytes
  chunkSize := chunkSize

/-- Only the operations of other tasks come between. -/
def Apart (s t : State) : Prop :=
  ∃ steps : Nat, t.scene = (MaterializedBlobs.State.wait base)^[steps] s.scene

end

def Later (s t : State) : Prop := Along s.scene t.scene

/-- An open writer with its bytes; its media type is one. -/
def Holds (s : State) (w : Nat) (mediaType : Option String) (data : List UInt8) : Prop :=
  s.writers[w]? = some ⟨mediaType, data, false, false⟩ ∧ mimeChecked mediaType "" = true

section
variable {base : MaterializedBlobs.Surroundings}

theorem apart_refl (s : State) : Apart base s s := ⟨0, rfl⟩

theorem apart_trans (s t u : State) (first : Apart base s t) (second : Apart base t u) :
    Apart base s u := by
  obtain ⟨m, here⟩ := first
  obtain ⟨n, there⟩ := second
  exact ⟨n + m, by rw [there, here, Function.iterate_add_apply]⟩

theorem apart_wait (s : State) : Apart base s (s.wait base) := ⟨1, rfl⟩

/-- What changes only the writers comes between as well. -/
theorem apart_of_scene {s t : State} (same : t.scene = s.scene) : Apart base s t := ⟨0, same⟩

theorem later_of_apart {s t : State} (apart : Apart base s t) : Later s t := by
  obtain ⟨steps, here⟩ := apart
  rw [Later, here]
  clear here
  induction steps with
  | zero => exact along_refl _
  | succ steps ih =>
    rw [Function.iterate_succ_apply']
    exact along_trans _ _ _ ih (along_wait base _)

theorem triple_createTemp (s : State) (mediaType : Option String)
    (typed : mimeChecked mediaType "" = true) :
    Triple (· = s) (createTemp mediaType)
      (fun w t => Apart base s t ∧ Holds t w mediaType []) (fun _ t => Apart base s t) := by
  rintro t rfl
  refine ⟨apart_of_scene rfl, ?_, typed⟩
  exact List.getElem?_concat_length

theorem triple_write {s : State} {w : Nat} {mediaType : Option String} {data : List UInt8}
    (held : Holds s w mediaType data) (chunk : List UInt8) :
    Triple (· = s) (write w chunk)
      (fun _ t => Apart base s t ∧ Holds t w mediaType (data ++ chunk))
      (fun _ t => Apart base s t) := by
  rw [write]
  refine triple_get_bind ?_
  rintro t rfl
  rw [held.1]
  dsimp only
  rw [if_neg (by decide)]
  rintro u rfl
  refine ⟨apart_of_scene rfl, ?_, held.2⟩
  have inside : w < u.writers.length := (List.getElem?_eq_some_iff.mp held.1).1
  exact List.getElem?_set_self inside

theorem triple_abort (s : State) (w : Nat) :
    Triple (· = s) (abort w) (fun _ t => Apart base s t) (fun _ t => Apart base s t) := by
  rw [abort]
  refine triple_get_bind ?_
  rintro t rfl
  cases t.writers[w]? with
  | none => exact triple_throw fun u same => same ▸ apart_refl u
  | some writer =>
    dsimp only
    split_ifs with published
    · exact triple_pure fun u same => same ▸ apart_refl u
    · rintro u rfl
      exact apart_of_scene rfl

theorem blobReference_ok (parses : base.ParsesBlobs) {hex : String}
    (digest : isDigest ("sha256:" ++ hex) = true) {mediaType : Option String}
    (typed : mimeChecked mediaType "" = true) (size : Nat) :
    blobReference base (blobPrefix ++ hex) mediaType size ("sha256:" ++ hex) =
      .ok ⟨workspaceUri (blobPrefix ++ hex), mediaType, size, "sha256:" ++ hex, none⟩ := by
  rw [blobReference, normalize_blob digest]
  refine if_pos ?_
  rw [artifactChecked, isArtifactUri_blob parses digest, typed, digest]
  rfl

/-- Publishing writes the blob, or fails before it changed anything. -/
theorem exec_publish (parses : base.ParsesBlobs)
    (hexadecimal : ∀ data, isDigest ("sha256:" ++ base.sha256 data) = true) {s : State} {w : Nat}
    {mediaType : Option String} {data : List UInt8} (held : Holds s w mediaType data) :
    match (s.wait base).scene.workspace.write base.sha256 (blobPrefix ++ base.sha256 data) data
      mediaType with
    | .error _ => exec (publish base w) s = (.error .other, s.wait base)
    | .ok (next, _) => ∃ t, t.scene.workspace = next ∧
        exec (publish base w) s = (.ok ⟨workspaceUri (blobPrefix ++ base.sha256 data), mediaType,
          data.length, "sha256:" ++ base.sha256 data, none⟩, t) := by
  have opened : exec (publish base w) s =
      exec (publishWriter base w ⟨mediaType, data, false, false⟩) s := by
    rw [publish, exec_bind_of_ok (exec_get s), held.1]
    rfl
  have reference := blobReference_ok parses (hexadecimal data) held.2 data.length
  rw [opened, publishWriter]
  dsimp only
  rw [exec_bind_of_ok (exec_modify (State.wait base) s), exec_bind_of_ok (exec_get _)]
  cases written : (s.wait base).scene.workspace.write base.sha256
      (blobPrefix ++ base.sha256 data) data mediaType with
  | error error => rfl
  | ok result =>
    obtain ⟨next, entry⟩ := result
    have entered : entry.size = data.length ∧
        entry.digest = some ("sha256:" ++ base.sha256 data) := by
      rw [InMemoryWorkspace.write] at written
      obtain ⟨key, -, written⟩ := bind_eq_ok written
      split_ifs at written
      cases written
      exact ⟨rfl, rfl⟩
    let after : State := ⟨⟨next, (s.wait base).scene.time⟩, (s.wait base).writers⟩
    refine ⟨after.set w ⟨mediaType, data, true, false⟩, rfl, ?_⟩
    dsimp only
    rw [exec_bind_of_ok (exec_set _ _),
      if_neg (not_or_intro (not_not_intro entered.1) (not_not_intro entered.2)),
      exec_bind_of_ok (exec_modify _ _), exec_raising, reference]

theorem triple_publish (parses : base.ParsesBlobs)
    (hexadecimal : ∀ data, isDigest ("sha256:" ++ base.sha256 data) = true) {s : State} {w : Nat}
    {mediaType : Option String} {data : List UInt8} (held : Holds s w mediaType data) :
    Triple (· = s) (publish base w)
      (fun reference t => Later s t ∧ reference.size = data.length ∧
        reference.digest = "sha256:" ++ base.sha256 data ∧ reference.mediaType = mediaType)
      (fun _ t => Apart base s t) := by
  rintro s rfl
  have outcome := exec_publish parses hexadecimal held
  cases written : (s.wait base).scene.workspace.write base.sha256
      (blobPrefix ++ base.sha256 data) data mediaType with
  | error error =>
    rw [written] at outcome
    rw [show exec (publish base w) s = _ from outcome]
    exact apart_wait s
  | ok result =>
    obtain ⟨next, entry⟩ := result
    rw [written] at outcome
    obtain ⟨t, here, ran⟩ := outcome
    rw [ran]
    refine ⟨?_, rfl, rfl, rfl⟩
    refine along_trans _ _ _ (along_wait base s.scene) ?_
    rw [Along, here]
    exact keeps_write written

/-- The destination and the reader of a workspace in memory keep to what the promotion asks. -/
theorem surroundings_sound (parses : base.ParsesBlobs)
    (hexadecimal : ∀ data, isDigest ("sha256:" ++ base.sha256 data) = true)
    (readFile : String → Nat → State → List Reading) (maxBytes chunkSize : Nat) :
    Sound (surroundings base readFile maxBytes chunkSize) (Apart base) Later Holds where
  apart_refl := apart_refl
  apart_trans := apart_trans
  later_trans _ _ _ := along_trans _ _ _
  later_of_apart := later_of_apart
  meanwhile := apart_wait
  holds_meanwhile held := held
  createTemp := triple_createTemp
  write held := triple_write held
  publish held := triple_publish parses hexadecimal held
  abort := triple_abort

theorem flatten_range_slices (chunkSize : Nat) (data : List UInt8) (count : Nat) :
    ((List.range count).map fun i => (data.drop (i * chunkSize)).take chunkSize).flatten =
      data.take (count * chunkSize) := by
  induction count with
  | zero => rw [Nat.zero_mul, List.take_zero, List.range_zero, List.map_nil, List.flatten_nil]
  | succ count ih =>
    rw [List.range_succ, List.map_append, List.flatten_append, ih, Nat.succ_mul, List.take_add]
    exact congrArg _ (List.append_nil _)

theorem flatten_slices {chunkSize : Nat} (positive : 0 < chunkSize) (data : List UInt8) :
    (slices chunkSize data).flatten = data := by
  rw [slices, flatten_range_slices]
  refine List.take_of_length_le ?_
  have quotient := Nat.div_add_mod (data.length + chunkSize - 1) chunkSize
  have rest := Nat.mod_lt (data.length + chunkSize - 1) positive
  rw [Nat.mul_comm]
  omega

/-- A reference to a blob reads as its bytes, now and later. -/
theorem iterBytes_refersTo {s t : State} {reference : ArtifactReferenceContent} {data : List UInt8}
    (refers : RefersTo base s.scene.workspace reference data) (later : Later s t) {chunkSize : Nat}
    (positive : 0 < chunkSize) : (iterBytes base reference chunkSize t).data = some data := by
  obtain ⟨path, kind, points, normal, -, stored⟩ := (refers.keeps later).stored
  have read : (workspacePath base.lib reference.uri >>= t.scene.workspace.read) = .ok data := by
    rw [points, ok_bind, InMemoryWorkspace.read, normal, ok_bind, stored]
  have all : ((slices chunkSize data).map Chunk.bytes).mapM Chunk.data =
      some (slices chunkSize data) := by
    induction slices chunkSize data with
    | nil => rfl
    | cons first rest ih =>
      rw [List.map_cons, List.mapM_cons, ih]
      rfl
  rw [iterBytes, if_neg positive.ne', read, Chunks.data]
  dsimp only
  rw [all, Option.map_some, flatten_slices positive]
  rfl

/-- The bytes of a blob that is there are taken again. -/
theorem takes_refersTo (parses : base.ParsesBlobs)
    (hexadecimal : ∀ data, isDigest ("sha256:" ++ base.sha256 data) = true) {s : State}
    {data : List UInt8} {kind : Option String}
    (stored : s.scene.workspace.items.get (blobPrefix ++ base.sha256 data) = some (data, kind))
    (readFile : String → Nat → State → List Reading) (maxBytes chunkSize : Nat)
    (mediaType : Option String) :
    Takes (surroundings base readFile maxBytes chunkSize) Later Holds s mediaType data where
  createTemp t _ := ⟨t.writers.length, _, rfl⟩
  write t w written bytes _ held _ := by
    refine ⟨t.set w ⟨mediaType, written ++ bytes, false, false⟩, ?_⟩
    change exec (write w bytes) t = _
    rw [write, exec_bind_of_ok (exec_get t), held.1]
    exact exec_set _ t
  publish t w later held := by
    have outcome := exec_publish parses hexadecimal held
    have blob := isBlob_append (base.sha256 data)
    obtain ⟨kind', there⟩ := along_trans _ _ _ later (along_wait base t.scene) _ blob _ _ stored
    have kept : ¬(isBlob (blobPrefix ++ base.sha256 data) = true ∧
        ((t.scene.wait base).workspace.items.get (blobPrefix ++ base.sha256 data)).any
          (fun stored => decide (stored.1 ≠ data)) = true) := by
      rintro ⟨-, differs⟩
      rw [there, Option.any_some] at differs
      exact of_decide_eq_true differs rfl
    have written : ∃ result, (t.wait base).scene.workspace.write base.sha256
        (blobPrefix ++ base.sha256 data) data mediaType = .ok result := by
      rw [InMemoryWorkspace.write, normalize_blob (hexadecimal data), ok_bind]
      exact ⟨_, if_neg kept⟩
    obtain ⟨⟨next, entry⟩, written⟩ := written
    rw [written] at outcome
    obtain ⟨u, -, ran⟩ := outcome
    exact ⟨_, u, ran⟩

/-- The child and its parent share a workspace: the references of the child are to its blobs. -/
theorem readable_refersTo (parses : base.ParsesBlobs)
    (hexadecimal : ∀ data, isDigest ("sha256:" ++ base.sha256 data) = true) {s : State}
    {output : AssistantMessage} (uncancelled : ∀ time, base.cancelled time = false)
    {maxBytes chunkSize : Nat} (positive : 0 < chunkSize)
    (readFile : String → Nat → State → List Reading)
    (media : ∀ item ∈ output.content, ∀ kind, mediaType item = some kind →
      ∃ reference data stored, item = .artifact reference ∧
        RefersTo base s.scene.workspace reference data ∧ data.length ≤ maxBytes ∧
        s.scene.workspace.items.get (blobPrefix ++ base.sha256 data) = some (data, stored)) :
    Readable (surroundings base readFile maxBytes chunkSize) Later Holds s output where
  uncancelled t _ := uncancelled t.scene.time
  media := by
    intro item mem kind typed
    obtain ⟨reference, data, stored, rfl, refers, fits, there⟩ := media item mem kind typed
    have takes := takes_refersTo parses hexadecimal there readFile maxBytes chunkSize kind
    exact ⟨data, ⟨fun t later => iterBytes_refersTo refers later positive, refers.size,
      refers.digest⟩, fits, takes⟩

end

def sharedState : State := ⟨abcState, []⟩

def sharedSurroundings : Surroundings State Nat :=
  surroundings blobSurroundings (fun _ _ _ => []) 1024 65536

def abcReference : ArtifactReferenceContent :=
  ⟨"workspace://blobs/sha256/" ++
      "ba7816bf8f01cfea414140de5dae2223b00361a396177a9cb410ff61f20015ad", some "text/plain", 3,
    "sha256:ba7816bf8f01cfea414140de5dae2223b00361a396177a9cb410ff61f20015ad",
    none⟩

/-- What a child said, with or without its reasoning. -/
def childOutput (reasoningContent : Option String) : AssistantMessage :=
  ⟨[.text "done", .artifact abcReference], [], reasoningContent, ⟨0⟩, "child"⟩

theorem sharedSurroundings_sound :
    Sound sharedSurroundings (Apart blobSurroundings) Later Holds :=
  surroundings_sound blobSurroundings_parses abc_digest _ _ _

theorem abcReference_refersTo :
    RefersTo blobSurroundings sharedState.scene.workspace abcReference [97, 98, 99] := by
  have uri : abcReference.uri =
      workspaceUri (blobPrefix ++ blobSurroundings.sha256 [97, 98, 99]) := by
    rw [← abcBlob_eq, workspaceUri_abc]
    rfl
  have stored : sharedState.scene.workspace.items.get
      (blobPrefix ++ blobSurroundings.sha256 [97, 98, 99]) =
        some ([97, 98, 99], some "text/plain") := by
    rw [← abcBlob_eq]
    exact Dict.get_put_self _ _ _
  exact refersTo_blob blobSurroundings_parses (abc_digest _) uri (sha256_abc _).symm rfl stored

theorem childOutput_made (reasoningContent : Option String) :
    Made (childOutput reasoningContent) where
  distinct := List.nodup_nil
  finite := (by decide : (⟨0⟩ : PyFloat).isFinite = true)
  identified := (by decide : "child" ≠ "")
  typed := by
    intro item mem kind typed
    simp only [childOutput, List.mem_cons, List.not_mem_nil, or_false] at mem
    obtain rfl | rfl := mem
    · cases typed
    · cases typed
      decide

theorem childOutput_readable (reasoningContent : Option String) :
    Readable sharedSurroundings Later Holds sharedState (childOutput reasoningContent) := by
  refine readable_refersTo blobSurroundings_parses abc_digest (fun _ => rfl) (by decide) _ ?_
  intro item mem kind typed
  simp only [childOutput, List.mem_cons, List.not_mem_nil, or_false] at mem
  obtain rfl | rfl := mem
  · cases typed
  · exact ⟨_, [97, 98, 99], some "text/plain", rfl, abcReference_refersTo, by decide, rfl⟩

end RoboAgent.WorkspaceArtifacts
