import RoboAgent.Workspaces

/-! Materialization against a workspace in memory. Other tasks write and delete there, also while a
materializer waits for its write, and materialize results of their own. -/

namespace RoboAgent.MaterializedBlobs
open RoboAgent.Dicts RoboAgent.FrozenJson RoboAgent.ToolErrors RoboAgent.ToolEffects
open RoboAgent.FalliblePrograms
open RoboAgent.ToolTypes hiding Program ask
open RoboAgent.MessageChecks RoboAgent.ToolResults RoboAgent.Workspaces
open RoboAgent.FilesystemTools (parts asPosix)

structure State where
  workspace : InMemoryWorkspace
  time : Nat

/-- What is not decided here: the library, when the call is cancelled, and what other tasks do to
the workspace before each of its writes. -/
structure Surroundings where
  lib : Library
  canonicalJsonDumps : JsonValue → Option String
  sha256 : List UInt8 → String
  cancelled : Nat → Bool
  elsewhere : Nat → List Operation

/-- How urlparse reads the reference of a blob. -/
def Surroundings.ParsesBlobs (env : Surroundings) : Prop :=
  ∀ hex, isDigest ("sha256:" ++ hex) = true →
    env.lib.urlparse (workspaceUri (blobPrefix ++ hex)) =
      some ⟨"workspace", "blobs", "/sha256/" ++ hex, "", "", some "blobs"⟩

section
variable (env : Surroundings)

def State.wait (s : State) : State :=
  ⟨(env.elsewhere s.time).foldl (perform env.sha256) s.workspace, s.time + 1⟩

def writeBlob (path : String) (data : List UInt8) (mediaType : Option String) :
    Program State Unmaterialized WorkspaceEntry := do
  modify (State.wait env)
  let s ← get
  match s.workspace.write env.sha256 path data mediaType with
  | .ok (next, entry) =>
    set { s with workspace := next }
    pure entry
  | .error error => throw (.other error.typeName)

def host : Host State where
  cancelled s := env.cancelled s.time
  write := writeBlob env
  canonicalJsonDumps := env.canonicalJsonDumps
  sha256 := env.sha256
  lib := env.lib

/-- A materialization, however it ends, or an operation on the workspace. -/
inductive Action
  | materialize (limits : ToolOutputLimits) (raw : List RawToolContent)
  | operate (operation : Operation)

def act (s : State) : Action → State
  | .materialize limits raw =>
    (exec (WorkspaceToolResultMaterializer.materialize (host env) limits raw) s).2
  | .operate operation => { s with workspace := perform env.sha256 s.workspace operation }

def run (s : State) (actions : List Action) : State := actions.foldl (act env) s

end

/-- The block itself, for the kinds that both sides share. -/
def inlined : RawToolContent → Option ToolContent
  | .text text truncated => some (.text text truncated)
  | .json value => some (.json value)
  | .binary _ _ | .resource _ _ _ => none

/-- The reference is to a blob that holds these bytes. -/
structure RefersTo (env : Surroundings) (w : InMemoryWorkspace)
    (reference : ArtifactReferenceContent) (data : List UInt8) : Prop where
  size : reference.size = data.length
  digest : reference.digest = "sha256:" ++ env.sha256 data
  stored : ∃ path mediaType, workspacePath env.lib reference.uri = .ok path ∧
    normalizeWorkspacePath path false = .ok path ∧ isBlob path = true ∧
    w.items.get path = some (data, mediaType)

/-- A content is the block, or refers to a blob that holds its bytes. -/
def Represents (env : Surroundings) (w : InMemoryWorkspace) (block : RawToolContent)
    (content : ToolContent) : Prop :=
  inlined block = some content ∨
    ∃ reference data preview, content = .artifact reference ∧
      blockBytes (host env) block = .ok (data, reference.mediaType, preview) ∧
      RefersTo env w reference data

/-- A content is the block, or reads as its bytes. -/
def Lossless (env : Surroundings) (w : InMemoryWorkspace) (block : RawToolContent)
    (content : ToolContent) : Prop :=
  inlined block = some content ∨
    ∃ reference data preview, content = .artifact reference ∧
      blockBytes (host env) block = .ok (data, reference.mediaType, preview) ∧
      readArtifact env.lib env.sha256 w reference = .ok data

def Along (s t : State) : Prop := Keeps s.workspace t.workspace

section
variable {env : Surroundings} {w next : InMemoryWorkspace} {s t : State}

theorem RefersTo.reads {reference : ArtifactReferenceContent} {data : List UInt8}
    (h : RefersTo env w reference data) :
    readArtifact env.lib env.sha256 w reference = .ok data := by
  obtain ⟨path, mediaType, points, normal, -, stored⟩ := h.stored
  have read : w.read path = .ok data := by
    rw [InMemoryWorkspace.read, normal, ok_bind, stored]
  rw [readArtifact, points, ok_bind, read]
  exact if_neg (not_or_intro (not_not_intro h.size.symm) (not_not_intro h.digest.symm))

theorem RefersTo.keeps {reference : ArtifactReferenceContent} {data : List UInt8}
    (h : RefersTo env w reference data) (kept : Keeps w next) :
    RefersTo env next reference data := by
  refine ⟨h.size, h.digest, ?_⟩
  obtain ⟨path, mediaType, points, normal, blob, stored⟩ := h.stored
  obtain ⟨mediaType', there⟩ := kept path blob data mediaType stored
  exact ⟨path, mediaType', points, normal, blob, there⟩

theorem along_represents (along : Along s t) {block : RawToolContent} {content : ToolContent}
    (h : Represents env s.workspace block content) : Represents env t.workspace block content := by
  obtain same | ⟨reference, data, preview, made, bytes, refers⟩ := h
  · exact .inl same
  · exact .inr ⟨reference, data, preview, made, bytes, refers.keeps along⟩

theorem Represents.lossless {block : RawToolContent} {content : ToolContent}
    (h : Represents env w block content) : Lossless env w block content := by
  obtain same | ⟨reference, data, preview, made, bytes, refers⟩ := h
  · exact .inl same
  · exact .inr ⟨reference, data, preview, made, bytes, refers.reads⟩

theorem along_refl (s : State) : Along s s := Keeps.refl s.workspace

theorem along_trans (s t u : State) (first : Along s t) (second : Along t u) : Along s u :=
  Keeps.trans first second

theorem along_wait (env : Surroundings) (s : State) : Along s (s.wait env) :=
  keeps_operations (env.elsewhere s.time)

theorem exec_writeBlob (path : String) (data : List UInt8) (mediaType : Option String) (s : State) :
    exec (writeBlob env path data mediaType) s =
      match (s.wait env).workspace.write env.sha256 path data mediaType with
      | .ok (next, entry) => (.ok entry, { s.wait env with workspace := next })
      | .error error => (.error (.other error.typeName), s.wait env) := by
  rw [writeBlob, exec_bind, exec_modify]
  dsimp only
  rw [exec_bind, exec_get]
  dsimp only
  cases (s.wait env).workspace.write env.sha256 path data mediaType with
  | error error => rfl
  | ok written =>
    rw [exec_bind, exec_set]
    rfl

theorem advances_writeBlob (path : String) (data : List UInt8) (mediaType : Option String) :
    Advances Along (writeBlob env path data mediaType) := by
  intro s
  rw [exec_writeBlob]
  cases written : (s.wait env).workspace.write env.sha256 path data mediaType with
  | error error => exact along_wait env s
  | ok result => exact along_trans _ _ _ (along_wait env s) (keeps_write written)

theorem advances_raiseIfCancelled : Advances Along (raiseIfCancelled (host env)) := by
  refine advances_bind along_trans (advances_get along_refl) fun s => ?_
  exact advances_ite (advances_throw along_refl _) (advances_pure along_refl _)

theorem advances_storeBlock (item : RawToolContent) :
    Advances Along (storeBlock (host env) item) := by
  refine advances_bind along_trans (advances_raising along_refl _) fun bytes => ?_
  refine advances_bind along_trans (advances_writeBlob _ _ _) fun entry => ?_
  refine advances_ite (advances_throw along_refl _) ?_
  exact advances_ite (advances_pure along_refl _) (advances_throw along_refl _)

theorem advances_workspaceBlock (inlineAll : Bool) (item : RawToolContent) :
    Advances Along (workspaceBlock (host env) inlineAll item) := by
  refine advances_bind along_trans advances_raiseIfCancelled fun _ => ?_
  split
  · exact advances_pure along_refl _
  · exact advances_pure along_refl _
  · exact advances_throw along_refl _
  · exact advances_storeBlock item

theorem advances_materialize (limits : ToolOutputLimits) (raw : List RawToolContent) :
    Advances Along (WorkspaceToolResultMaterializer.materialize (host env) limits raw) := by
  refine advances_bind along_trans advances_raiseIfCancelled fun _ => ?_
  refine advances_bind along_trans (advances_raising along_refl _) fun size => ?_
  refine advances_ite (advances_throw along_refl _) ?_
  refine advances_bind along_trans ?_ fun result => ?_
  · exact advances_mapM along_refl along_trans (advances_workspaceBlock _) raw
  · exact advances_bind along_trans advances_raiseIfCancelled fun _ => advances_pure along_refl _

theorem along_run (s : State) (actions : List Action) : Along s (run env s actions) := by
  induction actions generalizing s with
  | nil => exact along_refl s
  | cons action actions ih =>
    refine along_trans _ _ _ ?_ (ih (act env s action))
    cases action with
    | materialize limits raw => exact advances_materialize limits raw s
    | operate operation => exact keeps_perform operation

theorem isBlob_append (hex : String) : isBlob (blobPrefix ++ hex) = true := by
  rw [isBlob, String.toList_append, List.isPrefixOf_iff_prefix]
  exact List.prefix_append _ _

theorem write_eq_ok {path : String} {data : List UInt8} {mediaType : Option String}
    {entry : WorkspaceEntry} (h : w.write env.sha256 path data mediaType = .ok (next, entry)) :
    normalizeWorkspacePath path false = .ok entry.path ∧
      next.items.get entry.path = some (data, mediaType) := by
  rw [InMemoryWorkspace.write] at h
  obtain ⟨key, normal, h⟩ := bind_eq_ok h
  split_ifs at h with refused
  cases h
  exact ⟨normal, Dict.get_put_self _ _ _⟩

theorem workspacePath_blob (parses : env.ParsesBlobs) {hex : String}
    (digest : isDigest ("sha256:" ++ hex) = true)
    (accepted : isArtifactUri env.lib (workspaceUri (blobPrefix ++ hex)) = true) :
    workspacePath env.lib (workspaceUri (blobPrefix ++ hex)) =
      normalizeWorkspacePath (blobPrefix ++ hex) false := by
  have joined : "blobs" ++ ("/sha256/" ++ hex) = blobPrefix ++ hex := by
    rw [← String.append_assoc]
    rfl
  rw [workspacePath, parses hex digest]
  dsimp only
  rw [if_pos accepted, joined]

theorem artifactChecked_uri {lib : Library} {reference : ArtifactReferenceContent}
    (h : artifactChecked lib reference = true) : isArtifactUri lib reference.uri = true := by
  rw [artifactChecked, Bool.and_eq_true, Bool.and_eq_true, Bool.and_eq_true] at h
  exact h.1.1.1

theorem artifactChecked_digest {lib : Library} {reference : ArtifactReferenceContent}
    (h : artifactChecked lib reference = true) : isDigest reference.digest = true := by
  rw [artifactChecked, Bool.and_eq_true, Bool.and_eq_true, Bool.and_eq_true] at h
  exact h.1.2

theorem refersTo_written (parses : env.ParsesBlobs) {reference : ArtifactReferenceContent}
    {data : List UInt8} {mediaType : Option String} {entry : WorkspaceEntry}
    (checked : artifactChecked env.lib reference = true)
    (uri : reference.uri = workspaceUri (blobPrefix ++ env.sha256 data))
    (digest : reference.digest = "sha256:" ++ env.sha256 data) (size : reference.size = data.length)
    (path : entry.path = blobPrefix ++ env.sha256 data)
    (written : w.write env.sha256 (blobPrefix ++ env.sha256 data) data mediaType =
      .ok (next, entry)) :
    RefersTo env next reference data := by
  obtain ⟨normal, stored⟩ := write_eq_ok written
  rw [path] at normal stored
  have accepted := artifactChecked_uri checked
  have hexadecimal := artifactChecked_digest checked
  rw [uri] at accepted
  rw [digest] at hexadecimal
  have points := workspacePath_blob parses hexadecimal accepted
  rw [← uri, normal] at points
  exact ⟨size, digest, _, mediaType, points, normal, isBlob_append _, stored⟩

/-- A block that was stored is referred to. -/
theorem storeBlock_represents (parses : env.ParsesBlobs) {block : RawToolContent}
    {content : ToolContent} (h : exec (storeBlock (host env) block) s = (.ok content, t)) :
    Represents env t.workspace block content := by
  obtain ⟨⟨data, mediaType, preview⟩, u, read, h⟩ := exec_bind_ok h
  rw [exec_raising] at read
  obtain ⟨bytes, rfl⟩ := Prod.mk.inj read
  obtain ⟨entry, u, wrote, h⟩ := exec_bind_ok h
  replace wrote : exec (writeBlob env (blobPrefix ++ env.sha256 data) data mediaType) s =
    (.ok entry, u) := wrote
  rw [exec_ite, exec_ite] at h
  split_ifs at h with inconsistent checked
  · cases h
  · cases h
    push Not at inconsistent
    obtain ⟨path, size, -⟩ := inconsistent
    rw [exec_writeBlob] at wrote
    cases written : (s.wait env).workspace.write env.sha256 (blobPrefix ++ env.sha256 data) data
        mediaType with
    | error error =>
      rw [written] at wrote
      cases wrote
    | ok result =>
      obtain ⟨next, entry⟩ := result
      rw [written] at wrote
      cases wrote
      have refers :=
        refersTo_written parses checked (congrArg workspaceUri path) rfl size path written
      exact .inr ⟨_, data, preview, rfl, bytes, refers⟩
  · cases h

theorem workspaceBlock_represents (parses : env.ParsesBlobs) {inlineAll : Bool}
    {block : RawToolContent} {content : ToolContent}
    (h : exec (workspaceBlock (host env) inlineAll block) s = (.ok content, t)) :
    Represents env t.workspace block content := by
  obtain ⟨⟨⟩, u, -, h⟩ := exec_bind_ok h
  split at h
  · cases h
    exact .inl rfl
  · cases h
    exact .inl rfl
  · cases h
  · exact storeBlock_represents parses h

theorem materialize_represents (parses : env.ParsesBlobs) {limits : ToolOutputLimits}
    {raw : List RawToolContent} {content : List ToolContent}
    (h : exec (WorkspaceToolResultMaterializer.materialize (host env) limits raw) s =
      (.ok content, t)) :
    List.Forall₂ (Represents env t.workspace) raw content := by
  obtain ⟨⟨⟩, u, -, h⟩ := exec_bind_ok h
  obtain ⟨size, v, -, h⟩ := exec_bind_ok h
  rw [exec_ite] at h
  split_ifs at h
  · cases h
  obtain ⟨result, x, made, h⟩ := exec_bind_ok h
  obtain ⟨⟨⟩, y, waited, h⟩ := exec_bind_ok h
  cases h
  have advanced : Along x t := by
    have advances : Along x (exec (raiseIfCancelled (host env)) x).2 := advances_raiseIfCancelled x
    rwa [waited] at advances
  have represented : List.Forall₂ (Represents env x.workspace) raw content := forall₂_of_exec_mapM
    along_refl along_trans
    (advances_workspaceBlock (size ≤ limits.maxInlineBytes))
    (fun ran => workspaceBlock_represents parses ran) (fun along => along_represents along) made
  exact represented.imp fun block content h => along_represents advanced h

/-- Nothing ever changes or removes the bytes of a blob, and what a materialization returns for a
block is, then and ever after, the block or a reference that reads as its bytes. -/
theorem materialize_lossless (env : Surroundings) (parses : env.ParsesBlobs)
    (limits : ToolOutputLimits) (raw : List RawToolContent) (s : State) :
    (∀ actions, Keeps s.workspace (run env s actions).workspace) ∧
      ∀ content t, exec (WorkspaceToolResultMaterializer.materialize (host env) limits raw) s =
        (.ok content, t) →
        ∀ later, List.Forall₂ (Lossless env (run env t later).workspace) raw content := by
  refine ⟨along_run s, fun content t h later => ?_⟩
  refine (materialize_represents parses h).imp fun block content represented => ?_
  exact (along_represents (along_run t later) represented).lossless

end

section
variable {hex : String}

theorem isDigest_append (digest : isDigest ("sha256:" ++ hex) = true) :
    hex.toList.length = 64 ∧ ∀ c ∈ hex.toList, (c.isDigit || ('a' ≤ c && c ≤ 'f')) = true := by
  rw [isDigest, Bool.and_eq_true, String.toList_append, List.drop_left' (by rfl),
    Bool.and_eq_true] at digest
  exact ⟨beq_iff_eq.mp digest.2.1, List.all_eq_true.mp digest.2.2⟩

theorem notMem_of_isDigest (digest : isDigest ("sha256:" ++ hex) = true) {c : Char}
    (other : (c.isDigit || ('a' ≤ c && c ≤ 'f')) = false) : c ∉ hex.toList := by
  intro mem
  have hexadecimal := (isDigest_append digest).2 c mem
  rw [other] at hexadecimal
  cases hexadecimal

/-- A name of hexadecimal digits is none of the special ones. -/
theorem ne_of_isDigest (digest : isDigest ("sha256:" ++ hex) = true) {name : List Char}
    (short : name.length < 64) : hex.toList ≠ name := by
  rintro rfl
  exact absurd (isDigest_append digest).1 short.ne

theorem toList_blob (hex : String) :
    (blobPrefix ++ hex).toList =
      "blobs".toList ++ '/' :: ("sha256".toList ++ '/' :: hex.toList) := by
  rw [String.toList_append]
  rfl

theorem parts_blob (digest : isDigest ("sha256:" ++ hex) = true) :
    parts (blobPrefix ++ hex).toList = ["blobs".toList, "sha256".toList, hex.toList] := by
  have slash : '/' ∉ hex.toList := notMem_of_isDigest digest (by decide)
  rw [parts, toList_blob, List.splitOn_append_cons_self_of_not_mem (by decide),
    List.splitOn_append_cons_self_of_not_mem (by decide), List.splitOn_eq_singleton slash]
  have kept : (decide (hex.toList ≠ []) && decide (hex.toList ≠ ['.'])) = true := by
    rw [decide_eq_true (ne_of_isDigest digest (by decide)),
      decide_eq_true (ne_of_isDigest digest (by decide))]
    rfl
  rw [List.filter_cons_of_pos (by decide), List.filter_cons_of_pos (by decide)]
  exact congrArg (fun rest => "blobs".toList :: "sha256".toList :: rest)
    (List.filter_cons_of_pos kept)

theorem asPosix_blob (hex : String) :
    asPosix ["blobs".toList, "sha256".toList, hex.toList] = (blobPrefix ++ hex).toList := by
  rw [toList_blob, asPosix, if_neg (List.cons_ne_nil _ _)]
  simp [List.intercalate]

theorem normalize_blob (digest : isDigest ("sha256:" ++ hex) = true) :
    normalizeWorkspacePath (blobPrefix ++ hex) false = .ok (blobPrefix ++ hex) := by
  have joined : String.ofList (asPosix (parts (blobPrefix ++ hex).toList)) = blobPrefix ++ hex := by
    rw [parts_blob digest, asPosix_blob, String.ofList_toList]
  have free : ∀ c, c ∉ blobPrefix.toList → (c.isDigit || ('a' ≤ c && c ≤ 'f')) = false →
      c ∉ (blobPrefix ++ hex).toList := by
    intro c before other
    rw [String.toList_append, List.mem_append, not_or]
    exact ⟨before, notMem_of_isDigest digest other⟩
  have dots : ['.', '.'] ∉ parts (blobPrefix ++ hex).toList := by
    rw [parts_blob digest, List.mem_cons, List.mem_cons, List.mem_singleton, not_or, not_or]
    exact ⟨by decide, by decide, (ne_of_isDigest digest (by decide)).symm⟩
  have first : (blobPrefix ++ hex).toList.head? = some 'b' := by
    rw [toList_blob]
    rfl
  have named : blobPrefix ++ hex ≠ "" := by
    intro absent
    rw [absent] at first
    cases first
  have file : blobPrefix ++ hex ≠ "." := by
    intro root
    rw [root] at first
    cases first
  rw [normalizeWorkspacePath, joined, if_neg, if_neg, if_neg (fun root => file root.1)]
  · exact not_or_intro (by rw [first]; decide) dots
  · exact not_or_intro named (not_or_intro (free _ (by decide) (by decide))
      (free _ (by decide) (by decide)))

theorem splitOn_blob (digest : isDigest ("sha256:" ++ hex) = true) :
    ("/sha256/" ++ hex).toList.splitOn '/' = [[], "sha256".toList, hex.toList] := by
  have split : ("/sha256/" ++ hex).toList =
      [] ++ '/' :: ("sha256".toList ++ '/' :: hex.toList) := by
    rw [String.toList_append]
    rfl
  rw [split, List.splitOn_append_cons_self_of_not_mem (by decide),
    List.splitOn_append_cons_self_of_not_mem (by decide),
    List.splitOn_eq_singleton (notMem_of_isDigest digest (by decide))]

theorem isArtifactUri_blob {env : Surroundings} (parses : env.ParsesBlobs)
    (digest : isDigest ("sha256:" ++ hex) = true) :
    isArtifactUri env.lib (workspaceUri (blobPrefix ++ hex)) = true := by
  have percent : (workspaceUri (blobPrefix ++ hex)).toList.contains '%' = false := by
    rw [List.contains_eq_mem, decide_eq_false_iff_not, workspaceUri, blobPrefix,
      String.toList_append, String.toList_append, List.mem_append, List.mem_append]
    exact not_or_intro (by decide)
      (not_or_intro (by decide) (notMem_of_isDigest digest (by decide)))
  have double : (("/sha256/" ++ hex).toList.zip ("/sha256/" ++ hex).toList.tail).contains
      ('/', '/') = false := by
    rw [List.contains_eq_mem, decide_eq_false_iff_not]
    have split : ("/sha256/" ++ hex).toList =
        '/' :: 's' :: 'h' :: 'a' :: '2' :: '5' :: '6' :: '/' :: hex.toList := by
      rw [String.toList_append]
      rfl
    intro mem
    rw [split] at mem
    have last : ('/', '/') ∈ ('/' :: hex.toList).zip hex.toList := by simpa using mem
    exact notMem_of_isDigest digest (by decide) (List.of_mem_zip last).2
  have named : (("/sha256/" ++ hex).toList.splitOn '/').drop 1 = ["sha256".toList, hex.toList] := by
    rw [splitOn_blob digest]
    rfl
  rw [isArtifactUri, parses hex digest, Option.any_some]
  dsimp only
  have special : ∀ name ∈ ["sha256".toList, hex.toList],
      (!([[], ['.'], ['.', '.']].contains name)) = true := by
    rw [List.forall_mem_cons, List.forall_mem_singleton]
    refine ⟨by decide, ?_⟩
    rw [Bool.not_eq_true', List.contains_eq_mem, decide_eq_false_iff_not, List.mem_cons,
      List.mem_cons, List.mem_singleton, not_or, not_or]
    exact ⟨ne_of_isDigest digest (by decide), ne_of_isDigest digest (by decide),
      ne_of_isDigest digest (by decide)⟩
  rw [percent, double, named, List.all_eq_true.mpr special]
  decide

end

/-- A reference to a blob under its digest, in any workspace that holds the blob. -/
theorem refersTo_blob {env : Surroundings} (parses : env.ParsesBlobs) {w : InMemoryWorkspace}
    {reference : ArtifactReferenceContent} {data : List UInt8} {mediaType : Option String}
    (digest : isDigest ("sha256:" ++ env.sha256 data) = true)
    (uri : reference.uri = workspaceUri (blobPrefix ++ env.sha256 data))
    (named : reference.digest = "sha256:" ++ env.sha256 data) (size : reference.size = data.length)
    (stored : w.items.get (blobPrefix ++ env.sha256 data) = some (data, mediaType)) :
    RefersTo env w reference data := by
  have normal := normalize_blob digest
  have points := workspacePath_blob parses digest (isArtifactUri_blob parses digest)
  rw [← uri, normal] at points
  exact ⟨size, named, _, mediaType, points, normal, isBlob_append _, stored⟩

theorem exec_raiseIfCancelled {env : Surroundings} {s : State}
    (uncancelled : env.cancelled s.time = false) :
    exec (raiseIfCancelled (host env)) s = (.ok (), s) := by
  rw [raiseIfCancelled, exec_bind, exec_get]
  exact (exec_ite _ _ _ s).trans (if_neg (Bool.eq_false_iff.mp uncancelled))

/-- The first materialization of some bytes stores them. -/
theorem exec_storeBlock {env : Surroundings} (parses : env.ParsesBlobs) {block : RawToolContent}
    {data : List UInt8} {mediaType preview : Option String} {s : State}
    (bytes : blockBytes (host env) block = .ok (data, mediaType, preview))
    (typed : mimeChecked mediaType "" = true)
    (short : preview.all (fun text => text.utf8ByteSize ≤ 4096) = true)
    (digest : isDigest ("sha256:" ++ env.sha256 data) = true)
    (absent : (s.wait env).workspace.items.get (blobPrefix ++ env.sha256 data) = none) :
    exec (storeBlock (host env) block) s =
      (.ok (.artifact ⟨workspaceUri (blobPrefix ++ env.sha256 data), mediaType, data.length,
          "sha256:" ++ env.sha256 data, preview⟩),
        { s.wait env with
          workspace := ⟨(s.wait env).workspace.items.put (blobPrefix ++ env.sha256 data)
            (data, mediaType)⟩ }) := by
  have read : exec (raising (blockBytes (host env) block)) s =
      (.ok (data, mediaType, preview), s) := by
    rw [bytes]
    exact exec_raising _ s
  have free : ¬(isBlob (blobPrefix ++ env.sha256 data) = true ∧
      ((s.wait env).workspace.items.get (blobPrefix ++ env.sha256 data)).any
        (fun stored => decide (stored.1 ≠ data)) = true) := by
    rw [absent]
    exact fun there => Bool.false_ne_true there.2
  have written : exec (writeBlob env (blobPrefix ++ env.sha256 data) data mediaType) s =
      (.ok ⟨blobPrefix ++ env.sha256 data, data.length, some ("sha256:" ++ env.sha256 data)⟩,
        { s.wait env with
          workspace := ⟨(s.wait env).workspace.items.put (blobPrefix ++ env.sha256 data)
            (data, mediaType)⟩ }) := by
    rw [exec_writeBlob, InMemoryWorkspace.write, normalize_blob digest, ok_bind, if_neg free]
  have checked : artifactChecked env.lib ⟨workspaceUri (blobPrefix ++ env.sha256 data), mediaType,
      data.length, "sha256:" ++ env.sha256 data, preview⟩ = true := by
    rw [artifactChecked, isArtifactUri_blob parses digest, typed, digest, short]
    rfl
  refine (exec_bind_of_ok read).trans ((exec_bind_of_ok written).trans ?_)
  rw [exec_ite, if_neg, exec_ite, if_pos]
  · rfl
  · exact checked
  · rintro (path | size | named)
    · exact path rfl
    · exact size rfl
    · exact named rfl

/-- A library that knows the URIs of blobs, and the digest of abc. -/
def blobSurroundings : Surroundings where
  lib :=
    { urlparse := fun uri =>
        if "workspace://blobs".toList.isPrefixOf uri.toList then
          some ⟨"workspace", "blobs", String.ofList (uri.toList.drop 17), "", "", some "blobs"⟩
        else none
      float := fun _ => none
      uuid4 := fun _ => ""
      b64encode := fun _ => ""
      b64decode := fun _ => none
      dumps := fun _ => none
      loads := fun _ => none }
  canonicalJsonDumps _ := none
  sha256 _ := "ba7816bf8f01cfea414140de5dae2223b00361a396177a9cb410ff61f20015ad"
  cancelled _ := false
  elsewhere _ := []

theorem blobSurroundings_parses : blobSurroundings.ParsesBlobs := by
  intro hex _
  have split : (workspaceUri (blobPrefix ++ hex)).toList =
      "workspace://blobs".toList ++ ("/sha256/" ++ hex).toList := by
    have first : "workspace://" ++ blobPrefix = "workspace://blobs" ++ "/sha256/" := by decide
    rw [workspaceUri, ← String.append_assoc, first, String.append_assoc, String.toList_append]
  have rest : String.ofList ((workspaceUri (blobPrefix ++ hex)).toList.drop 17) =
      "/sha256/" ++ hex := by
    rw [split, List.drop_left' (by decide), String.ofList_toList]
  refine (if_pos ?_).trans (by rw [rest])
  rw [List.isPrefixOf_iff_prefix, split]
  exact List.prefix_append _ _

def abc : List RawToolContent := [.text "seen" false, .binary [97, 98, 99] "text/plain"]

def abcBlob : String :=
  "blobs/sha256/ba7816bf8f01cfea414140de5dae2223b00361a396177a9cb410ff61f20015ad"

def abcContent : List ToolContent :=
  [.text "seen" false,
    .artifact ⟨"workspace://blobs/sha256/" ++
        "ba7816bf8f01cfea414140de5dae2223b00361a396177a9cb410ff61f20015ad", some "text/plain", 3,
      "sha256:ba7816bf8f01cfea414140de5dae2223b00361a396177a9cb410ff61f20015ad", none⟩]

def abcState : State := ⟨⟨Dict.empty.put abcBlob ([97, 98, 99], some "text/plain")⟩, 1⟩

/-- The digits of the digest, one by one. -/
def abcDigits : List Char := [
  'b', 'a', '7', '8', '1', '6', 'b', 'f', '8', 'f', '0', '1', 'c', 'f', 'e', 'a',
  '4', '1', '4', '1', '4', '0', 'd', 'e', '5', 'd', 'a', 'e', '2', '2', '2', '3',
  'b', '0', '0', '3', '6', '1', 'a', '3', '9', '6', '1', '7', '7', 'a', '9', 'c',
  'b', '4', '1', '0', 'f', 'f', '6', '1', 'f', '2', '0', '0', '1', '5', 'a', 'd']

theorem abc_digest (data : List UInt8) :
    isDigest ("sha256:" ++ blobSurroundings.sha256 data) = true := by
  have digits : (blobSurroundings.sha256 data).toList = abcDigits :=
    (congrArg String.toList (show blobSurroundings.sha256 data = String.ofList abcDigits from
      rfl)).trans String.toList_ofList
  rw [isDigest, String.toList_append, digits]
  decide

theorem abcBlob_eq (data : List UInt8) : abcBlob = blobPrefix ++ blobSurroundings.sha256 data := by
  have whole : abcBlob = String.ofList
      (['b', 'l', 'o', 'b', 's', '/', 's', 'h', 'a', '2', '5', '6', '/'] ++ abcDigits) := rfl
  have digits : blobSurroundings.sha256 data = String.ofList abcDigits := rfl
  rw [whole, String.ofList_append, digits]
  rfl

theorem workspaceUri_abc : workspaceUri abcBlob = "workspace://blobs/sha256/" ++
    "ba7816bf8f01cfea414140de5dae2223b00361a396177a9cb410ff61f20015ad" := by
  rw [abcBlob_eq [], workspaceUri, ← String.append_assoc]
  exact congrArg (fun before => before ++ blobSurroundings.sha256 []) (by decide)

theorem sha256_abc (data : List UInt8) : "sha256:" ++ blobSurroundings.sha256 data =
    "sha256:ba7816bf8f01cfea414140de5dae2223b00361a396177a9cb410ff61f20015ad" := by
  have before : "sha256:" = String.ofList ['s', 'h', 'a', '2', '5', '6', ':'] := rfl
  have digits : blobSurroundings.sha256 data = String.ofList abcDigits := rfl
  rw [before, digits, ← String.ofList_append]
  rfl

theorem exec_storeBlock_abc :
    exec (storeBlock (host blobSurroundings) (.binary [97, 98, 99] "text/plain"))
      ⟨⟨Dict.empty⟩, 0⟩ = (.ok (.artifact ⟨workspaceUri abcBlob, some "text/plain", 3,
        "sha256:" ++ blobSurroundings.sha256 [97, 98, 99], none⟩), abcState) := by
  rw [abcState, abcBlob_eq [97, 98, 99]]
  exact exec_storeBlock blobSurroundings_parses rfl (by decide) rfl (abc_digest _) rfl

theorem exec_materialize_abc :
    exec (WorkspaceToolResultMaterializer.materialize (host blobSurroundings) {} abc)
      ⟨⟨Dict.empty⟩, 0⟩ = (.ok abcContent, abcState) := by
  have quiet (s : State) : exec (raiseIfCancelled (host blobSurroundings)) s = (.ok (), s) :=
    exec_raiseIfCancelled rfl
  have size : rawResultSize (host blobSurroundings) abc = .ok 9 := by decide
  have sized (s : State) :
      exec (raising (rawResultSize (host blobSurroundings) abc)) s = (.ok 9, s) := by
    rw [size]
    exact exec_raising _ s
  have seen (s : State) :
      exec (workspaceBlock (host blobSurroundings) true (.text "seen" false)) s =
        (.ok (.text "seen" false), s) :=
    exec_bind_of_ok (quiet s)
  have stored : exec (workspaceBlock (host blobSurroundings) true
      (.binary [97, 98, 99] "text/plain")) ⟨⟨Dict.empty⟩, 0⟩ = _ :=
    (exec_bind_of_ok (quiet _)).trans exec_storeBlock_abc
  have both : exec (abc.mapM (workspaceBlock (host blobSurroundings) true)) ⟨⟨Dict.empty⟩, 0⟩ =
      (.ok [.text "seen" false, .artifact ⟨workspaceUri abcBlob, some "text/plain", 3,
        "sha256:" ++ blobSurroundings.sha256 [97, 98, 99], none⟩], abcState) := by
    rw [abc, List.mapM_cons, exec_bind_of_ok (seen _), List.mapM_cons, List.mapM_nil]
    exact exec_bind_of_ok (exec_bind_of_ok stored)
  rw [WorkspaceToolResultMaterializer.materialize, exec_bind_of_ok (quiet _),
    exec_bind_of_ok (sized _), exec_ite, if_neg (by decide)]
  rw [workspaceUri_abc, sha256_abc] at both
  exact (exec_bind_of_ok both).trans (exec_bind_of_ok (quiet _))

theorem materialize_lossless_abc :
    exec (WorkspaceToolResultMaterializer.materialize (host blobSurroundings) {} abc)
        ⟨⟨Dict.empty⟩, 0⟩ = (.ok abcContent, abcState) ∧
      ∀ later, List.Forall₂ (Lossless blobSurroundings
        (run blobSurroundings abcState later).workspace) abc abcContent :=
  ⟨exec_materialize_abc, (materialize_lossless blobSurroundings blobSurroundings_parses {} abc
    ⟨⟨Dict.empty⟩, 0⟩).2 abcContent abcState exec_materialize_abc⟩

end RoboAgent.MaterializedBlobs
