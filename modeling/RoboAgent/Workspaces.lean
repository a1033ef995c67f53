import RoboAgent.FilesystemTools
import RoboAgent.ToolResults

/-! The workspace in memory. Keys are normalized paths; under the digest prefix no operation changes
or removes what is stored, so a reference to a blob reads the same bytes ever after. -/

namespace RoboAgent.Workspaces
open RoboAgent.Dicts RoboAgent.ToolEffects RoboAgent.MessageChecks RoboAgent.ToolResults
open RoboAgent.FilesystemTools (parts asPosix)

inductive WorkspaceError
  | permission (message : String)
  | missing (key : String)
  | artifactMissing
  | failed (message : String)
deriving DecidableEq

def WorkspaceError.typeName : WorkspaceError → String
  | permission _ => "WorkspacePermissionError"
  | missing _ => "WorkspaceMissingError"
  | artifactMissing => "WorkspaceArtifactMissingError"
  | failed _ => "WorkspaceError"

local instance lawful_parts : LawfulBEq (List Char) := inferInstance

def normalizeWorkspacePath (path : String) (allowRoot : Bool) : Except WorkspaceError String :=
  let text := path.toList
  let normalized := String.ofList (asPosix (parts text))
  if path = "" ∨ '\x5c' ∈ text ∨ '\x00' ∈ text then .error (.permission "Invalid workspace path.")
  else if text.head? = some '/' ∨ ['.', '.'] ∈ parts text then
    .error (.permission "Workspace path escapes its root.")
  else if normalized = "." ∧ ¬allowRoot then .error (.permission "Workspace root is not a file.")
  else .ok normalized

def blobPrefix : String := "blobs/sha256/"

def isBlob (key : String) : Bool := blobPrefix.toList.isPrefixOf key.toList

/-- What is stored under each key: bytes and a media type. -/
structure InMemoryWorkspace where
  items : Dict String (List UInt8 × Option String)

namespace InMemoryWorkspace
variable (sha256 : List UInt8 → String) (w : InMemoryWorkspace)

def read (path : String) : Except WorkspaceError (List UInt8) := do
  let key ← normalizeWorkspacePath path false
  match w.items.get key with
  | some (data, _) => .ok data
  | none => .error (.missing key)

def write (path : String) (data : List UInt8) (mediaType : Option String) :
    Except WorkspaceError (InMemoryWorkspace × WorkspaceEntry) := do
  let key ← normalizeWorkspacePath path false
  if isBlob key ∧ (w.items.get key).any fun stored => stored.1 ≠ data then
    .error (.failed "Digest-addressed blobs are immutable.")
  else
    .ok (⟨w.items.put key (data, mediaType)⟩, ⟨key, data.length, some ("sha256:" ++ sha256 data)⟩)

def delete (path : String) : Except WorkspaceError InMemoryWorkspace := do
  let key ← normalizeWorkspacePath path false
  if isBlob key then
    .error (.permission "Digest-addressed blobs cannot be deleted directly.")
  else if (w.items.get key).isNone then .error (.missing key)
  else .ok ⟨w.items.remove key⟩

end InMemoryWorkspace

/-- The path of a reference; the scheme workspace has no parameters. -/
def workspacePath (lib : Library) (uri : String) : Except WorkspaceError String :=
  match lib.urlparse uri with
  | none => .error (.permission "Invalid workspace artifact URI.")
  | some parsed =>
    if isArtifactUri lib uri then normalizeWorkspacePath (parsed.netloc ++ parsed.path) false
    else .error (.permission "Invalid workspace artifact URI.")

def readArtifact (lib : Library) (sha256 : List UInt8 → String) (w : InMemoryWorkspace)
    (artifact : ArtifactReferenceContent) : Except WorkspaceError (List UInt8) := do
  let path ← workspacePath lib artifact.uri
  match w.read path with
  | .error (.missing _) => .error .artifactMissing
  | .error error => .error error
  | .ok data =>
    if data.length ≠ artifact.size ∨ "sha256:" ++ sha256 data ≠ artifact.digest then
      .error (.failed "Workspace artifact integrity check failed.")
    else .ok data

/-- A write or a delete, by whoever has the workspace. -/
inductive Operation
  | write (path : String) (data : List UInt8) (mediaType : Option String)
  | delete (path : String)

/-- What an operation leaves, also when it raises. -/
def perform (sha256 : List UInt8 → String) (w : InMemoryWorkspace) : Operation → InMemoryWorkspace
  | .write path data mediaType =>
    match w.write sha256 path data mediaType with
    | .ok (next, _) => next
    | .error _ => w
  | .delete path =>
    match w.delete path with
    | .ok next => next
    | .error _ => w

/-- The bytes of every blob stay. -/
def Keeps (w next : InMemoryWorkspace) : Prop :=
  ∀ key, isBlob key = true → ∀ data mediaType, w.items.get key = some (data, mediaType) →
    ∃ mediaType', next.items.get key = some (data, mediaType')

section Keeping
variable {sha256 : List UInt8 → String} {w next last : InMemoryWorkspace}

theorem Keeps.refl (w : InMemoryWorkspace) : Keeps w w :=
  fun _ _ _ mediaType stored => ⟨mediaType, stored⟩

theorem Keeps.trans (first : Keeps w next) (second : Keeps next last) : Keeps w last := by
  intro key blob data mediaType stored
  obtain ⟨mediaType', there⟩ := first key blob data mediaType stored
  exact second key blob data mediaType' there

theorem keeps_write {path : String} {data : List UInt8} {mediaType : Option String}
    {entry : WorkspaceEntry} (h : w.write sha256 path data mediaType = .ok (next, entry)) :
    Keeps w next := by
  rw [InMemoryWorkspace.write] at h
  obtain ⟨key, -, h⟩ := FalliblePrograms.bind_eq_ok h
  split_ifs at h with refused
  cases h
  intro other blob stored mediaType' there
  dsimp only
  rw [Dict.get_put]
  by_cases same : other = key
  · subst same
    rw [if_pos rfl]
    have equal : stored = data := by
      by_contra differs
      refine refused ⟨blob, ?_⟩
      rw [there, Option.any_some, decide_eq_true_eq]
      exact differs
    exact ⟨mediaType, by rw [equal]⟩
  · rw [if_neg same]
    exact ⟨mediaType', there⟩

theorem keeps_delete {path : String} (h : w.delete path = .ok next) : Keeps w next := by
  rw [InMemoryWorkspace.delete] at h
  obtain ⟨key, -, h⟩ := FalliblePrograms.bind_eq_ok h
  split_ifs at h with refused missing
  cases h
  intro other blob stored mediaType there
  have differs : other ≠ key := by
    rintro rfl
    exact refused blob
  exact ⟨mediaType, (Dict.get_remove_of_ne _ differs).trans there⟩

theorem keeps_perform (operation : Operation) : Keeps w (perform sha256 w operation) := by
  cases operation with
  | write path data mediaType =>
    rw [perform]
    cases written : w.write sha256 path data mediaType with
    | error error => exact Keeps.refl w
    | ok result => exact keeps_write written
  | delete path =>
    rw [perform]
    cases deleted : w.delete path with
    | error error => exact Keeps.refl w
    | ok next => exact keeps_delete deleted

theorem keeps_operations (operations : List Operation) :
    Keeps w (operations.foldl (perform sha256) w) := by
  induction operations generalizing w with
  | nil => exact Keeps.refl w
  | cons operation operations ih => exact (keeps_perform operation).trans ih

end Keeping

end RoboAgent.Workspaces
