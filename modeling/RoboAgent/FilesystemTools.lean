import Mathlib
import RoboAgent.FileTrees
import RoboAgent.TextOccurrences
import RoboAgent.EventLog
import RoboAgent.JsonIdentity
import RoboAgent.ToolEffects
import RoboAgent.PatchGrammar

/-! The filesystem tools of a workspace. A call sees the tree of files and leaves a log of the
places whose content it reads, lists, creates or replaces; looking a path up leaves no trace. A
name is a sequence of Unicode scalar values, and what the tools resolve and where temporary files
go is left to the host. -/

namespace RoboAgent.FilesystemTools
open RoboAgent.FalliblePrograms RoboAgent.FileTrees RoboAgent.TextOccurrences RoboAgent.LineEnds
open RoboAgent.FrozenJson RoboAgent.SortedJson RoboAgent.JsonText RoboAgent.JsonIdentity
open RoboAgent.ToolEffects RoboAgent.PatchGrammar RoboAgent.EventLog

/-- What the tools take from the platform. A temporary file never takes the place of another. -/
structure Host where
  resolve : FileTree → Place → Place
  resolves : Resolves resolve
  temporary : FileTree → Place → Name
  fresh : ∀ (t : FileTree) place, t.node (place ++ [temporary t place]) = none
  /-- What str.casefold makes of a character. -/
  casefold : Char → Text
  filled : ∀ c, casefold c ≠ []
  floatText : PyFloat → Text

/-- A name that is longer than all names in the directory together. -/
def longName (t : FileTree) (place : Place) : Name := 't' :: (t.names place).flatten

theorem longName_fresh (t : FileTree) (place : Place) :
    t.node (place ++ [longName t place]) = none := by
  by_contra there
  have inside : longName t place ∈ t.names place := (t.listed _ _).mpr there
  exact absurd (List.sublist_flatten_of_mem inside).length_le (Nat.not_succ_le_self _)

/-- A host on which lower case is known for the ASCII letters and for one more. -/
def plainHost : Host where
  resolve t path := resolveFrom t [] path
  resolves := resolves_resolveFrom
  temporary := longName
  fresh := longName_fresh
  casefold c := if c = 'ß' then ['s', 's'] else [c.toLower]
  filled c := by split_ifs <;> exact List.cons_ne_nil _ _
  floatText _ := []

inductive Raised
  | failure (code message : String)
  | os (error : OsError)
  | value
deriving DecidableEq

inductive AccessKind
  | read
  | list
  | makeDirectory
  | create
  | replace
  | remove
deriving DecidableEq

structure Access where
  kind : AccessKind
  place : Place
deriving DecidableEq

structure Disk where
  tree : FileTree
  accesses : List Access

abbrev FileProgram (α : Type) := Program Disk Raised α

def fail {α : Type} (code message : String) : FileProgram α := throw (.failure code message)

def system {α : Type} (value : Except OsError α) : FileProgram α :=
  raising (value.mapError .os)

def log (kind : AccessKind) (place : Place) : FileProgram Unit :=
  modify fun disk => { disk with accesses := disk.accesses ++ [⟨kind, place⟩] }

/-- An access that changes the tree. -/
def change (kind : AccessKind) (place : Place) (tree : FileTree) : FileProgram Unit :=
  modify fun disk => ⟨tree, disk.accesses ++ [⟨kind, place⟩]⟩

section Paths

def isSymlink (tree : FileTree) (path : Place) : Bool := FileTree.isLink (tree.lstat path)

def exists_ (tree : FileTree) (path : Place) : Bool := (tree.locate path).toBool

def isDir (tree : FileTree) (path : Place) : Bool :=
  decide ((tree.stat path).toOption = some .directory)

def isFile (tree : FileTree) (path : Place) : Bool :=
  match tree.stat path with
  | .ok (.file _) => true
  | _ => false

def readBytes (path : Place) : FileProgram ByteArray := do
  let disk ← get
  let place ← system (disk.tree.locate path)
  match disk.tree.node place with
  | some (.file content) => do
    log .read place
    pure content
  | _ => throw (.os .isDirectory)

/-- The names os.scandir gives. -/
def scan (path : Place) : FileProgram (List Name) := do
  let disk ← get
  let place ← system (disk.tree.locate path)
  if disk.tree.node place = some .directory then do
    log .list place
    pure (disk.tree.names place)
  else throw (.os .notDirectory)

def makeDirectory (path : Place) : FileProgram Unit := do
  let disk ← get
  if path = [] then throw (.os .exists)
  else do
    let (place, name) ← system (disk.tree.entry path)
    if free : disk.tree.node place = some .directory ∧ disk.tree.node (place ++ [name]) = none then
      change .makeDirectory (place ++ [name])
        (disk.tree.put place name .directory free.1 (by rw [free.2]; nofun))
    else throw (.os .exists)

/-- A new file with its content in a directory; its path. -/
def createTemporary (host : Host) (directory : Place) (content : ByteArray) :
    FileProgram Place := do
  let disk ← get
  let place ← system (disk.tree.locate directory)
  let name := host.temporary disk.tree place
  if inside : disk.tree.node place = some .directory then do
    change .create (place ++ [name])
      (disk.tree.put place name (.file content) inside (by rw [host.fresh]; nofun))
    pure (directory ++ [name])
  else throw (.os .notDirectory)

def replaceFile (source target : Place) : FileProgram Unit := do
  let disk ← get
  let (place, name) ← system (disk.tree.entry source)
  let (place', name') ← system (disk.tree.entry target)
  let tree ← system (disk.tree.move place name place' name')
  change .replace (place' ++ [name']) tree

def unlink (path : Place) : FileProgram Unit := do
  let disk ← get
  let (place, name) ← system (disk.tree.entry path)
  if free : disk.tree.node (place ++ [name]) = some .directory then throw (.os .isDirectory)
  else change .remove (place ++ [name]) (disk.tree.erase place name free)

/-- What Path.mkdir makes of an error other than a missing parent. -/
def settle (path : Place) (existOk : Bool) (raised : Raised) : FileProgram Unit := do
  let disk ← get
  if existOk && isDir disk.tree path then pure ()
  else throw raised

/-- Path.mkdir with parents. -/
def mkdir (path : Place) (existOk : Bool) : FileProgram Unit :=
  tryCatch (makeDirectory path) fun raised =>
    if raised = .os .notFound then
      if top : path = [] then throw raised
      else do
        mkdir path.dropLast true
        tryCatch (makeDirectory path) fun raised =>
          if raised = .os .notFound then throw raised
          else settle path existOk raised
    else settle path existOk raised
termination_by path.length
decreasing_by
  rw [List.length_dropLast]
  have filled := List.length_pos_of_ne_nil top
  omega

end Paths

structure FilesystemWorkspace where
  root : Place
deriving DecidableEq

/-- The workspace on a path, where that is a directory. -/
def FilesystemWorkspace.new (host : Host) (tree : FileTree) (path : Place) :
    Option FilesystemWorkspace :=
  let root := host.resolve tree path
  if isDir tree root then some ⟨root⟩ else none

structure FilesystemConfig where
  workspace : FilesystemWorkspace
  maxFileBytes : Nat := 8 * 1024 * 1024
  maxReadBytes : Nat := 256 * 1024
  maxWriteBytes : Nat := 8 * 1024 * 1024
  maxListResults : Nat := 1000
  maxListOutputBytes : Nat := 256 * 1024
  maxSearchResults : Nat := 1000
  maxSearchBytes : Nat := 256 * 1024
  includeHidden : Bool := false
  maxDepth : Nat := 32
  positive : 0 ∉ [maxFileBytes, maxReadBytes, maxWriteBytes, maxListResults, maxListOutputBytes,
    maxSearchResults, maxSearchBytes, maxDepth] := by decide

section Globs

/-- A part of a pattern of fnmatch. -/
inductive GlobPart
  | star
  | any
  | seq (negated : Bool) (ranges : List (Char × Char))
  | char (c : Char)

def ranges : Text → List (Char × Char)
  | low :: '-' :: high :: rest => (low, high) :: ranges rest
  | c :: rest => (c, c) :: ranges rest
  | [] => []

/-- Whether a sequence in brackets is negated, what stands in it and what follows it. -/
def bracket (pattern : Text) : Option (Bool × Text × Text) :=
  let negated := ['!'].isPrefixOf pattern
  let pattern := if negated then pattern.tail else pattern
  let first := pattern.take 1
  let rest := pattern.tail
  if ']' ∈ rest then
    some (negated, first ++ rest.takeWhile (· ≠ ']'), (rest.dropWhile (· ≠ ']')).tail)
  else none

theorem bracket_shorter {pattern body rest : Text} {negated : Bool}
    (h : bracket pattern = some (negated, body, rest)) : rest.length ≤ pattern.length := by
  have shorter (p : Char → Bool) (l : Text) : ((l.tail.dropWhile p).tail).length ≤ l.length :=
    ((List.tail_sublist _).trans
      ((List.dropWhile_sublist p).trans (List.tail_sublist l))).length_le
  rw [bracket] at h
  split_ifs at h
  · cases h
    exact (shorter _ _).trans (List.tail_sublist pattern).length_le
  · cases h
    exact shorter _ _

def globParts : Text → List GlobPart
  | [] => []
  | '*' :: rest => .star :: globParts rest
  | '?' :: rest => .any :: globParts rest
  | '[' :: rest =>
    match closed : bracket rest with
    | some (negated, body, after) => .seq negated (ranges body) :: globParts after
    | none => .char '[' :: globParts rest
  | c :: rest => .char c :: globParts rest
termination_by pattern => pattern.length
decreasing_by
  all_goals first
    | exact Nat.lt_succ_self _
    | exact Nat.lt_succ_of_le (bracket_shorter closed)

def matchParts : List GlobPart → Text → Bool
  | [], text => text.isEmpty
  | .star :: rest, text => text.tails.any (matchParts rest)
  | .any :: rest, text => !text.isEmpty && matchParts rest text.tail
  | .seq negated ranges :: rest, text =>
    (text.head?.any fun c =>
      negated != ranges.any fun range => range.1 ≤ c && c ≤ range.2) && matchParts rest text.tail
  | .char c :: rest, text => text.head? == some c && matchParts rest text.tail

def fnmatchcase (name pattern : Text) : Bool := matchParts (globParts pattern) name

/-- The components of a relative path. -/
def parts (path : Text) : List Name :=
  (path.splitOn '/').filter fun name => name ≠ [] && name ≠ ['.']

def asPosix (path : List Name) : Text :=
  if path = [] then ['.'] else ['/'].intercalate path

/-- PurePath.match: the last components match, one by one; a pattern without any is an error. -/
def pathMatch (path pattern : List Name) : Except Raised Bool :=
  if pattern = [] then .error .value
  else .ok (decide (pattern.length ≤ path.length) &&
    (path.reverse.zip pattern.reverse).all fun pair => fnmatchcase pair.1 pair.2)

def globCandidates (pattern : Text) : List Text :=
  if ['*', '*', '/'].isPrefixOf pattern then pattern :: globCandidates (pattern.drop 3)
  else [pattern]
termination_by pattern.length
decreasing_by
  rename_i starts
  have long := (List.isPrefixOf_iff_prefix.mp starts).length_le
  rw [List.length_drop]
  change 3 ≤ pattern.length at long
  omega

def globMatches (relative pattern : Text) : Except Raised Bool :=
  (globCandidates pattern).anyM fun candidate => do
    let matched ← pathMatch (parts relative) (parts candidate)
    pure (matched || fnmatchcase relative candidate)

def validateRelativePath (value : Text) : Except Raised (List Name) :=
  if '\x00' ∈ value then
    .error (.failure "invalid_path" "Path must be a relative string without NUL.")
  else if ['/'].isPrefixOf value || (parts value).contains ['.', '.'] then
    .error (.failure "invalid_path" "Absolute paths and '..' components are not allowed.")
  else .ok (parts value)

def relativeGlob (value : Text) : Except Raised Text := do
  let path ← validateRelativePath value
  if asPosix path = [] then .error (.failure "invalid_glob" "Glob must not be empty.")
  else .ok (asPosix path)

end Globs

variable (host : Host) (config : FilesystemConfig)

/-- The path a call names, and its relative form. -/
def target (value : Text) (allowFileSymlink forWrite : Bool) : FileProgram (Place × Text) := do
  let relative ← raising (validateRelativePath value)
  let disk ← get
  let lexical := config.workspace.root ++ relative
  if forWrite && isSymlink disk.tree lexical then
    fail "symlink_not_allowed" "Write targets cannot be symlinks."
  else
    let resolved := host.resolve disk.tree lexical
    if !config.workspace.root.isPrefixOf resolved then
      fail "path_escape" "Resolved path escapes the workspace."
    else if isSymlink disk.tree lexical && !allowFileSymlink && !forWrite then
      pure (lexical, asPosix relative)
    else pure (if allowFileSymlink then resolved else lexical, asPosix relative)

def readRegular (path : Place) (maximum : Nat) : FileProgram ByteArray := do
  let disk ← get
  match disk.tree.stat path with
  | .error .notFound => fail "file_not_found" "File does not exist."
  | .error error => throw (.os error)
  | .ok (.file content) =>
    if maximum < content.size then fail "file_too_large" "File exceeds max_file_bytes."
    else
      tryCatch (readBytes path) fun
        | .os _ => fail "read_error" "Could not read file."
        | raised => throw raised
  | .ok _ => fail "not_regular_file" "Path is not a regular file."

def decodeUtf8 (content : ByteArray) : Option Text := content.utf8Decode?.map Array.toList

/-- The temporary file and its move to the target. The mode it takes over from the target is no
part of a tree. -/
def writeAndReplace (directory target : Place) (content : ByteArray) : FileProgram Unit := do
  let temporary ← createTemporary host directory content
  tryCatch (replaceFile temporary target) fun raised => do
    let _ ← attempt (unlink temporary)
    throw raised

/-- The part of _atomic_write that makes the directories above the target. -/
def requireParent (parent : Place) (createParents : Bool) : FileProgram Unit := do
  let disk ← get
  if exists_ disk.tree parent then pure ()
  else if !createParents then fail "parent_not_found" "Parent directory does not exist."
  else
    tryCatch (mkdir parent false) fun
      | .os _ => fail "write_error" "Could not create parent directories."
      | raised => throw raised

def atomicWrite (path : Place) (content : ByteArray) (createParents : Bool) :
    FileProgram Unit := do
  let disk ← get
  let parent := path.dropLast
  if !config.workspace.root.isPrefixOf (host.resolve disk.tree parent) then
    fail "path_escape" "Parent directory escapes workspace."
  else do
    requireParent parent createParents
    let disk ← get
    if exists_ disk.tree path && (isSymlink disk.tree path || !isFile disk.tree path) then
      fail "not_regular_file" "Write target must be a regular file."
    else
      tryCatch (writeAndReplace host (host.resolve disk.tree parent) path content) fun
        | .os _ => fail "write_error" "Could not atomically write file."
        | raised => throw raised

def fits (value : JsonValue) (limit : Nat) : Bool :=
  decide (byteSize (write host.floatText (sortKeys value)) ≤ limit)

def result (items : List JsonValue) (truncated : Bool) : JsonValue :=
  .obj [("items", .arr items), ("truncated", .bool truncated)]

/-- Whether there is no room for one more item. -/
def full (maxResults maxBytes : Nat) (items : List JsonValue) (candidate : JsonValue) : Bool :=
  decide (maxResults ≤ items.length) || !fits host (result (items ++ [candidate]) true) maxBytes

/-- Add items until one finds no room. -/
def collect (maxResults maxBytes : Nat) : List JsonValue → List JsonValue → List JsonValue × Bool
  | items, [] => (items, false)
  | items, candidate :: candidates =>
    if full host maxResults maxBytes items candidate then (items, true)
    else collect maxResults maxBytes (items ++ [candidate]) candidates

def visible (name : Name) : Bool := config.includeHidden || !(['.'].isPrefixOf name)

def sortNames (names : List Name) : List Name := names.insertionSort fun a b => a ≤ b

/-- What os.walk visits from a directory down, with the directories it goes into cut down; a
directory that cannot be listed is passed over. -/
def walkDirectory : Nat → Place → FileProgram (List Place)
  | levels, here => do
    let disk ← get
    match ← attempt (scan here) with
    | .error _ => pure []
    | .ok names =>
      let directories := sortNames (names.filter fun name =>
        isDir disk.tree (here ++ [name]) && decide (0 < levels) && visible config name &&
          !isSymlink disk.tree (here ++ [name]))
      let files := sortNames (names.filter fun name => !isDir disk.tree (here ++ [name]))
      let collected := ((directories ++ files).filter (visible config)).map (here ++ [·])
      match levels with
      | 0 => pure collected
      | levels + 1 => do
        let deeper ← directories.mapM fun name => walkDirectory levels (here ++ [name])
        pure (collected ++ deeper.flatten)

/-- The form of a path relative to one above it. -/
def relativeTo (path base : Place) : Text := asPosix (path.drop base.length)

def walk (base : Place) : FileProgram (List Place) := do
  let disk ← get
  if !isDir disk.tree base then fail "not_a_directory" "Search path is not a directory."
  else do
    let collected ← walkDirectory config config.maxDepth base
    pure (collected.insertionSort fun p q => relativeTo p base ≤ relativeTo q base)

/-- The longest part of a text from its start whose bytes fit. -/
def truncate : Nat → Text → Text
  | _, [] => []
  | size, c :: text => if c.utf8Size ≤ size then c :: truncate (size - c.utf8Size) text else []

def readFile (path : Text) (offset limit : Option Nat) : FileProgram ToolContent := do
  let (place, _) ← target host config path true false
  let source ← readRegular place config.maxFileBytes
  match decodeUtf8 source with
  | none => fail "unsupported_file_encoding" "File is not valid UTF-8."
  | some text =>
    let rest := text.drop (offset.getD 0)
    let selected := limit.elim rest rest.take
    let truncated := decide (config.maxReadBytes < byteSize selected)
    let shown := if truncated then truncate config.maxReadBytes selected else selected
    pure (.text (String.ofList shown) truncated)

def writeFile (path content : Text) (createParents : Bool) : FileProgram ToolContent := do
  let (place, relative) ← target host config path false true
  let encoded := utf8 content
  if config.maxWriteBytes < encoded.size then
    fail "write_too_large" "Content exceeds max_write_bytes."
  else do
    let disk ← get
    atomicWrite host config place encoded createParents
    pure (.json (.obj [("path", .str (String.ofList relative)),
      ("bytes_written", .int encoded.size), ("created", .bool (!exists_ disk.tree place))]))

/-- The text with its first occurrence of the old one replaced. -/
def replaceOnce (text old new : Text) : Text :=
  match find old text 0 with
  | none => text
  | some p => splice text new p old.length

/-- The part of edit_file after the file is read. -/
def editText (place : Place) (relative text old new : Text) : FileProgram ToolContent :=
  let count := (occurrences old text 0).length
  if count = 0 then fail "edit_not_found" "old_text was not found."
  else if 1 < count then fail "edit_ambiguous" "old_text occurs more than once."
  else
    let encoded := utf8 (replaceOnce text old new)
    if config.maxWriteBytes < encoded.size then
      fail "write_too_large" "Edited content exceeds max_write_bytes."
    else do
      atomicWrite host config place encoded false
      pure (.json (.obj [("path", .str (String.ofList relative)),
        ("bytes_written", .int encoded.size)]))

def editFile (path old new : Text) : FileProgram ToolContent := do
  let (place, relative) ← target host config path false true
  let raw ← readRegular place config.maxFileBytes
  match decodeUtf8 raw with
  | none => fail "unsupported_file_encoding" "File is not valid UTF-8."
  | some text => editText host config place relative text old new

def listFiles (path : Text) : FileProgram ToolContent := do
  let (place, _) ← target host config path false false
  let disk ← get
  if isSymlink disk.tree place || !isDir disk.tree place then
    fail "not_a_directory" "Path is not a directory."
  else do
    let names ← scan place
    let kind (name : Name) : String :=
      if isSymlink disk.tree (place ++ [name]) then "symlink"
      else if isDir disk.tree (place ++ [name]) then "directory" else "file"
    let (items, truncated) := collect host config.maxListResults config.maxListOutputBytes []
      (((sortNames names).filter (visible config)).map fun name =>
        .obj [("name", .str (String.ofList name)), ("type", .str (kind name))])
    pure (.json (result items truncated))

def pathItem (path : Place) : JsonValue :=
  .obj [("path", .str (String.ofList (relativeTo path config.workspace.root)))]

/-- The loop of find_files, which looks at the paths one by one until an item finds no room. -/
def findPaths (pattern : Text) (base : Place) :
    List JsonValue → List Place → Except Raised (List JsonValue × Bool)
  | items, [] => .ok (items, false)
  | items, path :: paths => do
    let matched ← globMatches (relativeTo path base) pattern
    if !matched then findPaths pattern base items paths
    else if full host config.maxSearchResults config.maxSearchBytes items (pathItem config path)
    then pure (items, true)
    else findPaths pattern base (items ++ [pathItem config path]) paths

def findFiles (pattern path : Text) : FileProgram ToolContent := do
  let pattern ← raising (relativeGlob pattern)
  let (base, _) ← target host config path false false
  let disk ← get
  if isSymlink disk.tree base then
    fail "symlink_not_allowed" "Directory symlinks are not traversed."
  else do
    let paths ← walk config base
    let (items, truncated) ← raising (findPaths host config pattern base [] paths)
    pure (.json (result items truncated))

/-- What search_files reports of an occurrence. -/
structure Hit where
  path : Place
  line : Nat
  column : Nat
  text : Text
deriving DecidableEq

def Hit.item (hit : Hit) : JsonValue :=
  .obj [("path", .str (String.ofList (relativeTo hit.path config.workspace.root))),
    ("line", .int hit.line), ("column", .int hit.column), ("text", .str (String.ofList hit.text))]

def fold (sensitive : Bool) (text : Text) : Text :=
  if sensitive then text else text.flatMap host.casefold

/-- The loop over one line, which goes on after each occurrence in its folded form. -/
def searchLine (needle haystack : Text) (path : Place) (number : Nat) (line : Text)
    (hits : List Hit) (start : Nat) : List Hit × Bool :=
  match found : find needle haystack start with
  | none => (hits, false)
  | some column =>
    let hit : Hit := ⟨path, number, column + 1, line⟩
    if full host config.maxSearchResults config.maxSearchBytes (hits.map (Hit.item config))
        (hit.item config) then (hits, true)
    else searchLine needle haystack path number line (hits ++ [hit])
      (column + max 1 needle.length)
termination_by haystack.length + 1 - start
decreasing_by exact find_lt found

def searchLines (needle : Text) (sensitive : Bool) (path : Place) :
    Nat → List Text → List Hit → List Hit × Bool
  | _, [], hits => (hits, false)
  | number, line :: lines, hits =>
    match searchLine host config needle (fold host sensitive line) path number line hits 0 with
    | (hits, true) => (hits, true)
    | (hits, false) => searchLines needle sensitive path (number + 1) lines hits

/-- The text of a file that is searched; none where the file is passed over. -/
def readText (path : Place) : FileProgram (Option Text) := do
  let disk ← get
  match disk.tree.stat path with
  | .ok (.file content) =>
    if config.maxFileBytes < content.size then pure none
    else
      tryCatch (do
        let content ← readBytes path
        pure ((decodeUtf8 content).map universalNewlines)) fun
        | .os _ => pure none
        | raised => throw raised
  | _ => pure none

def searchPaths (needle : Text) (sensitive : Bool) (pattern : Option Text) (base : Place) :
    List Hit → List Place → FileProgram (List Hit × Bool)
  | hits, [] => pure (hits, false)
  | hits, path :: paths => do
    let disk ← get
    if !isFile disk.tree path || isSymlink disk.tree path then
      searchPaths needle sensitive pattern base hits paths
    else do
      let wanted ← raising
        (pattern.elim (.ok true) fun pattern => globMatches (relativeTo path base) pattern)
      if !wanted then searchPaths needle sensitive pattern base hits paths
      else do
        match ← readText config path with
        | none => searchPaths needle sensitive pattern base hits paths
        | some text =>
          match searchLines host config needle sensitive path 1 (splitlines text) hits with
          | (hits, true) => pure (hits, true)
          | (hits, false) => searchPaths needle sensitive pattern base hits paths

def searchFiles (query path : Text) (glob : Option Text) (sensitive : Bool) :
    FileProgram ToolContent := do
  let (base, _) ← target host config path false false
  let disk ← get
  if isSymlink disk.tree base then
    fail "symlink_not_allowed" "Directory symlinks are not traversed."
  else do
    let pattern ← raising (glob.elim (.ok none) fun glob => (relativeGlob glob).map some)
    let paths ← walk config base
    let (hits, truncated) ←
      searchPaths host config (fold host sensitive query) sensitive pattern base [] paths
    pure (.json (result (hits.map (Hit.item config)) truncated))

inductive Call
  | readFile (path : Text) (offset limit : Option Nat)
  | writeFile (path content : Text) (createParents : Bool)
  | editFile (path old new : Text)
  | listFiles (path : Text)
  | findFiles (pattern path : Text)
  | searchFiles (query path : Text) (glob : Option Text) (sensitive : Bool)

def perform : Call → FileProgram ToolContent
  | .readFile path offset limit => readFile host config path offset limit
  | .writeFile path content createParents => writeFile host config path content createParents
  | .editFile path old new => editFile host config path old new
  | .listFiles path => listFiles host config path
  | .findFiles pattern path => findFiles host config pattern path
  | .searchFiles query path glob sensitive => searchFiles host config query path glob sensitive

end RoboAgent.FilesystemTools
