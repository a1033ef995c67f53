import RoboAgent.Workspaces

/-! Two checks of artifact URIs, in messages and in the workspace, and the URIs that the workspace
makes of its paths. URLs are taken apart as urllib.parse does it; only its checks of bracketed and
of other than ASCII network locations are left open. -/

namespace RoboAgent.ArtifactUris
open RoboAgent.MessageChecks RoboAgent.Workspaces RoboAgent.ToolResults RoboAgent.ToolEffects
open RoboAgent.FilesystemTools (parts asPosix)
open RoboAgent.FalliblePrograms (map_eq_ok map_ok)

structure NetlocChecks where
  /-- _check_bracketed_netloc. -/
  bracketed : List Char → Bool
  /-- What NFKC normalization makes of it has no delimiter. -/
  normal : List Char → Bool
  hostname : String → Option String

/-- Leading blanks and control characters go, and tabs and line ends anywhere. -/
def cleaned (url : List Char) : List Char :=
  (url.dropWhile fun c => c.toNat ≤ 0x20).filter fun c => !("\t\r\n".toList.contains c)

def isSchemeChar (c : Char) : Bool := c.isAlphanum || "+-.".toList.contains c

def splitScheme (url : List Char) : List Char × List Char :=
  let name := url.takeWhile (· ≠ ':')
  if ':' ∈ url ∧ (name.head?.any Char.isAlpha && name.all isSchemeChar) = true then
    (name.map Char.toLower, url.drop (name.length + 1))
  else ([], url)

def beforeDelimiter (c : Char) : Bool := !("/?#".toList.contains c)

def splitNetloc (url : List Char) : List Char × List Char :=
  if ['/', '/'].isPrefixOf url then
    ((url.drop 2).takeWhile beforeDelimiter, (url.drop 2).dropWhile beforeDelimiter)
  else ([], url)

/-- The text before a mark and the text behind it. -/
def splitAt (mark : Char) (url : List Char) : List Char × List Char :=
  (url.takeWhile (· ≠ mark), (url.dropWhile (· ≠ mark)).drop 1)

def usesParams : List (List Char) :=
  ["", "ftp", "hdl", "prospero", "http", "https", "shttp", "rtsp", "rtsps", "sip", "sips", "mms",
    "sftp", "tel"].map String.toList

/-- The path without the parameters of its last component. -/
def cutParams (path : List Char) : List Char :=
  let last := (path.reverse.takeWhile (· ≠ '/')).reverse
  path.take (path.length - last.length) ++ last.takeWhile (· ≠ ';')

def NetlocChecks.admits (checks : NetlocChecks) (netloc : List Char) : Bool :=
  netloc.contains '[' == netloc.contains ']' &&
    (!netloc.contains '[' || checks.bracketed netloc) &&
    (netloc.all (fun c => c.toNat < 0x80) || checks.normal netloc)

local instance lawful_schemes : LawfulBEq (List Char) := inferInstance

def NetlocChecks.urlparse (checks : NetlocChecks) (url : String) : Option ParsedUrl :=
  let (scheme, rest) := splitScheme (cleaned url.toList)
  let (netloc, rest) := splitNetloc rest
  if checks.admits netloc then
    let (rest, fragment) := splitAt '#' rest
    let (path, query) := splitAt '?' rest
    some {
      scheme := String.ofList scheme
      netloc := String.ofList netloc
      path := String.ofList (if scheme ∈ usesParams then cutParams path else path)
      query := String.ofList query
      fragment := String.ofList fragment
      hostname := checks.hostname (String.ofList netloc) }
  else none

/-- workspace_uri, which normalizes the path first. -/
def uriOf (path : String) : Except WorkspaceError String :=
  (normalizeWorkspacePath path false).map workspaceUri

/-- The library with this way of taking URLs apart. -/
def NetlocChecks.library (checks : NetlocChecks) (lib : Library) : Library :=
  { lib with urlparse := checks.urlparse }

theorem library_urlparse (checks : NetlocChecks) (lib : Library) :
    (checks.library lib).urlparse = checks.urlparse := rfl

/-- What the message accepts, the workspace resolves to a path in normal form. -/
def Resolves (lib : Library) (uri : String) : Prop :=
  isArtifactUri lib uri = true →
    ∃ path, workspacePath lib uri = .ok path ∧ normalizeWorkspacePath path false = .ok path

def isRoot (name : List Char) : Bool := ["files".toList, "blobs".toList].contains name

theorem isRoot_iff {name : List Char} :
    isRoot name = true ↔ name = "files".toList ∨ name = "blobs".toList := by
  rw [isRoot, List.contains_iff_mem, List.mem_cons, List.mem_singleton]

/-- The URI of a path under one of the two roots leads back to its normal form, and the message
accepts it. -/
def RoundTrips (lib : Library) (path : String) : Prop :=
  ∀ normal uri, normalizeWorkspacePath path false = .ok normal → uriOf path = .ok uri →
    (parts path.toList).head?.any isRoot = true →
      workspacePath lib uri = .ok normal ∧ isArtifactUri lib uri = true

/-- Names that make a path in normal form. -/
def Proper (names : List (List Char)) : Prop :=
  names ≠ [] ∧ ∀ name ∈ names, name ≠ [] ∧ name ≠ ['.'] ∧ name ≠ ['.', '.'] ∧
    '/' ∉ name ∧ '\x5c' ∉ name ∧ '\x00' ∉ name

def joined (names : List (List Char)) : List Char := ['/'].intercalate names

theorem joined_cons (first : List Char) (names : List (List Char)) :
    joined (first :: names) = first ++ names.flatMap ('/' :: ·) := by
  induction names generalizing first with
  | nil =>
    rw [joined, List.intercalate_singleton]
    exact (List.append_nil first).symm
  | cons name names ih =>
    rw [joined, List.intercalate_cons_cons, ← joined, ih, List.flatMap_cons, List.append_assoc]
    rfl

theorem mem_joined {names : List (List Char)} {c : Char} (h : c ∈ joined names) :
    c = '/' ∨ ∃ name ∈ names, c ∈ name :=
  (ToolErrors.mem_intercalate h).imp_left List.mem_singleton.mp

theorem mem_joined_of {names : List (List Char)} {name : List Char} {c : Char}
    (mem : name ∈ names) (inside : c ∈ name) : c ∈ joined names := by
  cases names with
  | nil => cases mem
  | cons first names =>
    rw [joined_cons, List.mem_append, List.mem_flatMap]
    obtain rfl | later := List.mem_cons.mp mem
    · exact .inl inside
    · exact .inr ⟨name, later, List.mem_cons_of_mem _ inside⟩

theorem mem_of_splitOn {mark : Char} {text : List Char} (part : List Char)
    (mem : part ∈ text.splitOn mark) (c : Char) (inside : c ∈ part) : c ∈ text ∧ c ≠ mark :=
  (ToolErrors.mem_splitOnP part mem c inside).imp_right fun other => by simpa using other

theorem parts_joined {names : List (List Char)} (proper : Proper names) :
    parts (joined names) = names := by
  rw [parts, joined, List.splitOn_intercalate '/' (fun name mem => (proper.2 name mem).2.2.2.1)
    proper.1, List.filter_eq_self]
  intro name mem
  obtain ⟨filled, dot, -⟩ := proper.2 name mem
  rw [Bool.and_eq_true, decide_eq_true_eq, decide_eq_true_eq]
  exact ⟨filled, dot⟩

theorem asPosix_eq {names : List (List Char)} (some_ : names ≠ []) : asPosix names = joined names :=
  if_neg some_

theorem normalize_joined {names : List (List Char)} (proper : Proper names) :
    normalizeWorkspacePath (String.ofList (joined names)) false =
      .ok (String.ofList (joined names)) := by
  have free {c : Char} (slash : c ≠ '/') (absent : ∀ name ∈ names, c ∉ name) :
      c ∉ joined names := fun mem => (mem_joined mem).elim slash fun ⟨name, inside, here⟩ =>
    absent name inside here
  obtain ⟨first, rest, rfl⟩ := List.exists_cons_of_ne_nil proper.1
  obtain ⟨filled, dot, dots, slash, -⟩ := proper.2 first List.mem_cons_self
  obtain ⟨c, name, rfl⟩ := List.exists_cons_of_ne_nil filled
  have head : joined ((c :: name) :: rest) = c :: (name ++ rest.flatMap ('/' :: ·)) :=
    joined_cons ..
  have parted := parts_joined proper
  have relative : ¬((joined ((c :: name) :: rest)).head? = some '/' ∨
      ['.', '.'] ∈ (c :: name) :: rest) := by
    rw [head, List.head?_cons, Option.some.injEq, not_or]
    exact ⟨fun same => slash (same ▸ List.mem_cons_self),
      fun mem => (proper.2 _ mem).2.2.1 rfl⟩
  have valid : ¬(String.ofList (joined ((c :: name) :: rest)) = "" ∨
      '\x5c' ∈ joined ((c :: name) :: rest) ∨ '\x00' ∈ joined ((c :: name) :: rest)) := by
    rw [not_or, not_or]
    refine ⟨fun empty => ?_, free (by decide) fun name mem => (proper.2 name mem).2.2.2.2.1,
      free (by decide) fun name mem => (proper.2 name mem).2.2.2.2.2⟩
    have nothing := congrArg String.toList empty
    rw [String.toList_ofList, head] at nothing
    exact List.cons_ne_nil _ _ nothing
  have file : ¬(String.ofList (joined ((c :: name) :: rest)) = "." ∧ ¬false = true) := by
    rintro ⟨root, -⟩
    have nothing := congrArg (fun path => parts path.toList) root
    rw [String.toList_ofList, parted] at nothing
    exact List.cons_ne_nil _ _ nothing
  rw [normalizeWorkspacePath, String.toList_ofList, parted, asPosix_eq (List.cons_ne_nil _ _), if_neg valid,
    if_neg relative, if_neg file]

theorem names_of_normalize {path normal : String}
    (h : normalizeWorkspacePath path false = .ok normal) :
    Proper (parts path.toList) ∧ normal = String.ofList (joined (parts path.toList)) := by
  rw [normalizeWorkspacePath] at h
  split_ifs at h with invalid escapes root
  cases h
  rw [not_or, not_or] at invalid
  rw [not_or] at escapes
  have some_ : parts path.toList ≠ [] := by
    intro none
    rw [none] at root
    exact root ⟨rfl, by decide⟩
  refine ⟨⟨some_, fun name mem => ?_⟩, by rw [asPosix_eq some_]⟩
  obtain ⟨piece, kept⟩ := List.mem_filter.mp mem
  rw [Bool.and_eq_true, decide_eq_true_eq, decide_eq_true_eq] at kept
  have inside := mem_of_splitOn name piece
  exact ⟨kept.1, kept.2, fun dots => escapes.2 (dots ▸ mem), fun slash => (inside _ slash).2 rfl,
    fun backslash => invalid.2.1 (inside _ backslash).1, fun nul => invalid.2.2 (inside _ nul).1⟩

theorem mem_cleaned {url : List Char} {c : Char} (h : c ∈ cleaned url) :
    c ∈ url ∧ c ∉ "\t\r\n".toList := by
  obtain ⟨kept, blank⟩ := List.mem_filter.mp h
  rw [Bool.not_eq_true', List.contains_eq_mem, decide_eq_false_iff_not] at blank
  exact ⟨(List.dropWhile_sublist _).mem kept, blank⟩

theorem mem_splitAt {mark c : Char} {url : List Char} (h : c ∈ (splitAt mark url).1) :
    c ∈ url ∧ c ≠ mark :=
  have kept : decide (c ≠ mark) = true := List.mem_takeWhile_imp (p := (· ≠ mark)) h
  ⟨(List.takeWhile_sublist _).mem h, of_decide_eq_true kept⟩

theorem mem_or_splitAt (mark : Char) {c : Char} {url : List Char} (h : c ∈ url) :
    c = mark ∨ c ∈ (splitAt mark url).1 ∨ c ∈ (splitAt mark url).2 := by
  rw [← List.takeWhile_append_dropWhile (p := (· ≠ mark)) (l := url), List.mem_append] at h
  obtain before | behind := h
  · exact .inr (.inl before)
  · cases split : url.dropWhile (· ≠ mark) with
    | nil =>
      rw [split] at behind
      cases behind
    | cons first rest =>
      rw [split] at behind
      have first_eq : first = mark := by
        have stopped := List.head_dropWhile_not (· ≠ mark) (by rw [split]; nofun : url.dropWhile (· ≠ mark) ≠ [])
        simp only [split, List.head_cons] at stopped
        exact not_not.mp (of_decide_eq_false stopped)
      obtain rfl | later := List.mem_cons.mp behind
      · exact .inl first_eq
      · refine .inr (.inr ?_)
        rw [splitAt, split]
        exact later

theorem splitAt_of_not_mem {mark : Char} {url : List Char} (h : mark ∉ url) :
    splitAt mark url = (url, []) := by
  have all : ∀ c ∈ url, decide (c ≠ mark) = true := fun c mem =>
    decide_eq_true fun same => h (same ▸ mem)
  rw [splitAt, List.takeWhile_eq_self_iff.mpr all, List.dropWhile_eq_nil_iff.mpr all]
  rfl

theorem mem_splitNetloc {url : List Char} {c : Char} (h : c ∈ (splitNetloc url).2) : c ∈ url := by
  rw [splitNetloc] at h
  split_ifs at h
  · exact List.mem_of_mem_drop ((List.dropWhile_sublist _).mem h)
  · exact h

theorem mem_or_splitNetloc {url : List Char} {c : Char} (h : c ∈ url) :
    c = '/' ∨ c ∈ (splitNetloc url).1 ∨ c ∈ (splitNetloc url).2 := by
  rw [splitNetloc]
  split_ifs with slashes
  · obtain ⟨rest, rfl⟩ := List.isPrefixOf_iff_prefix.mp slashes
    obtain slash | slash | here : c = '/' ∨ c = '/' ∨ c ∈ rest := by simpa using h
    · exact .inl slash
    · exact .inl slash
    · refine .inr (List.mem_append.mp ?_)
      rw [List.takeWhile_append_dropWhile]
      exact here
  · exact .inr (.inr h)

/-- Behind a network location the path begins with a slash. -/
theorem head_splitNetloc {url : List Char} (some_ : (splitNetloc url).1 ≠ []) :
    (splitNetloc url).2 = [] ∨ ∃ c ∈ "/?#".toList, ∃ rest, (splitNetloc url).2 = c :: rest := by
  rw [splitNetloc] at some_ ⊢
  split_ifs at some_ ⊢
  · cases stopped : (url.drop 2).dropWhile beforeDelimiter with
    | nil => exact .inl rfl
    | cons c rest =>
      have first := List.head?_dropWhile_not beforeDelimiter (url.drop 2)
      rw [stopped, List.head?_cons] at first
      refine .inr ⟨c, ?_, rest, rfl⟩
      have among : "/?#".toList.contains c = true := Bool.not_eq_false' .. ▸ first
      exact List.contains_iff_mem.mp among
  · exact (some_ rfl).elim

theorem mem_splitScheme {url : List Char} {c : Char} (h : c ∈ (splitScheme url).2) : c ∈ url := by
  rw [splitScheme] at h
  split_ifs at h
  · exact List.mem_of_mem_drop h
  · exact h

theorem mem_or_splitScheme {url : List Char} {c : Char} (h : c ∈ url) :
    c = ':' ∨ c.toLower ∈ (splitScheme url).1 ∨ c ∈ (splitScheme url).2 := by
  rw [splitScheme]
  split_ifs with named
  · obtain colon | before | behind := mem_or_splitAt ':' h
    · exact .inl colon
    · exact .inr (.inl (List.mem_map_of_mem before))
    · refine .inr (.inr ?_)
      have whole := List.takeWhile_append_dropWhile (p := (· ≠ ':')) (l := url)
      have dropped := (congrArg (List.drop (url.takeWhile (· ≠ ':')).length) whole).symm.trans
        List.drop_left
      rw [← List.drop_drop, dropped]
      exact behind
  · exact .inr (.inr h)

section
variable {checks : NetlocChecks} {lib : Library} {uri : String}

theorem urlparse_workspace {parsed : ParsedUrl} (h : checks.urlparse uri = some parsed)
    (workspace : parsed.scheme = "workspace") :
    ∃ rest, splitScheme (cleaned uri.toList) = ("workspace".toList, rest) ∧
      parsed.netloc.toList = (splitNetloc rest).1 ∧
      parsed.path.toList = (splitAt '?' (splitAt '#' (splitNetloc rest).2).1).1 ∧
      parsed.query.toList = (splitAt '?' (splitAt '#' (splitNetloc rest).2).1).2 ∧
      parsed.fragment.toList = (splitAt '#' (splitNetloc rest).2).2 := by
  unfold NetlocChecks.urlparse at h
  cases split : splitScheme (cleaned uri.toList) with
  | mk scheme rest =>
    rw [split] at h
    have named (same : String.ofList scheme = "workspace") : scheme = "workspace".toList :=
      String.toList_ofList.symm.trans (congrArg String.toList same)
    dsimp only at h
    split_ifs at h with admitted params
    · cases h
      rw [named workspace] at params
      exact absurd params (by decide)
    · cases h
      rw [named workspace]
      exact ⟨rest, rfl, String.toList_ofList, String.toList_ofList, String.toList_ofList,
        String.toList_ofList⟩

/-- The parts of a URI that the message accepts. -/
theorem accepted (h : isArtifactUri (checks.library lib) uri = true) :
    ∃ parsed rest, checks.urlparse uri = some parsed ∧ '%' ∉ uri.toList ∧
      splitScheme (cleaned uri.toList) = ("workspace".toList, rest) ∧
      parsed.netloc.toList = (splitNetloc rest).1 ∧ isRoot parsed.netloc.toList = true ∧
      splitAt '#' (splitNetloc rest).2 = ((splitAt '#' (splitNetloc rest).2).1, []) ∧
      splitAt '?' (splitAt '#' (splitNetloc rest).2).1 = (parsed.path.toList, []) ∧
      ∀ name ∈ (parsed.path.toList.splitOn '/').drop 1,
        name ≠ [] ∧ name ≠ ['.'] ∧ name ≠ ['.', '.'] := by
  obtain ⟨parsed, found, checked⟩ := (Option.any_eq_true _ _).mp h
  change checks.urlparse uri = some parsed at found
  simp only [Bool.and_eq_true, beq_iff_eq, Bool.not_eq_true'] at checked
  obtain ⟨⟨⟨⟨⟨⟨workspace, root⟩, query⟩, fragment⟩, percent⟩, -⟩, names⟩ := checked
  obtain ⟨rest, split, netloc_eq, path_eq, query_eq, fragment_eq⟩ :=
    urlparse_workspace found workspace
  rw [query] at query_eq
  rw [fragment] at fragment_eq
  refine ⟨parsed, rest, found, ?_, split, netloc_eq, ?_, Prod.ext rfl fragment_eq.symm,
    Prod.ext path_eq.symm query_eq.symm, fun name mem => ?_⟩
  · rw [List.contains_eq_mem, decide_eq_false_iff_not] at percent
    exact percent
  · rw [List.contains_iff_mem] at root
    obtain blobs | files : parsed.netloc = "blobs" ∨ parsed.netloc = "files" := by simpa using root
    · rw [blobs]
      decide
    · rw [files]
      decide
  · have kept := List.all_eq_true.mp names name mem
    rw [Bool.not_eq_true', List.contains_eq_mem, decide_eq_false_iff_not] at kept
    simpa only [List.mem_cons, List.not_mem_nil, or_false, not_or] using kept

theorem splitAt_head (mark : Char) (rest : List Char) : (splitAt mark (mark :: rest)).1 = [] := by
  rw [splitAt, List.takeWhile_cons_of_neg (by simp)]

theorem splitAt_cons {mark c : Char} (other : c ≠ mark) (rest : List Char) :
    (splitAt mark (c :: rest)).1 = c :: (splitAt mark rest).1 := by
  have kept : decide (c ≠ mark) = true := decide_eq_true other
  exact List.takeWhile_cons_of_pos (p := (· ≠ mark)) kept

theorem flatMap_slash (path : List Char) :
    (path.splitOn '/').flatMap ('/' :: ·) = '/' :: path := by
  obtain ⟨first, rest, split⟩ := List.exists_cons_of_ne_nil (List.splitOn_ne_nil '/' path)
  have whole : joined (path.splitOn '/') = path := List.intercalate_splitOn '/'
  rw [split, joined_cons] at whole
  rw [split, List.flatMap_cons, List.cons_append, whole]

theorem accepted_names (h : isArtifactUri (checks.library lib) uri = true) :
    ∃ parsed, checks.urlparse uri = some parsed ∧ isRoot parsed.netloc.toList = true ∧
      ∃ names : List (List Char), parsed.path.toList = names.flatMap ('/' :: ·) ∧
        ∀ name ∈ names, name ≠ [] ∧ name ≠ ['.'] ∧ name ≠ ['.', '.'] ∧ '/' ∉ name := by
  obtain ⟨parsed, rest, found, -, -, netloc_eq, root, fragment, query, names⟩ := accepted h
  refine ⟨parsed, found, root, ?_⟩
  have some_ : (splitNetloc rest).1 ≠ [] := by
    rw [← netloc_eq]
    intro none
    rw [none] at root
    cases root
  have path_eq : _ = parsed.path.toList := congrArg Prod.fst query
  obtain empty | ⟨c, mark, path, behind⟩ := head_splitNetloc some_
  · rw [empty] at path_eq
    exact ⟨[], path_eq.symm, List.forall_mem_nil _⟩
  · rw [behind] at path_eq
    obtain rfl | rfl | rfl : c = '/' ∨ c = '?' ∨ c = '#' := by simpa using mark
    · rw [splitAt_cons (by decide), splitAt_cons (by decide)] at path_eq
      rw [← path_eq] at names ⊢
      rw [← flatMap_slash]
      refine ⟨_, rfl, fun name mem => ?_⟩
      rw [List.splitOn_cons_eq_if_modifyHead, if_pos (beq_self_eq_true '/'), List.drop_one,
        List.tail_cons] at names
      obtain ⟨filled, dot, dots⟩ := names name mem
      exact ⟨filled, dot, dots, fun slash => (mem_of_splitOn name mem _ slash).2 rfl⟩
    · rw [splitAt_cons (by decide), splitAt_head] at path_eq
      exact ⟨[], path_eq.symm, List.forall_mem_nil _⟩
    · rw [splitAt_head] at path_eq
      exact ⟨[], path_eq.symm, List.forall_mem_nil _⟩

theorem accepted_chars (h : isArtifactUri (checks.library lib) uri = true) {parsed : ParsedUrl}
    (found : checks.urlparse uri = some parsed) :
    isRoot parsed.netloc.toList = true ∧
      ∀ c ∈ parsed.path.toList, c ∈ cleaned uri.toList ∧ c ∉ "%?#\t\r\n".toList := by
  obtain ⟨parsed', rest, found', percent, split, -, root, fragment, query, -⟩ := accepted h
  cases found.symm.trans found'
  refine ⟨root, fun c mem => ?_⟩
  have path_eq : _ = parsed.path.toList := congrArg Prod.fst query
  rw [← path_eq] at mem
  obtain ⟨mem, question⟩ := mem_splitAt mem
  obtain ⟨mem, hash⟩ := mem_splitAt mem
  have inside : c ∈ cleaned uri.toList := by
    refine mem_splitScheme ?_
    rw [split]
    exact mem_splitNetloc mem
  obtain ⟨kept, blank⟩ := mem_cleaned inside
  refine ⟨inside, fun listed => ?_⟩
  obtain rfl | rfl | rfl | blanks : c = '%' ∨ c = '?' ∨ c = '#' ∨ c ∈ "\t\r\n".toList := by
    simpa using listed
  · exact percent kept
  · exact question rfl
  · exact hash rfl
  · exact blank blanks

/-- What is neither in the scheme, a root or a delimiter is in the path. -/
theorem mem_path_of_accepted (h : isArtifactUri (checks.library lib) uri = true)
    {parsed : ParsedUrl} (found : checks.urlparse uri = some parsed) {c : Char}
    (other : c = '\x5c' ∨ c = '\x00') (mem : c ∈ cleaned uri.toList) : c ∈ parsed.path.toList := by
  obtain ⟨parsed', rest, found', -, split, netloc_eq, root, fragment, query, -⟩ := accepted h
  cases found.symm.trans found'
  have path_eq : _ = parsed.path.toList := congrArg Prod.fst query
  have foreign {mark : Char} (usual : mark ∈ ":/?#".toList) : c ≠ mark := by
    rintro rfl
    obtain rfl | rfl := other <;> exact absurd usual (by decide)
  obtain colon | scheme | behind := mem_or_splitScheme mem
  · exact absurd colon (foreign (by decide))
  · rw [split] at scheme
    have lower : c.toLower ∈ "workspace".toList := scheme
    obtain rfl | rfl := other <;> exact absurd lower (by decide)
  · rw [split] at behind
    obtain slash | netloc | behind := mem_or_splitNetloc behind
    · exact absurd slash (foreign (by decide))
    · rw [← netloc_eq] at netloc
      obtain same | same := isRoot_iff.mp root <;> rw [same] at netloc <;>
        obtain rfl | rfl := other <;> exact absurd netloc (by decide)
    · obtain hash | behind | none := mem_or_splitAt '#' behind
      · exact absurd hash (foreign (by decide))
      · obtain question | behind | none := mem_or_splitAt '?' behind
        · exact absurd question (foreign (by decide))
        · exact path_eq ▸ behind
        · rw [query] at none
          cases none
      · rw [fragment] at none
        cases none

theorem workspacePath_accepted (h : isArtifactUri (checks.library lib) uri = true)
    {parsed : ParsedUrl} (found : checks.urlparse uri = some parsed) :
    workspacePath (checks.library lib) uri =
      normalizeWorkspacePath (parsed.netloc ++ parsed.path) false := by
  rw [workspacePath, library_urlparse, found]
  exact if_pos h

theorem not_mem_of_normalize {path normal : String} {allowRoot : Bool}
    (h : normalizeWorkspacePath path allowRoot = .ok normal) :
    '\x5c' ∉ path.toList ∧ '\x00' ∉ path.toList := by
  rw [normalizeWorkspacePath] at h
  split_ifs at h with invalid
  rw [not_or, not_or] at invalid
  exact invalid.2

theorem resolves_iff (checks : NetlocChecks) (lib : Library) (uri : String) :
    Resolves (checks.library lib) uri ↔ (isArtifactUri (checks.library lib) uri = true →
      '\x5c' ∉ cleaned uri.toList ∧ '\x00' ∉ cleaned uri.toList) := by
  refine forall_congr' fun h => ?_
  obtain ⟨parsed, found, root, names, path_eq, kept⟩ := accepted_names h
  rw [workspacePath_accepted h found]
  constructor
  · rintro ⟨path, resolved, -⟩
    obtain ⟨backslash, nul⟩ := not_mem_of_normalize resolved
    rw [String.toList_append, List.mem_append, not_or] at backslash nul
    exact ⟨fun mem => backslash.2 (mem_path_of_accepted h found (.inl rfl) mem),
      fun mem => nul.2 (mem_path_of_accepted h found (.inr rfl) mem)⟩
  · rintro ⟨backslash, nul⟩
    have inside {name : List Char} (mem : name ∈ names) {c : Char} (char : c ∈ name) :
        c ∈ cleaned uri.toList := by
      refine ((accepted_chars h found).2 c ?_).1
      rw [path_eq]
      exact List.mem_flatMap.mpr ⟨name, mem, List.mem_cons_of_mem _ char⟩
    have proper : Proper (parsed.netloc.toList :: names) := by
      refine ⟨List.cons_ne_nil _ _, List.forall_mem_cons.mpr ⟨?_, fun name mem => ?_⟩⟩
      · obtain same | same := isRoot_iff.mp root <;> rw [same] <;> decide
      · obtain ⟨filled, dot, dots, slash⟩ := kept name mem
        exact ⟨filled, dot, dots, slash, fun char => backslash (inside mem char),
          fun char => nul (inside mem char)⟩
    have same : parsed.netloc ++ parsed.path =
        String.ofList (joined (parsed.netloc.toList :: names)) := by
      rw [joined_cons, ← path_eq, ← String.toList_append, String.ofList_toList]
    rw [same]
    exact ⟨_, normalize_joined proper, normalize_joined proper⟩

theorem mem_parts_iff {path : List Char} {c : Char} (slash : c ≠ '/') (dot : c ≠ '.') :
    c ∈ path ↔ ∃ name ∈ parts path, c ∈ name := by
  constructor
  · intro mem
    have whole : ['/'].intercalate (path.splitOn '/') = path := List.intercalate_splitOn '/'
    rw [← whole] at mem
    obtain same | ⟨name, piece, inside⟩ := mem_joined mem
    · exact absurd same slash
    · refine ⟨name, List.mem_filter.mpr ⟨piece, ?_⟩, inside⟩
      rw [Bool.and_eq_true, decide_eq_true_eq, decide_eq_true_eq]
      refine ⟨List.ne_nil_of_mem inside, ?_⟩
      rintro rfl
      exact dot (List.mem_singleton.mp inside)
  · rintro ⟨name, piece, inside⟩
    exact (mem_of_splitOn name (List.mem_filter.mp piece).1 c inside).1

theorem mem_normal {path normal : String} (h : normalizeWorkspacePath path false = .ok normal)
    {c : Char} (slash : c ≠ '/') (dot : c ≠ '.') : c ∈ path.toList ↔ c ∈ normal.toList := by
  obtain ⟨-, rfl⟩ := names_of_normalize h
  rw [String.toList_ofList, mem_parts_iff slash dot]
  constructor
  · rintro ⟨name, part, inside⟩
    exact mem_joined_of part inside
  · exact fun mem => (mem_joined mem).resolve_left slash

theorem double_of_append (name : List Char) {rest : List Char} (free : '/' ∉ name)
    (h : ('/', '/') ∈ (name ++ rest).zip (name ++ rest).tail) :
    ('/', '/') ∈ rest.zip rest.tail := by
  induction name with
  | nil => exact h
  | cons c name ih =>
    rw [List.mem_cons, not_or] at free
    refine ih free.2 ?_
    rw [List.cons_append, List.tail_cons] at h
    cases behind : name ++ rest with
    | nil =>
      rw [behind] at h
      cases h
    | cons d more =>
      rw [behind, List.zip_cons_cons, List.mem_cons] at h
      obtain same | later := h
      · exact absurd (Prod.ext_iff.mp same).1 free.1
      · exact later

theorem not_double {names : List (List Char)}
    (kept : ∀ name ∈ names, name ≠ [] ∧ '/' ∉ name) :
    ('/', '/') ∉ (names.flatMap ('/' :: ·)).zip (names.flatMap ('/' :: ·)).tail := by
  induction names with
  | nil => exact List.not_mem_nil
  | cons name names ih =>
    intro mem
    obtain ⟨filled, free⟩ := kept name List.mem_cons_self
    obtain ⟨c, more, rfl⟩ := List.exists_cons_of_ne_nil filled
    rw [List.flatMap_cons, List.cons_append, List.tail_cons, List.cons_append, List.zip_cons_cons,
      List.mem_cons] at mem
    obtain same | later := mem
    · have slash : '/' = c := (Prod.ext_iff.mp same).2
      exact free (slash ▸ List.mem_cons_self)
    · exact ih (fun name mem => kept name (List.mem_cons_of_mem _ mem))
        (double_of_append (c :: more) free later)

theorem splitOn_flatMap {names : List (List Char)} (free : ∀ name ∈ names, '/' ∉ name) :
    ((names.flatMap ('/' :: ·)).splitOn '/').drop 1 = names := by
  cases names with
  | nil => rfl
  | cons first names =>
    have behind : (first :: names).flatMap ('/' :: ·) = '/' :: joined (first :: names) := by
      rw [joined_cons, List.flatMap_cons, List.cons_append]
    rw [behind, List.splitOn_cons_eq_if_modifyHead, if_pos (beq_self_eq_true '/'), List.drop_one,
      List.tail_cons]
    exact List.splitOn_intercalate '/' free (List.cons_ne_nil _ _)

theorem cleaned_workspace {text : List Char} (blank : ∀ c ∈ text, c ∉ "\t\r\n".toList) :
    cleaned ("workspace://".toList ++ text) = "workspace://".toList ++ text := by
  have kept : cleaned ("workspace://".toList ++ text) =
      "workspace://".toList ++ text.filter fun c => !("\t\r\n".toList.contains c) := rfl
  rw [kept, List.filter_eq_self.mpr]
  intro c mem
  rw [Bool.not_eq_true', List.contains_eq_mem, decide_eq_false_iff_not]
  exact blank c mem

theorem splitScheme_workspace (text : List Char) :
    splitScheme ("workspace://".toList ++ text) = ("workspace".toList, "//".toList ++ text) := by
  rfl

theorem splitNetloc_root {root text : List Char} (valid : isRoot root = true)
    (slash : text = [] ∨ text.head? = some '/') :
    splitNetloc ("//".toList ++ (root ++ text)) = (root, text) := by
  have free : ∀ c ∈ root, beforeDelimiter c = true := by
    obtain rfl | rfl := isRoot_iff.mp valid <;> exact List.all_eq_true.mp (by decide)
  have split : splitNetloc ("//".toList ++ (root ++ text)) =
      ((root ++ text).takeWhile beforeDelimiter, (root ++ text).dropWhile beforeDelimiter) := rfl
  rw [split, List.takeWhile_append_of_pos free, List.dropWhile_append_of_pos free]
  obtain rfl | first := slash
  · rw [List.takeWhile_nil, List.append_nil, List.dropWhile_nil]
  · obtain ⟨rest, rfl⟩ := List.head?_eq_some_iff.mp first
    rw [List.takeWhile_cons_of_neg (by decide), List.append_nil,
      List.dropWhile_cons_of_neg (by decide)]

theorem admits_root (checks : NetlocChecks) {root : List Char} (valid : isRoot root = true) :
    checks.admits root = true := by
  obtain rfl | rfl := isRoot_iff.mp valid <;> rfl

theorem root_unmarked {root : List Char} (valid : isRoot root = true) :
    ∀ c ∈ root, c ∉ "%?#\t\r\n".toList := by
  have free : (root.all fun c => c ∉ "%?#\t\r\n".toList) = true := by
    obtain rfl | rfl := isRoot_iff.mp valid <;> decide
  exact fun c mem => of_decide_eq_true (List.all_eq_true.mp free c mem)

/-- A URI made of names without the marks is taken apart into just these names. -/
theorem urlparse_joined (checks : NetlocChecks) {root : List Char} {names : List (List Char)}
    (valid : isRoot root = true)
    (free : ∀ c ∈ joined (root :: names), c ∉ "%?#\t\r\n".toList) :
    checks.urlparse (workspaceUri (String.ofList (joined (root :: names)))) = some {
      scheme := "workspace"
      netloc := String.ofList root
      path := String.ofList (names.flatMap ('/' :: ·))
      query := ""
      fragment := ""
      hostname := checks.hostname (String.ofList root) } := by
  have text : (workspaceUri (String.ofList (joined (root :: names)))).toList =
      "workspace://".toList ++ (root ++ names.flatMap ('/' :: ·)) := by
    rw [workspaceUri, String.toList_append, String.toList_ofList (l := joined (root :: names)),
      joined_cons]
  rw [joined_cons] at free
  have blank : ∀ c ∈ root ++ names.flatMap ('/' :: ·), c ∉ "\t\r\n".toList :=
    fun c mem blank => free c mem (List.mem_cons_of_mem _ (List.mem_cons_of_mem _
      (List.mem_cons_of_mem _ blank)))
  have slash : names.flatMap ('/' :: ·) = [] ∨ (names.flatMap ('/' :: ·)).head? = some '/' := by
    cases names with
    | nil => exact .inl rfl
    | cons name names => exact .inr rfl
  have unmarked {mark : Char} (listed : mark ∈ "%?#\t\r\n".toList) :
      mark ∉ names.flatMap ('/' :: ·) :=
    fun mem => free mark (List.mem_append_right _ mem) listed
  rw [NetlocChecks.urlparse, text, cleaned_workspace blank, splitScheme_workspace]
  dsimp only
  rw [splitNetloc_root valid slash]
  dsimp only
  rw [if_pos (admits_root checks valid), splitAt_of_not_mem (unmarked (by decide))]
  dsimp only
  rw [splitAt_of_not_mem (unmarked (by decide))]
  rfl

theorem accepts_joined (checks : NetlocChecks) (lib : Library) {names : List (List Char)}
    {root : List Char} (proper : Proper (root :: names)) (valid : isRoot root = true)
    (free : ∀ c ∈ joined (root :: names), c ∉ "%?#\t\r\n".toList) :
    isArtifactUri (checks.library lib) (workspaceUri (String.ofList (joined (root :: names)))) =
      true := by
  rw [isArtifactUri, library_urlparse, urlparse_joined checks valid free, Option.any_some]
  have kept (name : List Char) (mem : name ∈ names) := proper.2 name (List.mem_cons_of_mem _ mem)
  have path_eq := String.toList_ofList (l := names.flatMap ('/' :: ·))
  have netloc : ["blobs", "files"].contains (String.ofList root) = true := by
    obtain rfl | rfl := isRoot_iff.mp valid <;> decide
  have percent : '%' ∉ (workspaceUri (String.ofList (joined (root :: names)))).toList := by
    rw [workspaceUri, String.toList_append, String.toList_ofList (l := joined (root :: names)),
      List.mem_append, not_or]
    have listed : '%' ∈ "%?#\t\r\n".toList := by decide
    exact ⟨by decide, fun mem => free '%' mem listed⟩
  have double := not_double fun name mem => ⟨(kept name mem).1, (kept name mem).2.2.2.1⟩
  have pieces := splitOn_flatMap fun name mem => (kept name mem).2.2.2.1
  simp only [Bool.and_eq_true, beq_iff_eq, Bool.not_eq_true', path_eq, pieces, netloc, true_and,
    List.contains_eq_mem, decide_eq_false_iff_not, List.all_eq_true]
  refine ⟨⟨percent, double⟩, fun name mem => ?_⟩
  obtain ⟨filled, dot, dots, -⟩ := kept name mem
  simp only [List.mem_cons, List.not_mem_nil, or_false, not_or]
  exact ⟨filled, dot, dots⟩

theorem roundTrips_iff (checks : NetlocChecks) (lib : Library) (path : String) :
    RoundTrips (checks.library lib) path ↔ ∀ normal,
      normalizeWorkspacePath path false = .ok normal →
        (parts path.toList).head?.any isRoot = true →
          ∀ c ∈ "%?#\t\r\n".toList, c ∉ path.toList := by
  refine forall_congr' fun normal => ⟨fun trips normalized rooted c listed mem => ?_, ?_⟩
  · have uri_eq : uriOf path = .ok (workspaceUri normal) := by
      rw [uriOf, normalized]
      rfl
    obtain ⟨resolved, accepts⟩ := trips _ normalized uri_eq rooted
    obtain ⟨parsed, found, root, names, -, -⟩ := accepted_names accepts
    rw [workspacePath_accepted accepts found] at resolved
    obtain ⟨slash, dot⟩ : c ≠ '/' ∧ c ≠ '.' := by
      constructor <;> rintro rfl <;> exact absurd listed (by decide)
    have read := (mem_normal resolved slash dot).mpr ((mem_normal normalized slash dot).mp mem)
    rw [String.toList_append, List.mem_append] at read
    obtain netloc | behind := read
    · exact root_unmarked root c netloc listed
    · exact ((accepted_chars accepts found).2 c behind).2 listed
  · intro clean uri normalized uri_eq rooted
    obtain ⟨proper, rfl⟩ := names_of_normalize normalized
    have unmarked := clean normalized rooted
    rw [uriOf, normalized] at uri_eq
    cases uri_eq
    have chars : ∀ c ∈ joined (parts path.toList), c ∉ "%?#\t\r\n".toList := by
      intro c mem listed
      obtain rfl | ⟨name, part, inside⟩ := mem_joined mem
      · exact absurd listed (by decide)
      · exact unmarked c listed (mem_of_splitOn name (List.mem_filter.mp part).1 c inside).1
    obtain ⟨root, names, split⟩ := List.exists_cons_of_ne_nil proper.1
    rw [split] at proper rooted chars normalized ⊢
    have valid : isRoot root = true := rooted
    have accepts := accepts_joined checks lib proper valid chars
    refine ⟨?_, accepts⟩
    rw [workspacePath_accepted accepts (urlparse_joined checks valid chars)]
    dsimp only
    rw [← String.ofList_append, ← joined_cons]
    exact normalize_joined proper

end

/-- The two checks agree on a URI unless it has a backslash or, behind its leading blanks, a null
character; and the URI of a path leads back to it unless a mark of URLs is in the path. -/
theorem uris_agree_iff (checks : NetlocChecks) (lib : Library) :
    (∀ uri, Resolves (checks.library lib) uri ↔ (isArtifactUri (checks.library lib) uri = true →
      '\x5c' ∉ cleaned uri.toList ∧ '\x00' ∉ cleaned uri.toList)) ∧
    ∀ path, RoundTrips (checks.library lib) path ↔ ∀ normal,
      normalizeWorkspacePath path false = .ok normal →
        (parts path.toList).head?.any isRoot = true →
          ∀ c ∈ "%?#\t\r\n".toList, c ∉ path.toList :=
  ⟨resolves_iff checks lib, roundTrips_iff checks lib⟩

def asciiNetlocs : NetlocChecks := ⟨fun _ => false, fun _ => false, some⟩

def emptyLibrary : Library where
  urlparse _ := none
  float _ := none
  uuid4 _ := ""
  b64encode _ := ""
  b64decode _ := none
  dumps _ := none
  loads _ := none

theorem uris_disagree :
    ¬Resolves (asciiNetlocs.library emptyLibrary) "workspace://files/a\x5cb" ∧
      ¬RoundTrips (asciiNetlocs.library emptyLibrary) "files/a#b" := by
  constructor
  · intro resolves
    have accepted : isArtifactUri (asciiNetlocs.library emptyLibrary)
        "workspace://files/a\x5cb" = true := by decide +kernel
    exact ((resolves_iff _ _ _).mp resolves accepted).1 (by decide +kernel)
  · intro trips
    have normal : normalizeWorkspacePath "files/a#b" false = .ok "files/a#b" := by decide +kernel
    exact (roundTrips_iff _ _ _).mp trips _ normal (by decide +kernel) '#' (by decide) (by decide)

end RoboAgent.ArtifactUris
