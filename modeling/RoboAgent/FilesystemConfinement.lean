import RoboAgent.FilesystemTools

/-! The filesystem tools stay inside the root of their workspace. What a path leads to has the
resolved path as its place, and what a path would create lies where the resolved path says; so the
checks of resolved paths carry over to every access, whatever links stand in the tree. -/

namespace RoboAgent.FilesystemConfinement
open RoboAgent.FalliblePrograms RoboAgent.FileTrees RoboAgent.LineEnds RoboAgent.ToolEffects
open RoboAgent.FilesystemTools RoboAgent.PatchGrammar

/-- The root is a directory and every access was below it. -/
structure Inside (root : Place) (disk : Disk) : Prop where
  top : disk.tree.node root = some .directory
  accesses : ∀ access ∈ disk.accesses, root <+: access.place

/-- What the path leads to is below the root. -/
def Under (root : Place) (tree : FileTree) (path : Place) : Prop :=
  ∀ place, tree.locate path = .ok place → root <+: place

/-- The tree is as it was, and every access was below the root. -/
def Seen (root : Place) (tree : FileTree) (disk : Disk) : Prop :=
  disk.tree = tree ∧ Inside root disk

def Confined {α : Type} (root : Place) (program : FileProgram α) : Prop :=
  Triple (Inside root) program (fun _ => Inside root) (fun _ => Inside root)

/-- A program that changes nothing; its result has a property. -/
def Looks {α : Type} (root : Place) (tree : FileTree) (program : FileProgram α)
    (P : α → Prop) : Prop :=
  Triple (Seen root tree) program (fun a disk => Seen root tree disk ∧ P a)
    (fun _ => Seen root tree)

section Programs
variable {α β : Type} {root : Place} {tree : FileTree} {P : α → Prop} {Q : β → Prop}

theorem looks_pure {a : α} (h : P a) : Looks root tree (pure a) P :=
  triple_pure fun _ seen => ⟨seen, h⟩

theorem looks_throw {raised : Raised} : Looks root tree (throw raised) P :=
  triple_throw fun _ seen => seen

theorem looks_fail {code message : String} : Looks root tree (fail code message) P :=
  looks_throw

theorem looks_bind {program : FileProgram α} {next : α → FileProgram β}
    (first : Looks root tree program P) (second : ∀ a, P a → Looks root tree (next a) Q) :
    Looks root tree (program >>= next) Q :=
  triple_bind first fun a _ h => second a h.2 _ h.1

theorem looks_get_bind {next : Disk → FileProgram β}
    (h : ∀ accesses, Looks root tree (next ⟨tree, accesses⟩) Q) :
    Looks root tree (get >>= next) Q := by
  refine triple_get_bind fun disk seen => ?_
  obtain ⟨rfl, inside⟩ := seen
  rintro s rfl
  exact h s.accesses s ⟨rfl, inside⟩

theorem looks_raising {value : Except Raised α} (h : ∀ a, value = .ok a → P a) :
    Looks root tree (raising value) P :=
  triple_raising (fun a _ made seen => ⟨seen, h a made⟩) fun _ _ _ seen => seen

theorem looks_system {value : Except OsError α} (h : ∀ a, value = .ok a → P a) :
    Looks root tree (system value) P := by
  refine looks_raising fun a made => h a ?_
  cases value with
  | error error => cases made
  | ok b =>
    cases made
    rfl

theorem looks_ite {condition : Prop} [Decidable condition] {program other : FileProgram α}
    (yes : condition → Looks root tree program P)
    (no : ¬condition → Looks root tree other P) :
    Looks root tree (if condition then program else other) P := by
  split_ifs with h
  · exact yes h
  · exact no h

theorem looks_tryCatch {program : FileProgram α} {handler : Raised → FileProgram α}
    (body : Looks root tree program P)
    (handled : ∀ raised, Looks root tree (handler raised) P) :
    Looks root tree (tryCatch program handler) P :=
  triple_tryCatch body handled

theorem looks_log {kind : AccessKind} {place : Place} (below : root <+: place) :
    Looks root tree (log kind place) fun _ => True := by
  refine triple_modify fun disk seen => ⟨⟨seen.1, seen.2.top, ?_⟩, trivial⟩
  rw [List.forall_mem_append]
  exact ⟨seen.2.accesses, List.forall_mem_singleton.mpr below⟩

theorem looks_weaken {program : FileProgram α} {weaker : α → Prop}
    (h : Looks root tree program P) (weaken : ∀ a, P a → weaker a) :
    Looks root tree program weaker :=
  triple_consequence h (fun _ seen => seen) (fun a _ held => ⟨held.1, weaken a held.2⟩)
    fun _ _ seen => seen

theorem looks_attempt {program : FileProgram α} (h : Looks root tree program P) :
    Looks root tree (attempt program) fun _ => True := by
  refine triple_consequence (triple_attempt (R := fun _ => Seen root tree) h) (fun _ seen => seen)
    ?_ fun _ _ seen => seen
  rintro (raised | a) disk held
  · exact ⟨held, trivial⟩
  · exact ⟨held.1, trivial⟩

theorem looks_mapM {γ : Type} {body : γ → FileProgram α} {items : List γ}
    (step : ∀ item ∈ items, Looks root tree (body item) P) :
    Looks root tree (items.mapM body) fun results => ∀ a ∈ results, P a := by
  have loop : Triple (Seen root tree) (items.mapM body)
      (fun results disk => Seen root tree disk ∧ List.Forall₂ (fun _ => P) items results)
      (fun _ => Seen root tree) := triple_mapM step
  refine triple_consequence loop (fun _ seen => seen) (fun results disk held => ⟨held.1, fun a mem => ?_⟩) fun _ _ seen => seen
  obtain ⟨_, -, h⟩ := exists_of_mem_right held.2 a mem
  exact h

theorem Looks.confined {program : FileProgram α}
    (h : ∀ tree, tree.node root = some .directory → Looks root tree program P) :
    Confined root program := by
  refine triple_pointwise fun disk inside => ?_
  refine triple_consequence (h disk.tree inside.top) ?_ (fun _ _ held => held.1.2)
    fun _ _ held => held.2
  rintro _ rfl
  exact ⟨rfl, inside⟩

end Programs

section Looking
variable {root : Place} {tree : FileTree} {path : Place}

theorem looks_readBytes (under : Under root tree path) :
    Looks root tree (readBytes path) fun _ => True := by
  refine looks_get_bind fun accesses => ?_
  refine looks_bind (looks_system fun _ made => made) fun place found => ?_
  dsimp only
  split
  · refine looks_bind (looks_log (under place found)) fun _ _ => ?_
    exact looks_pure trivial
  · exact looks_throw

theorem looks_scan (under : Under root tree path) :
    Looks root tree (scan path) fun _ => True := by
  refine looks_get_bind fun accesses => ?_
  refine looks_bind (looks_system fun _ made => made) fun place found => ?_
  refine looks_ite (fun _ => ?_) fun _ => looks_throw
  refine looks_bind (looks_log (under place found)) fun _ _ => ?_
  exact looks_pure trivial

theorem looks_readRegular {maximum : Nat} (under : Under root tree path) :
    Looks root tree (readRegular path maximum) fun _ => True := by
  refine looks_get_bind fun accesses => ?_
  split
  · exact looks_fail
  · exact looks_throw
  · refine looks_ite (fun _ => looks_fail) fun _ => ?_
    refine looks_tryCatch (looks_readBytes under) fun raised => ?_
    split
    · exact looks_fail
    · exact looks_throw
  · exact looks_fail

/-- A child that is no link stands in the directory that the path above it leads to. -/
theorem located_child {name : Name} {place : Place}
    (plain : isSymlink tree (path ++ [name]) = false)
    (found : tree.locate (path ++ [name]) = .ok place) :
    ∃ above, tree.locate path = .ok above ∧ tree.node above = some .directory ∧
      place = above ++ [name] := by
  obtain ⟨above, there, is⟩ := FileTree.locate_prefix found (List.cons_ne_nil name [])
  refine ⟨above, there, is, ?_⟩
  obtain none | ⟨absolute, target, link⟩ | real := tree.node_cases (above ++ [name])
  · rw [FileTree.locate_missing there is none] at found
    cases found
  · rw [isSymlink, FileTree.lstat, FileTree.entry_concat there is] at plain
    dsimp only at plain
    rw [link] at plain
    cases plain
  · rw [FileTree.locate_below there real] at found
    exact (Except.ok.inj found).symm

/-- A child that is no link is below the root if its parent is. -/
theorem under_child {name : Name} (under : Under root tree path)
    (plain : isSymlink tree (path ++ [name]) = false) : Under root tree (path ++ [name]) := by
  intro place found
  obtain ⟨above, there, -, rfl⟩ := located_child plain found
  exact (under above there).trans (List.prefix_append _ _)

/-- The parents of the paths that are walked are below the root. -/
def ParentsUnder (root : Place) (tree : FileTree) (paths : List Place) : Prop :=
  ∀ path ∈ paths, ∃ here name, path = here ++ [name] ∧ Under root tree here

theorem looks_walkDirectory {config : FilesystemConfig} (levels : Nat)
    (under : Under root tree path) :
    Looks root tree (walkDirectory config levels path) (ParentsUnder root tree) := by
  induction levels generalizing path with
  | zero =>
    rw [walkDirectory]
    refine looks_get_bind fun accesses => ?_
    refine looks_bind (looks_attempt (looks_scan under)) fun names _ => ?_
    cases names with
    | error raised => exact looks_pure (List.forall_mem_nil _)
    | ok names =>
      refine looks_pure (List.forall_mem_map.mpr fun name _ => ?_)
      exact ⟨path, name, rfl, under⟩
  | succ levels ih =>
    rw [walkDirectory]
    refine looks_get_bind fun accesses => ?_
    refine looks_bind (looks_attempt (looks_scan under)) fun names _ => ?_
    cases names with
    | error raised => exact looks_pure (List.forall_mem_nil _)
    | ok names =>
      refine looks_bind (looks_mapM (P := ParentsUnder root tree) fun name mem => ih ?_)
        fun deeper made => looks_pure (List.forall_mem_append.mpr ⟨?_, ?_⟩)
      · have kept := (List.mem_filter.mp ((List.mem_insertionSort _).mp mem)).2
        rw [Bool.and_eq_true, Bool.not_eq_true'] at kept
        exact under_child under kept.2
      · exact List.forall_mem_map.mpr fun name _ => ⟨path, name, rfl, under⟩
      · intro p mem
        obtain ⟨paths, inside, mem⟩ := List.mem_flatten.mp mem
        exact made paths inside p mem

theorem looks_walk {config : FilesystemConfig} (under : Under root tree path) :
    Looks root tree (walk config path) (ParentsUnder root tree) := by
  refine looks_get_bind fun accesses => ?_
  refine looks_ite (fun _ => looks_fail) fun _ => ?_
  refine looks_bind (looks_walkDirectory config.maxDepth under) fun collected made => ?_
  exact looks_pure fun p mem => made p ((List.mem_insertionSort _).mp mem)

/-- Whatever a call names is below the root, where it is there. -/
theorem looks_target {host : Host} {config : FilesystemConfig} {value : Text}
    {allowFileSymlink forWrite : Bool} :
    Looks config.workspace.root tree (target host config value allowFileSymlink forWrite)
      fun named => Under config.workspace.root tree named.1 := by
  refine looks_bind (looks_raising fun _ made => made) fun relative _ => ?_
  refine looks_get_bind fun accesses => ?_
  refine looks_ite (fun _ => looks_fail) fun _ => looks_ite (fun _ => looks_fail) fun inside => ?_
  rw [Bool.not_eq_true', Bool.not_eq_false, List.isPrefixOf_iff_prefix] at inside
  have lexical : Under config.workspace.root tree (config.workspace.root ++ relative) := by
    intro place found
    rw [host.resolves.existing _ _ _ found] at inside
    exact inside
  refine looks_ite (fun _ => looks_pure lexical) fun _ => looks_pure ?_
  dsimp only
  split_ifs
  · intro place found
    rw [host.resolves.canonical _ _ _ found]
    exact inside
  · exact lexical

end Looking

section Reading
variable (host : Host) (config : FilesystemConfig)

theorem confined_readFile (path : Text) (offset limit : Option Nat) :
    Confined config.workspace.root (readFile host config path offset limit) := by
  refine Looks.confined (P := fun _ => True) fun tree _ => ?_
  refine looks_bind looks_target fun named under => ?_
  refine looks_bind (looks_readRegular under) fun source _ => ?_
  split
  · exact looks_fail
  · exact looks_pure trivial

theorem confined_listFiles (path : Text) :
    Confined config.workspace.root (listFiles host config path) := by
  refine Looks.confined (P := fun _ => True) fun tree _ => ?_
  refine looks_bind looks_target fun named under => looks_get_bind fun accesses => ?_
  refine looks_ite (fun _ => looks_fail) fun _ => ?_
  exact looks_bind (looks_scan under) fun names _ => looks_pure trivial

theorem confined_findFiles (pattern path : Text) :
    Confined config.workspace.root (findFiles host config pattern path) := by
  refine Looks.confined (P := fun _ => True) fun tree _ => ?_
  refine looks_bind (looks_raising fun _ made => made) fun pattern _ => ?_
  refine looks_bind looks_target fun named under => looks_get_bind fun accesses => ?_
  refine looks_ite (fun _ => looks_fail) fun _ => ?_
  refine looks_bind (looks_walk under) fun paths _ => ?_
  exact looks_bind (looks_raising fun _ made => made) fun _ _ => looks_pure trivial

variable {config} {tree : FileTree}

theorem looks_readText {root path : Place} (under : Under root tree path) :
    Looks root tree (readText config path) fun _ => True := by
  refine looks_get_bind fun accesses => ?_
  split
  · refine looks_ite (fun _ => looks_pure trivial) fun _ => looks_tryCatch ?_ fun raised => ?_
    · exact looks_bind (looks_readBytes under) fun content _ => looks_pure trivial
    · split
      · exact looks_pure trivial
      · exact looks_throw
  · exact looks_pure trivial

theorem looks_searchPaths {root : Place} {needle : Text} {sensitive : Bool}
    {pattern : Option Text} {base : Place} (hits : List Hit) {paths : List Place}
    (parents : ParentsUnder root tree paths) :
    Looks root tree (searchPaths host config needle sensitive pattern base hits paths)
      fun _ => True := by
  induction paths generalizing hits with
  | nil => exact looks_pure trivial
  | cons path paths ih =>
    obtain ⟨first, later⟩ := List.forall_mem_cons.mp parents
    refine looks_get_bind fun accesses => looks_ite (fun _ => ih hits later) fun regular => ?_
    refine looks_bind (looks_raising fun _ made => made) fun wanted _ => ?_
    refine looks_ite (fun _ => ih hits later) fun _ => ?_
    have under : Under root tree path := by
      obtain ⟨here, name, rfl, under⟩ := first
      refine under_child under ?_
      rw [Bool.or_eq_true, not_or, Bool.not_eq_true] at regular
      exact Bool.eq_false_iff.mpr regular.2
    refine looks_bind (looks_readText under) fun text _ => ?_
    split
    · exact ih hits later
    · split
      · exact looks_pure trivial
      · exact ih _ later

theorem confined_searchFiles (query path : Text) (glob : Option Text) (sensitive : Bool) :
    Confined config.workspace.root (searchFiles host config query path glob sensitive) := by
  refine Looks.confined (P := fun _ => True) fun tree _ => ?_
  refine looks_bind looks_target fun named under => looks_get_bind fun accesses => ?_
  refine looks_ite (fun _ => looks_fail) fun _ => ?_
  refine looks_bind (looks_raising fun _ made => made) fun pattern _ => ?_
  refine looks_bind (looks_walk under) fun paths parents => ?_
  exact looks_bind (looks_searchPaths host [] parents) fun _ _ => looks_pure trivial

end Reading

section Writing
variable {root : Place} {disk : Disk} {path : Place}

theorem triple_change {kind : AccessKind} {place : Place} {tree : FileTree} :
    Triple (· = disk) (change kind place tree)
      (fun _ after => after = ⟨tree, disk.accesses ++ [⟨kind, place⟩]⟩) (fun _ _ => False) := by
  refine triple_modify ?_
  rintro s rfl
  rfl

/-- What a change below the root keeps. -/
theorem Inside.change {kind : AccessKind} {place : Place} {tree : FileTree}
    (inside : Inside root disk) (below : root <+: place)
    (directory : tree.node root = some .directory) :
    Inside root ⟨tree, disk.accesses ++ [⟨kind, place⟩]⟩ := by
  refine ⟨directory, ?_⟩
  rw [List.forall_mem_append]
  exact ⟨inside.accesses, List.forall_mem_singleton.mpr below⟩

theorem entry_eq_ok {tree : FileTree} {place : Place} {name : Name}
    (h : tree.entry path = .ok (place, name)) :
    ∃ here, path = here ++ [name] ∧ tree.locate here = .ok place ∧
      tree.node place = some .directory := by
  obtain rfl | ⟨here, last, rfl⟩ := List.eq_nil_or_concat' path
  · cases h
  · rw [FileTree.entry, List.getLast?_concat] at h
    dsimp only at h
    rw [List.dropLast_concat] at h
    obtain ⟨place', found, h⟩ := bind_eq_ok h
    split_ifs at h with is
    cases h
    exact ⟨here, rfl, found, is⟩

theorem entry_eq_notFound {tree : FileTree} (h : tree.entry path = .error .notFound) :
    tree.locate path.dropLast = .error .notFound := by
  obtain rfl | ⟨here, last, rfl⟩ := List.eq_nil_or_concat' path
  · cases h
  · rw [FileTree.entry, List.getLast?_concat] at h
    dsimp only at h
    cases found : tree.locate (here ++ [last]).dropLast with
    | error error =>
      rw [found] at h
      cases h
      rfl
    | ok place =>
      rw [found, ok_bind] at h
      split_ifs at h
      cases h

/-- What making a directory does: one new directory in the one that the path above leads to. -/
theorem triple_makeDirectory : Triple (· = disk) (makeDirectory path)
    (fun _ after => ∃ here name place inside free, path = here ++ [name] ∧
      disk.tree.locate here = .ok place ∧ disk.tree.node (place ++ [name]) = none ∧
      after = ⟨disk.tree.put place name .directory inside free,
        disk.accesses ++ [⟨.makeDirectory, place ++ [name]⟩]⟩)
    (fun raised after => after = disk ∧
      (raised = .os .notFound → path ≠ [] ∧ disk.tree.locate path.dropLast = .error .notFound)) := by
  refine triple_get_bind ?_
  rintro s rfl
  split_ifs with top
  · exact triple_throw fun _ h => ⟨h, by rintro ⟨⟩⟩
  · refine triple_bind (M := fun entry after => after = s ∧ s.tree.entry path = .ok entry)
      (triple_raising ?_ ?_) fun entry => ?_
    · rintro entry after made same
      refine ⟨same, ?_⟩
      cases found : s.tree.entry path with
      | error error =>
        rw [found] at made
        cases made
      | ok entry =>
        rw [found] at made
        cases made
        rfl
    · rintro raised after made same
      refine ⟨same, ?_⟩
      rintro rfl
      cases found : s.tree.entry path with
      | error error =>
        rw [found] at made
        cases made
        exact ⟨top, entry_eq_notFound found⟩
      | ok entry =>
        rw [found] at made
        cases made
    · obtain ⟨place, name⟩ := entry
      refine triple_pointwise ?_
      rintro _ ⟨rfl, found⟩
      obtain ⟨here, rfl, located, -⟩ := entry_eq_ok found
      dsimp only
      split_ifs with free
      · refine triple_consequence triple_change (fun _ h => h) ?_ fun _ _ h => h.elim
        rintro _ after rfl
        exact ⟨here, name, place, free.1, _, rfl, located, free.2, rfl⟩
      · exact triple_throw fun _ h => ⟨h, by rintro ⟨⟩⟩

theorem isDir_iff {tree : FileTree} : isDir tree path = true ↔
    ∃ place, tree.locate path = .ok place ∧ tree.node place = some .directory := by
  rw [isDir, decide_eq_true_eq, FileTree.stat]
  cases found : tree.locate path with
  | error error => exact iff_of_false nofun (by rintro ⟨_, ⟨⟩, _⟩)
  | ok place =>
    rw [ok_bind]
    cases is : tree.node place with
    | none =>
      refine iff_of_false nofun ?_
      rintro ⟨_, ⟨⟩, directory⟩
      rw [is] at directory
      cases directory
    | some node =>
      refine Option.some_inj.trans ⟨?_, ?_⟩
      · rintro rfl
        exact ⟨place, rfl, is⟩
      · rintro ⟨_, ⟨⟩, directory⟩
        rw [is] at directory
        exact Option.some.inj directory

theorem triple_settle {existOk : Bool} {raised : Raised} :
    Triple (· = disk) (settle path existOk raised)
      (fun _ after => after = disk ∧ isDir disk.tree path = true) (fun _ after => after = disk) := by
  refine triple_get_bind ?_
  rintro s rfl
  split_ifs with there
  · exact triple_pure fun _ h => ⟨h, (Bool.and_eq_true _ _ ▸ there).2⟩
  · exact triple_throw fun _ h => h

/-- The path is there after its directories are made: as before, or new, empty and below the
root. -/
def Made (root : Place) (before : FileTree) (path : Place) (after : FileTree) : Prop :=
  ∃ place, after.locate path = .ok place ∧ after.node place = some .directory ∧
    (before.locate path = .ok place ∨
      root <+: place ∧ ∀ name, after.node (place ++ [name]) = none)

/-- A name that is missing on a path that resolves to a place below the root is itself below the
root. -/
theorem below_of_missing {host : Host} {tree : FileTree} {here place rest : Place} {name : Name}
    (top : tree.node root = some .directory)
    (resolved : root <+: host.resolve tree (here ++ name :: rest))
    (found : tree.locate here = .ok place) (is : tree.node place = some .directory)
    (missing : tree.node (place ++ [name]) = none) : root <+: place ++ [name] := by
  rw [host.resolves.missing _ _ _ _ _ found is missing, List.append_cons] at resolved
  obtain below | ⟨more, same⟩ :=
    List.prefix_or_prefix_of_prefix resolved (List.prefix_append (place ++ [name]) rest)
  · exact below
  · by_cases none : more = []
    · rw [none, List.append_nil] at same
      rw [same]
    · have directory : tree.node (place ++ [name]) = some .directory :=
        FileTree.above (by rw [same, top]; nofun) none
      rw [missing] at directory
      cases directory

/-- A new directory below the root. -/
theorem made_new {here place : Place} {name : Name} (inside : Inside root disk)
    (directory : disk.tree.node place = some .directory)
    (free : disk.tree.node (place ++ [name]) ≠ some .directory)
    (found : disk.tree.locate here = .ok place) (missing : disk.tree.node (place ++ [name]) = none)
    (below : root <+: place ++ [name]) (before : FileTree) :
    Inside root ⟨disk.tree.put place name .directory directory free,
        disk.accesses ++ [⟨.makeDirectory, place ++ [name]⟩]⟩ ∧
      Made root before (here ++ [name]) (disk.tree.put place name .directory directory free) := by
  refine ⟨inside.change below (FileTree.directory_put inside.top), place ++ [name], ?_, ?_,
    Or.inr ⟨below, fun child => ?_⟩⟩
  · refine FileTree.locate_below (FileTree.locate_extends (FileTree.extends_put missing) found) ?_
    exact Or.inl (if_pos rfl)
  · exact if_pos rfl
  · rw [FileTree.node_put, if_neg (Ne.symm (FileTree.ne_concat _ _))]
    by_contra there
    have parent := disk.tree.parent _ _ there
    rw [missing] at parent
    cases parent

/-- A first try to make the directory. -/
theorem first_made {host : Host} {here rest : Place} {name : Name} (inside : Inside root disk)
    (resolved : root <+: host.resolve disk.tree (here ++ name :: rest)) :
    Triple (· = disk) (makeDirectory (here ++ [name]))
      (fun _ after => Inside root after ∧ Made root disk.tree (here ++ [name]) after.tree)
      (fun raised after => after = disk ∧
        (raised = .os .notFound → disk.tree.locate here = .error .notFound)) := by
  refine triple_consequence triple_makeDirectory (fun _ h => h) ?_ ?_
  · rintro _ _ ⟨here', name', place, directory, free, split, found, missing, rfl⟩
    obtain ⟨rfl, rfl⟩ := FileTree.concat_inj.mp split
    exact made_new inside directory free found missing
      (below_of_missing inside.top resolved found directory missing) _
  · rintro raised after ⟨same, absent⟩
    refine ⟨same, fun notFound => ?_⟩
    have gone := (absent notFound).2
    rwa [List.dropLast_concat] at gone

/-- A second try, below a directory that is new. -/
theorem second_made {before : FileTree} {here place : Place} {name : Name} {existOk : Bool}
    (inside : Inside root disk) (found : disk.tree.locate here = .ok place)
    (is : disk.tree.node place = some .directory) (below : root <+: place)
    (empty : ∀ name, disk.tree.node (place ++ [name]) = none) :
    Triple (· = disk)
      (tryCatch (makeDirectory (here ++ [name])) fun raised =>
        if raised = .os .notFound then throw raised else settle (here ++ [name]) existOk raised)
      (fun _ after => Inside root after ∧ Made root before (here ++ [name]) after.tree)
      (fun _ after => Inside root after) := by
  refine triple_tryCatch (C := fun _ after => after = disk)
    (triple_consequence triple_makeDirectory (fun _ h => h) ?_ fun _ _ h => h.1) fun raised =>
    triple_pointwise ?_
  · rintro _ _ ⟨here', name', place', directory, free, split, found', missing, rfl⟩
    obtain ⟨rfl, rfl⟩ := FileTree.concat_inj.mp split
    rw [found] at found'
    cases found'
    exact made_new inside directory free found missing (below.trans (List.prefix_append _ _)) _
  · rintro _ rfl
    split_ifs
    · exact triple_throw (by rintro _ rfl; exact inside)
    · refine triple_consequence triple_settle (fun _ h => h) ?_ (by rintro _ _ rfl; exact inside)
      rintro _ _ ⟨rfl, there⟩
      obtain ⟨_, found', -⟩ := isDir_iff.mp there
      rw [FileTree.locate_missing found is (empty name)] at found'
      cases found'

theorem settle_made (inside : Inside root disk) {existOk : Bool} {raised : Raised} :
    Triple (· = disk) (settle path existOk raised)
      (fun _ after => Inside root after ∧ Made root disk.tree path after.tree)
      (fun _ after => Inside root after) := by
  refine triple_consequence triple_settle (fun _ h => h) ?_ ?_
  · rintro _ _ ⟨rfl, there⟩
    obtain ⟨place, found, is⟩ := isDir_iff.mp there
    exact ⟨inside, place, found, is, Or.inl found⟩
  · rintro _ _ rfl
    exact inside

/-- Every directory that is made for a path that resolves to a place below the root is below the
root. -/
theorem triple_mkdir {host : Host} (inside : Inside root disk) {rest : Place} {existOk : Bool}
    (resolved : root <+: host.resolve disk.tree (path ++ rest)) :
    Triple (· = disk) (mkdir path existOk)
      (fun _ after => Inside root after ∧ Made root disk.tree path after.tree)
      (fun _ after => Inside root after) := by
  induction path using List.reverseRecOn generalizing rest existOk with
  | nil =>
    rw [mkdir]
    refine triple_tryCatch (C := fun raised after => after = disk ∧ raised ≠ .os .notFound)
      (triple_consequence triple_makeDirectory (fun _ h => h) ?_ ?_) fun raised =>
      triple_pointwise ?_
    · rintro _ _ ⟨here, name, -, -, -, split, -⟩
      exact absurd split.symm (List.concat_ne_nil name here)
    · rintro raised after ⟨same, absent⟩
      exact ⟨same, fun notFound => (absent notFound).1 rfl⟩
    · rintro _ ⟨rfl, other⟩
      rw [if_neg other]
      exact settle_made inside
  | append_singleton here name ih =>
    rw [mkdir]
    rw [List.append_assoc] at resolved
    refine triple_tryCatch (first_made inside resolved) fun raised => triple_pointwise ?_
    rintro _ ⟨rfl, absent⟩
    split_ifs with notFound top
    · exact absurd top (List.concat_ne_nil name here)
    · have gone := absent notFound
      rw [List.dropLast_concat]
      refine triple_bind (ih resolved) fun _ => triple_pointwise ?_
      rintro next ⟨held, place, found, is, known⟩
      rw [gone] at known
      obtain ⟨⟨⟩⟩ | ⟨below, empty⟩ := known
      exact second_made held found is below empty
    · exact settle_made inside

theorem system_cases {α : Type} {value : Except OsError α} : Triple (· = disk) (system value)
    (fun a after => after = disk ∧ value = .ok a)
    (fun _ after => after = disk ∧ ∃ error, value = .error error) := by
  cases value with
  | error error => exact triple_raising nofun fun _ _ _ same => ⟨same, error, rfl⟩
  | ok a =>
    refine triple_raising (fun b _ made same => ⟨same, ?_⟩) nofun
    cases made
    rfl

theorem triple_system {α : Type} {value : Except OsError α} : Triple (· = disk) (system value)
    (fun a after => after = disk ∧ value = .ok a) (fun _ after => after = disk) :=
  triple_consequence system_cases (fun _ h => h) (fun _ _ h => h) fun _ _ h => h.1

theorem triple_readBytes {place : Place} {content : ByteArray}
    (found : disk.tree.locate path = .ok place) (file : disk.tree.node place = some (.file content)) :
    Triple (· = disk) (readBytes path)
      (fun read after => after.tree = disk.tree ∧ read = content) (fun _ _ => False) := by
  refine triple_get_bind ?_
  rintro after rfl
  refine triple_bind (M := fun p s => s = after ∧ p = place) (triple_raising ?_ ?_) fun p =>
    triple_pointwise ?_
  · rintro p s made same
    rw [found] at made
    cases made
    exact ⟨same, rfl⟩
  · rintro raised s made
    rw [found] at made
    cases made
  · rintro s ⟨rfl, rfl⟩
    rw [file]
    refine triple_modify_bind ?_
    rintro _ rfl
    exact triple_pure (by rintro _ rfl; exact ⟨rfl, rfl⟩)

theorem triple_createTemporary {host : Host} {directory : Place} {content : ByteArray} :
    Triple (· = disk) (createTemporary host directory content)
      (fun temporary after => ∃ place name inside free, temporary = directory ++ [name] ∧
        disk.tree.locate directory = .ok place ∧ disk.tree.node (place ++ [name]) = none ∧
        after = ⟨disk.tree.put place name (.file content) inside free,
          disk.accesses ++ [⟨.create, place ++ [name]⟩]⟩)
      (fun _ after => after = disk) := by
  refine triple_get_bind ?_
  rintro s rfl
  refine triple_bind triple_system fun place => triple_pointwise ?_
  rintro _ ⟨rfl, found⟩
  dsimp only
  split_ifs with inside
  · refine triple_bind (triple_consequence triple_change (fun _ h => h) (fun _ _ h => h)
      fun _ _ h => h.elim) fun _ => triple_pure ?_
    rintro _ rfl
    exact ⟨place, _, inside, _, rfl, found, host.fresh _ _, rfl⟩
  · exact triple_throw fun _ h => h

theorem triple_replaceFile {source target : Place} :
    Triple (· = disk) (replaceFile source target)
      (fun _ after => ∃ here name here' name' place place' tree, source = here ++ [name] ∧
        target = here' ++ [name'] ∧ disk.tree.locate here = .ok place ∧
        disk.tree.locate here' = .ok place' ∧ disk.tree.move place name place' name' = .ok tree ∧
        after = ⟨tree, disk.accesses ++ [⟨.replace, place' ++ [name']⟩]⟩)
      (fun _ after => after = disk) := by
  refine triple_get_bind ?_
  rintro s rfl
  refine triple_bind triple_system fun first => triple_pointwise ?_
  obtain ⟨place, name⟩ := first
  rintro _ ⟨rfl, found⟩
  refine triple_bind triple_system fun second => triple_pointwise ?_
  obtain ⟨place', name'⟩ := second
  rintro _ ⟨rfl, found'⟩
  refine triple_bind triple_system fun tree => triple_pointwise ?_
  rintro _ ⟨rfl, moved⟩
  refine triple_consequence triple_change (fun _ h => h) ?_ fun _ _ h => h.elim
  rintro _ _ rfl
  obtain ⟨here, rfl, located, -⟩ := entry_eq_ok found
  obtain ⟨here', rfl, located', -⟩ := entry_eq_ok found'
  exact ⟨here, name, here', name', place, place', tree, rfl, rfl, located, located', moved, rfl⟩

theorem triple_unlink : Triple (· = disk) (unlink path)
    (fun _ after => ∃ here name place free, path = here ++ [name] ∧
      disk.tree.locate here = .ok place ∧
      after = ⟨disk.tree.erase place name free, disk.accesses ++ [⟨.remove, place ++ [name]⟩]⟩)
    (fun _ after => after = disk) := by
  refine triple_get_bind ?_
  rintro s rfl
  refine triple_bind triple_system fun entry => triple_pointwise ?_
  obtain ⟨place, name⟩ := entry
  rintro _ ⟨rfl, found⟩
  obtain ⟨here, rfl, located, -⟩ := entry_eq_ok found
  dsimp only
  split_ifs with free
  · exact triple_throw fun _ h => h
  · refine triple_consequence triple_change (fun _ h => h) ?_ fun _ _ h => h.elim
    rintro _ _ rfl
    exact ⟨here, name, place, free, rfl, located, rfl⟩

/-- The temporary file and the target are in the directory that the path above the target leads
to, which is below the root. -/
theorem triple_writeAndReplace {host : Host} {directory here : Place} {name : Name}
    {content : ByteArray} (inside : Inside root disk)
    (located : disk.tree.locate directory = .ok directory) (below : root <+: directory)
    (found : disk.tree.locate here = .ok directory) :
    Triple (· = disk) (writeAndReplace host directory (here ++ [name]) content)
      (fun _ after => Inside root after) (fun _ after => Inside root after) := by
  refine triple_bind (triple_consequence triple_createTemporary (fun _ h => h) (fun _ _ h => h)
    (by rintro _ _ rfl; exact inside)) fun temporary => triple_pointwise ?_
  rintro _ ⟨place, fresh, directory', free, rfl, located', missing, rfl⟩
  rw [located] at located'
  cases located'
  have larger : disk.tree.Extends (disk.tree.put directory fresh (.file content) directory' free) :=
    FileTree.extends_put missing
  have held : Inside root ⟨disk.tree.put directory fresh (.file content) directory' free,
      disk.accesses ++ [⟨.create, directory ++ [fresh]⟩]⟩ :=
    inside.change (below.trans (List.prefix_append _ _)) (FileTree.directory_put inside.top)
  refine triple_tryCatch (C := fun _ after => after = _)
    (triple_consequence triple_replaceFile (fun _ h => h) ?_ fun _ _ h => h) fun raised => ?_
  · rintro _ _ ⟨_, _, here', name', _, place', tree, -, target, -, found', moved, rfl⟩
    obtain ⟨rfl, rfl⟩ := FileTree.concat_inj.mp target
    rw [FileTree.locate_extends larger found] at found'
    cases found'
    exact held.change (below.trans (List.prefix_append _ _))
      (FileTree.directory_move moved held.top)
  · refine triple_bind (M := fun _ => Inside root) (triple_consequence
      (triple_attempt (R := fun _ _ => False) triple_unlink) (fun _ h => h) ?_ fun _ _ h => h.elim)
      fun _ => triple_throw fun _ h => h
    rintro (raised' | ⟨⟩) after ended
    · cases ended
      exact held
    · obtain ⟨_, _, place', free', same, found', rfl⟩ := ended
      obtain ⟨rfl, rfl⟩ := FileTree.concat_inj.mp same
      rw [FileTree.locate_extends larger located] at found'
      cases found'
      exact held.change (below.trans (List.prefix_append _ _))
        (FileTree.directory_erase held.top)

theorem exists_iff {tree : FileTree} :
    exists_ tree path = true ↔ ∃ place, tree.locate path = .ok place := by
  rw [exists_]
  cases tree.locate path with
  | error error => exact iff_of_false nofun nofun
  | ok place => exact iff_of_true rfl ⟨place, rfl⟩

/-- After it, the parent is there and below the root. -/
theorem triple_requireParent {host : Host} {createParents : Bool} (inside : Inside root disk)
    (resolved : root <+: host.resolve disk.tree path) :
    Triple (· = disk) (requireParent path createParents)
      (fun _ after => Inside root after ∧
        ∃ place, after.tree.locate path = .ok place ∧ root <+: place)
      (fun _ => Inside root) := by
  refine triple_get_bind ?_
  rintro s rfl
  refine triple_ite (fun there => ?_) fun _ => triple_ite (fun _ => ?_) fun _ => ?_
  · obtain ⟨place, found⟩ := exists_iff.mp there
    rw [host.resolves.existing _ _ _ found] at resolved
    exact triple_pure (by rintro _ rfl; exact ⟨inside, place, found, resolved⟩)
  · exact triple_throw (by rintro _ rfl; exact inside)
  · have whole : root <+: host.resolve s.tree (path ++ []) := by rwa [List.append_nil]
    refine triple_tryCatch (C := fun _ => Inside root)
      (triple_consequence (triple_mkdir inside whole) (fun _ h => h) ?_ fun _ _ h => h)
      fun raised => ?_
    · rintro _ after ⟨held, place, found, -, known⟩
      refine ⟨held, place, found, ?_⟩
      obtain before | ⟨below, -⟩ := known
      · rwa [host.resolves.existing _ _ _ before] at resolved
      · exact below
    · split
      · exact triple_throw fun _ h => h
      · exact triple_throw fun _ h => h

theorem confined_atomicWrite {host : Host} {config : FilesystemConfig} {content : ByteArray}
    {createParents : Bool} : Confined config.workspace.root
      (atomicWrite host config path content createParents) := by
  refine triple_get_bind fun disk inside => ?_
  refine triple_ite (fun _ => triple_throw (by rintro _ rfl; exact inside)) fun resolved => ?_
  rw [Bool.not_eq_false', List.isPrefixOf_iff_prefix] at resolved
  refine triple_bind (triple_requireParent inside resolved) fun _ => ?_
  refine triple_get_bind ?_
  rintro next ⟨held, place, found, below⟩
  refine triple_ite (fun _ => triple_throw (by rintro _ rfl; exact held)) fun regular => ?_
  rw [host.resolves.existing _ _ _ found]
  obtain rfl | ⟨here, name, rfl⟩ := List.eq_nil_or_concat' path
  · have top : exists_ next.tree [] = true := exists_iff.mpr ⟨[], locate_top⟩
    have directory : next.tree.stat [] = .ok .directory := by
      rw [FileTree.stat, locate_top, ok_bind, next.tree.top]
      rfl
    rw [top, isFile, directory, Bool.true_and, Bool.or_eq_false_iff] at regular
    cases regular.2
  · rw [List.dropLast_concat] at found
    refine triple_tryCatch (C := fun _ => Inside config.workspace.root)
      (triple_writeAndReplace held (FileTree.locate_locate found) below found) fun raised => ?_
    split
    · exact triple_throw fun _ h => h
    · exact triple_throw fun _ h => h

end Writing

section Tools
variable (host : Host) (config : FilesystemConfig)

theorem confined_writeFile (path content : Text) (createParents : Bool) :
    Confined config.workspace.root (writeFile host config path content createParents) := by
  have named : Confined config.workspace.root (target host config path false true) :=
    Looks.confined (P := fun _ => True) fun tree _ => looks_weaken looks_target fun _ _ => trivial
  refine triple_bind named fun named => ?_
  dsimp only
  split_ifs
  · exact triple_throw fun _ h => h
  · refine triple_get_bind fun disk inside => triple_bind (M := fun _ => Inside _) ?_ fun _ =>
      triple_pure fun _ h => h
    refine triple_consequence confined_atomicWrite ?_ (fun _ _ h => h) fun _ _ h => h
    rintro _ rfl
    exact inside

theorem confined_editFile (path old new : Text) :
    Confined config.workspace.root (editFile host config path old new) := by
  refine triple_pointwise fun disk inside => ?_
  have body : Triple (Seen config.workspace.root disk.tree) (editFile host config path old new)
      (fun _ => Inside config.workspace.root) (fun _ => Inside config.workspace.root) := by
    refine triple_bind (triple_consequence looks_target (fun _ h => h) (fun _ _ h => h)
      fun _ _ h => h.2) fun named => triple_pointwise fun disk' held => ?_
    refine triple_bind (triple_consequence (looks_readRegular held.2) ?_ (fun _ _ h => h.1.2)
      fun _ _ h => h.2) fun raw => ?_
    · rintro _ rfl
      exact held.1
    · split
      · exact triple_throw fun _ h => h
      · unfold editText
        dsimp only
        split_ifs
        · exact triple_throw fun _ h => h
        · exact triple_throw fun _ h => h
        · exact triple_throw fun _ h => h
        · exact triple_bind confined_atomicWrite fun _ => triple_pure fun _ h => h
  refine triple_consequence body ?_ (fun _ _ h => h) fun _ _ h => h
  rintro _ rfl
  exact ⟨rfl, inside⟩

theorem confined_perform (call : Call) :
    Confined config.workspace.root (perform host config call) := by
  cases call with
  | readFile path offset limit => exact confined_readFile host config path offset limit
  | writeFile path content createParents =>
    exact confined_writeFile host config path content createParents
  | editFile path old new => exact confined_editFile host config path old new
  | listFiles path => exact confined_listFiles host config path
  | findFiles pattern path => exact confined_findFiles host config pattern path
  | searchFiles query path glob sensitive =>
    exact confined_searchFiles host query path glob sensitive

/-- Calls one after another, whatever each of them ends in. -/
def session (calls : List Call) : FileProgram Unit :=
  calls.forM fun call => do
    let _ ← attempt (perform host config call)
    pure ()

theorem confined_session (calls : List Call) :
    Confined config.workspace.root (session host config calls) := by
  refine triple_forM (fun _ _ => Inside config.workspace.root) calls fun _ call _ _ => ?_
  refine triple_bind (M := fun _ => Inside config.workspace.root) (triple_consequence
    (triple_attempt (R := fun _ _ => False) (confined_perform host config call)) (fun _ h => h) ?_
    fun _ _ h => h.elim) fun _ => triple_pure fun _ h => h
  rintro (raised | content) disk h
  · exact h
  · exact h

/-- A new workspace has a directory as its root. -/
theorem root_of_new {host : Host} {tree : FileTree} {path : Place}
    {workspace : FilesystemWorkspace}
    (opened : FilesystemWorkspace.new host tree path = some workspace) :
    tree.node workspace.root = some .directory := by
  unfold FilesystemWorkspace.new at opened
  dsimp only at opened
  split_ifs at opened with there
  cases opened
  obtain ⟨place, found, is⟩ := isDir_iff.mp there
  rwa [← host.resolves.canonical _ _ _ found]

/-- Whatever files, directories and links there are, and whatever calls are made, the tools read,
list, make, create, replace and remove nothing outside the root. -/
theorem tools_confined (tree : FileTree) (path : Place)
    (opened : FilesystemWorkspace.new host tree path = some config.workspace) (calls : List Call) :
    ∀ access ∈ (exec (session host config calls) ⟨tree, []⟩).2.accesses,
      config.workspace.root <+: access.place := by
  have ended := confined_session host config calls ⟨tree, []⟩
    ⟨root_of_new opened, List.forall_mem_nil _⟩
  generalize exec (session host config calls) ⟨tree, []⟩ = outcome at ended
  rcases outcome with ⟨raised | _, disk⟩
  · exact ended.accesses
  · exact ended.accesses

end Tools

/-- A workspace beside a directory that a link in it leads to. -/
def linked : FileTree :=
  let home := FileTree.bare.put [] ['w'] .directory rfl nofun
  let other := home.put [] ['o'] .directory rfl nofun
  let secret := other.put [['o']] ['s'] (.file (utf8 ['x'])) rfl nofun
  let note := secret.put [['w']] ['n'] (.file (utf8 ['a', 'b'])) rfl nofun
  note.put [['w']] ['l'] (.link false [.up, .name ['o']]) rfl nofun

def linkedConfig : FilesystemConfig where
  workspace := ⟨[['w']]⟩

def linkedCalls : List Call :=
  [.readFile "l/s".toList none none, .readFile "n".toList none none, .listFiles "l".toList,
    .writeFile "d/e".toList "x".toList true, .writeFile "l/f".toList "x".toList true,
    .editFile "n".toList "b".toList "c".toList, .searchFiles "z".toList [] none true]

/-- Seven calls on it, three of which go through the link. -/
theorem linked_confined :
    (exec (session plainHost linkedConfig linkedCalls) ⟨linked, []⟩).2.accesses.length = 11 ∧
      ∀ access ∈ (exec (session plainHost linkedConfig linkedCalls) ⟨linked, []⟩).2.accesses,
        [['w']] <+: access.place :=
  ⟨by decide +kernel, tools_confined plainHost linkedConfig linked [['w']] (by decide +kernel)
    linkedCalls⟩

end RoboAgent.FilesystemConfinement
