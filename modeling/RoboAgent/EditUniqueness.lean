import RoboAgent.FilesystemConfinement

/-! When edit_file edits. It counts the occurrences that a scan finds, which do not overlap, so it
edits a file in which the old text stands more than once where all its occurrences overlap.
Everywhere else it edits exactly at a unique occurrence, and a refused edit changes nothing. -/

namespace RoboAgent.EditUniqueness
open RoboAgent.FalliblePrograms RoboAgent.FileTrees RoboAgent.LineEnds RoboAgent.PatchGrammar
open RoboAgent.TextOccurrences RoboAgent.ToolEffects RoboAgent.FilesystemTools
open RoboAgent.FilesystemConfinement

theorem size_utf8_append (text more : Text) :
    (utf8 (text ++ more)).size = (utf8 text).size + (utf8 more).size := by
  rw [utf8, utf8, utf8, String.toUTF8_eq_toByteArray, String.toUTF8_eq_toByteArray,
    String.toUTF8_eq_toByteArray, String.toByteArray_ofList, String.toByteArray_ofList,
    String.toByteArray_ofList, List.utf8Encode_append, ByteArray.size_append]

theorem decodeUtf8_utf8 (text : Text) : decodeUtf8 (utf8 text) = some text := by
  rw [decodeUtf8, utf8, String.toUTF8_eq_toByteArray, String.toByteArray_ofList,
    List.utf8Decode?_utf8Encode]
  rfl

theorem size_splice {text old new : Text} {p : Nat} (occurs : OccursAt old text p) :
    (utf8 (splice text new p old.length)).size + (utf8 old).size =
      (utf8 text).size + (utf8 new).size := by
  obtain ⟨-, rest, same⟩ := occurs
  have tail : text.drop (p + old.length) = rest := by
    rw [← List.drop_drop, ← same, List.drop_left]
  have whole : text = text.take p ++ (old ++ rest) := by rw [same, List.take_append_drop]
  rw [splice, tail]
  conv_rhs => rw [whole]
  rw [size_utf8_append, size_utf8_append, size_utf8_append, size_utf8_append]
  omega

/-- A file in the workspace, by a path that is no link, whose text may be edited. -/
structure Editable (config : FilesystemConfig) (tree : FileTree) (value : Text)
    (names : List Name) (place : Place) (text : Text) : Prop where
  root : tree.node config.workspace.root = some .directory
  relative : validateRelativePath value = .ok names
  plain : isSymlink tree (config.workspace.root ++ names) = false
  found : tree.locate (config.workspace.root ++ names) = .ok place
  file : tree.node place = some (.file (utf8 text))
  below : config.workspace.root <+: place
  small : (utf8 text).size ≤ config.maxFileBytes

section
variable {host : Host} {config : FilesystemConfig} {disk : Disk} {value text : Text}
  {names : List Name} {place : Place}

theorem Editable.parent (e : Editable config disk.tree value names place text) :
    ∃ here name above, config.workspace.root ++ names = here ++ [name] ∧
      disk.tree.locate here = .ok above ∧ disk.tree.node above = some .directory ∧
      place = above ++ [name] ∧ config.workspace.root <+: above := by
  have found := e.found
  have plain := e.plain
  obtain top | ⟨here, name, same⟩ := List.eq_nil_or_concat' (config.workspace.root ++ names)
  · rw [top, locate_top] at found
    cases found
    have directory := disk.tree.top
    rw [e.file] at directory
    cases directory
  · rw [same] at found plain
    obtain ⟨above, there, is, rfl⟩ := located_child plain found
    refine ⟨here, name, above, same, there, is, rfl, ?_⟩
    obtain root | below := List.prefix_concat_iff.mp e.below
    · have directory := e.root
      rw [root, e.file] at directory
      cases directory
    · exact below

theorem triple_target (e : Editable config disk.tree value names place text) :
    Triple (· = disk) (target host config value false true)
      (fun named after => after = disk ∧ named.1 = config.workspace.root ++ names)
      (fun _ _ => False) := by
  refine triple_bind (M := fun relative after => after = disk ∧ relative = names)
    (triple_raising ?_ ?_) fun relative => triple_pointwise ?_
  · rintro relative _ made rfl
    rw [e.relative] at made
    exact ⟨rfl, (Except.ok.inj made).symm⟩
  · rintro raised _ made
    rw [e.relative] at made
    cases made
  rintro after ⟨rfl, rfl⟩
  refine triple_get_bind ?_
  rintro _ rfl
  dsimp only
  rw [e.plain, host.resolves.existing _ _ _ e.found, List.isPrefixOf_iff_prefix.mpr e.below]
  exact triple_pure fun _ same => ⟨same, rfl⟩

theorem triple_readRegular {path : Place} {content : ByteArray} {maximum : Nat}
    (found : disk.tree.locate path = .ok place) (file : disk.tree.node place = some (.file content))
    (small : content.size ≤ maximum) :
    Triple (· = disk) (readRegular path maximum)
      (fun read after => after.tree = disk.tree ∧ read = content) (fun _ _ => False) := by
  refine triple_get_bind ?_
  rintro after rfl
  have stat : after.tree.stat path = .ok (.file content) := by
    rw [FileTree.stat, found, ok_bind, file]
    rfl
  rw [stat]
  dsimp only
  rw [if_neg (Nat.not_lt.mpr small)]
  exact triple_tryCatch (triple_readBytes found file) fun _ _ h => h.elim

theorem triple_system {α : Type} {value : Except OsError α} {a : α} (made : value = .ok a) :
    Triple (· = disk) (system value) (fun b after => after = disk ∧ b = a) (fun _ _ => False) := by
  subst made
  exact triple_raising (fun b s same before => ⟨before, (Except.ok.inj same).symm⟩) nofun

theorem triple_created {above : Place} {content : ByteArray}
    (located : disk.tree.locate above = .ok above) (is : disk.tree.node above = some .directory) :
    Triple (· = disk) (createTemporary host above content)
      (fun temporary after => ∃ fresh inside free, temporary = above ++ [fresh] ∧
        disk.tree.node (above ++ [fresh]) = none ∧
        after.tree = disk.tree.put above fresh (.file content) inside free)
      (fun _ _ => False) := by
  refine triple_get_bind ?_
  rintro s rfl
  refine triple_bind (triple_system located) fun place => triple_pointwise ?_
  rintro _ ⟨rfl, rfl⟩
  dsimp only
  rw [dif_pos is]
  refine triple_modify_bind ?_
  rintro s rfl
  refine triple_pure ?_
  rintro _ rfl
  exact ⟨_, is, by rw [host.fresh]; rintro ⟨⟩, rfl, host.fresh _ _, rfl⟩

theorem triple_replaced {here here' place' : Place} {name name' : Name} {tree : FileTree}
    (found : disk.tree.locate here = .ok place) (is : disk.tree.node place = some .directory)
    (found' : disk.tree.locate here' = .ok place') (is' : disk.tree.node place' = some .directory)
    (moved : disk.tree.move place name place' name' = .ok tree) :
    Triple (· = disk) (replaceFile (here ++ [name]) (here' ++ [name']))
      (fun _ after => after.tree = tree) (fun _ _ => False) := by
  refine triple_get_bind ?_
  rintro s rfl
  refine triple_bind (triple_system (FileTree.entry_concat found is)) fun _ => triple_pointwise ?_
  rintro _ ⟨rfl, rfl⟩
  refine triple_bind (triple_system (FileTree.entry_concat found' is')) fun _ =>
    triple_pointwise ?_
  rintro _ ⟨rfl, rfl⟩
  refine triple_bind (triple_system moved) fun _ => triple_pointwise ?_
  rintro _ ⟨rfl, rfl⟩
  refine triple_modify ?_
  rintro _ rfl
  rfl

/-- Only the file at the place is different. -/
def Written (before after : FileTree) (place : Place) (content : ByteArray) : Prop :=
  ∀ q, after.node q = if q = place then some (.file content) else before.node q

theorem triple_written {here above : Place} {name : Name} {content : ByteArray}
    (found : disk.tree.locate here = .ok above) (is : disk.tree.node above = some .directory)
    (free : disk.tree.node (above ++ [name]) ≠ some .directory) :
    Triple (· = disk) (writeAndReplace host above (here ++ [name]) content)
      (fun _ after => Written disk.tree after.tree (above ++ [name]) content)
      (fun _ _ => False) := by
  have located := FileTree.locate_locate found
  refine triple_bind (triple_created located is) fun temporary => triple_pointwise ?_
  rintro next ⟨fresh, inside, empty, rfl, missing, same⟩
  have larger : disk.tree.Extends next.tree := by
    rw [same]
    exact FileTree.extends_put missing
  have file : next.tree.node (above ++ [fresh]) = some (.file content) := by
    rw [same, FileTree.node_put, if_pos rfl]
  have target : next.tree.node (above ++ [name]) ≠ some .directory := by
    rw [same, FileTree.node_put]
    split_ifs
    · nofun
    · exact free
  obtain ⟨tree, moved⟩ := FileTree.exists_move file (larger _ _ is) target
  refine triple_tryCatch (triple_consequence (triple_replaced
    (FileTree.locate_extends larger located) (larger _ _ is) (FileTree.locate_extends larger found)
    (larger _ _ is) moved) (fun _ h => h) ?_ fun _ _ h => h) fun _ _ h => h.elim
  rintro _ after rfl q
  rw [FileTree.node_move moved, file]
  split_ifs with here there
  · rfl
  · rw [there, missing]
  · rw [same, FileTree.node_put, if_neg there]

theorem triple_atomicWrite (e : Editable config disk.tree value names place text)
    {content : ByteArray} :
    Triple (·.tree = disk.tree)
      (atomicWrite host config (config.workspace.root ++ names) content false)
      (fun _ after => Written disk.tree after.tree place content) (fun _ _ => False) := by
  obtain ⟨here, name, above, same, located, is, rfl, below⟩ := e.parent
  have found := e.found
  have plain := e.plain
  rw [same] at found plain ⊢
  have free : disk.tree.node (above ++ [name]) ≠ some .directory := by
    rw [e.file]
    nofun
  have there : exists_ disk.tree here = true := exists_iff.mpr ⟨above, located⟩
  have regular : isFile disk.tree (here ++ [name]) = true := by
    rw [isFile, FileTree.stat, found, ok_bind, e.file]
    rfl
  refine triple_get_bind fun s tree => ?_
  dsimp only
  rw [List.dropLast_concat, tree, host.resolves.existing _ _ _ located,
    List.isPrefixOf_iff_prefix.mpr below]
  refine triple_bind (M := fun _ after => after.tree = disk.tree) ?_ fun _ => ?_
  · refine triple_get_bind ?_
    rintro _ rfl
    rw [tree, there]
    exact triple_pure (by rintro _ rfl; exact tree)
  · refine triple_get_bind fun s' tree' => ?_
    rw [tree', plain, regular, Bool.not_true, Bool.or_false, Bool.and_false,
      host.resolves.existing _ _ _ located]
    rw [← tree'] at located is free ⊢
    refine triple_tryCatch (triple_written located is free) fun _ _ h => h.elim

theorem triple_editFile (e : Editable config disk.tree value names place text) {old new : Text}
    {after : ToolContent → Disk → Prop} {R : Raised → Disk → Prop}
    (edit : ∀ relative, Triple (·.tree = disk.tree)
      (editText host config (config.workspace.root ++ names) relative text old new) after R) :
    Triple (· = disk) (editFile host config value old new) after R := by
  refine triple_bind (triple_consequence (triple_target e) (fun _ h => h) (fun _ _ h => h)
    fun _ _ h => h.elim) fun named => triple_pointwise ?_
  obtain ⟨path, relative⟩ := named
  rintro _ ⟨rfl, rfl⟩
  refine triple_bind (triple_consequence (triple_readRegular e.found e.file e.small) (fun _ h => h)
    (fun _ _ h => h) fun _ _ h => h.elim) fun raw => triple_pointwise ?_
  rintro next ⟨same, rfl⟩
  rw [decodeUtf8_utf8]
  refine triple_consequence (edit relative) ?_ (fun _ _ h => h) fun _ _ h => h
  rintro _ rfl
  exact same

/-- A text in which a scan finds one occurrence is edited. -/
theorem triple_edited (e : Editable config disk.tree value names place text) {old new : Text}
    (once : (occurrences old text 0).length = 1)
    (size : (utf8 (replaceOnce text old new)).size ≤ config.maxWriteBytes) :
    Triple (· = disk) (editFile host config value old new)
      (fun _ after => Written disk.tree after.tree place (utf8 (replaceOnce text old new)))
      (fun _ _ => False) := by
  refine triple_editFile e fun relative => ?_
  unfold editText
  dsimp only
  rw [once, if_neg Nat.one_ne_zero, if_neg (Nat.lt_irrefl 1), if_neg (Nat.not_lt.mpr size)]
  exact triple_bind (triple_atomicWrite e) fun _ => triple_pure fun _ h => h

/-- Any other text is not. -/
theorem triple_refused (e : Editable config disk.tree value names place text) {old new : Text}
    (other : (occurrences old text 0).length ≠ 1) :
    Triple (· = disk) (editFile host config value old new)
      (fun _ _ => False) (fun _ after => after.tree = disk.tree) := by
  refine triple_editFile e fun relative => ?_
  unfold editText
  dsimp only
  split_ifs
  · exact triple_throw fun _ h => h
  · exact triple_throw fun _ h => h
  all_goals omega

end

/-- On a file with the text, edit_file does what it says: it replaces the old text where that
stands at exactly one position, and fails and changes nothing where it does not. -/
def EditsUnique (host : Host) (config : FilesystemConfig) (tree : FileTree) (value : Text)
    (place : Place) (text old new : Text) : Prop :=
  let ended := exec (editFile host config value old new) ⟨tree, []⟩
  (∀ p, OccursAt old text p → (∀ q, OccursAt old text q → q = p) →
    (∃ content, ended.1 = .ok content) ∧
      Written tree ended.2.tree place (utf8 (splice text new p old.length))) ∧
  ((¬∃ p, OccursAt old text p ∧ ∀ q, OccursAt old text q → q = p) →
    (∃ raised, ended.1 = .error raised) ∧ ended.2.tree = tree)

section
variable {host : Host} {config : FilesystemConfig} {tree : FileTree} {value text : Text}
  {names : List Name} {place : Place}

theorem exec_edited (host : Host) (e : Editable config tree value names place text) {old new : Text}
    (once : (occurrences old text 0).length = 1)
    (size : (utf8 (replaceOnce text old new)).size ≤ config.maxWriteBytes) :
    ∃ content after, exec (editFile host config value old new) ⟨tree, []⟩ = (.ok content, after) ∧
      Written tree after.tree place (utf8 (replaceOnce text old new)) := by
  have edited : Triple (· = (⟨tree, []⟩ : Disk)) (editFile host config value old new) _ _ :=
    triple_edited e once size
  have ended := edited _ rfl
  generalize exec (editFile host config value old new) ⟨tree, []⟩ = outcome at ended ⊢
  rcases outcome with ⟨raised | content, after⟩
  · exact ended.elim
  · exact ⟨content, after, rfl, ended⟩

theorem exec_refused (host : Host) (e : Editable config tree value names place text)
    {old : Text} (new : Text)
    (other : (occurrences old text 0).length ≠ 1) : ∃ raised after,
      exec (editFile host config value old new) ⟨tree, []⟩ = (.error raised, after) ∧
        after.tree = tree := by
  have refused : Triple (· = (⟨tree, []⟩ : Disk)) (editFile host config value old new) _ _ :=
    triple_refused e other
  have ended := refused _ rfl
  generalize exec (editFile host config value old new) ⟨tree, []⟩ = outcome at ended ⊢
  rcases outcome with ⟨raised | content, after⟩
  · exact ⟨raised, after, rfl, ended⟩
  · exact ended.elim

theorem size_replaceOnce {old new : Text} (occurs : ∃ p, OccursAt old text p)
    (size : (utf8 text).size + (utf8 new).size ≤ config.maxWriteBytes + (utf8 old).size) :
    (utf8 (replaceOnce text old new)).size ≤ config.maxWriteBytes := by
  cases found : find old text 0 with
  | none => exact occurs.elim fun p h => absurd h (find_eq_none.mp found p (Nat.zero_le p))
  | some p =>
    obtain ⟨-, here, -⟩ := find_eq_some.mp found
    rw [replaceOnce, found]
    dsimp only
    have same : (utf8 (splice text new p old.length)).size + (utf8 old).size =
        (utf8 text).size + (utf8 new).size := size_splice here
    omega

/-- For a file in the workspace whose text is within the limits: edit_file does what it says just
when the old text does not stand at two positions, or stands at two that are apart. -/
theorem edits_unique_iff (e : Editable config tree value names place text) {old new : Text}
    (filled : old ≠ [])
    (size : (utf8 text).size + (utf8 new).size ≤ config.maxWriteBytes + (utf8 old).size) :
    EditsUnique host config tree value place text old new ↔
      (∀ p q, OccursAt old text p → OccursAt old text q → p = q) ∨
        ∃ p q, OccursAt old text p ∧ OccursAt old text q ∧ p + old.length ≤ q := by
  have positive := List.length_pos_of_ne_nil filled
  have counted : (occurrences old text 0).length = 1 ↔ _ := length_occurrences_eq_one filled
  constructor
  · rintro ⟨-, refused⟩
    by_cases one : ∀ p q, OccursAt old text p → OccursAt old text q → p = q
    · exact Or.inl one
    · refine Or.inr ?_
      by_contra apart
      push Not at one apart
      obtain ⟨p, q, atp, atq, different⟩ := one
      have once := counted.mpr ⟨⟨p, atp⟩, apart⟩
      obtain ⟨content, after, ran, -⟩ := exec_edited host e once
        (size_replaceOnce ⟨p, atp⟩ size)
      obtain ⟨⟨raised, failed⟩, -⟩ := refused (by
        rintro ⟨r, -, only⟩
        exact different ((only p atp).trans (only q atq).symm))
      rw [ran] at failed
      cases failed
  · intro condition
    constructor
    · intro p occurs only
      have once := counted.mpr ⟨⟨p, occurs⟩, fun p' q atp atq => by
        rw [only p' atp, only q atq]
        omega⟩
      obtain ⟨content, after, ran, written⟩ := exec_edited host e once
        (size_replaceOnce ⟨p, occurs⟩ size)
      rw [replaceOnce, find_of_unique occurs only] at written
      rw [ran]
      exact ⟨⟨content, rfl⟩, written⟩
    · intro none
      have other : (occurrences old text 0).length ≠ 1 := by
        intro once
        obtain ⟨⟨p, occurs⟩, close⟩ := counted.mp once
        obtain one | ⟨p', q, atp, atq, apart⟩ := condition
        · exact none ⟨p, occurs, fun q atq => one q p atq occurs⟩
        · exact absurd (close p' q atp atq) (Nat.not_lt.mpr apart)
      obtain ⟨raised, after, ran, same⟩ := exec_refused host e new other
      rw [ran]
      exact ⟨⟨raised, rfl⟩, same⟩

end

/-- A workspace with one file. -/
theorem bare_root : FileTree.bare.node [] = some .directory := rfl

theorem bare_free : FileTree.bare.node ([] ++ [['w']]) ≠ some .directory := nofun

def notes (text : Text) : FileTree :=
  (FileTree.bare.put [] ['w'] .directory bare_root bare_free).put [['w']] ['n'] (.file (utf8 text))
    rfl nofun

theorem editable_notes {text : Text} (small : (utf8 text).size ≤ linkedConfig.maxFileBytes) :
    Editable linkedConfig (notes text) ['n'] [['n']] [['w'], ['n']] text where
  root := rfl
  relative := by decide
  plain := rfl
  found := rfl
  file := rfl
  below := ⟨[['n']], rfl⟩
  small := small

theorem edits_unique_apart : EditsUnique plainHost linkedConfig (notes "abab".toList) ['n']
    [['w'], ['n']] "abab".toList "ab".toList "c".toList :=
  (edits_unique_iff (editable_notes (by decide +kernel)) (by decide) (by decide +kernel)).mpr
    (Or.inr ⟨0, 2, ⟨by decide, by decide⟩, ⟨by decide, by decide⟩, by decide⟩)

/-- In "aaa", the text "aa" stands at two positions, and is replaced. -/
theorem overlapping_edited :
    Editable linkedConfig (notes "aaa".toList) ['n'] [['n']] [['w'], ['n']] "aaa".toList ∧
      ¬EditsUnique plainHost linkedConfig (notes "aaa".toList) ['n'] [['w'], ['n']] "aaa".toList
        "aa".toList "b".toList := by
  have e : Editable linkedConfig (notes "aaa".toList) ['n'] [['n']] [['w'], ['n']] "aaa".toList :=
    editable_notes (by decide +kernel)
  refine ⟨e, fun edits => ?_⟩
  have edited : ∃ content after,
      exec (editFile plainHost linkedConfig ['n'] "aa".toList "b".toList)
        ⟨notes "aaa".toList, []⟩ = (.ok content, after) ∧ _ :=
    exec_edited plainHost e (by decide +kernel) (by decide +kernel)
  obtain ⟨content, after, ran, -⟩ := edited
  obtain ⟨⟨raised, failed⟩, -⟩ := edits.2 (by
    rintro ⟨p, -, only⟩
    have first : 0 = p := only 0 ⟨by decide, by decide⟩
    have second : 1 = p := only 1 ⟨by decide, by decide⟩
    omega)
  rw [ran] at failed
  cases failed

end RoboAgent.EditUniqueness
