import RoboAgent.EditUniqueness

/-! What search_files reports. It searches the folded form of each line and reports columns of the
line itself; the two agree where what stands before a hit folds character by character. There the
hits are, up to the first that finds no room, the leftmost occurrences that do not overlap, in the
order of paths, lines and columns. -/

namespace RoboAgent.SearchHits
open RoboAgent.FalliblePrograms RoboAgent.FileTrees RoboAgent.LineEnds RoboAgent.PatchGrammar
open RoboAgent.TextOccurrences RoboAgent.ToolEffects RoboAgent.FilesystemTools
open RoboAgent.FilesystemConfinement RoboAgent.EventLog RoboAgent.EditUniqueness

section Folding
variable (host : Host) (sensitive : Bool)

def foldChar (c : Char) : Text := if sensitive then [c] else host.casefold c

/-- The part of the line from a position to an end is the query, up to folding. -/
def StandsAt (query line : Text) (p stop : Nat) : Prop :=
  p ≤ stop ∧ stop ≤ line.length ∧
    fold host sensitive ((line.take stop).drop p) = fold host sensitive query

/-- Before each of the leftmost occurrences of the folded query in the folded line every character
of the line folds to one, and the occurrence ends where the folded form of a character does. -/
def Aligned (query line : Text) : Prop :=
  ∀ positions, Leftmost (fun p stop => OccursAt (fold host sensitive query)
      (fold host sensitive line) p ∧ stop = p + (fold host sensitive query).length) 0 positions →
    ∀ p ∈ positions, (∀ c ∈ line.take p, (foldChar host sensitive c).length = 1) ∧
      ∃ k ≤ line.length, (fold host sensitive (line.take k)).length =
        p + (fold host sensitive query).length

variable {host sensitive} {query line : Text}

theorem fold_eq_flatMap (text : Text) :
    fold host sensitive text = text.flatMap (foldChar host sensitive) := by
  rw [fold]
  cases sensitive with
  | true => exact (List.flatMap_singleton' text).symm
  | false => rfl

theorem foldChar_filled (c : Char) : foldChar host sensitive c ≠ [] := by
  rw [foldChar]
  split_ifs
  · exact List.cons_ne_nil _ _
  · exact host.filled c

theorem fold_append (first second : Text) : fold host sensitive (first ++ second) =
    fold host sensitive first ++ fold host sensitive second := by
  rw [fold_eq_flatMap, fold_eq_flatMap, fold_eq_flatMap, List.flatMap_append]

theorem fold_filled {text : Text} (filled : text ≠ []) : fold host sensitive text ≠ [] := by
  rw [fold_eq_flatMap, Ne, List.flatMap_eq_nil_iff]
  intro none
  obtain ⟨c, mem⟩ := List.exists_mem_of_ne_nil text filled
  exact foldChar_filled c (none c mem)

theorem length_fold {text : Text} (single : ∀ c ∈ text, (foldChar host sensitive c).length = 1) :
    (fold host sensitive text).length = text.length := by
  rw [fold_eq_flatMap]
  induction text with
  | nil => rfl
  | cons c text ih =>
    obtain ⟨first, rest⟩ := List.forall_mem_cons.mp single
    rw [List.flatMap_cons, List.length_append, first, ih rest, List.length_cons, Nat.add_comm]

/-- Where the folded form of the rest of a line starts. -/
def offset (host : Host) (sensitive : Bool) (line : Text) (p : Nat) : Nat :=
  (fold host sensitive (line.take p)).length

theorem drop_offset (p : Nat) :
    (fold host sensitive line).drop (offset host sensitive line p) =
      fold host sensitive (line.drop p) := by
  conv_lhs => rw [← List.take_append_drop p line, fold_append]
  rw [List.take_append_drop, offset, List.drop_left]

theorem offset_add {p stop : Nat} (order : p ≤ stop) :
    offset host sensitive line stop =
      offset host sensitive line p + (fold host sensitive ((line.take stop).drop p)).length := by
  have parts : line.take stop = line.take p ++ (line.take stop).drop p := by
    conv_lhs => rw [← List.take_append_drop p (line.take stop)]
    rw [List.take_take, Nat.min_eq_left order]
  rw [offset, offset, ← List.length_append, ← fold_append, ← parts]

theorem offset_lt {p q : Nat} (before : p < q) (inside : q ≤ line.length) :
    offset host sensitive line p < offset host sensitive line q := by
  have between : (line.take q).drop p ≠ [] := by
    rw [Ne, List.drop_eq_nil_iff, List.length_take, Nat.min_eq_left inside]
    omega
  have filled : fold host sensitive ((line.take q).drop p) ≠ [] := fold_filled between
  have positive := List.length_pos_of_ne_nil filled
  rw [offset_add before.le]
  omega

theorem offset_le {p q : Nat} (order : p ≤ q) (inside : q ≤ line.length) :
    offset host sensitive line p ≤ offset host sensitive line q := by
  obtain rfl | before := order.eq_or_lt
  · exact le_rfl
  · exact (offset_lt before inside).le

/-- The folded form of a part of the line. -/
theorem drop_offset_split {p stop : Nat} (order : p ≤ stop) (inside : stop ≤ line.length) :
    (fold host sensitive line).drop (offset host sensitive line p) =
      fold host sensitive ((line.take stop).drop p) ++ fold host sensitive (line.drop stop) := by
  rw [drop_offset, ← fold_append]
  conv_lhs => rw [← List.take_append_drop stop line]
  rw [List.drop_append_of_le_length]
  rwa [List.length_take, Nat.min_eq_left inside]

theorem offset_le_length (p : Nat) :
    offset host sensitive line p ≤ (fold host sensitive line).length := by
  conv_rhs => rw [← List.take_append_drop p line, fold_append, List.length_append]
  exact Nat.le_add_right _ _

/-- The query in the line is the folded query in the folded line. -/
theorem StandsAt.occursAt {p stop : Nat} (h : StandsAt host sensitive query line p stop) :
    OccursAt (fold host sensitive query) (fold host sensitive line)
      (offset host sensitive line p) := by
  obtain ⟨order, inside, same⟩ := h
  refine ⟨offset_le_length p, ?_⟩
  rw [drop_offset_split order inside, same]
  exact List.prefix_append _ _

theorem StandsAt.single {p stop stop' : Nat} (h : StandsAt host sensitive query line p stop)
    (h' : StandsAt host sensitive query line p stop') : stop = stop' := by
  have same : offset host sensitive line stop = offset host sensitive line stop' := by
    rw [offset_add h.1, offset_add h'.1, h.2.2, h'.2.2]
  obtain before | rfl | after := Nat.lt_trichotomy stop stop'
  · exact absurd same (offset_lt before h'.2.1).ne
  · rfl
  · exact absurd same (offset_lt after h.2.1).ne'

/-- An occurrence in the folded line that starts and ends with characters of the line. -/
theorem standsAt_of_occursAt {p k : Nat} (occurs : OccursAt (fold host sensitive query)
      (fold host sensitive line) p)
    (single : ∀ c ∈ line.take p, (foldChar host sensitive c).length = 1) (inside : k ≤ line.length)
    (ends : (fold host sensitive (line.take k)).length =
      p + (fold host sensitive query).length) :
    offset host sensitive line p = p ∧ p ≤ line.length ∧ StandsAt host sensitive query line p k := by
  have short : p ≤ line.length := by
    by_contra long
    have whole : line.take p = line := List.take_of_length_le (by omega)
    rw [whole] at single
    have same := length_fold single
    have bound := occurs.1
    omega
  have start : offset host sensitive line p = p := by
    rw [offset, length_fold single, List.length_take, Nat.min_eq_left short]
  refine ⟨start, short, ?_⟩
  have order : p ≤ k := by
    by_contra before
    have less : offset host sensitive line k < offset host sensitive line p :=
      offset_lt (by omega) short
    rw [start, offset, ends] at less
    omega
  refine ⟨order, inside, ?_⟩
  have split : (fold host sensitive line).drop (offset host sensitive line p) = _ :=
    drop_offset_split order inside
  have size : (fold host sensitive ((line.take k).drop p)).length =
      (fold host sensitive query).length := by
    have total : offset host sensitive line k = offset host sensitive line p + _ :=
      offset_add order
    rw [start, offset, ends] at total
    omega
  have found := occurs.2
  rw [start] at split
  rw [split] at found
  exact (List.prefix_of_prefix_length_le (List.prefix_append _ _) found size.le).eq_of_length size

/-- Where the folded line is aligned, its leftmost occurrences are those in the line. -/
theorem leftmost_standsAt {start : Nat} {positions : List Nat} (inside : start ≤ line.length)
    (h : Leftmost (fun p stop => OccursAt (fold host sensitive query)
      (fold host sensitive line) p ∧ stop = p + (fold host sensitive query).length)
      (offset host sensitive line start) positions)
    (aligned : ∀ p ∈ positions, (∀ c ∈ line.take p, (foldChar host sensitive c).length = 1) ∧
      ∃ k ≤ line.length, (fold host sensitive (line.take k)).length =
        p + (fold host sensitive query).length) :
    Leftmost (StandsAt host sensitive query line) start positions := by
  generalize from_ : offset host sensitive line start = s at h
  induction h generalizing start with
  | none out =>
    refine .none fun p stop later stands => ?_
    have after : offset host sensitive line start ≤ offset host sensitive line p :=
      offset_le later (stands.1.trans stands.2.1)
    exact out _ _ (from_ ▸ after) ⟨stands.occursAt, rfl⟩
  | @next s p stop rest later here first _ ih =>
    obtain ⟨occurs, rfl⟩ := here
    obtain ⟨⟨single, k, bound, ends⟩, others⟩ := List.forall_mem_cons.mp aligned
    obtain ⟨same, short, stands⟩ := standsAt_of_occursAt occurs single bound ends
    refine .next ?_ stands (fun q stop' from' before stands' => ?_) (ih bound others ends)
    · by_contra before
      have less : offset host sensitive line p < offset host sensitive line start :=
        offset_lt (by omega) inside
      omega
    · have after : offset host sensitive line start ≤ offset host sensitive line q :=
        offset_le from' (by omega)
      have less : offset host sensitive line q < offset host sensitive line p :=
        offset_lt before short
      exact first _ _ (by omega) (by omega) ⟨stands'.occursAt, rfl⟩

end Folding

section Gathering
variable (host : Host) (config : FilesystemConfig)

/-- The hits up to the first that finds no room. -/
def gather : List Hit → List Hit → List Hit × Bool
  | hits, [] => (hits, false)
  | hits, hit :: later =>
    if full host config.maxSearchResults config.maxSearchBytes (hits.map (Hit.item config))
        (hit.item config) then (hits, true)
    else gather (hits ++ [hit]) later

def lineHits (query : Text) (sensitive : Bool) (path : Place) (number : Nat) (line : Text) :
    List Hit :=
  (occurrences (fold host sensitive query) (fold host sensitive line) 0).map fun p =>
    ⟨path, number, p + 1, line⟩

def textHits (query : Text) (sensitive : Bool) (path : Place) (text : Text) : List Hit :=
  ((splitlines text).zipIdx 1).flatMap fun line =>
    lineHits host query sensitive path line.2 line.1

variable {host config}

theorem gather_append (hits first second : List Hit) : gather host config hits (first ++ second) =
    match gather host config hits first with
    | (hits, true) => (hits, true)
    | (hits, false) => gather host config hits second := by
  induction first generalizing hits with
  | nil => rfl
  | cons hit first ih =>
    rw [List.cons_append, gather, gather]
    split_ifs
    · rfl
    · exact ih _

/-- The gathered hits are the first ones; the next one, if there is one, finds no room. -/
theorem gather_spec {before later gathered : List Hit} {truncated : Bool}
    (h : gather host config before later = (gathered, truncated)) :
    gathered <+: before ++ later ∧ (truncated = false → gathered = before ++ later) ∧
      (truncated = true → ∃ next, gathered ++ [next] <+: before ++ later ∧
        full host config.maxSearchResults config.maxSearchBytes
          (gathered.map (Hit.item config)) (next.item config) = true) := by
  induction later generalizing before with
  | nil =>
    cases h
    exact ⟨List.prefix_append _ _, fun _ => (List.append_nil _).symm, nofun⟩
  | cons hit later ih =>
    rw [gather] at h
    split_ifs at h with none
    · cases h
      refine ⟨List.prefix_append _ _, nofun, fun _ => ⟨hit, ⟨later, ?_⟩, none⟩⟩
      rw [List.append_assoc, List.singleton_append]
    · rw [List.append_cons]
      exact ih h

theorem searchLine_eq (needle haystack : Text) (path : Place) (number : Nat) (line : Text)
    (hits : List Hit) (start : Nat) :
    searchLine host config needle haystack path number line hits start =
      gather host config hits ((occurrences needle haystack start).map fun p =>
        ⟨path, number, p + 1, line⟩) := by
  induction start using occurrences.induct needle haystack generalizing hits with
  | case1 start found =>
    rw [occurrences_none found, searchLine]
    split
    · rfl
    · rename_i other
      rw [found] at other
      cases other
  | case2 start p found ih =>
    rw [occurrences_some found, searchLine, List.map_cons, gather]
    split
    · rename_i other
      rw [found] at other
      cases other
    · rename_i column other
      rw [found] at other
      cases other
      dsimp only
      split_ifs
      · rfl
      · exact ih _

theorem searchLines_eq {query : Text} {sensitive : Bool} {path : Place} (lines : List Text)
    (number : Nat) (hits : List Hit) :
    searchLines host config (fold host sensitive query) sensitive path number lines hits =
      gather host config hits ((lines.zipIdx number).flatMap fun line =>
        lineHits host query sensitive path line.2 line.1) := by
  induction lines generalizing number hits with
  | nil => rfl
  | cons line lines ih =>
    rw [searchLines, List.zipIdx_cons, List.flatMap_cons, gather_append, lineHits, searchLine_eq]
    split
    · rename_i ended
      rw [ended]
    · rename_i more
      rw [more]
      exact ih _ _

end Gathering

section Walking
variable {config : FilesystemConfig} {tree : FileTree} {here place : Place} {name : Name}

/-- What os.walk gives from a directory down. -/
def walked (config : FilesystemConfig) (tree : FileTree) : Nat → Place → List Place
  | levels, here =>
    match tree.locate here with
    | .error _ => []
    | .ok place =>
      if tree.node place = some .directory then
        let directories := sortNames ((tree.names place).filter fun name =>
          isDir tree (here ++ [name]) && decide (0 < levels) && visible config name &&
            !isSymlink tree (here ++ [name]))
        let files := sortNames ((tree.names place).filter fun name => !isDir tree (here ++ [name]))
        let collected := ((directories ++ files).filter (visible config)).map (here ++ [·])
        match levels with
        | 0 => collected
        | levels + 1 =>
          collected ++ directories.flatMap fun name => walked config tree levels (here ++ [name])
      else []

theorem triple_scan : Triple (·.tree = tree) (scan here)
    (fun names after => after.tree = tree ∧ ∃ place, tree.locate here = .ok place ∧
      tree.node place = some .directory ∧ names = tree.names place)
    (fun _ after => after.tree = tree ∧ ∀ place, tree.locate here = .ok place →
      tree.node place ≠ some .directory) := by
  refine triple_get_bind ?_
  rintro disk rfl
  refine triple_bind (triple_consequence system_cases (fun _ h => h) (fun _ _ h => h) ?_)
    fun place => triple_pointwise ?_
  · rintro _ _ ⟨rfl, error, failed⟩
    refine ⟨rfl, fun place found => ?_⟩
    rw [failed] at found
    cases found
  · rintro after ⟨rfl, found⟩
    split_ifs with is
    · refine triple_modify_bind ?_
      rintro _ rfl
      exact triple_pure (by rintro _ rfl; exact ⟨rfl, place, found, is, rfl⟩)
    · refine triple_throw ?_
      rintro _ rfl
      refine ⟨rfl, fun other found' => ?_⟩
      rw [found] at found'
      cases found'
      exact is

theorem forall₂_eq_map {α β : Type} {f : α → β} {items : List α} {results : List β}
    (h : List.Forall₂ (fun a b => b = f a) items results) : results = items.map f := by
  induction h with
  | nil => rfl
  | cons first _ ih => rw [first, ih, List.map_cons]

theorem walked_none {levels : Nat}
    (none : ∀ place, tree.locate here = .ok place → tree.node place ≠ some .directory) :
    walked config tree levels here = [] := by
  rw [walked]
  split
  · rfl
  · rename_i place found
    rw [if_neg (none place found)]

/-- The paths in a directory itself, and the directories that are entered. -/
def children (config : FilesystemConfig) (tree : FileTree) (levels : Nat) (here place : Place) :
    List Place × List Name :=
  let directories := sortNames ((tree.names place).filter fun name =>
    isDir tree (here ++ [name]) && decide (0 < levels) && visible config name &&
      !isSymlink tree (here ++ [name]))
  let files := sortNames ((tree.names place).filter fun name => !isDir tree (here ++ [name]))
  (((directories ++ files).filter (visible config)).map (here ++ [·]), directories)

theorem walked_zero (found : tree.locate here = .ok place)
    (is : tree.node place = some .directory) :
    walked config tree 0 here = (children config tree 0 here place).1 := by
  rw [walked, found]
  dsimp only
  rw [if_pos is]
  rfl

theorem walked_succ {levels : Nat} (found : tree.locate here = .ok place)
    (is : tree.node place = some .directory) : walked config tree (levels + 1) here =
      (children config tree (levels + 1) here place).1 ++
        (children config tree (levels + 1) here place).2.flatMap fun name =>
          walked config tree levels (here ++ [name]) := by
  rw [walked, found]
  dsimp only
  rw [if_pos is]
  rfl

theorem triple_walkDirectory (levels : Nat) (here : Place) :
    Triple (·.tree = tree) (walkDirectory config levels here)
      (fun paths after => after.tree = tree ∧ paths = walked config tree levels here)
      (fun _ _ => False) := by
  induction levels generalizing here with
  | zero =>
    rw [walkDirectory]
    refine triple_get_bind ?_
    rintro disk rfl
    refine triple_bind (triple_consequence (triple_attempt (R := fun _ _ => False) triple_scan)
      (by rintro _ rfl; rfl) (fun _ _ h => h) fun _ _ h => h.elim) fun names => ?_
    cases names with
    | error raised =>
      exact triple_pure fun _ ended => ⟨ended.1, (walked_none ended.2).symm⟩
    | ok names =>
      refine triple_pure ?_
      rintro after ⟨same, place, found, is, rfl⟩
      exact ⟨same, (walked_zero found is).symm⟩
  | succ levels ih =>
    rw [walkDirectory]
    refine triple_get_bind ?_
    rintro disk rfl
    refine triple_bind (triple_consequence (triple_attempt (R := fun _ _ => False) triple_scan)
      (by rintro _ rfl; rfl) (fun _ _ h => h) fun _ _ h => h.elim) fun names => ?_
    cases names with
    | error raised =>
      exact triple_pure fun _ ended => ⟨ended.1, (walked_none ended.2).symm⟩
    | ok names =>
      refine triple_pointwise ?_
      rintro after ⟨same, place, found, is, rfl⟩
      refine triple_bind (triple_consequence (triple_mapM fun name _ => ih (here ++ [name]))
        (by rintro _ rfl; exact same) (fun _ _ h => h) fun _ _ h => h) fun deeper =>
        triple_pure ?_
      rintro last ⟨kept, each⟩
      refine ⟨kept, ?_⟩
      rw [walked_succ found is, forall₂_eq_map each]
      rfl

theorem isSymlink_child (found : tree.locate here = .ok place)
    (is : tree.node place = some .directory) :
    isSymlink tree (here ++ [name]) = FileTree.isLink (tree.node (place ++ [name])) := by
  rw [isSymlink, FileTree.lstat, FileTree.entry_concat found is]

theorem isFile_iff {path : Place} : isFile tree path = true ↔
    ∃ place content, tree.locate path = .ok place ∧ tree.node place = some (.file content) := by
  rw [isFile, FileTree.stat]
  cases found : tree.locate path with
  | error error => exact iff_of_false Bool.false_ne_true (by rintro ⟨_, _, ⟨⟩, _⟩)
  | ok place =>
    rw [ok_bind]
    cases is : tree.node place with
    | none =>
      refine iff_of_false Bool.false_ne_true ?_
      rintro ⟨_, _, ⟨⟩, file⟩
      rw [is] at file
      cases file
    | some node =>
      cases node with
      | file content => exact iff_of_true rfl ⟨place, content, rfl, is⟩
      | directory | special | link _ _ =>
        refine iff_of_false Bool.false_ne_true ?_
        rintro ⟨_, _, ⟨⟩, file⟩
        rw [is] at file
        cases file

/-- A regular file below a directory, at the path of its real names. -/
theorem file_below {names : List Name} {content : ByteArray} (found : tree.locate here = .ok place)
    (filled : names ≠ []) (file : tree.node (place ++ names) = some (.file content)) :
    tree.locate (here ++ names) = .ok (place ++ names) ∧
      isSymlink tree (here ++ names) = false := by
  obtain none | ⟨init, last, rfl⟩ := List.eq_nil_or_concat' names
  · exact absurd none filled
  · have real : tree.Real (place ++ (init ++ [last])) := .inr ⟨_, file, trivial⟩
    refine ⟨FileTree.locate_below found real, ?_⟩
    rw [← List.append_assoc] at file ⊢
    have directory := tree.parent (place ++ init) last (by rw [file]; nofun)
    rw [isSymlink_child (FileTree.locate_below found (.inl directory)) directory, file]
    rfl

theorem mem_children {levels : Nat} {path : Place} :
    path ∈ (children config tree levels here place).1 ↔ ∃ name, path = here ++ [name] ∧
      tree.node (place ++ [name]) ≠ none ∧ visible config name = true ∧
      (isDir tree (here ++ [name]) = true →
        0 < levels ∧ isSymlink tree (here ++ [name]) = false) := by
  rw [children, List.mem_map]
  constructor
  · rintro ⟨name, mem, rfl⟩
    rw [List.mem_filter, List.mem_append, sortNames, sortNames, List.mem_insertionSort,
      List.mem_insertionSort, List.mem_filter, List.mem_filter] at mem
    obtain ⟨⟨inside, kept⟩ | ⟨inside, kept⟩, seen⟩ := mem
    · rw [Bool.and_eq_true, Bool.and_eq_true, Bool.and_eq_true, decide_eq_true_eq,
        Bool.not_eq_true'] at kept
      exact ⟨name, rfl, (tree.listed _ _).mp inside, seen, fun _ => ⟨kept.1.1.2, kept.2⟩⟩
    · rw [Bool.not_eq_true'] at kept
      refine ⟨name, rfl, (tree.listed _ _).mp inside, seen, fun directory => ?_⟩
      rw [kept] at directory
      cases directory
  · rintro ⟨name, rfl, there, seen, directory⟩
    refine ⟨name, List.mem_filter.mpr ⟨List.mem_append.mpr ?_, seen⟩, rfl⟩
    have inside := (tree.listed _ _).mpr there
    rw [sortNames, sortNames, List.mem_insertionSort, List.mem_insertionSort, List.mem_filter,
      List.mem_filter]
    cases is : isDir tree (here ++ [name]) with
    | true =>
      obtain ⟨deep, plain⟩ := directory is
      refine Or.inl ⟨inside, ?_⟩
      rw [decide_eq_true deep, seen, plain]
      rfl
    | false => exact Or.inr ⟨inside, rfl⟩

theorem mem_entered {levels : Nat} : name ∈ (children config tree levels here place).2 ↔
    tree.node (place ++ [name]) ≠ none ∧ isDir tree (here ++ [name]) = true ∧ 0 < levels ∧
      visible config name = true ∧ isSymlink tree (here ++ [name]) = false := by
  rw [children, sortNames, List.mem_insertionSort, List.mem_filter, Bool.and_eq_true,
    Bool.and_eq_true, Bool.and_eq_true, decide_eq_true_eq, Bool.not_eq_true', tree.listed,
    and_assoc, and_assoc]

theorem file_mem_children {levels : Nat} {content : ByteArray} (found : tree.locate here = .ok place)
    (seen : visible config name = true) (file : tree.node (place ++ [name]) = some (.file content)) :
    here ++ [name] ∈ (children config tree levels here place).1 := by
  refine mem_children.mpr ⟨name, rfl, by rw [file]; nofun, seen, fun directory => ?_⟩
  obtain ⟨q, found', is⟩ := isDir_iff.mp directory
  rw [(file_below found (List.cons_ne_nil name []) file).1] at found'
  cases found'
  rw [file] at is
  cases is

/-- A visible regular file, no deeper than the levels, is walked. -/
theorem file_mem_walked {levels : Nat} {names : List Name} {content : ByteArray}
    (found : tree.locate here = .ok place) (filled : names ≠ [])
    (seen : ∀ name ∈ names, visible config name = true) (shallow : names.length ≤ levels + 1)
    (file : tree.node (place ++ names) = some (.file content)) :
    here ++ names ∈ walked config tree levels here := by
  induction names generalizing here place levels with
  | nil => exact absurd rfl filled
  | cons name rest ih =>
    obtain ⟨first, later⟩ := List.forall_mem_cons.mp seen
    have is : tree.node place = some .directory := FileTree.above (by rw [file]; nofun) filled
    by_cases last : rest = []
    · subst last
      cases levels with
      | zero =>
        rw [walked_zero found is]
        exact file_mem_children found first file
      | succ levels =>
        rw [walked_succ found is]
        exact List.mem_append_left _ (file_mem_children found first file)
    · cases levels with
      | zero =>
        have some := List.length_pos_of_ne_nil last
        rw [List.length_cons] at shallow
        omega
      | succ levels =>
        rw [List.append_cons] at file ⊢
        have directory : tree.node (place ++ [name]) = some .directory :=
          FileTree.above (by rw [file]; nofun) last
        have inner : tree.locate (here ++ [name]) = .ok (place ++ [name]) :=
          FileTree.locate_below found (.inl directory)
        rw [walked_succ found is]
        refine List.mem_append_right _ (List.mem_flatMap.mpr ⟨name, mem_entered.mpr ⟨?_, ?_,
          Nat.succ_pos _, first, ?_⟩, ih inner last later (Nat.le_of_succ_le_succ shallow) file⟩)
        · rw [directory]
          nofun
        · exact isDir_iff.mpr ⟨_, inner, directory⟩
        · rw [isSymlink_child found is, directory]
          rfl

/-- The names of a visible regular file below a directory. -/
def FileBelow (config : FilesystemConfig) (tree : FileTree) (levels : Nat) (here place path : Place)
    (content : ByteArray) : Prop :=
  ∃ names, path = here ++ names ∧ names ≠ [] ∧ (∀ name ∈ names, visible config name = true) ∧
    names.length ≤ levels + 1 ∧ tree.node (place ++ names) = some (.file content)

theorem fileBelow_child {levels : Nat} {path : Place} (found : tree.locate here = .ok place)
    (mem : path ∈ (children config tree levels here place).1)
    (plain : isSymlink tree path = false) (file : isFile tree path = true) :
    ∃ content, FileBelow config tree levels here place path content := by
  obtain ⟨name, rfl, -, seen, -⟩ := mem_children.mp mem
  obtain ⟨q, content, found', is'⟩ := isFile_iff.mp file
  obtain ⟨above, found'', -, rfl⟩ := located_child plain found'
  rw [found] at found''
  cases found''
  exact ⟨content, [name], rfl, List.cons_ne_nil _ _, List.forall_mem_singleton.mpr seen,
    Nat.succ_le_succ (Nat.zero_le _), is'⟩

/-- What is walked and is a regular file has such names. -/
theorem fileBelow_of_mem {levels : Nat} {path : Place} (found : tree.locate here = .ok place)
    (is : tree.node place = some .directory) (mem : path ∈ walked config tree levels here)
    (plain : isSymlink tree path = false) (file : isFile tree path = true) :
    ∃ content, FileBelow config tree levels here place path content := by
  induction levels generalizing here place with
  | zero =>
    rw [walked_zero found is] at mem
    exact fileBelow_child found mem plain file
  | succ levels ih =>
    rw [walked_succ found is, List.mem_append, List.mem_flatMap] at mem
    obtain child | ⟨name, entered, deeper⟩ := mem
    · exact fileBelow_child found child plain file
    · obtain ⟨-, directory, -, seen, plain'⟩ := mem_entered.mp entered
      obtain ⟨q, found', is'⟩ := isDir_iff.mp directory
      obtain ⟨above, found'', -, rfl⟩ := located_child plain' found'
      rw [found] at found''
      cases found''
      obtain ⟨content, names, rfl, -, seen', shallow, file'⟩ := ih found' is' deeper
      refine ⟨content, name :: names, List.append_assoc .., List.cons_ne_nil _ _,
        List.forall_mem_cons.mpr ⟨seen, seen'⟩, Nat.succ_le_succ shallow, ?_⟩
      rwa [List.append_cons]

theorem walked_cases (config : FilesystemConfig) (tree : FileTree) (here : Place) :
    (∃ place, tree.locate here = .ok place ∧ tree.node place = some .directory) ∨
      ∀ levels, walked config tree levels here = [] := by
  by_cases some : ∃ place, tree.locate here = .ok place ∧ tree.node place = .some .directory
  · exact Or.inl some
  · exact Or.inr fun levels => walked_none fun place found is => some ⟨place, found, is⟩

theorem below_of_mem {levels : Nat} {path : Place} (mem : path ∈ walked config tree levels here) :
    ∃ name names, path = here ++ name :: names := by
  induction levels generalizing here with
  | zero =>
    obtain ⟨place, found, is⟩ | none := walked_cases config tree here
    · rw [walked_zero found is] at mem
      obtain ⟨name, rfl, -⟩ := mem_children.mp mem
      exact ⟨name, [], rfl⟩
    · rw [none] at mem
      exact absurd mem List.not_mem_nil
  | succ levels ih =>
    obtain ⟨place, found, is⟩ | none := walked_cases config tree here
    · rw [walked_succ found is, List.mem_append, List.mem_flatMap] at mem
      obtain child | ⟨name, -, deeper⟩ := mem
      · obtain ⟨name, rfl, -⟩ := mem_children.mp child
        exact ⟨name, [], rfl⟩
      · obtain ⟨name', names, rfl⟩ := ih deeper
        exact ⟨name, name' :: names, List.append_assoc ..⟩
    · rw [none] at mem
      exact absurd mem List.not_mem_nil

theorem nodup_children (levels : Nat) (here place : Place) :
    (children config tree levels here place).1.Nodup ∧
      (children config tree levels here place).2.Nodup := by
  have sorted (p : Name → Bool) : (sortNames ((tree.names place).filter p)).Nodup :=
    (List.perm_insertionSort _ _).nodup_iff.mpr ((tree.distinct place).filter p)
  refine ⟨?_, sorted _⟩
  rw [children]
  refine List.Nodup.map (fun a b same => ?_) (List.Nodup.filter _ (List.Nodup.append (sorted _)
    (sorted _) fun name mem mem' => ?_))
  · exact (FileTree.concat_inj.mp same).2
  · rw [sortNames, List.mem_insertionSort, List.mem_filter] at mem mem'
    rw [Bool.and_eq_true, Bool.and_eq_true, Bool.and_eq_true] at mem
    rw [mem.2.1.1.1] at mem'
    cases mem'.2

/-- No path is walked twice. -/
theorem nodup_walked (levels : Nat) (here : Place) : (walked config tree levels here).Nodup := by
  induction levels generalizing here with
  | zero =>
    obtain ⟨place, found, is⟩ | none := walked_cases config tree here
    · rw [walked_zero found is]
      exact (nodup_children 0 here place).1
    · rw [none]
      exact List.nodup_nil
  | succ levels ih =>
    obtain ⟨place, found, is⟩ | none := walked_cases config tree here
    · obtain ⟨flat, names⟩ := @nodup_children config tree (levels + 1) here place
      rw [walked_succ found is]
      refine List.Nodup.append flat (List.nodup_flatMap.mpr ⟨fun name _ => ih _, ?_⟩) ?_
      · refine names.imp fun {a b} other path mem mem' => ?_
        obtain ⟨_, _, rfl⟩ := below_of_mem mem
        obtain ⟨_, _, same⟩ := below_of_mem mem'
        rw [List.append_assoc, List.append_assoc] at same
        exact other (List.cons.inj (List.append_cancel_left same)).1
      · intro path mem mem'
        obtain ⟨name, rfl, -⟩ := mem_children.mp mem
        obtain ⟨name', -, deeper⟩ := List.mem_flatMap.mp mem'
        obtain ⟨_, _, same⟩ := below_of_mem deeper
        rw [List.append_assoc] at same
        cases List.append_cancel_left same
    · rw [none]
      exact List.nodup_nil

end Walking

section Reporting
variable (host : Host) (config : FilesystemConfig) (tree : FileTree)

/-- The glob of a call, normalized. -/
def globPattern (glob : Option Text) : Except Raised (Option Text) :=
  glob.elim (.ok none) fun glob => (relativeGlob glob).map some

def wanted (pattern : Option Text) (base path : Place) : Bool :=
  pattern.elim true fun pattern => (globMatches (relativeTo path base) pattern).toOption.getD false

/-- The text of a file, where the file is small enough and is UTF-8. -/
def contentText (config : FilesystemConfig) (content : ByteArray) : Option Text :=
  if config.maxFileBytes < content.size then none
  else (decodeUtf8 content).map universalNewlines

def textOf (pattern : Option Text) (base path : Place) : Option Text :=
  if isFile tree path && !isSymlink tree path && wanted pattern base path then
    match tree.stat path with
    | .ok (.file content) => contentText config content
    | _ => none
  else none

/-- A file that is searched: a visible regular file below the base, small enough, that the glob
matches. -/
def Searched (pattern : Option Text) (base place path : Place) (text : Text) : Prop :=
  ∃ content, FileBelow config tree config.maxDepth base place path content ∧
    wanted pattern base path = true ∧ contentText config content = some text

variable {config tree}

theorem textOf_iff {pattern : Option Text} {base place path : Place} {text : Text}
    (found : tree.locate base = .ok place) (is : tree.node place = some .directory) :
    path ∈ walked config tree config.maxDepth base ∧
        textOf config tree pattern base path = some text ↔
      Searched config tree pattern base place path text := by
  rw [textOf]
  constructor
  · rintro ⟨mem, h⟩
    split_ifs at h with kept
    rw [Bool.and_eq_true, Bool.and_eq_true, Bool.not_eq_true'] at kept
    obtain ⟨content, below⟩ := fileBelow_of_mem found is mem kept.1.2 kept.1.1
    refine ⟨content, below, kept.2, ?_⟩
    obtain ⟨names, rfl, filled, -, -, file⟩ := below
    rw [FileTree.stat, (file_below found filled file).1, ok_bind, file] at h
    exact h
  · rintro ⟨content, ⟨names, rfl, filled, seen, shallow, file⟩, matched, h⟩
    obtain ⟨located, plain⟩ := file_below found filled file
    refine ⟨file_mem_walked found filled seen shallow file, ?_⟩
    rw [isFile_iff.mpr ⟨_, content, located, file⟩, plain, matched, Bool.not_false, Bool.and_self,
      Bool.and_self, if_pos rfl, FileTree.stat, located, ok_bind, file]
    exact h

theorem triple_readText {path : Place} : Triple (·.tree = tree) (readText config path)
    (fun text after => after.tree = tree ∧ text = match tree.stat path with
      | .ok (.file content) => contentText config content
      | _ => none) (fun _ _ => False) := by
  refine triple_get_bind ?_
  rintro disk rfl
  cases h : disk.tree.stat path with
  | error error => exact triple_pure (by rintro _ rfl; exact ⟨rfl, rfl⟩)
  | ok node =>
    cases node with
    | directory | special | link _ _ => exact triple_pure (by rintro _ rfl; exact ⟨rfl, rfl⟩)
    | file content =>
      dsimp only
      rw [contentText]
      split_ifs
      · exact triple_pure (by rintro _ rfl; exact ⟨rfl, rfl⟩)
      · rw [FileTree.stat] at h
        obtain ⟨place, found, h⟩ := bind_eq_ok h
        have file : disk.tree.node place = some (.file content) := by
          cases is : disk.tree.node place with
          | none =>
            rw [is] at h
            cases h
          | some node =>
            rw [is] at h
            exact congrArg some (Except.ok.inj h)
        refine triple_tryCatch (C := fun _ _ => False) (triple_bind (triple_consequence
          (triple_readBytes found file)
          (fun _ h => h) (fun _ _ h => h) fun _ _ h => h.elim) fun read => triple_pure ?_)
          fun _ _ h => h.elim
        rintro after ⟨same, rfl⟩
        exact ⟨same, rfl⟩

/-- The hits in a list of files. -/
def fileHits (config : FilesystemConfig) (tree : FileTree) (query : Text) (sensitive : Bool)
    (pattern : Option Text) (base : Place) (paths : List Place) : List Hit :=
  paths.flatMap fun path =>
    (textOf config tree pattern base path).elim [] (textHits host query sensitive path)

variable {host}

theorem triple_searchPaths {query : Text} {sensitive : Bool} {pattern : Option Text} {base : Place}
    (hits : List Hit) (paths : List Place) : Triple (·.tree = tree)
      (searchPaths host config (fold host sensitive query) sensitive pattern base hits paths)
      (fun r after => after.tree = tree ∧
        r = gather host config hits (fileHits host config tree query sensitive pattern base paths))
      (fun _ _ => pattern ≠ none) := by
  induction paths generalizing hits with
  | nil => exact triple_pure fun _ same => ⟨same, rfl⟩
  | cons path paths ih =>
    rw [searchPaths, fileHits, List.flatMap_cons, gather_append]
    refine triple_get_bind ?_
    rintro disk rfl
    have pass (gone : textOf config disk.tree pattern base path = none) :
        Triple (·.tree = disk.tree)
          (searchPaths host config (fold host sensitive query) sensitive pattern base hits paths)
          (fun r after => after.tree = disk.tree ∧
            r = match gather host config hits ((textOf config disk.tree pattern base path).elim []
                (textHits host query sensitive path)) with
              | (hits, true) => (hits, true)
              | (hits, false) => gather host config hits
                  (fileHits host config disk.tree query sensitive pattern base paths))
          (fun _ _ => pattern ≠ none) := by
      rw [gone]
      exact ih hits
    have start : ∀ s : Disk, s = disk → s.tree = disk.tree := by
      rintro _ rfl
      rfl
    refine triple_ite (fun other => ?_) fun regular => ?_
    · refine triple_consequence (pass ?_) start (fun _ _ h => h) fun _ _ h => h
      rw [textOf, if_neg]
      rw [Bool.or_eq_true, Bool.not_eq_true'] at other
      rw [Bool.and_eq_true, Bool.and_eq_true, Bool.not_eq_true']
      rintro ⟨⟨file, plain⟩, -⟩
      obtain none | link := other
      · rw [file] at none
        cases none
      · rw [link] at plain
        cases plain
    · rw [Bool.or_eq_false_iff, Bool.not_eq_false'] at regular
      refine triple_bind (M := fun b after => after.tree = disk.tree ∧ wanted pattern base path = b)
        (triple_raising ?_ ?_) fun matched => ?_
      · rintro b _ made rfl
        refine ⟨rfl, ?_⟩
        cases pattern with
        | none => exact Except.ok.inj made
        | some pattern =>
          rw [Option.elim_some] at made
          rw [wanted, Option.elim_some, made]
          rfl
      · rintro raised _ made _ rfl
        cases made
      · refine triple_pointwise ?_
        rintro after ⟨same, rfl⟩
        refine triple_ite (fun other => ?_) fun matched => ?_
        · refine triple_consequence (pass ?_) (by rintro _ rfl; exact same) (fun _ _ h => h)
            fun _ _ h => h
          rw [Bool.not_eq_true'] at other
          rw [textOf, other, Bool.and_false]
          rfl
        · rw [Bool.not_eq_false'] at matched
          refine triple_bind (triple_consequence triple_readText (by rintro _ rfl; exact same)
            (fun _ _ h => h) fun _ _ h => h.elim) fun text => triple_pointwise ?_
          rintro next ⟨same', read⟩
          have there : textOf config disk.tree pattern base path = text := by
            rw [textOf, regular.1, regular.2, matched, read]
            rfl
          cases text with
          | none =>
            exact triple_consequence (pass there) (by rintro _ rfl; exact same') (fun _ _ h => h)
              fun _ _ h => h
          | some text =>
            rw [there, Option.elim_some, textHits]
            dsimp only
            rw [searchLines_eq]
            generalize gather host config hits _ = found
            obtain ⟨hits', _ | _⟩ := found
            · exact triple_consequence (ih hits') (by rintro _ rfl; exact same') (fun _ _ h => h)
                fun _ _ h => h
            · exact triple_pure (by rintro _ rfl; exact ⟨same', rfl⟩)

/-- The hits of one file come before those of a later one, and within a file those of an earlier
line, or of an earlier column of the same line. -/
def Before (base : Place) (hit later : Hit) : Prop :=
  (hit.path ≠ later.path ∧ relativeTo hit.path base ≤ relativeTo later.path base) ∨
    (hit.path = later.path ∧
      (hit.line < later.line ∨ hit.line = later.line ∧ hit.column < later.column))

/-- One of the leftmost occurrences of the query, which do not overlap, in a searched file. -/
def IsHit (host : Host) (config : FilesystemConfig) (tree : FileTree) (query : Text)
    (sensitive : Bool) (pattern : Option Text) (base place : Place) (hit : Hit) : Prop :=
  ∃ text positions, Searched config tree pattern base place hit.path text ∧ 1 ≤ hit.line ∧
    (splitlines text)[hit.line - 1]? = some hit.text ∧
    Leftmost (StandsAt host sensitive query hit.text) 0 positions ∧
    ∃ p ∈ positions, hit.column = p + 1

theorem mem_lineHits {query : Text} {sensitive : Bool} {path : Place} {number : Nat} {line : Text}
    {hit : Hit} (filled : query ≠ []) (aligned : Aligned host sensitive query line) :
    hit ∈ lineHits host query sensitive path number line ↔ hit.path = path ∧ hit.line = number ∧
      hit.text = line ∧ ∃ positions, Leftmost (StandsAt host sensitive query line) 0 positions ∧
        ∃ p ∈ positions, hit.column = p + 1 := by
  have folded : Leftmost _ 0 (occurrences (fold host sensitive query) (fold host sensitive line) 0) :=
    leftmost_occurrences (fold_filled filled)
  have scanned : Leftmost (StandsAt host sensitive query line) 0
      (occurrences (fold host sensitive query) (fold host sensitive line) 0) := by
    refine leftmost_standsAt (Nat.zero_le _) ?_ (aligned _ folded)
    have start : offset host sensitive line 0 = 0 := by
      rw [offset, List.take_zero]
      cases sensitive <;> rfl
    rw [start]
    exact folded
  rw [lineHits, List.mem_map]
  constructor
  · rintro ⟨p, mem, rfl⟩
    exact ⟨rfl, rfl, rfl, _, scanned, p, mem, rfl⟩
  · obtain ⟨path', number', column, text⟩ := hit
    rintro ⟨rfl, rfl, rfl, positions, other, p, mem, rfl⟩
    rw [other.unique (fun _ _ _ h h' => h.single h') scanned] at mem
    exact ⟨p, mem, rfl⟩

theorem mem_textHits {query : Text} {sensitive : Bool} {path : Place} {text : Text} {hit : Hit}
    (filled : query ≠ []) (aligned : ∀ line ∈ splitlines text, Aligned host sensitive query line) :
    hit ∈ textHits host query sensitive path text ↔ hit.path = path ∧ 1 ≤ hit.line ∧
      (splitlines text)[hit.line - 1]? = some hit.text ∧ ∃ positions,
        Leftmost (StandsAt host sensitive query hit.text) 0 positions ∧
          ∃ p ∈ positions, hit.column = p + 1 := by
  rw [textHits, List.mem_flatMap]
  constructor
  · rintro ⟨⟨line, number⟩, mem, inside⟩
    obtain ⟨positive, at_⟩ := List.mk_mem_zipIdx_iff_le_and_getElem?_sub.mp mem
    obtain ⟨rfl, rfl, rfl, found⟩ :=
      (mem_lineHits filled (aligned line (List.mem_of_getElem? at_))).mp inside
    exact ⟨rfl, positive, at_, found⟩
  · rintro ⟨rfl, positive, at_, found⟩
    refine ⟨(hit.text, hit.line),
      List.mk_mem_zipIdx_iff_le_and_getElem?_sub.mpr ⟨positive, at_⟩, ?_⟩
    exact (mem_lineHits filled (aligned _ (List.mem_of_getElem? at_))).mpr ⟨rfl, rfl, rfl, found⟩

theorem pairwise_textHits {query : Text} {sensitive : Bool} {base path : Place} {text : Text}
    (filled : query ≠ []) : (textHits host query sensitive path text).Pairwise (Before base) := by
  have line (hit : Hit) (line : Text) (number : Nat)
      (mem : hit ∈ lineHits host query sensitive path number line) :
      hit.path = path ∧ hit.line = number := by
    obtain ⟨p, -, rfl⟩ := List.mem_map.mp mem
    exact ⟨rfl, rfl⟩
  rw [textHits, List.pairwise_flatMap]
  constructor
  · rintro ⟨line, number⟩ -
    have folded : Leftmost _ 0 (occurrences (fold host sensitive query) (fold host sensitive line) 0) :=
      leftmost_occurrences (fold_filled filled)
    have positive : 0 < (fold host sensitive query).length :=
      List.length_pos_of_ne_nil (fold_filled filled)
    have increasing := folded.increasing (by rintro p stop ⟨-, rfl⟩; omega)
    rw [lineHits, List.pairwise_map]
    exact increasing.imp fun less => Or.inr ⟨rfl, Or.inr ⟨rfl, Nat.succ_lt_succ less⟩⟩
  · have numbers : ((splitlines text).zipIdx 1).Pairwise fun a b => a.2 < b.2 := by
      have range := @List.pairwise_lt_range' 1 (splitlines text).length 1 Nat.one_pos
      rw [← List.zipIdx_map_snd, List.pairwise_map] at range
      exact range
    refine numbers.imp fun {a b} less hit mem later mem' => ?_
    obtain ⟨path_, line_⟩ := line hit a.1 a.2 mem
    obtain ⟨path', line'⟩ := line later b.1 b.2 mem'
    exact Or.inr ⟨path_.trans path'.symm, Or.inl (by rw [line_, line']; exact less)⟩

theorem pairwise_fileHits {query : Text} {sensitive : Bool} {pattern : Option Text} {base : Place}
    {paths : List Place} (filled : query ≠ []) (distinct : paths.Nodup)
    (sorted : paths.Pairwise fun p q => relativeTo p base ≤ relativeTo q base) :
    (fileHits host config tree query sensitive pattern base paths).Pairwise (Before base) := by
  rw [fileHits, List.pairwise_flatMap]
  constructor
  · intro path _
    cases textOf config tree pattern base path with
    | none => exact List.Pairwise.nil
    | some text => exact pairwise_textHits filled
  · have from_ (path : Place) (hit : Hit) (mem : hit ∈ (textOf config tree pattern base path).elim []
        (textHits host query sensitive path)) : hit.path = path := by
      cases h : textOf config tree pattern base path with
      | none =>
        rw [h] at mem
        exact absurd mem List.not_mem_nil
      | some text =>
        rw [h] at mem
        obtain ⟨line, -, inside⟩ := List.mem_flatMap.mp mem
        obtain ⟨p, -, rfl⟩ := List.mem_map.mp inside
        rfl
    refine (distinct.and sorted).imp fun {p q} both hit mem later mem' => ?_
    rw [← from_ p hit mem, ← from_ q later mem'] at both
    exact Or.inl both

theorem mem_fileHits {query : Text} {sensitive : Bool} {pattern : Option Text} {base place : Place}
    {hit : Hit} (found : tree.locate base = .ok place) (is : tree.node place = some .directory)
    (filled : query ≠ []) (aligned : ∀ path text line, Searched config tree pattern base place path text →
      line ∈ splitlines text → Aligned host sensitive query line) {paths : List Place}
    (perm : paths.Perm (walked config tree config.maxDepth base)) :
    hit ∈ fileHits host config tree query sensitive pattern base paths ↔
      IsHit host config tree query sensitive pattern base place hit := by
  rw [fileHits, List.mem_flatMap]
  constructor
  · rintro ⟨path, mem, inside⟩
    cases h : textOf config tree pattern base path with
    | none =>
      rw [h] at inside
      exact absurd inside List.not_mem_nil
    | some text =>
      rw [h] at inside
      have searched := (textOf_iff found is).mp ⟨perm.mem_iff.mp mem, h⟩
      obtain ⟨rfl, positive, at_, positions, scanned, column⟩ :=
        (mem_textHits filled fun line => aligned _ _ line searched).mp inside
      exact ⟨text, positions, searched, positive, at_, scanned, column⟩
  · rintro ⟨text, positions, searched, positive, at_, scanned, column⟩
    obtain ⟨mem, h⟩ := (textOf_iff found is).mpr searched
    refine ⟨hit.path, perm.mem_iff.mpr mem, ?_⟩
    rw [h]
    exact (mem_textHits filled fun line => aligned _ _ line searched).mpr
      ⟨rfl, positive, at_, positions, scanned, column⟩

theorem triple_walk {base : Place} : Triple (·.tree = tree) (walk config base)
    (fun paths after => after.tree = tree ∧ isDir tree base = true ∧
      paths = (walked config tree config.maxDepth base).insertionSort
        fun p q => relativeTo p base ≤ relativeTo q base)
    (fun _ _ => isDir tree base = false) := by
  refine triple_get_bind ?_
  rintro disk rfl
  refine triple_ite (fun none => triple_throw fun _ _ => Bool.not_eq_true' _ ▸ none) fun there => ?_
  rw [Bool.not_eq_false'] at there
  refine triple_bind (triple_consequence (triple_walkDirectory config.maxDepth base)
    (by rintro _ rfl; rfl) (fun _ _ h => h) fun _ _ h => h.elim) fun collected => triple_pure ?_
  rintro after ⟨same, rfl⟩
  exact ⟨same, there, rfl⟩

/-- The path of a call is a directory in the workspace and no link. -/
def Searchable (host : Host) (config : FilesystemConfig) (tree : FileTree) (value : Text) : Prop :=
  ∃ names, validateRelativePath value = .ok names ∧
    config.workspace.root <+: host.resolve tree (config.workspace.root ++ names) ∧
    isSymlink tree (config.workspace.root ++ names) = false ∧
    isDir tree (config.workspace.root ++ names) = true

theorem Searchable.of_valid {value : Text} {names : List Name}
    (valid : validateRelativePath value = .ok names) (h : Searchable host config tree value) :
    config.workspace.root <+: host.resolve tree (config.workspace.root ++ names) ∧
      isSymlink tree (config.workspace.root ++ names) = false ∧
      isDir tree (config.workspace.root ++ names) = true := by
  obtain ⟨other, valid', rest⟩ := h
  rw [valid] at valid'
  cases valid'
  exact rest

/-- What a call names, where links in front of a file are not followed. -/
theorem triple_named {value : Text} : Triple (·.tree = tree) (target host config value false false)
    (fun named after => after.tree = tree ∧ ∃ names, validateRelativePath value = .ok names ∧
      named.1 = config.workspace.root ++ names)
    (fun _ _ => ¬Searchable host config tree value) := by
  refine triple_bind (M := fun names after => after.tree = tree ∧ validateRelativePath value = .ok names)
    (triple_raising (fun _ _ made same => ⟨same, made⟩) ?_) fun names => triple_get_bind ?_
  · rintro raised _ failed _ ⟨names, valid, -⟩
    rw [failed] at valid
    cases valid
  rintro disk ⟨rfl, valid⟩
  dsimp only
  split_ifs with link outside _ impossible
  · cases link
  · refine triple_throw fun _ _ ok => ?_
    rw [Bool.not_eq_true', List.isPrefixOf_iff_prefix.mpr (ok.of_valid valid).1] at outside
    cases outside
  · exact triple_pure (by rintro _ rfl; exact ⟨rfl, names, valid, rfl⟩)
  · exact impossible.elim
  · exact triple_pure (by rintro _ rfl; exact ⟨rfl, names, valid, rfl⟩)

/-- What search_files is to report: of all hits in the searched files, in the order of paths, lines
and columns, the first ones, up to one that finds no room. -/
def ReportsHits (host : Host) (config : FilesystemConfig) (tree : FileTree) (query value : Text)
    (glob : Option Text) (sensitive : Bool) : Prop :=
  ∀ content after,
    exec (searchFiles host config query value glob sensitive) ⟨tree, []⟩ = (.ok content, after) →
      ∃ names place pattern, validateRelativePath value = .ok names ∧
        tree.locate (config.workspace.root ++ names) = .ok place ∧
        globPattern glob = .ok pattern ∧ ∃ all hits truncated,
          content = .json (result (hits.map (Hit.item config)) truncated) ∧
          all.Pairwise (Before (config.workspace.root ++ names)) ∧
          (∀ hit, hit ∈ all ↔ IsHit host config tree query sensitive pattern
            (config.workspace.root ++ names) place hit) ∧
          hits <+: all ∧ (truncated = false → hits = all) ∧
          (truncated = true → ∃ next, hits ++ [next] <+: all ∧
            full host config.maxSearchResults config.maxSearchBytes
              (hits.map (Hit.item config)) (next.item config) = true)

/-- All lines that are searched are aligned. -/
def AllAligned (host : Host) (config : FilesystemConfig) (tree : FileTree) (query value : Text)
    (glob : Option Text) (sensitive : Bool) : Prop :=
  ∀ names place pattern path text line, validateRelativePath value = .ok names →
    tree.locate (config.workspace.root ++ names) = .ok place → globPattern glob = .ok pattern →
    Searched config tree pattern (config.workspace.root ++ names) place path text →
    line ∈ splitlines text → Aligned host sensitive query line

theorem triple_searchFiles {query value : Text} {glob : Option Text} {sensitive : Bool} :
    Triple (·.tree = tree) (searchFiles host config query value glob sensitive)
      (fun content _ => ∃ names place pattern paths hits truncated,
        validateRelativePath value = .ok names ∧
        tree.locate (config.workspace.root ++ names) = .ok place ∧
        tree.node place = some .directory ∧ globPattern glob = .ok pattern ∧
        paths = (walked config tree config.maxDepth (config.workspace.root ++ names)).insertionSort
          (fun p q => relativeTo p (config.workspace.root ++ names) ≤
            relativeTo q (config.workspace.root ++ names)) ∧
        gather host config [] (fileHits host config tree query sensitive pattern
          (config.workspace.root ++ names) paths) = (hits, truncated) ∧
        content = .json (result (hits.map (Hit.item config)) truncated))
      (fun _ _ => glob = none → ¬Searchable host config tree value) := by
  refine triple_bind (triple_consequence triple_named (fun _ h => h) (fun _ _ h => h)
    fun _ _ h _ => h) fun named => triple_pointwise ?_
  obtain ⟨base, relative⟩ := named
  rintro disk ⟨same, names, valid, rfl⟩
  refine triple_get_bind ?_
  rintro _ rfl
  refine triple_ite (fun link => triple_throw fun _ _ _ ok => ?_) fun _ => ?_
  · rw [same, (ok.of_valid valid).2.1] at link
    cases link
  refine triple_bind (M := fun pattern after => after.tree = tree ∧ globPattern glob = .ok pattern)
    (triple_raising ?_ ?_) fun pattern => triple_pointwise ?_
  · rintro pattern _ made rfl
    exact ⟨same, made⟩
  · rintro raised _ made _ rfl
    cases made
  rintro next ⟨same', normal⟩
  refine triple_bind (triple_consequence triple_walk (by rintro _ rfl; exact same')
    (fun _ _ h => h) ?_) fun paths => triple_pointwise ?_
  · intro _ _ outside _ ok
    rw [(ok.of_valid valid).2.2] at outside
    cases outside
  rintro later ⟨same'', there, rfl⟩
  obtain ⟨place, found, is⟩ := isDir_iff.mp there
  refine triple_bind (triple_consequence (triple_searchPaths [] _)
    (by rintro _ rfl; exact same'') (fun _ _ h => h) ?_) fun outcome => triple_pure ?_
  · rintro _ _ failed rfl
    cases normal
    exact absurd rfl failed
  obtain ⟨hits, truncated⟩ := outcome
  rintro last ⟨-, gathered⟩
  exact ⟨names, place, pattern, _, hits, truncated, valid, found, is, normal, rfl, gathered.symm,
    rfl⟩

theorem aligned_sensitive (query line : Text) : Aligned host true query line := by
  intro positions scanned p mem
  obtain ⟨stop, ⟨short, stands⟩, -⟩ := scanned.occurs p mem
  have long := stands.length_le
  rw [List.length_drop] at long
  change p ≤ line.length at short
  change query.length ≤ line.length - p at long
  refine ⟨fun c _ => rfl, p + query.length, by omega, ?_⟩
  change (line.take (p + query.length)).length = p + query.length
  rw [List.length_take]
  omega

end Reporting

def shiftedHit : Hit := ⟨[['w'], ['n']], 1, 3, "ßx".toList⟩

theorem shiftedHit_fits : full plainHost linkedConfig.maxSearchResults linkedConfig.maxSearchBytes
    [] (shiftedHit.item linkedConfig) = false := by
  rw [full, fits, JsonIdentity.byteSize_sortKeys]
  decide +kernel

theorem item_inj {config : FilesystemConfig} {hit other : Hit}
    (same : hit.item config = other.item config) :
    hit.column = other.column ∧ hit.text = other.text := by
  obtain ⟨path, line, column, text⟩ := hit
  obtain ⟨path', line', column', text'⟩ := other
  unfold Hit.item at same
  injection same with entries
  injection entries with _ rest
  injection rest with _ rest
  injection rest with third rest
  injection rest with fourth _
  injection third with _ columns
  injection fourth with _ texts
  injection columns with columns
  injection texts with texts
  exact ⟨Int.ofNat_inj.mp columns, String.ofList_injective texts⟩

end RoboAgent.SearchHits
