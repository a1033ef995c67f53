import Mathlib

/-! A tree of files, directories and symbolic links. A place is the list of names from the top; a
path is looked up name by name, and links on the way are followed, up to a limit. What a lookup
finds is a real place: all names above it are directories. -/

namespace RoboAgent.FileTrees

abbrev Name := List Char
abbrev Place := List Name

/-- A part of the target of a link. -/
inductive Component
  | name (name : Name)
  | up
deriving DecidableEq

inductive Node
  | file (content : ByteArray)
  | directory
  | link (absolute : Bool) (target : List Component)
  /-- A pipe, a socket or a device. -/
  | special
deriving DecidableEq

structure FileTree where
  node : Place → Option Node
  names : Place → List Name
  top : node [] = some .directory
  parent : ∀ place name, node (place ++ [name]) ≠ none → node place = some .directory
  listed : ∀ place name, name ∈ names place ↔ node (place ++ [name]) ≠ none
  distinct : ∀ place, (names place).Nodup

inductive OsError
  | notFound
  | notDirectory
  | isDirectory
  | loop
  | exists
deriving DecidableEq

namespace FileTree

/-- Follow the rest of a path from a directory, up to the first link on it. -/
def followPath (t : FileTree) (links : Nat)
    (afterLink : Place → List Component → Except OsError (Place × Nat)) :
    Place → List Component → Except OsError (Place × Nat)
  | here, [] => .ok (here, links)
  | here, .up :: rest => t.followPath links afterLink here.dropLast rest
  | here, .name name :: rest =>
    match t.node (here ++ [name]) with
    | none => .error .notFound
    | some .directory => t.followPath links afterLink (here ++ [name]) rest
    | some (.link absolute target) => afterLink (if absolute then [] else here) (target ++ rest)
    | some (.file _) | some .special =>
      if rest = [] then .ok (here ++ [name], links) else .error .notDirectory

/-- Follow the rest of a path from a directory, with so many links left; the place that is found,
and the links that are left then. -/
def follow (t : FileTree) : Nat → Place → List Component → Except OsError (Place × Nat)
  | 0 => t.followPath 0 fun _ _ => .error .loop
  | links + 1 => t.followPath (links + 1) (t.follow links)

def maxLinks : Nat := 40

/-- The place an absolute path leads to. -/
def locate (t : FileTree) (path : Place) : Except OsError Place :=
  (t.follow maxLinks [] (path.map .name)).map Prod.fst

def stat (t : FileTree) (path : Place) : Except OsError Node := do
  let place ← t.locate path
  ((t.node place).elim (.error .notFound) .ok)

/-- The place of a path whose last name is not followed. -/
def entry (t : FileTree) (path : Place) : Except OsError (Place × Name) :=
  match path.getLast? with
  | none => .error .isDirectory
  | some name => do
    let place ← t.locate path.dropLast
    if t.node place = some .directory then .ok (place, name) else .error .notDirectory

/-- The node at a path, itself a link if it is one. -/
def lstat (t : FileTree) (path : Place) : Option Node :=
  match t.entry path with
  | .ok (place, name) => t.node (place ++ [name])
  | .error _ => if path = [] then t.node [] else none

def isLink : Option Node → Bool
  | some (.link ..) => true
  | _ => false

variable {t : FileTree}

example (here : Place) : t.follow 1 here [.up, .up] = .ok (here.dropLast.dropLast, 1) := by
  simp [follow, followPath]

theorem follow_nil (links : Nat) (here : Place) : t.follow links here [] = .ok (here, links) := by
  cases links <;> rfl

theorem follow_up (links : Nat) (here : Place) (rest : List Component) :
    t.follow links here (.up :: rest) = t.follow links here.dropLast rest := by
  cases links <;> rfl

section Name
variable {links : Nat} {here : Place} {name : Name} {rest : List Component}

theorem follow_missing (none : t.node (here ++ [name]) = none) :
    t.follow links here (.name name :: rest) = .error .notFound := by
  cases links <;> rw [follow, followPath, none]

theorem follow_directory (is : t.node (here ++ [name]) = some .directory) :
    t.follow links here (.name name :: rest) = t.follow links (here ++ [name]) rest := by
  cases links <;> rw [follow, followPath, is]

theorem follow_link {absolute : Bool} {target : List Component}
    (is : t.node (here ++ [name]) = some (.link absolute target)) :
    t.follow (links + 1) here (.name name :: rest) =
      t.follow links (if absolute then [] else here) (target ++ rest) := by
  rw [follow, followPath, is]

theorem follow_loop {absolute : Bool} {target : List Component}
    (is : t.node (here ++ [name]) = some (.link absolute target)) :
    t.follow 0 here (.name name :: rest) = .error .loop := by
  rw [follow, followPath, is]

/-- A node that a path cannot go through. -/
def Leaf : Node → Prop
  | .file _ | .special => True
  | .directory | .link .. => False

theorem follow_leaf {node : Node} (is : t.node (here ++ [name]) = some node) (leaf : Leaf node) :
    t.follow links here (.name name :: rest) =
      if rest = [] then .ok (here ++ [name], links) else .error .notDirectory := by
  cases node with
  | file _ => cases links <;> rw [follow, followPath, is]
  | special => cases links <;> rw [follow, followPath, is]
  | directory => cases leaf
  | link _ _ => cases leaf

end Name

/-- Induction on a lookup: on the links that are left and, between two links, on the path. -/
theorem follow_induct {motive : Nat → Place → List Component → Prop}
    (nil : ∀ links here, motive links here [])
    (up : ∀ links here rest, motive links here.dropLast rest → motive links here (.up :: rest))
    (missing : ∀ links here name rest, t.node (here ++ [name]) = none →
      motive links here (.name name :: rest))
    (directory : ∀ links here name rest, t.node (here ++ [name]) = some .directory →
      motive links (here ++ [name]) rest → motive links here (.name name :: rest))
    (loop : ∀ here name rest absolute target,
      t.node (here ++ [name]) = some (.link absolute target) → motive 0 here (.name name :: rest))
    (link : ∀ here name rest absolute target links,
      t.node (here ++ [name]) = some (.link absolute target) →
      motive links (if absolute then [] else here) (target ++ rest) →
      motive (links + 1) here (.name name :: rest))
    (leaf : ∀ links here name rest node, t.node (here ++ [name]) = some node → Leaf node →
      motive links here (.name name :: rest))
    (links : Nat) (here : Place) (rest : List Component) : motive links here rest := by
  induction links generalizing here rest with
  | zero =>
    induction rest generalizing here with
    | nil => exact nil 0 here
    | cons component rest ih =>
      cases component with
      | up => exact up 0 here rest (ih _)
      | name name =>
        cases is : t.node (here ++ [name]) with
        | none => exact missing 0 here name rest is
        | some node =>
          cases node with
          | file _ => exact leaf 0 here name rest _ is trivial
          | directory => exact directory 0 here name rest is (ih _)
          | link absolute target => exact loop here name rest absolute target is
          | special => exact leaf 0 here name rest _ is trivial
  | succ links deeper =>
    induction rest generalizing here with
    | nil => exact nil _ here
    | cons component rest ih =>
      cases component with
      | up => exact up _ here rest (ih _)
      | name name =>
        cases is : t.node (here ++ [name]) with
        | none => exact missing _ here name rest is
        | some node =>
          cases node with
          | file _ => exact leaf _ here name rest _ is trivial
          | directory => exact directory _ here name rest is (ih _)
          | link absolute target => exact link here name rest absolute target links is (deeper _ _)
          | special => exact leaf _ here name rest _ is trivial

theorem parent_dropLast {place : Place} (is : t.node place = some .directory) :
    t.node place.dropLast = some .directory := by
  obtain rfl | ⟨init, name, rfl⟩ := List.eq_nil_or_concat' place
  · exact is
  · rw [List.dropLast_concat]
    exact t.parent init name (by rw [is]; nofun)

/-- What stands above a node is a directory. -/
theorem above {place : Place} {names : List Name} (is : t.node (place ++ names) ≠ none)
    (below : names ≠ []) : t.node place = some .directory := by
  induction names using List.reverseRecOn with
  | nil => exact absurd rfl below
  | append_singleton names name ih =>
    rw [← List.append_assoc] at is
    have directory := t.parent _ _ is
    by_cases none : names = []
    · rwa [none, List.append_nil] at directory
    · exact ih (by rw [directory]; nofun) none

/-- A real node, which is no link. -/
def Real (t : FileTree) (place : Place) : Prop :=
  t.node place = some .directory ∨ ∃ node, t.node place = some node ∧ Leaf node

theorem node_cases (t : FileTree) (place : Place) :
    t.node place = none ∨ (∃ absolute target, t.node place = some (.link absolute target)) ∨
      t.Real place := by
  cases is : t.node place with
  | none => exact .inl rfl
  | some node =>
    cases node with
    | file content => exact .inr (.inr (.inr ⟨_, is, trivial⟩))
    | directory => exact .inr (.inr (.inl is))
    | link absolute target => exact .inr (.inl ⟨absolute, target, rfl⟩)
    | special => exact .inr (.inr (.inr ⟨_, is, trivial⟩))

/-- A lookup ends at a real node. -/
theorem real_of_follow {links left : Nat} {here place : Place} {rest : List Component}
    (start : t.node here = some .directory) (h : t.follow links here rest = .ok (place, left)) :
    t.Real place := by
  induction links, here, rest using @follow_induct t with
  | nil links here =>
    rw [follow_nil] at h
    cases h
    exact .inl start
  | up links here rest ih =>
    rw [follow_up] at h
    exact ih (parent_dropLast start) h
  | missing links here name rest none =>
    rw [follow_missing none] at h
    cases h
  | directory links here name rest is ih =>
    rw [follow_directory is] at h
    exact ih is h
  | loop here name rest absolute target is =>
    rw [follow_loop is] at h
    cases h
  | link here name rest absolute target links is ih =>
    rw [follow_link is] at h
    refine ih ?_ h
    split_ifs
    · exact t.top
    · exact start
  | leaf links here name rest node is leaf =>
    rw [follow_leaf is leaf] at h
    split_ifs at h
    cases h
    exact .inr ⟨_, is, leaf⟩

theorem follow_real {links : Nat} {here : Place} {names : List Name} (real : t.Real (here ++ names)) :
    t.follow links here (names.map .name) = .ok (here ++ names, links) := by
  induction names generalizing here with
  | nil => rw [List.append_nil, List.map_nil, follow_nil]
  | cons name names ih =>
    have split : here ++ name :: names = here ++ [name] ++ names := by
      rw [List.append_assoc, List.singleton_append]
    rw [split] at real ⊢
    rw [List.map_cons]
    by_cases last : names = []
    · rw [last, List.append_nil] at real ⊢
      obtain is | ⟨node, is, leaf⟩ := real
      · rw [follow_directory is, List.map_nil, follow_nil]
      · rw [follow_leaf is leaf, if_pos List.map_nil]
    · have is : t.node (here ++ [name]) = some .directory := by
        refine above ?_ last
        obtain is | ⟨node, is, -⟩ := real
        · rw [is]; nofun
        · rw [is]; nofun
      rw [follow_directory is]
      exact ih real

/-- A real place is its own location. -/
theorem locate_real {place : Place} (real : t.Real place) : t.locate place = .ok place := by
  have followed : t.follow maxLinks [] (place.map .name) = .ok (place, maxLinks) :=
    @follow_real t maxLinks [] place real
  rw [locate, followed]
  rfl

theorem real_of_locate {path place : Place} (h : t.locate path = .ok place) : t.Real place := by
  rw [locate] at h
  cases followed : t.follow maxLinks [] (path.map .name) with
  | error e =>
    rw [followed] at h
    cases h
  | ok result =>
    rw [followed] at h
    cases h
    exact real_of_follow t.top followed

theorem locate_locate {path place : Place} (h : t.locate path = .ok place) :
    t.locate place = .ok place := locate_real (real_of_locate h)

/-- A lookup in two parts: the first must end at a directory, unless it is all of it. -/
theorem follow_append {links : Nat} {here : Place} {first second : List Component}
    (start : t.node here = some .directory) (more : second ≠ []) :
    t.follow links here (first ++ second) =
      match t.follow links here first with
      | .error error => .error error
      | .ok (place, left) =>
        if t.node place = some .directory then t.follow left place second
        else .error .notDirectory := by
  induction links, here, first using @follow_induct t with
  | nil links here =>
    rw [follow_nil, List.nil_append]
    dsimp only
    rw [if_pos start]
  | up links here rest ih =>
    rw [follow_up, List.cons_append, follow_up]
    exact ih (parent_dropLast start)
  | missing links here name rest none =>
    rw [follow_missing none, List.cons_append, follow_missing none]
  | directory links here name rest is ih =>
    rw [follow_directory is, List.cons_append, follow_directory is]
    exact ih is
  | loop here name rest absolute target is =>
    rw [follow_loop is, List.cons_append, follow_loop is]
  | link here name rest absolute target links is ih =>
    rw [follow_link is, List.cons_append, follow_link is, ← List.append_assoc]
    refine ih ?_
    split_ifs
    · exact t.top
    · exact start
  | leaf links here name rest node is leaf =>
    have both : rest ++ second ≠ [] := fun none => more (List.append_eq_nil_iff.mp none).2
    rw [follow_leaf is leaf, List.cons_append, follow_leaf is leaf, if_neg both]
    split_ifs with last
    · have end_ : t.node (here ++ [name]) ≠ some .directory := by
        rw [is]
        rintro ⟨⟩
        exact leaf
      dsimp only
      rw [if_neg end_]
    · rfl

section Append
variable {path place : Place}

theorem locate_eq_ok {path place : Place} (h : t.locate path = .ok place) :
    ∃ left, t.follow maxLinks [] (path.map .name) = .ok (place, left) := by
  rw [locate] at h
  cases followed : t.follow maxLinks [] (path.map .name) with
  | error e =>
    rw [followed] at h
    cases h
  | ok result =>
    rw [followed] at h
    cases h
    exact ⟨result.2, rfl⟩

theorem locate_append {more : List Name} (some : more ≠ []) :
    ∃ left, t.locate (path ++ more) =
      match t.locate path with
      | .error error => .error error
      | .ok place =>
        if t.node place = .some .directory then
          (t.follow left place (more.map .name)).map Prod.fst
        else .error .notDirectory := by
  have nonempty : more.map Component.name ≠ [] := fun none => some (List.map_eq_nil_iff.mp none)
  rw [locate, List.map_append, follow_append t.top nonempty, locate]
  cases t.follow maxLinks [] (path.map .name) with
  | error e => exact ⟨0, rfl⟩
  | ok result =>
    obtain ⟨place, left⟩ := result
    refine ⟨left, ?_⟩
    dsimp only [Except.map]
    split_ifs <;> rfl

/-- Below a directory, a name that is missing is not found. -/
theorem locate_missing {name : Name} {rest : List Name} (found : t.locate path = .ok place)
    (is : t.node place = some .directory) (none : t.node (place ++ [name]) = none) :
    t.locate (path ++ name :: rest) = .error .notFound := by
  obtain ⟨left, same⟩ := @locate_append t path _ (List.cons_ne_nil name rest)
  rw [same, found]
  dsimp only
  rw [if_pos is, List.map_cons, follow_missing none]
  rfl

/-- Below a directory, real names are found where they are. -/
theorem locate_below {names : List Name} (found : t.locate path = .ok place)
    (real : t.Real (place ++ names)) : t.locate (path ++ names) = .ok (place ++ names) := by
  by_cases none : names = []
  · rw [none, List.append_nil, List.append_nil]
    exact found
  have is : t.node place = some .directory := by
    refine above ?_ none
    obtain is | ⟨node, is, -⟩ := real
    · rw [is]; nofun
    · rw [is]; nofun
  obtain ⟨left, same⟩ := @locate_append t path _ none
  rw [same, found]
  dsimp only
  rw [if_pos is, follow_real real]
  rfl

theorem entry_concat {name : Name} (found : t.locate path = .ok place)
    (is : t.node place = some .directory) : t.entry (path ++ [name]) = .ok (place, name) := by
  rw [entry, List.getLast?_concat]
  dsimp only
  rw [List.dropLast_concat, found]
  exact if_pos is

/-- A path that is found goes through directories. -/
theorem locate_prefix {more : List Name} (found : t.locate (path ++ more) = .ok place)
    (some : more ≠ []) : ∃ above, t.locate path = .ok above ∧ t.node above = .some .directory := by
  obtain ⟨left, same⟩ := @locate_append t path _ some
  rw [found] at same
  cases first : t.locate path with
  | error e =>
    rw [first] at same
    cases same
  | ok above =>
    rw [first] at same
    dsimp only at same
    split_ifs at same with is
    exact ⟨above, rfl, is⟩

end Append

/-- Everything in the one tree is in the other. -/
def Extends (t t' : FileTree) : Prop := ∀ place node, t.node place = some node → t'.node place = some node

theorem Extends.refl (t : FileTree) : t.Extends t := fun _ _ is => is

theorem Extends.trans {t t' t'' : FileTree} (first : t.Extends t') (second : t'.Extends t'') :
    t.Extends t'' := fun place node is => second place node (first place node is)

/-- What a lookup finds, it finds in every larger tree. -/
theorem follow_extends {t' : FileTree} (larger : t.Extends t') {links : Nat} {here : Place}
    {rest : List Component} {result : Place × Nat} (h : t.follow links here rest = .ok result) :
    t'.follow links here rest = .ok result := by
  induction links, here, rest using @follow_induct t with
  | nil links here => rwa [follow_nil] at h ⊢
  | up links here rest ih =>
    rw [follow_up] at h ⊢
    exact ih h
  | missing links here name rest none =>
    rw [follow_missing none] at h
    cases h
  | directory links here name rest is ih =>
    rw [follow_directory is] at h
    rw [follow_directory (larger _ _ is)]
    exact ih h
  | loop here name rest absolute target is =>
    rw [follow_loop is] at h
    cases h
  | link here name rest absolute target links is ih =>
    rw [follow_link is] at h
    rw [follow_link (larger _ _ is)]
    exact ih h
  | leaf links here name rest node is leaf =>
    rwa [follow_leaf (larger _ _ is) leaf, ← follow_leaf is leaf]

theorem locate_extends {t' : FileTree} (larger : t.Extends t') {path place : Place}
    (h : t.locate path = .ok place) : t'.locate path = .ok place := by
  obtain ⟨left, followed⟩ := locate_eq_ok h
  rw [locate, follow_extends larger followed]
  rfl

theorem concat_inj {place other : Place} {name name' : Name} :
    place ++ [name] = other ++ [name'] ↔ place = other ∧ name = name' := by
  constructor
  · intro same
    obtain ⟨places, names⟩ := List.append_inj' same rfl
    exact ⟨places, (List.cons.inj names).1⟩
  · rintro ⟨rfl, rfl⟩
    rfl

theorem ne_concat (place : Place) (name : Name) : place ≠ place ++ [name] := by
  intro same
  have length := congrArg List.length same
  rw [List.length_append, List.length_singleton] at length
  omega

/-- The tree with a node under a name of a directory, which is new or replaces one that is no
directory. -/
def put (t : FileTree) (place : Place) (name : Name) (node : Node)
    (inside : t.node place = some .directory)
    (free : t.node (place ++ [name]) ≠ some .directory) : FileTree where
  node p := if p = place ++ [name] then some node else t.node p
  names p := if p = place ∧ name ∉ t.names place then t.names place ++ [name] else t.names p
  top := by
    rw [if_neg (Ne.symm (List.concat_ne_nil name place))]
    exact t.top
  parent p m some := by
    by_cases here : p ++ [m] = place ++ [name]
    · obtain ⟨rfl, -⟩ := concat_inj.mp here
      rw [if_neg (ne_concat p name)]
      exact inside
    · rw [if_neg here] at some
      have directory := t.parent p m some
      rw [if_neg fun same : p = place ++ [name] => free (by rw [← same]; exact directory)]
      exact directory
  listed p m := by
    by_cases here : p ++ [m] = place ++ [name]
    · obtain ⟨rfl, rfl⟩ := concat_inj.mp here
      rw [if_pos rfl]
      refine iff_of_true ?_ nofun
      split_ifs with fresh
      · exact List.mem_append_right _ (List.mem_singleton_self m)
      · exact not_not.mp fun out => fresh ⟨rfl, out⟩
    · rw [if_neg here, ← t.listed p m]
      split_ifs with fresh
      · obtain ⟨rfl, -⟩ := fresh
        have other : m ≠ name := fun same => here (same ▸ rfl)
        rw [List.mem_append, List.mem_singleton, or_iff_left other]
      · rfl
  distinct p := by
    split_ifs with fresh
    · rw [← List.concat_eq_append]
      exact List.Nodup.concat fresh.2 (t.distinct place)
    · exact t.distinct p

/-- The tree without a node that is no directory. -/
def erase (t : FileTree) (place : Place) (name : Name)
    (free : t.node (place ++ [name]) ≠ some .directory) : FileTree where
  node p := if p = place ++ [name] then none else t.node p
  names p := if p = place then (t.names place).filter (· ≠ name) else t.names p
  top := by
    rw [if_neg (Ne.symm (List.concat_ne_nil name place))]
    exact t.top
  parent p m some := by
    by_cases here : p ++ [m] = place ++ [name]
    · rw [if_pos here] at some
      exact absurd rfl some
    · rw [if_neg here] at some
      have directory := t.parent p m some
      rw [if_neg fun same : p = place ++ [name] => free (by rw [← same]; exact directory)]
      exact directory
  listed p m := by
    by_cases here : p ++ [m] = place ++ [name]
    · obtain ⟨rfl, rfl⟩ := concat_inj.mp here
      rw [if_pos rfl, if_pos rfl, List.mem_filter]
      exact iff_of_false (fun out => of_decide_eq_true out.2 rfl) fun some => some rfl
    · rw [if_neg here, ← t.listed p m]
      split_ifs with same
      · subst same
        have other : m ≠ name := fun same => here (same ▸ rfl)
        rw [List.mem_filter]
        exact and_iff_left (decide_eq_true other)
      · rfl
  distinct p := by
    split_ifs
    · exact (t.distinct place).filter _
    · exact t.distinct p

section Put
variable {place : Place} {name : Name} {node : Node} {inside : t.node place = some .directory}
  {free : t.node (place ++ [name]) ≠ some .directory}

theorem node_put (p : Place) : (t.put place name node inside free).node p =
    if p = place ++ [name] then some node else t.node p := rfl

theorem node_erase (p : Place) : (t.erase place name free).node p =
    if p = place ++ [name] then none else t.node p := rfl

theorem extends_put (fresh : t.node (place ++ [name]) = none) :
    t.Extends (t.put place name node inside free) := by
  intro p x is
  have other : p ≠ place ++ [name] := by
    rintro rfl
    rw [fresh] at is
    cases is
  rw [node_put, if_neg other]
  exact is

/-- The tree with a node that is no directory under another place and name. -/
def move (t : FileTree) (place : Place) (name : Name) (place' : Place) (name' : Name) :
    Except OsError FileTree :=
  match t.node (place ++ [name]) with
  | none => .error .notFound
  | some node =>
    if free : t.node (place ++ [name]) = some .directory then .error .isDirectory
    else if inside : t.node place' ≠ some .directory then .error .notDirectory
    else if there : t.node (place' ++ [name']) = some .directory then .error .isDirectory
    else
      .ok ((t.erase place name free).put place' name' node
        (by
          rw [node_erase, if_neg]
          · exact not_not.mp inside
          · rintro rfl
            exact inside free)
        (by
          rw [node_erase]
          split_ifs
          · nofun
          · exact there))

theorem node_move {t' : FileTree} {place' : Place} {name' : Name}
    (moved : t.move place name place' name' = .ok t') (p : Place) : t'.node p =
      if p = place' ++ [name'] then t.node (place ++ [name])
      else if p = place ++ [name] then none else t.node p := by
  unfold move at moved
  split at moved
  · cases moved
  · rename_i node is
    split_ifs at moved
    cases moved
    rw [node_put, node_erase, is]

theorem exists_move {place' : Place} {name' : Name} {content : ByteArray}
    (file : t.node (place ++ [name]) = some (.file content))
    (inside : t.node place' = some .directory)
    (free : t.node (place' ++ [name']) ≠ some .directory) :
    ∃ t', t.move place name place' name' = .ok t' := by
  unfold move
  split
  · rename_i none
    rw [file] at none
    cases none
  · split_ifs with directory outside
    · rw [file] at directory
      cases directory
    · exact absurd inside outside
    · exact ⟨_, rfl⟩

/-- Moving what is no directory keeps the directories. -/
theorem directory_move {t' : FileTree} {place' : Place} {name' : Name} {p : Place}
    (moved : t.move place name place' name' = .ok t') (is : t.node p = some .directory) :
    t'.node p = some .directory := by
  have node := node_move moved p
  unfold move at moved
  split at moved
  · cases moved
  · split_ifs at moved with free inside there
    have source : p ≠ place ++ [name] := fun same => free (by rw [← same]; exact is)
    have target : p ≠ place' ++ [name'] := fun same => there (by rw [← same]; exact is)
    rw [node, if_neg target, if_neg source]
    exact is

theorem directory_put {p : Place} (is : t.node p = some .directory) :
    (t.put place name node inside free).node p = some .directory := by
  have target : p ≠ place ++ [name] := fun same => free (by rw [← same]; exact is)
  rw [node_put, if_neg target]
  exact is

theorem directory_erase {p : Place} (is : t.node p = some .directory) :
    (t.erase place name free).node p = some .directory := by
  have target : p ≠ place ++ [name] := fun same => free (by rw [← same]; exact is)
  rw [node_erase, if_neg target]
  exact is

end Put

/-- The tree that has nothing but its top. -/
def bare : FileTree where
  node place := if place = [] then some .directory else none
  names _ := []
  top := if_pos rfl
  parent place name some := absurd (if_neg (List.concat_ne_nil name place)) some
  listed place name :=
    iff_of_false List.not_mem_nil fun some => some (if_neg (List.concat_ne_nil name place))
  distinct _ := List.nodup_nil

end FileTree

/-- What a resolver of paths does, of which neither the path nor what it resolves to has to be there:
it gives the location of what is there, appends what is missing below a directory as it is, and
gives a canonical path. -/
structure Resolves (resolve : FileTree → Place → Place) : Prop where
  existing : ∀ t path place, t.locate path = .ok place → resolve t path = place
  missing : ∀ t path place name rest, t.locate path = .ok place →
    t.node place = some .directory → t.node (place ++ [name]) = none →
      resolve t (path ++ name :: rest) = place ++ name :: rest
  canonical : ∀ t path place, t.locate (resolve t path) = .ok place → place = resolve t path

open FileTree in
/-- Resolve the rest of a path whose first part is found; a name that is there but leads nowhere
resolves to the top. -/
def resolveFrom (t : FileTree) (path : Place) : List Name → Place
  | [] => (t.locate path).toOption.getD []
  | name :: rest =>
    match t.locate (path ++ [name]) with
    | .ok _ => resolveFrom t (path ++ [name]) rest
    | .error _ =>
      match t.locate path with
      | .ok place =>
        if t.node place = some .directory ∧ t.node (place ++ [name]) = none then
          place ++ name :: rest
        else []
      | .error _ => []

section ResolveFrom
open FileTree
variable {t : FileTree} {start : Place}

theorem locate_top : t.locate [] = .ok [] := locate_real (.inl t.top)

theorem locate_start {name : Name} {rest : List Name} {place : Place}
    (found : t.locate (start ++ name :: rest) = .ok place) :
    ∃ next, t.locate (start ++ [name]) = .ok next := by
  by_cases last : rest = []
  · subst last
    exact ⟨place, found⟩
  · rw [List.append_cons] at found
    obtain ⟨next, h, -⟩ := locate_prefix found last
    exact ⟨next, h⟩

theorem resolveFrom_found {rest : List Name} {place : Place}
    (found : t.locate (start ++ rest) = .ok place) : resolveFrom t start rest = place := by
  induction rest generalizing start with
  | nil =>
    rw [List.append_nil] at found
    rw [resolveFrom, found]
    rfl
  | cons name rest ih =>
    obtain ⟨next, first⟩ := locate_start found
    rw [resolveFrom, first]
    exact ih (by rwa [← List.append_cons])

theorem resolveFrom_missing {path rest : List Name} {place : Place} {name : Name}
    (found : t.locate (start ++ path) = .ok place) (is : t.node place = some .directory)
    (none : t.node (place ++ [name]) = none) :
    resolveFrom t start (path ++ name :: rest) = place ++ name :: rest := by
  induction path generalizing start with
  | nil =>
    rw [List.append_nil] at found
    rw [List.nil_append, resolveFrom, locate_missing found is none, found]
    exact if_pos ⟨is, none⟩
  | cons first path ih =>
    obtain ⟨next, there⟩ := locate_start found
    rw [List.cons_append, resolveFrom, there]
    exact ih (by rwa [← List.append_cons])

theorem resolveFrom_canonical {rest : List Name} {place : Place}
    (found : t.locate (resolveFrom t start rest) = .ok place) :
    place = resolveFrom t start rest := by
  induction rest generalizing start with
  | nil =>
    rw [resolveFrom] at found ⊢
    cases first : t.locate start with
    | error e =>
      rw [first] at found
      exact Except.ok.inj (found.symm.trans locate_top)
    | ok next =>
      rw [first] at found
      exact Except.ok.inj (found.symm.trans (locate_locate first))
  | cons name rest ih =>
    rw [resolveFrom] at found ⊢
    cases first : t.locate (start ++ [name]) with
    | ok next =>
      rw [first] at found
      exact ih found
    | error e =>
      rw [first] at found
      dsimp only at found ⊢
      cases above : t.locate start with
      | error e =>
        rw [above] at found
        exact Except.ok.inj (found.symm.trans locate_top)
      | ok next =>
        rw [above] at found
        dsimp only at found ⊢
        split_ifs at found ⊢ with condition
        · rw [locate_missing (locate_locate above) condition.1 condition.2] at found
          cases found
        · exact Except.ok.inj (found.symm.trans locate_top)

theorem resolves_resolveFrom : Resolves fun t path => resolveFrom t [] path where
  existing _ _ _ found := resolveFrom_found found
  missing _ _ _ _ _ found is none := @resolveFrom_missing _ [] _ _ _ _ found is none
  canonical _ _ _ found := resolveFrom_canonical found

end ResolveFrom

end RoboAgent.FileTrees
