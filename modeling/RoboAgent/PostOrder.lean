import Mathlib
import RoboAgent.DepthFirst

/-! An iterative depth-first search that leaves each node after its parents, and changes a state when
it leaves one. It does not look for cycles: it runs on fuel, and where there is no cycle the weight
of the graph is enough of it. -/

namespace RoboAgent.PostOrder
open RoboAgent.KeyedLists RoboAgent.DepthFirst

variable {Node S : Type} [DecidableEq Node]

/-- None without fuel, or at a node that is not in the graph. -/
def search (graph : Graph Node) (leave : Node → S → S) :
    Nat → List (Node × Bool) → List Node → S → Option (List Node × S)
  | _, [], done, state => some (done, state)
  | 0, _ :: _, _, _ => none
  | fuel + 1, (node, leaving) :: stack, done, state =>
    if node ∈ done then search graph leave fuel stack done state
    else
      match graph.lookup node with
      | none => none
      | some parents =>
        if leaving then search graph leave fuel stack (node :: done) (leave node state)
        else search graph leave fuel
          ((parents.map (·, false)).reverse ++ (node, true) :: stack) done state

/-- Search from every root in turn. -/
def searchAll (graph : Graph Node) (leave : Node → S → S) (roots : List Node) (start : S) :
    Option (List Node × S) :=
  roots.foldlM (fun found root =>
    search graph leave (weight graph [] [] + 1) [(root, false)] found.1 found.2) ([], start)

/-- The nodes left, each after its parents, and the state they lead to. -/
inductive Passed (graph : Graph Node) (leave : Node → S → S) (start : S) : List Node → S → Prop
  | start : Passed graph leave start [] start
  | left {node : Node} {parents done : List Node} {state : S}
    (found : graph.lookup node = some parents) (before : ∀ parent ∈ parents, parent ∈ done)
    (tail : Passed graph leave start done state) :
    Passed graph leave start (node :: done) (leave node state)

/-- Every parent in the graph is a node of the graph. -/
def Complete (graph : Graph Node) : Prop :=
  ∀ node parents, graph.lookup node = some parents →
    ∀ parent ∈ parents, (graph.lookup parent).isSome = true

/-- The nodes to leave on a stack. -/
def leaving (stack : List (Node × Bool)) : List Node := (stack.filter (·.2)).map Prod.fst

theorem mem_leaving {node : Node} {stack : List (Node × Bool)} :
    node ∈ leaving stack ↔ (node, true) ∈ stack := by
  simp [leaving]

/-- What is above a node to leave leads up to it. -/
def Nested (graph : Graph Node) (stack : List (Node × Bool)) : Prop :=
  stack.Pairwise fun above below =>
    below.2 = true → Relation.TransGen (Refers graph) above.1 below.1

variable {graph : Graph Node} {leave : Node → S → S} {start : S}

theorem not_transGen_self (acyclic : ∀ node, Acc (Refers graph) node) (node : Node) :
    ¬Relation.TransGen (Refers graph) node node := fun cycle =>
  (WellFounded.transGen ⟨acyclic⟩).asymmetric node node cycle cycle

theorem Nested.enter {node : Node} {parents : List Node} {stack : List (Node × Bool)}
    (found : graph.lookup node = some parents) (nested : Nested graph ((node, false) :: stack)) :
    Nested graph ((parents.map (·, false)).reverse ++ (node, true) :: stack) := by
  obtain ⟨above, rest⟩ := List.pairwise_cons.mp nested
  have pushed : ∀ entry ∈ (parents.map (·, false)).reverse, entry.2 = false ∧
      Refers graph entry.1 node := by
    intro entry mem
    obtain ⟨parent, listed, rfl⟩ := List.mem_map.mp (List.mem_reverse.mp mem)
    exact ⟨rfl, parents, found, listed⟩
  refine List.pairwise_append.mpr ⟨?_, List.pairwise_cons.mpr ⟨above, rest⟩, ?_⟩
  · refine List.pairwise_of_forall_mem_list fun first _ second mem left => ?_
    cases (pushed second mem).1.symm.trans left
  · intro entry mem below inside left
    have refers := (pushed entry mem).2
    obtain rfl | later := List.mem_cons.mp inside
    · exact .single refers
    · exact .head refers (above below later left)

theorem weight_pop {node : Node} {isLeaving : Bool} {stack : List (Node × Bool)}
    {done finished : List Node} (isDone : node ∈ finished) (grown : done ⊆ finished) :
    weight graph (leaving stack) finished ≤
      weight graph (leaving ((node, isLeaving) :: stack)) done := by
  refine weight_le graph fun other seen => ?_
  obtain active | before := seen
  · obtain same | later := List.mem_cons.mp (mem_leaving.mp active)
    · cases same
      exact .inr isDone
    · exact .inl (mem_leaving.mpr later)
  · exact .inr (grown before)

theorem weight_push {node : Node} {parents : List Node} {stack : List (Node × Bool)}
    {done : List Node} (found : graph.lookup node = some parents)
    (waiting : node ∉ leaving stack) (unfinished : node ∉ done) :
    weight graph (leaving ((parents.map (·, false)).reverse ++ (node, true) :: stack)) done +
      (parents.length + 1) ≤ weight graph (leaving ((node, false) :: stack)) done := by
  refine Nat.le_trans (Nat.add_le_add_right (weight_le graph fun other seen => ?_) _)
    (weight_enter found waiting unfinished)
  refine seen.imp_left fun active => mem_leaving.mpr (List.mem_append_right _ ?_)
  obtain rfl | later := List.mem_cons.mp active
  · exact List.mem_cons_self
  · exact List.mem_cons_of_mem _ (mem_leaving.mp later)

/-- The search ends, and everything on its stack is left or was before. -/
theorem search_passed (acyclic : ∀ node, Acc (Refers graph) node) (complete : Complete graph)
    {fuel : Nat} {stack : List (Node × Bool)} {done : List Node} {state : S}
    (enough : weight graph (leaving stack) done + stack.length ≤ fuel)
    (stored : ∀ entry ∈ stack, (graph.lookup entry.1).isSome = true)
    (owed : Owed graph done stack) (nested : Nested graph stack)
    (passed : Passed graph leave start done state) :
    ∃ finished last, search graph leave fuel stack done state = some (finished, last) ∧
      Passed graph leave start finished last ∧ done ⊆ finished ∧
      ∀ entry ∈ stack, entry.1 ∈ finished := by
  induction fuel generalizing stack done state with
  | zero =>
    obtain rfl := List.eq_nil_of_length_eq_zero (by omega : stack.length = 0)
    exact ⟨done, state, rfl, passed, List.Subset.refl _, nofun⟩
  | succ fuel ih =>
    match stack with
    | [] => exact ⟨done, state, rfl, passed, List.Subset.refl _, nofun⟩
    | (node, isLeaving) :: stack =>
      rw [List.length_cons] at enough
      obtain ⟨here, stored'⟩ := List.forall_mem_cons.mp stored
      obtain ⟨above, nested'⟩ := List.pairwise_cons.mp nested
      rw [search]
      by_cases isDone : node ∈ done
      · have enough' : weight graph (leaving stack) done + stack.length ≤ fuel := by
          have := @weight_pop _ _ graph node isLeaving stack _ _ isDone (List.Subset.refl done)
          omega
        rw [if_pos isDone]
        obtain ⟨finished, last, found, passed, grown, each⟩ :=
          ih enough' stored' (owed.pop isDone (List.Subset.refl _)) nested' passed
        exact ⟨finished, last, found, passed, grown, List.forall_mem_cons.mpr
          ⟨grown isDone, each⟩⟩
      · rw [if_neg isDone]
        obtain ⟨parents, found⟩ : ∃ parents, graph.lookup node = some parents :=
          Option.isSome_iff_exists.mp here
        rw [found]
        dsimp only
        cases isLeaving with
        | true =>
          have before : ∀ parent ∈ parents, parent ∈ done := by
            obtain ⟨others, found', each⟩ := owed [] node stack rfl
            cases found.symm.trans found'
            exact fun parent mem => (each parent mem).resolve_right fun ⟨_, pushed⟩ =>
              nomatch pushed
          have grown := List.subset_cons_self node done
          have enough' : weight graph (leaving stack) (node :: done) + stack.length ≤ fuel := by
            have := @weight_pop _ _ graph node true stack _ _ List.mem_cons_self grown
            omega
          rw [if_pos rfl]
          obtain ⟨finished, last, searched, passed, larger, each⟩ := ih enough' stored'
            (owed.pop List.mem_cons_self grown) nested' (passed.left found before)
          exact ⟨finished, last, searched, passed, List.Subset.trans grown larger,
            List.forall_mem_cons.mpr ⟨larger List.mem_cons_self, each⟩⟩
        | false =>
          have waiting : node ∉ leaving stack := fun active =>
            not_transGen_self acyclic node (above (node, true) (mem_leaving.mp active) rfl)
          have enough' : weight graph (leaving ((parents.map (·, false)).reverse ++
              (node, true) :: stack)) done +
              ((parents.map (·, false)).reverse ++ (node, true) :: stack).length ≤ fuel := by
            have := weight_push found waiting isDone
            simp only [List.length_append, List.length_reverse, List.length_map, List.length_cons]
            omega
          have pushed : ∀ entry ∈ (parents.map (·, false)).reverse ++ (node, true) :: stack,
              (graph.lookup entry.1).isSome = true := by
            simp only [List.forall_mem_append, List.mem_reverse, List.forall_mem_map,
              List.forall_mem_cons]
            exact ⟨complete node parents found, here, stored'⟩
          rw [if_neg Bool.false_ne_true]
          obtain ⟨finished, last, searched, passed, larger, each⟩ :=
            ih enough' pushed (owed.enter found) (nested.enter found) passed
          refine ⟨finished, last, searched, passed, larger, List.forall_mem_cons.mpr ⟨?_, ?_⟩⟩
          · exact each (node, true) (List.mem_append_right _ List.mem_cons_self)
          · exact fun entry mem =>
              each entry (List.mem_append_right _ (List.mem_cons_of_mem _ mem))

theorem searchAll_passed (acyclic : ∀ node, Acc (Refers graph) node) (complete : Complete graph)
    {roots : List Node} (stored : ∀ root ∈ roots, (graph.lookup root).isSome = true) :
    ∃ finished last, searchAll graph leave roots start = some (finished, last) ∧
      Passed graph leave start finished last ∧ ∀ root ∈ roots, root ∈ finished := by
  have go {roots done : List Node} {state : S} (passed : Passed graph leave start done state)
      (stored : ∀ root ∈ roots, (graph.lookup root).isSome = true) :
      ∃ finished last, roots.foldlM (fun found root =>
          search graph leave (weight graph [] [] + 1) [(root, false)] found.1 found.2)
          (done, state) = some (finished, last) ∧
        Passed graph leave start finished last ∧ done ⊆ finished ∧
        ∀ root ∈ roots, root ∈ finished := by
    induction roots generalizing done state with
    | nil => exact ⟨done, state, rfl, passed, List.Subset.refl _, nofun⟩
    | cons root roots ih =>
      obtain ⟨here, stored⟩ := List.forall_mem_cons.mp stored
      have light : weight graph [] done ≤ weight graph [] [] :=
        weight_le graph fun _ seen => (seen.elim nofun nofun)
      have owed : Owed graph done [(root, false)] := Owed.root root
      obtain ⟨next, middle, searched, passed, grown, rootDone⟩ :=
        search_passed acyclic complete (Nat.add_le_add_right light 1)
          (List.forall_mem_singleton.mpr here) owed (List.pairwise_singleton _ _) passed
      obtain ⟨finished, last, found, passed, larger, each⟩ := ih passed stored
      refine ⟨finished, last, ?_, passed, List.Subset.trans grown larger, ?_⟩
      · rw [List.foldlM_cons, searched]
        exact found
      · exact List.forall_mem_cons.mpr ⟨larger (rootDone _ List.mem_cons_self), each⟩
  obtain ⟨finished, last, found, passed, -, each⟩ := go .start stored
  exact ⟨finished, last, found, passed, each⟩

end RoboAgent.PostOrder
