import Mathlib
import RoboAgent.KeyedLists

/-! An iterative depth-first search for cycles. The graph lists the parents of each node. The stack
holds nodes to enter and nodes to leave; a node that is entered again before it is left lies on a
cycle, and the search fails. What a search that succeeds has left is well founded. -/

namespace RoboAgent.DepthFirst
open RoboAgent.KeyedLists

variable {Node : Type} [DecidableEq Node]

abbrev Graph (Node : Type) := List (Node × List Node)

/-- What the nodes that were not entered yet may still push. -/
def weight (graph : Graph Node) (active done : List Node) : Nat :=
  (graph.map fun entry =>
    if entry.1 ∈ active ∨ entry.1 ∈ done then 0 else entry.2.length + 1).sum

/-- Nodes that were seen push nothing more. -/
theorem weight_le (graph : Graph Node) {active done active' done' : List Node}
    (seen : ∀ node, node ∈ active ∨ node ∈ done → node ∈ active' ∨ node ∈ done') :
    weight graph active' done' ≤ weight graph active done := by
  induction graph with
  | nil => exact Nat.le_refl _
  | cons entry graph ih =>
    rw [weight, weight, List.map_cons, List.map_cons, List.sum_cons, List.sum_cons]
    refine Nat.add_le_add ?_ ih
    by_cases before : entry.1 ∈ active ∨ entry.1 ∈ done
    · rw [if_pos (seen _ before)]
      exact Nat.zero_le _
    · rw [if_neg before]
      split_ifs
      · exact Nat.zero_le _
      · exact Nat.le_refl _

theorem weight_leave (graph : Graph Node) (node : Node) (active done : List Node) :
    weight graph (active.erase node) (node :: done) ≤ weight graph active done := by
  refine weight_le graph fun other seen => ?_
  by_cases here : other = node
  · exact .inr (here ▸ List.mem_cons_self)
  · exact seen.imp (List.mem_erase_of_ne here).mpr (List.mem_cons_of_mem _)

theorem weight_mono (graph : Graph Node) (node : Node) (active done : List Node) :
    weight graph (node :: active) done ≤ weight graph active done :=
  weight_le graph fun _ seen => seen.imp_left (List.mem_cons_of_mem _)

theorem weight_enter {graph : Graph Node} {node : Node} {parents active done : List Node}
    (found : graph.lookup node = some parents) (waiting : node ∉ active) (unfinished : node ∉ done) :
    weight graph (node :: active) done + (parents.length + 1) ≤ weight graph active done := by
  induction graph with
  | nil => cases found
  | cons entry graph ih =>
    obtain ⟨first, firstParents⟩ := entry
    rw [weight, weight, List.map_cons, List.map_cons, List.sum_cons, List.sum_cons]
    by_cases here : node = first
    · subst here
      rw [List.lookup_cons_self, Option.some.injEq] at found
      subst found
      have unseen : ¬(node ∈ active ∨ node ∈ done) := not_or.mpr ⟨waiting, unfinished⟩
      rw [if_pos (.inl List.mem_cons_self), if_neg unseen, Nat.zero_add, Nat.add_comm]
      exact Nat.add_le_add_left (weight_mono graph node active done) _
    · rw [List.lookup_cons, beq_eq_false_iff_ne.mpr here] at found
      have others : first ∈ node :: active ∨ first ∈ done ↔ first ∈ active ∨ first ∈ done := by
        rw [List.mem_cons, or_iff_right (Ne.symm here)]
      simp only [others, Nat.add_assoc]
      exact Nat.add_le_add_left (ih found) _

/-- The search; `true` on the stack marks a node to leave. -/
def visit (graph : Graph Node) : List (Node × Bool) → List Node → List Node → Option (List Node)
  | [], _, done => some done
  | (node, true) :: stack, active, done => visit graph stack (active.erase node) (node :: done)
  | (node, false) :: stack, active, done =>
    if node ∈ done then visit graph stack active done
    else if node ∈ active then none
    else
      match _found : graph.lookup node with
      | none => none
      | some parents =>
        visit graph ((parents.map (·, false)).reverse ++ (node, true) :: stack) (node :: active) done
termination_by stack active done => weight graph active done + stack.length
decreasing_by
  · have := weight_leave graph node active done
    simp only [List.length_cons]
    omega
  · simp only [List.length_cons]
    omega
  · rename_i unfinished waiting
    have := weight_enter _found waiting unfinished
    simp only [List.length_append, List.length_reverse, List.length_map, List.length_cons]
    omega

/-- Search from every root in turn, not going into the nodes already known. -/
def visitAll (graph : Graph Node) (known roots : List Node) : Option (List Node) :=
  roots.foldlM (fun done root => visit graph [(root, false)] [] done) known

/-- The nodes left since `known`, each after its parents. -/
inductive Settled (graph : Graph Node) (known : List Node) : List Node → Prop
  | known : Settled graph known known
  | left {node : Node} {parents done : List Node} (found : graph.lookup node = some parents)
    (before : ∀ parent ∈ parents, parent ∈ done) (tail : Settled graph known done) :
    Settled graph known (node :: done)

/-- The parents of a node to leave are done, or on the stack above it. -/
def Owed (graph : Graph Node) (done : List Node) (stack : List (Node × Bool)) : Prop :=
  ∀ above node below, stack = above ++ (node, true) :: below →
    ∃ parents, graph.lookup node = some parents ∧
      ∀ parent ∈ parents, parent ∈ done ∨ ∃ leaving, (parent, leaving) ∈ above

variable {graph : Graph Node} {known done finished : List Node} {stack : List (Node × Bool)}

theorem Settled.known_subset (h : Settled graph known done) : known ⊆ done := by
  induction h with
  | known => exact List.Subset.refl _
  | left found before tail ih => exact List.Subset.trans ih (List.subset_cons_self _ _)

theorem Owed.root (node : Node) : Owed graph done [(node, false)] := by
  intro above other below split
  cases above with
  | nil => cases split
  | cons first above => cases above <;> cases split

/-- Taking an entry off the stack that is done, or was to be skipped. -/
theorem Owed.pop {node : Node} {leaving : Bool} (owed : Owed graph done ((node, leaving) :: stack))
    (isDone : node ∈ finished) (grown : done ⊆ finished) : Owed graph finished stack := by
  intro above other below split
  obtain ⟨parents, found, each⟩ := owed ((node, leaving) :: above) other below (by rw [split]; rfl)
  refine ⟨parents, found, fun parent mem => ?_⟩
  obtain old | ⟨waiting, pushed⟩ := each parent mem
  · exact .inl (grown old)
  · obtain same | later := List.mem_cons.mp pushed
    · cases same
      exact .inl isDone
    · exact .inr ⟨waiting, later⟩

theorem Owed.enter {node : Node} {parents : List Node} (found : graph.lookup node = some parents)
    (owed : Owed graph done ((node, false) :: stack)) :
    Owed graph done ((parents.map (·, false)).reverse ++ (node, true) :: stack) := by
  have own : ∀ parent ∈ parents, (parent, false) ∈ (parents.map (·, false)).reverse :=
    fun parent mem => List.mem_reverse.mpr (List.mem_map_of_mem mem)
  intro above other below split
  obtain ⟨between, rfl, rest⟩ | ⟨pushed, same, rest⟩ := List.append_eq_append_iff.mp split
  · cases between with
    | nil =>
      cases rest
      exact ⟨parents, found, fun parent mem => .inr ⟨false, List.mem_append_left _ (own _ mem)⟩⟩
    | cons first between =>
      obtain ⟨rfl, tail⟩ := List.cons.inj rest
      obtain ⟨others, found', each⟩ := owed ((node, false) :: between) other below (by rw [tail]; rfl)
      refine ⟨others, found', fun parent mem => (each parent mem).imp_right ?_⟩
      rintro ⟨leaving, mem⟩
      obtain here | later := List.mem_cons.mp mem
      · cases here
        exact ⟨true, List.mem_append_right _ List.mem_cons_self⟩
      · exact ⟨leaving, List.mem_append_right _ (List.mem_cons_of_mem _ later)⟩
  · cases pushed with
    | nil =>
      cases rest
      rw [List.append_nil] at same
      exact ⟨parents, found, fun parent mem => .inr ⟨false, same ▸ own parent mem⟩⟩
    | cons first pushed =>
      obtain ⟨rfl, -⟩ := List.cons.inj rest
      have mem : (other, true) ∈ (parents.map (·, false)).reverse :=
        same ▸ List.mem_append_right _ List.mem_cons_self
      obtain ⟨_, _, absurd⟩ := List.mem_map.mp (List.mem_reverse.mp mem)
      cases absurd

theorem visit_settled {active : List Node} (h : visit graph stack active done = some finished)
    (settled : Settled graph known done) (owed : Owed graph done stack) :
    Settled graph known finished ∧ done ⊆ finished ∧
      ∀ node leaving, (node, leaving) ∈ stack → node ∈ finished := by
  induction stack, active, done using visit.induct graph with
  | case1 active done =>
    rw [visit] at h
    cases h
    exact ⟨settled, List.Subset.refl _, nofun⟩
  | case2 node stack active done ih =>
    rw [visit] at h
    obtain ⟨parents, found, before⟩ := owed [] node stack rfl
    have next := Settled.left found (fun parent mem =>
      (before parent mem).resolve_right fun ⟨_, pushed⟩ => nomatch pushed) settled
    obtain ⟨kept, grown, each⟩ := ih h next
      (owed.pop List.mem_cons_self (List.subset_cons_self _ _))
    refine ⟨kept, List.Subset.trans (List.subset_cons_self _ _) grown, fun other leaving mem => ?_⟩
    obtain same | later := List.mem_cons.mp mem
    · cases same
      exact grown List.mem_cons_self
    · exact each other leaving later
  | case3 node stack active done isDone ih =>
    rw [visit, if_pos isDone] at h
    obtain ⟨kept, grown, each⟩ := ih h settled (owed.pop isDone (List.Subset.refl _))
    refine ⟨kept, grown, fun other leaving mem => ?_⟩
    obtain same | later := List.mem_cons.mp mem
    · cases same
      exact grown isDone
    · exact each other leaving later
  | case4 node stack active done unfinished cycle =>
    rw [visit, if_neg unfinished, if_pos cycle] at h
    cases h
  | case5 node stack active done unfinished waiting absent =>
    rw [visit, if_neg unfinished, if_neg waiting] at h
    split at h
    · cases h
    · rename_i found
      cases absent.symm.trans found
  | case6 node stack active done unfinished waiting parents found ih =>
    rw [visit, if_neg unfinished, if_neg waiting] at h
    split at h
    · cases h
    · rename_i others found'
      cases found.symm.trans found'
      obtain ⟨kept, grown, each⟩ := ih h settled (owed.enter found)
      refine ⟨kept, grown, fun other leaving mem => ?_⟩
      obtain same | later := List.mem_cons.mp mem
      · cases same
        exact each node true (List.mem_append_right _ List.mem_cons_self)
      · exact each other leaving (List.mem_append_right _ (List.mem_cons_of_mem _ later))

theorem visitAll_settled {roots : List Node} (h : visitAll graph known roots = some finished) :
    Settled graph known finished ∧ ∀ root ∈ roots, root ∈ finished := by
  have go {roots done : List Node} (settled : Settled graph known done)
      (h : roots.foldlM (fun done root => visit graph [(root, false)] [] done) done =
        some finished) :
      Settled graph known finished ∧ done ⊆ finished ∧ ∀ root ∈ roots, root ∈ finished := by
    induction roots generalizing done with
    | nil =>
      cases h
      exact ⟨settled, List.Subset.refl _, nofun⟩
    | cons root roots ih =>
      obtain ⟨next, visited, later⟩ := Option.bind_eq_some_iff.mp h
      obtain ⟨kept, grown, each⟩ := visit_settled visited settled (.root root)
      obtain ⟨last, grown', each'⟩ := ih kept later
      exact ⟨last, List.Subset.trans grown grown', List.forall_mem_cons.mpr
        ⟨grown' (each root false List.mem_cons_self), each'⟩⟩
  obtain ⟨settled, -, each⟩ := go .known h
  exact ⟨settled, each⟩

/-- Roots that are all known are not searched. -/
theorem visitAll_known {roots : List Node} (h : ∀ root ∈ roots, root ∈ known) :
    visitAll graph known roots = some known := by
  induction roots with
  | nil => rfl
  | cons root roots ih =>
    obtain ⟨here, later⟩ := List.forall_mem_cons.mp h
    rw [visitAll, List.foldlM_cons, visit, if_pos here, visit]
    exact ih later

def Refers (graph : Graph Node) (parent node : Node) : Prop :=
  ∃ parents, graph.lookup node = some parents ∧ parent ∈ parents

/-- A search that succeeds finds no cycle, if none goes through the nodes it did not enter. -/
theorem Settled.acc (h : Settled graph known done)
    (before : ∀ node ∈ known, Acc (Refers graph) node) :
    ∀ node ∈ done, Acc (Refers graph) node := by
  induction h with
  | known => exact before
  | left found parentsDone tail ih =>
    refine List.forall_mem_cons.mpr ⟨Acc.intro _ fun parent refers => ?_, ih⟩
    obtain ⟨parents, found', mem⟩ := refers
    cases found.symm.trans found'
    exact ih parent (parentsDone parent mem)

end RoboAgent.DepthFirst
