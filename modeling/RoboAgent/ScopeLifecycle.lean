import RoboAgent.ExecutionTree
import RoboAgent.Runs
import RoboAgent.FalliblePrograms

/-! The lifecycle of the scopes. Every scope has come at least as far as its parent, and a close_scope
call finds the scopes it has passed idle and then frozen, whatever the other tasks do meanwhile. -/

namespace RoboAgent.ScopeLifecycle
open RoboAgent.ExecutionTree RoboAgent.ExecutionTree.Tree RoboAgent.FalliblePrograms RoboAgent.Runs

variable {t t' : Tree}

def IsFrozen (t : Tree) (scope : Nat) : Prop :=
  ∃ s, t.scopes[scope]? = some s ∧ s.state = .frozen

def IsShut (t : Tree) (scope : Nat) : Prop :=
  ∃ s, t.scopes[scope]? = some s ∧ s.state ≠ .opened

/-- What the stage of a close_scope call says of the scopes it has passed. -/
def OnCourse (t : Tree) (descendants : List Nat) : Stage → Prop
  | .settling left => ∃ passed, descendants = passed ++ left ∧ ∀ x ∈ passed, t.isIdle x = true
  | .sweeping left => (∀ x ∈ descendants, t.isIdle x = true) ∧
      ∃ passed, descendants = passed ++ left ∧ ∀ x ∈ passed, IsFrozen t x
  | .draining scope _ _ left => (∀ x ∈ descendants, t.isIdle x = true) ∧
      ∃ passed, descendants = passed ++ scope :: left ∧ ∀ x ∈ passed, IsFrozen t x
  | .returned => ∀ x ∈ descendants, IsFrozen t x
  | .raised => True

structure Following (t : Tree) (c : Closer) : Prop where
  root : c.root ∈ c.descendants
  sorted : c.descendants.Pairwise (· > ·)
  shut : ∀ x ∈ c.descendants, IsShut t x
  below : ∀ (i : Nat) (s : ExecutionScope) (p : Nat), t.scopes[i]? = some s → s.parent = some p → p ∈ c.descendants →
    i ∈ c.descendants
  stage : OnCourse t c.descendants c.stage

/-- The invariant of the scopes. -/
structure Shaped (t : Tree) : Prop where
  parents : ∀ (i : Nat) (s : ExecutionScope) (p : Nat), t.scopes[i]? = some s → s.parent = some p → p < i
  ordered : ∀ (i : Nat) (s : ExecutionScope) (p : Nat) (ps : ExecutionScope), t.scopes[i]? = some s →
    s.parent = some p → t.scopes[p]? = some ps → ps.state.rank ≤ s.state.rank
  settled : ∀ (i : Nat) (s : ExecutionScope), t.scopes[i]? = some s → s.state = .frozen →
    s.activeSettlements = 0
  depth : ∀ (i : Nat) (s : ExecutionScope), t.scopes[i]? = some s →
    s.agentDepth ≤ t.budget.maxAgentDepth

structure Lawful (t : Tree) : Prop extends Shaped t where
  childRuns : t.childRunsUsed ≤ t.budget.maxChildRuns
  nestedTools : t.nestedToolsUsed ≤ t.budget.maxNestedToolCalls
  closers : ∀ c ∈ t.closers, Following t c

/-- What any step leaves of the scopes: an old scope keeps its place and never goes back, and a new
one is below an OPEN scope. -/
structure Grows (t t' : Tree) : Prop where
  budget : t'.budget = t.budget
  kept : ∀ (i : Nat) (s : ExecutionScope), t.scopes[i]? = some s → ∃ s' : ExecutionScope, t'.scopes[i]? = some s' ∧ s'.parent = s.parent ∧
    s.state.rank ≤ s'.state.rank ∧ (s.state ≠ .opened →
      s'.activeSettlements ≤ s.activeSettlements ∧ s'.registered = s.registered)
  fresh : ∀ (i : Nat) (s' : ExecutionScope), t'.scopes[i]? = some s' → t.scopes[i]? = none →
    ∃ p : Nat, ∃ ps : ExecutionScope, s'.parent = some p ∧ t.scopes[p]? = some ps ∧ ps.state = .opened

theorem rank_eq_zero {state : ScopeState} : state.rank = 0 ↔ state = .opened := by
  cases state <;> simp [ScopeState.rank]

theorem rank_eq_two {state : ScopeState} : 2 ≤ state.rank ↔ state = .frozen := by
  cases state <;> simp [ScopeState.rank]

theorem rank_le_two (state : ScopeState) : state.rank ≤ 2 := by
  cases state <;> simp [ScopeState.rank]

theorem Grows.shut (grows : Grows t t') {x : Nat} (h : IsShut t x) : IsShut t' x := by
  obtain ⟨s, found, shut⟩ := h
  obtain ⟨s', found', -, rank, -⟩ := grows.kept x s found
  refine ⟨s', found', fun opened => shut (rank_eq_zero.mp ?_)⟩
  have := rank_eq_zero.mpr opened
  omega

theorem Grows.frozen (grows : Grows t t') {x : Nat} (h : IsFrozen t x) : IsFrozen t' x := by
  obtain ⟨s, found, frozen⟩ := h
  obtain ⟨s', found', -, rank, -⟩ := grows.kept x s found
  have := rank_eq_two.mpr frozen
  exact ⟨s', found', rank_eq_two.mp (by omega)⟩

theorem isIdle_iff {x : Nat} {s : ExecutionScope} (found : t.scopes[x]? = some s) :
    t.isIdle x = true ↔ s.activeSettlements = 0 := by
  rw [isIdle, found, Option.all_some, decide_eq_true_eq]

/-- No settlement can be entered any more, so a scope that was found idle stays idle. -/
theorem Grows.idle (grows : Grows t t') {x : Nat} (shut : IsShut t x) (h : t.isIdle x = true) :
    t'.isIdle x = true := by
  obtain ⟨s, found, shut⟩ := shut
  obtain ⟨s', found', -, -, active⟩ := grows.kept x s found
  have idle := (isIdle_iff found).mp h
  have := (active shut).1
  exact (isIdle_iff found').mpr (by omega)

theorem Grows.onCourse (grows : Grows t t') {descendants : List Nat} {stage : Stage}
    (shut : ∀ x ∈ descendants, IsShut t x) (h : OnCourse t descendants stage) :
    OnCourse t' descendants stage := by
  cases stage with
  | settling left =>
    obtain ⟨passed, split, idle⟩ := h
    exact ⟨passed, split, fun x mem =>
      grows.idle (shut x (split ▸ List.mem_append_left _ mem)) (idle x mem)⟩
  | sweeping left =>
    obtain ⟨idle, passed, split, frozen⟩ := h
    exact ⟨fun x mem => grows.idle (shut x mem) (idle x mem), passed, split,
      fun x mem => grows.frozen (frozen x mem)⟩
  | draining scope pending raised left =>
    obtain ⟨idle, passed, split, frozen⟩ := h
    exact ⟨fun x mem => grows.idle (shut x mem) (idle x mem), passed, split,
      fun x mem => grows.frozen (frozen x mem)⟩
  | returned => exact fun x mem => grows.frozen (h x mem)
  | raised => trivial

/-- The subtree of a close_scope call takes in no scope later. -/
theorem Grows.following (grows : Grows t t') {c : Closer} (h : Following t c) :
    Following t' c where
  root := h.root
  sorted := h.sorted
  shut x mem := grows.shut (h.shut x mem)
  below i s p found parent mem := by
    cases old : t.scopes[i]? with
    | none =>
      obtain ⟨p', ps, parent', stored, opened⟩ := grows.fresh i s found old
      cases parent.symm.trans parent'
      obtain ⟨ps', stored', shut⟩ := h.shut p mem
      cases stored.symm.trans stored'
      exact absurd opened shut
    | some before =>
      obtain ⟨s', found', same, -⟩ := grows.kept i before old
      cases found.symm.trans found'
      exact h.below i before p old (same ▸ parent) mem
  stage := grows.onCourse h.shut h.stage

theorem Grows.refl (t : Tree) : Grows t t where
  budget := rfl
  kept _ s found := ⟨s, found, rfl, Nat.le_refl _, fun _ => ⟨Nat.le_refl _, rfl⟩⟩
  fresh _ _ found absent := by
    rw [absent] at found
    cases found

/-- The scopes are all that an extension is about. -/
theorem Grows.congr (h : Grows t t') {u : Tree} (same : u.scopes = t'.scopes)
    (budget : u.budget = t'.budget) : Grows t u where
  budget := budget.trans h.budget
  kept := by
    rw [same]
    exact h.kept
  fresh := by
    rw [same]
    exact h.fresh

theorem Shaped.congr (h : Shaped t) {u : Tree} (same : u.scopes = t.scopes)
    (budget : u.budget = t.budget) : Shaped u where
  parents := same ▸ h.parents
  ordered := same ▸ h.ordered
  settled := same ▸ h.settled
  depth := by
    rw [same, budget]
    exact h.depth

section Modify
variable {x : Nat} {f : ExecutionScope → ExecutionScope}

theorem getElem?_modifyScope (i : Nat) : (t.modifyScope x f).scopes[i]? =
    if x = i then t.scopes[i]?.map f else t.scopes[i]? := by
  rw [modifyScope, List.getElem?_modify]
  split_ifs with here
  · simp [here]
  · simp [here]

/-- What is found after a change of one scope: that scope, changed, or another. -/
theorem found_modifyScope {i : Nat} {s' : ExecutionScope}
    (found : (t.modifyScope x f).scopes[i]? = some s') :
    (x = i ∧ ∃ s, t.scopes[i]? = some s ∧ s' = f s) ∨ (x ≠ i ∧ t.scopes[i]? = some s') := by
  rw [getElem?_modifyScope] at found
  split_ifs at found with here
  · obtain ⟨s, stored, made⟩ := Option.map_eq_some_iff.mp found
    exact .inl ⟨here, s, stored, made.symm⟩
  · exact .inr ⟨here, found⟩

/-- A change of one scope that keeps its place and does not take it back. -/
structure Forward (s s' : ExecutionScope) : Prop where
  parent : s'.parent = s.parent
  depth : s'.agentDepth = s.agentDepth
  rank : s.state.rank ≤ s'.state.rank
  shut : s.state ≠ .opened →
    s'.activeSettlements ≤ s.activeSettlements ∧ s'.registered = s.registered
  settled : s'.state = .frozen → s'.activeSettlements = 0

theorem Grows.modify (forward : ∀ s, t.scopes[x]? = some s → Forward s (f s)) :
    Grows t (t.modifyScope x f) where
  budget := rfl
  kept i s found := by
    rw [getElem?_modifyScope]
    split_ifs with here
    · subst here
      have next := forward s found
      exact ⟨f s, by rw [found, Option.map_some], next.parent, next.rank, next.shut⟩
    · exact ⟨s, found, rfl, Nat.le_refl _, fun _ => ⟨Nat.le_refl _, rfl⟩⟩
  fresh i s' found absent := by
    obtain ⟨-, s, stored, -⟩ | ⟨-, stored⟩ := found_modifyScope found
    · cases absent.symm.trans stored
    · cases absent.symm.trans stored

theorem Shaped.modify (shaped : Shaped t) (forward : ∀ s, t.scopes[x]? = some s → Forward s (f s))
    (below : ∀ s, t.scopes[x]? = some s → ∀ (i : Nat) (c : ExecutionScope), t.scopes[i]? = some c →
      c.parent = some x → (f s).state.rank ≤ c.state.rank) : Shaped (t.modifyScope x f) where
  parents i s' p found parent := by
    obtain ⟨rfl, s, stored, rfl⟩ | ⟨-, stored⟩ := found_modifyScope found
    · exact shaped.parents x s p stored ((forward s stored).parent ▸ parent)
    · exact shaped.parents i s' p stored parent
  ordered i s' p ps' found parent found' := by
    obtain ⟨rfl, s, stored, rfl⟩ | ⟨away, stored⟩ := found_modifyScope found
    · have next := forward s stored
      rw [next.parent] at parent
      have before := shaped.parents x s p stored parent
      obtain ⟨rfl, -⟩ | ⟨-, stored'⟩ := found_modifyScope found'
      · omega
      · have := shaped.ordered x s p ps' stored parent stored'
        have := next.rank
        omega
    · obtain ⟨rfl, ps, stored', rfl⟩ | ⟨-, stored'⟩ := found_modifyScope found'
      · exact below ps stored' i s' stored parent
      · exact shaped.ordered i s' p ps' stored parent stored'
  settled i s' found frozen := by
    obtain ⟨rfl, s, stored, rfl⟩ | ⟨-, stored⟩ := found_modifyScope found
    · exact (forward s stored).settled frozen
    · exact shaped.settled i s' stored frozen
  depth i s' found := by
    obtain ⟨rfl, s, stored, rfl⟩ | ⟨-, stored⟩ := found_modifyScope found
    · rw [(forward s stored).depth]
      exact shaped.depth x s stored
    · exact shaped.depth i s' stored

/-- A change that keeps the state asks nothing of the children. -/
theorem Shaped.modify_same (shaped : Shaped t)
    (forward : ∀ s, t.scopes[x]? = some s → Forward s (f s))
    (same : ∀ s, (f s).state = s.state) : Shaped (t.modifyScope x f) :=
  shaped.modify forward fun s found i c stored parent => by
    rw [same]
    exact shaped.ordered i c x s stored parent found

end Modify

theorem getElem?_newScope {parent depth i : Nat} {s' : ExecutionScope}
    (found : (t.newScope parent depth).scopes[i]? = some s') :
    t.scopes[i]? = some s' ∨
      (i = t.scopes.length ∧ s' = { parent := some parent, agentDepth := depth }) := by
  rw [newScope, List.getElem?_append] at found
  split_ifs at found with old
  · exact .inl found
  · have last : i - t.scopes.length = 0 := by
      by_contra later
      rw [List.getElem?_eq_none (by simp; omega)] at found
      cases found
    rw [last] at found
    cases found
    exact .inr ⟨by omega, rfl⟩

section NewScope
variable {parent depth : Nat} {s : ExecutionScope} (found : t.scopes[parent]? = some s)
  (opened : s.state = .opened)
include found opened

theorem Grows.newScope : Grows t (t.newScope parent depth) where
  budget := rfl
  kept i s' stored := by
    have below := (List.getElem?_eq_some_iff.mp stored).1
    refine ⟨s', ?_, rfl, Nat.le_refl _, fun _ => ⟨Nat.le_refl _, rfl⟩⟩
    rw [Tree.newScope, List.getElem?_append_left below, stored]
  fresh i s' stored absent := by
    obtain stored | ⟨-, rfl⟩ := getElem?_newScope stored
    · cases absent.symm.trans stored
    · exact ⟨parent, s, rfl, found, opened⟩

theorem Shaped.newScope (shaped : Shaped t) (bounded : depth ≤ t.budget.maxAgentDepth) :
    Shaped (t.newScope parent depth) where
  parents i s' p stored parent' := by
    obtain stored | ⟨rfl, rfl⟩ := getElem?_newScope stored
    · exact shaped.parents i s' p stored parent'
    · cases parent'
      exact (List.getElem?_eq_some_iff.mp found).1
  ordered i s' p ps stored parent' stored' := by
    obtain stored | ⟨rfl, rfl⟩ := getElem?_newScope stored
    · have before := shaped.parents i s' p stored parent'
      obtain stored' | ⟨rfl, -⟩ := getElem?_newScope stored'
      · exact shaped.ordered i s' p ps stored parent' stored'
      · have := (List.getElem?_eq_some_iff.mp stored).1
        omega
    · cases parent'
      have below := (List.getElem?_eq_some_iff.mp found).1
      obtain stored' | ⟨rfl, -⟩ := getElem?_newScope stored'
      · cases found.symm.trans stored'
        simp only [opened, Nat.le_refl]
      · omega
  settled i s' stored frozen := by
    obtain stored | ⟨-, rfl⟩ := getElem?_newScope stored
    · exact shaped.settled i s' stored frozen
    · rfl
  depth i s' stored := by
    obtain stored | ⟨-, rfl⟩ := getElem?_newScope stored
    · exact shaped.depth i s' stored
    · exact bounded

end NewScope

theorem isDescendant_child {scopes : List ExecutionScope} {root i p : Nat} {s : ExecutionScope}
    (found : scopes[i]? = some s) (parent : s.parent = some p) (before : p < i)
    (h : isDescendant scopes root p = true) : isDescendant scopes root i = true := by
  rw [isDescendant, found]
  simp only [parent, before, if_true, h, Bool.or_true]

theorem isDescendant_self {scopes : List ExecutionScope} {root : Nat} {s : ExecutionScope}
    (found : scopes[root]? = some s) : isDescendant scopes root root = true := by
  rw [isDescendant, found]
  simp

theorem mem_descendants {root i : Nat} :
    i ∈ t.descendants root ↔ i < t.scopes.length ∧ isDescendant t.scopes root i = true := by
  rw [descendants, List.mem_filter, List.mem_reverse, List.mem_range]

theorem descendants_sorted (t : Tree) (root : Nat) : (t.descendants root).Pairwise (· > ·) :=
  (List.pairwise_reverse.mpr List.pairwise_lt_range).filter _

theorem beginClosing_idem (s : ExecutionScope) : s.beginClosing.beginClosing = s.beginClosing := by
  unfold ExecutionScope.beginClosing
  split_ifs <;> simp_all

theorem getElem?_beginClosing (scopes : List Nat) (i : Nat) :
    (t.beginClosing scopes).scopes[i]? =
      if i ∈ scopes then t.scopes[i]?.map ExecutionScope.beginClosing else t.scopes[i]? := by
  induction scopes generalizing t with
  | nil => rfl
  | cons x scopes ih =>
    have next := ih (t := t.modifyScope x ExecutionScope.beginClosing)
    rw [Tree.beginClosing, List.foldl_cons, ← Tree.beginClosing, next, getElem?_modifyScope]
    have twice : (t.scopes[i]?.map ExecutionScope.beginClosing).map ExecutionScope.beginClosing =
        t.scopes[i]?.map ExecutionScope.beginClosing := by
      rw [Option.map_map]
      exact congrArg (Option.map · _) (funext beginClosing_idem)
    by_cases here : x = i
    · subst here
      rw [if_pos rfl, if_pos List.mem_cons_self, twice, ite_self]
    · rw [if_neg here]
      simp only [List.mem_cons, Ne.symm here, false_or]

theorem beginClosing_frame (scopes : List Nat) : (t.beginClosing scopes).budget = t.budget ∧
    (t.beginClosing scopes).closers = t.closers ∧
    (t.beginClosing scopes).childRunsUsed = t.childRunsUsed ∧
    (t.beginClosing scopes).nestedToolsUsed = t.nestedToolsUsed := by
  induction scopes generalizing t with
  | nil => exact ⟨rfl, rfl, rfl, rfl⟩
  | cons x scopes ih => exact ih

theorem beginClosing_spec (s : ExecutionScope) : s.beginClosing.parent = s.parent ∧
    s.beginClosing.agentDepth = s.agentDepth ∧
    s.beginClosing.activeSettlements = s.activeSettlements ∧
    s.beginClosing.registered = s.registered ∧
    s.beginClosing.state.rank = max s.state.rank 1 := by
  unfold ExecutionScope.beginClosing
  cases state : s.state <;> simp [ScopeState.rank, state]

/-- What is found once a list of scopes has begun to close. -/
theorem found_beginClosing {scopes : List Nat} {i : Nat} {s' : ExecutionScope}
    (found : (t.beginClosing scopes).scopes[i]? = some s') :
    ∃ s, t.scopes[i]? = some s ∧ s'.parent = s.parent ∧ s'.agentDepth = s.agentDepth ∧
      s'.activeSettlements = s.activeSettlements ∧
      s'.state.rank = if i ∈ scopes then max s.state.rank 1 else s.state.rank := by
  rw [getElem?_beginClosing] at found
  split_ifs at found with mem
  · obtain ⟨s, stored, rfl⟩ := Option.map_eq_some_iff.mp found
    obtain ⟨parent, depth, active, -, rank⟩ := beginClosing_spec s
    exact ⟨s, stored, parent, depth, active, by rw [if_pos mem, rank]⟩
  · exact ⟨s', found, rfl, rfl, rfl, by rw [if_neg mem]⟩

theorem Grows.beginClosing (scopes : List Nat) : Grows t (t.beginClosing scopes) where
  budget := (beginClosing_frame scopes).1
  kept i s found := by
    rw [getElem?_beginClosing]
    split_ifs with mem
    · obtain ⟨parent, -, active, registered, rank⟩ := beginClosing_spec s
      exact ⟨s.beginClosing, by rw [found, Option.map_some], parent, by omega,
        fun _ => ⟨by omega, registered⟩⟩
    · exact ⟨s, found, rfl, Nat.le_refl _, fun _ => ⟨Nat.le_refl _, rfl⟩⟩
  fresh i s' found absent := by
    obtain ⟨s, stored, -⟩ := found_beginClosing found
    cases absent.symm.trans stored

/-- The subtree begins to close as a whole. -/
theorem Shaped.beginClosing (shaped : Shaped t) (root : Nat) :
    Shaped (t.beginClosing (t.descendants root)) where
  parents i s' p found parent' := by
    obtain ⟨s, stored, parent, -⟩ := found_beginClosing found
    exact shaped.parents i s p stored (parent ▸ parent')
  ordered i s' p ps' found parent' found' := by
    obtain ⟨s, stored, parent, -, -, rank⟩ := found_beginClosing found
    obtain ⟨ps, stored', -, -, -, rank'⟩ := found_beginClosing found'
    rw [parent] at parent'
    have before := shaped.parents i s p stored parent'
    have ordered := shaped.ordered i s p ps stored parent' stored'
    have below : p ∈ t.descendants root → i ∈ t.descendants root := by
      intro mem
      obtain ⟨-, within⟩ := mem_descendants.mp mem
      exact mem_descendants.mpr ⟨(List.getElem?_eq_some_iff.mp stored).1,
        isDescendant_child stored parent' before within⟩
    by_cases mem : p ∈ t.descendants root
    · rw [rank, rank', if_pos mem, if_pos (below mem)]
      omega
    · rw [rank, rank', if_neg mem]
      split_ifs <;> omega
  settled i s' found frozen := by
    obtain ⟨s, stored, -, -, active, rank⟩ := found_beginClosing found
    have last := rank_eq_two.mpr frozen
    have : s.state = .frozen := by
      refine rank_eq_two.mp ?_
      split_ifs at rank <;> omega
    rw [active]
    exact shaped.settled i s stored this
  depth i s' found := by
    obtain ⟨s, stored, -, depth, -⟩ := found_beginClosing found
    rw [depth, (beginClosing_frame _).1]
    exact shaped.depth i s stored

/-- A call that starts to close a scope has its whole subtree before it. -/
theorem following_closeScope (shaped : Shaped t) {root : Nat} (known : root < t.scopes.length) :
    Following (t.beginClosing (t.descendants root))
      { root, descendants := t.descendants root, stage := .settling (t.descendants root) } where
  root := mem_descendants.mpr ⟨known, isDescendant_self (List.getElem?_eq_getElem known)⟩
  sorted := descendants_sorted t root
  shut x mem := by
    obtain ⟨below, -⟩ := mem_descendants.mp mem
    obtain ⟨-, -, -, -, rank⟩ := beginClosing_spec t.scopes[x]
    refine ⟨t.scopes[x].beginClosing, ?_, fun opened => ?_⟩
    · rw [getElem?_beginClosing, if_pos mem, List.getElem?_eq_getElem below, Option.map_some]
    · have := rank_eq_zero.mpr opened
      omega
  below i s' p found parent' mem := by
    obtain ⟨s, stored, parent, -⟩ := found_beginClosing found
    rw [parent] at parent'
    obtain ⟨-, within⟩ := mem_descendants.mp mem
    exact mem_descendants.mpr ⟨(List.getElem?_eq_some_iff.mp stored).1,
      isDescendant_child stored parent' (shaped.parents i s p stored parent') within⟩
  stage := ⟨[], rfl, nofun⟩

theorem requireOpen_eq_ok {x : Nat} {operation : String} {s : ExecutionScope} :
    t.requireOpen x operation = .ok s ↔ t.scopes[x]? = some s ∧ s.state = .opened := by
  rw [requireOpen]
  cases found : t.scopes[x]? with
  | none => exact iff_of_false nofun nofun
  | some s' =>
    by_cases opened : s'.state = .opened
    · simp only [Option.filter_some, opened, decide_true, if_true]
      constructor
      · intro h
        cases h
        exact ⟨rfl, opened⟩
      · rintro ⟨h, -⟩
        cases h
        rfl
    · simp only [Option.filter_some, opened, decide_false, Bool.false_eq_true, if_false]
      refine iff_of_false nofun ?_
      rintro ⟨h, opened'⟩
      cases h
      exact opened opened'

/-- A step that leaves the calls in flight alone. -/
theorem Lawful.grow (h : Lawful t) (grows : Grows t t') (shaped : Shaped t')
    (closers : t'.closers = t.closers) (childRuns : t'.childRunsUsed ≤ t'.budget.maxChildRuns)
    (nestedTools : t'.nestedToolsUsed ≤ t'.budget.maxNestedToolCalls) : Lawful t' where
  toShaped := shaped
  childRuns := childRuns
  nestedTools := nestedTools
  closers c mem := grows.following (h.closers c (closers ▸ mem))

theorem mem_setStage {k : Nat} {stage : Stage} {c' : Closer}
    (mem : c' ∈ (t.setStage k stage).closers) :
    c' ∈ t.closers ∨ ∃ c, t.closers[k]? = some c ∧ c' = { c with stage } := by
  obtain ⟨i, found⟩ := List.mem_iff_getElem?.mp mem
  rw [setStage, List.getElem?_modify] at found
  obtain ⟨c, stored, made⟩ := Option.map_eq_some_iff.mp found
  by_cases here : k = i
  · rw [if_pos here] at made
    exact .inr ⟨c, here ▸ stored, made.symm⟩
  · rw [if_neg here] at made
    exact .inl (made ▸ List.mem_of_getElem? stored)

theorem Lawful.setStage (h : Lawful t) {k : Nat} {c : Closer} {stage : Stage}
    (found : t.closers[k]? = some c) (course : OnCourse t c.descendants stage) :
    Lawful (t.setStage k stage) where
  toShaped := h.toShaped.congr rfl rfl
  childRuns := h.childRuns
  nestedTools := h.nestedTools
  closers c' mem := by
    have frame : Grows t (t.setStage k stage) := (Grows.refl t).congr rfl rfl
    obtain old | ⟨c'', stored, rfl⟩ := mem_setStage mem
    · exact frame.following (h.closers c' old)
    · cases found.symm.trans stored
      have following := h.closers c (List.mem_of_getElem? found)
      exact frame.following ⟨following.root, following.sorted, following.shut, following.below,
        course⟩

/-- A change of the logs. -/
theorem Lawful.congr (h : Lawful t) {u : Tree} (scopes : u.scopes = t.scopes)
    (budget : u.budget = t.budget) (closers : u.closers = t.closers)
    (childRuns : u.childRunsUsed = t.childRunsUsed)
    (nestedTools : u.nestedToolsUsed = t.nestedToolsUsed) : Lawful u := by
  refine h.grow ((Grows.refl t).congr scopes budget) (h.toShaped.congr scopes budget) closers ?_ ?_
  · rw [childRuns, budget]
    exact h.childRuns
  · rw [nestedTools, budget]
    exact h.nestedTools

theorem OnCourse.congr {u : Tree} (scopes : u.scopes = t.scopes) (budget : u.budget = t.budget)
    {descendants : List Nat} {stage : Stage} (shut : ∀ x ∈ descendants, IsShut t x) (h : OnCourse t descendants stage) :
    OnCourse u descendants stage :=
  ((Grows.refl t).congr scopes budget).onCourse shut h

theorem forward_keep {s s' : ExecutionScope} (parent : s'.parent = s.parent)
    (depth : s'.agentDepth = s.agentDepth) (state : s'.state = s.state)
    (shut : s.state ≠ .opened →
      s'.activeSettlements ≤ s.activeSettlements ∧ s'.registered = s.registered)
    (settled : s.state = .frozen → s.activeSettlements = 0) : Forward s s' where
  parent := parent
  depth := depth
  rank := Nat.le_of_eq (congrArg _ state.symm)
  shut := shut
  settled frozen := by
    rw [state] at frozen
    have := (shut (by rw [frozen]; exact nofun)).1
    have := settled frozen
    omega

/-- A change of one scope that keeps its state. -/
theorem Lawful.modify (h : Lawful t) {x : Nat} {f : ExecutionScope → ExecutionScope}
    (state : ∀ s, (f s).state = s.state)
    (forward : ∀ s, t.scopes[x]? = some s → Forward s (f s)) : Lawful (t.modifyScope x f) :=
  h.grow (Grows.modify forward) (h.toShaped.modify_same forward state) rfl h.childRuns h.nestedTools

theorem lawful_childTool (h : Lawful t) {parent : Nat} (stepped : t.childTool parent = .ok t') :
    Lawful t' ∧ Grows t t' := by
  obtain ⟨s, required, made⟩ := bind_eq_ok stepped
  obtain ⟨found, opened⟩ := requireOpen_eq_ok.mp required
  cases made
  have grows : Grows t (t.newScope parent s.agentDepth) := Grows.newScope found opened
  exact ⟨h.grow grows (Shaped.newScope found opened h.toShaped (h.depth parent s found)) rfl
    h.childRuns h.nestedTools, grows⟩

theorem lawful_newChildRunScope (h : Lawful t) {parent : Nat}
    (stepped : t.newChildRunScope parent = .ok t') : Lawful t' ∧ Grows t t' := by
  obtain ⟨s, required, made⟩ := bind_eq_ok stepped
  obtain ⟨found, opened⟩ := requireOpen_eq_ok.mp required
  split_ifs at made with deep many
  cases made
  have grows : Grows t (t.newScope parent (s.agentDepth + 1)) := Grows.newScope found opened
  have shaped := Shaped.newScope found opened h.toShaped (Nat.le_of_not_lt deep)
  have childRuns : t.childRunsUsed + 1 ≤ t.budget.maxChildRuns := by omega
  exact ⟨h.grow (grows.congr rfl rfl) (shaped.congr rfl rfl) rfl childRuns h.nestedTools,
    grows.congr rfl rfl⟩

theorem lawful_acceptNestedTool (h : Lawful t) :
    Lawful t.acceptNestedTool.2 ∧ Grows t t.acceptNestedTool.2 := by
  rw [acceptNestedTool]
  split_ifs with full
  · exact ⟨h, Grows.refl t⟩
  · have grows : Grows t { t with nestedToolsUsed := t.nestedToolsUsed + 1 } :=
      (Grows.refl t).congr rfl rfl
    have nestedTools : t.nestedToolsUsed + 1 ≤ t.budget.maxNestedToolCalls := by omega
    exact ⟨h.grow grows (h.toShaped.congr rfl rfl) rfl h.childRuns nestedTools, grows⟩

theorem lawful_registerResource (h : Lawful t) {x : Nat} {resource : Resource}
    (stepped : t.registerResource x resource = .ok t') : Lawful t' ∧ Grows t t' := by
  obtain ⟨s, required, made⟩ := bind_eq_ok stepped
  obtain ⟨found, opened⟩ := requireOpen_eq_ok.mp required
  cases made
  have forward (s' : ExecutionScope) (found' : t.scopes[x]? = some s') : Forward s' { s' with
      resources := s'.resources ++ [resource], registered := s'.registered ++ [resource] } := by
    cases found.symm.trans found'
    exact forward_keep rfl rfl rfl (fun shut => absurd opened shut) (h.settled x s found)
  exact ⟨h.modify (fun _ => rfl) forward, Grows.modify forward⟩

theorem lawful_enterSettlement (h : Lawful t) {x : Nat}
    (stepped : t.enterSettlement x = .ok t') : Lawful t' ∧ Grows t t' := by
  obtain ⟨s, required, made⟩ := bind_eq_ok stepped
  obtain ⟨found, opened⟩ := requireOpen_eq_ok.mp required
  cases made
  have forward (s' : ExecutionScope) (found' : t.scopes[x]? = some s') : Forward s' { s' with
      activeSettlements := s'.activeSettlements + 1 } := by
    cases found.symm.trans found'
    exact forward_keep rfl rfl rfl (fun shut => absurd opened shut) (h.settled x s found)
  exact ⟨h.modify (fun _ => rfl) forward, Grows.modify forward⟩

theorem lawful_leaveSettlement (h : Lawful t) {x : Nat}
    (stepped : t.leaveSettlement x = .ok t') : Lawful t' ∧ Grows t t' := by
  rw [leaveSettlement] at stepped
  split_ifs at stepped
  cases stepped
  have forward (s : ExecutionScope) (found : t.scopes[x]? = some s) : Forward s { s with
      activeSettlements := s.activeSettlements - 1 } :=
    forward_keep rfl rfl rfl (fun _ => ⟨Nat.sub_le _ _, rfl⟩) (h.settled x s found)
  exact ⟨h.modify (fun _ => rfl) forward, Grows.modify forward⟩

theorem lawful_beginClosing (h : Lawful t) (root : Nat) :
    Lawful (t.beginClosing (t.descendants root)) := by
  obtain ⟨budget, closers, childRuns, nestedTools⟩ := beginClosing_frame (t := t) (t.descendants root)
  refine h.grow (Grows.beginClosing _) (h.toShaped.beginClosing root) closers ?_ ?_
  · rw [childRuns, budget]
    exact h.childRuns
  · rw [nestedTools, budget]
    exact h.nestedTools

theorem lawful_closeScope (h : Lawful t) {root : Nat} (known : root < t.scopes.length) :
    Lawful (t.closeScope root) ∧ Grows t (t.closeScope root) := by
  have closing := lawful_beginClosing h root
  have last : Grows (t.beginClosing (t.descendants root)) (t.closeScope root) :=
    (Grows.refl _).congr rfl rfl
  refine ⟨⟨closing.toShaped.congr rfl rfl, closing.childRuns, closing.nestedTools,
    fun c mem => ?_⟩, (Grows.beginClosing (t.descendants root)).congr rfl rfl⟩
  obtain old | new := List.mem_append.mp mem
  · exact last.following (closing.closers c old)
  · cases List.mem_singleton.mp new
    exact last.following (following_closeScope h.toShaped known)

section Advance
variable {k x : Nat} {c : Closer} {left : List Nat} {pending : List Resource}
  {raised : Option Fault}

theorem Following.onCourse (h : Following t c) {stage : Stage} (here : c.stage = stage) :
    OnCourse t c.descendants stage :=
  here ▸ h.stage

/-- A scope that has been drained can be frozen: the scopes below it have a higher number, so the
call has passed them. -/
theorem freeze_drained (h : Lawful t) (following : Following t c)
    (here : c.stage = .draining x pending raised left) :
    ∃ t', t.freeze x = .ok t' ∧ Lawful t' ∧ Grows t t' ∧ t'.closers = t.closers ∧ IsFrozen t' x := by
  obtain ⟨idle, passed, split, frozen⟩ := following.onCourse here
  have mem : x ∈ c.descendants := split ▸ List.mem_append_right _ List.mem_cons_self
  obtain ⟨s, found, shut⟩ := following.shut x mem
  have active := (isIdle_iff found).mp (idle x mem)
  have forward (s' : ExecutionScope) (found' : t.scopes[x]? = some s') :
      Forward s' { s' with state := .frozen } := by
    cases found.symm.trans found'
    exact ⟨rfl, rfl, rank_le_two s.state, fun _ => ⟨Nat.le_refl _, rfl⟩, fun _ => active⟩
  have below (s' : ExecutionScope) (_ : t.scopes[x]? = some s') (i : Nat) (child : ExecutionScope)
      (stored : t.scopes[i]? = some child) (parent : child.parent = some x) :
      ScopeState.frozen.rank ≤ child.state.rank := by
    have later := h.parents i child x stored parent
    have within := following.below i child x stored parent mem
    rw [split, List.mem_append] at within
    have sorted := following.sorted
    rw [split, List.pairwise_append] at sorted
    have done : i ∈ passed := by
      refine within.resolve_right fun rest => ?_
      obtain rfl | after := List.mem_cons.mp rest
      · omega
      · have := List.rel_of_pairwise_cons sorted.2.1 after
        omega
    obtain ⟨child', stored', last⟩ := frozen i done
    cases stored.symm.trans stored'
    simp only [last, Nat.le_refl]
  have allowed : ¬∀ s ∈ t.scopes[x]?, s.state = .opened := fun all => shut (all s found)
  refine ⟨t.modifyScope x fun s => { s with state := .frozen }, if_neg allowed, ?_,
    Grows.modify forward, rfl, ?_⟩
  · exact h.grow (Grows.modify forward) (h.toShaped.modify forward below) rfl h.childRuns
      h.nestedTools
  · refine ⟨{ s with state := .frozen }, ?_, rfl⟩
    rw [getElem?_modifyScope, if_pos rfl, found, Option.map_some]

theorem lawful_drain (h : Lawful t) (found : t.closers[k]? = some c) {resource : Resource}
    {rest : List Resource} (here : c.stage = .draining x (resource :: rest) raised left)
    (outcome : Option Fault) : Lawful (t.drain k x resource rest raised left outcome) ∧
      (t.drain k x resource rest raised left outcome).scopes = t.scopes ∧
      (t.drain k x resource rest raised left outcome).budget = t.budget := by
  have following := h.closers c (List.mem_of_getElem? found)
  have noted (u : Tree) (scopes : u.scopes = t.scopes) (budget : u.budget = t.budget)
      (closers : u.closers = t.closers) (childRuns : u.childRunsUsed = t.childRunsUsed)
      (nestedTools : u.nestedToolsUsed = t.nestedToolsUsed) (pending' : List Resource)
      (raised' : Option Fault) :
      Lawful (u.setStage k (.draining x pending' raised' left)) ∧
        (u.setStage k (.draining x pending' raised' left)).scopes = t.scopes ∧
        (u.setStage k (.draining x pending' raised' left)).budget = t.budget := by
    have before : OnCourse t c.descendants (.draining x pending' raised' left) := by
      have course := following.onCourse here
      exact course
    have course := OnCourse.congr scopes budget following.shut before
    exact ⟨(h.congr scopes budget closers childRuns nestedTools).setStage (closers ▸ found) course,
      scopes, budget⟩
  unfold drain
  cases raised with
  | none =>
    cases outcome with
    | none => exact noted (t.dispose x resource .closed) rfl rfl rfl rfl rfl rest none
    | some fault => exact noted t rfl rfl rfl rfl rfl (resource :: rest) (some fault)
  | some before =>
    cases outcome with
    | none =>
      exact noted ((t.addCleanupError (cleanupError x resource before)).dispose x resource
        (.forced before)) rfl rfl rfl rfl rfl rest none
    | some fault =>
      refine noted (((t.addCleanupError (cleanupError x resource fault)).addRetryBlocker
        (cleanupBlocker x)).dispose x resource (.failed fault)) ?_ ?_ ?_ ?_ ?_ rest none <;>
      · unfold addRetryBlocker
        split_ifs <;> rfl

theorem lawful_advance (h : Lawful t) {outcome : Option Fault}
    (stepped : t.advance k outcome = some t') : Lawful t' ∧ Grows t t' := by
  obtain ⟨c, found, stepped⟩ := Option.bind_eq_some_iff.mp stepped
  have following := h.closers c (List.mem_of_getElem? found)
  have still : Grows t (t.setStage k c.stage) := (Grows.refl t).congr rfl rfl
  cases here : c.stage with
  | settling left =>
    rw [here] at stepped
    obtain ⟨passed, split, idle⟩ := following.onCourse here
    cases left with
    | nil =>
      cases stepped
      rw [List.append_nil] at split
      exact ⟨h.setStage found ⟨split ▸ idle, [], rfl, nofun⟩, still.congr rfl rfl⟩
    | cons x left =>
      dsimp only at stepped
      split_ifs at stepped with settled
      cases stepped
      refine ⟨h.setStage found ⟨passed ++ [x], by rw [split, List.append_assoc]; rfl, ?_⟩,
        still.congr rfl rfl⟩
      intro y mem
      obtain before | last := List.mem_append.mp mem
      · exact idle y before
      · cases List.mem_singleton.mp last
        exact settled
  | sweeping left =>
    rw [here] at stepped
    obtain ⟨idle, passed, split, frozen⟩ := following.onCourse here
    cases left with
    | nil =>
      cases stepped
      rw [List.append_nil] at split
      refine ⟨h.setStage found ?_, still.congr rfl rfl⟩
      rw [split]
      exact frozen
    | cons x left =>
      obtain ⟨s, -, stepped⟩ := Option.bind_eq_some_iff.mp stepped
      cases stepped
      have forward (s : ExecutionScope) (stored : t.scopes[x]? = some s) :
          Forward s { s with resources := [] } :=
        forward_keep rfl rfl rfl (fun _ => ⟨Nat.le_refl _, rfl⟩) (h.settled x s stored)
      have grows : Grows t (t.modifyScope x fun s => { s with resources := [] }) :=
        Grows.modify forward
      have course := grows.onCourse following.shut
        (show OnCourse t c.descendants (.draining x s.resources.reverse none left) from
          ⟨idle, passed, split, frozen⟩)
      have kept : Lawful (t.modifyScope x fun s => { s with resources := [] }) :=
        h.modify (fun _ => rfl) forward
      exact ⟨kept.setStage found course, grows.congr rfl rfl⟩
  | draining x pending raised left =>
    rw [here] at stepped
    cases pending with
    | nil =>
      obtain ⟨u, froze, lawful, grows, same, last⟩ := freeze_drained h following here
      dsimp only at stepped
      rw [froze] at stepped
      cases stepped
      obtain ⟨idle, passed, split, frozen⟩ := grows.onCourse following.shut
        (following.onCourse here)
      refine ⟨lawful.setStage (same ▸ found) ⟨idle, passed ++ [x], by
        rw [split, List.append_assoc]; rfl, ?_⟩, grows.congr rfl rfl⟩
      intro y mem
      obtain before | here := List.mem_append.mp mem
      · exact frozen y before
      · cases List.mem_singleton.mp here
        exact last
    | cons resource rest =>
      cases stepped
      obtain ⟨lawful, same, budget⟩ := lawful_drain h found here outcome
      exact ⟨lawful, (Grows.refl t).congr same budget⟩
  | returned =>
    rw [here] at stepped
    cases stepped
  | raised =>
    rw [here] at stepped
    cases stepped

theorem lawful_cancelCloser (h : Lawful t) (stepped : t.cancelCloser k = some t') :
    Lawful t' ∧ Grows t t' := by
  obtain ⟨c, found, stepped⟩ := Option.bind_eq_some_iff.mp stepped
  split at stepped
  · cases stepped
    exact ⟨h.setStage found trivial, (Grows.refl t).congr rfl rfl⟩
  · cases stepped

end Advance

theorem toOption_eq_some {α : Type} {value : Except ExecutionError α} {a : α} :
    value.toOption = some a ↔ value = .ok a := by
  cases value with
  | error _ => exact iff_of_false nofun nofun
  | ok b => exact ⟨fun h => congrArg _ (Option.some.inj h), fun h => congrArg _ (Except.ok.inj h)⟩

theorem lawful_step (h : Lawful t) {a : Action} (stepped : step t a = some t') :
    Lawful t' ∧ Grows t t' := by
  cases a with
  | childTool parent => exact lawful_childTool h (toOption_eq_some.mp stepped)
  | newChildRunScope parent => exact lawful_newChildRunScope h (toOption_eq_some.mp stepped)
  | acceptNestedTool =>
    cases stepped
    exact lawful_acceptNestedTool h
  | registerResource x resource => exact lawful_registerResource h (toOption_eq_some.mp stepped)
  | enterSettlement x => exact lawful_enterSettlement h (toOption_eq_some.mp stepped)
  | leaveSettlement x => exact lawful_leaveSettlement h (toOption_eq_some.mp stepped)
  | closeScope root =>
    rw [step] at stepped
    split_ifs at stepped with known
    cases stepped
    exact lawful_closeScope h known
  | advance k outcome => exact lawful_advance h stepped
  | cancel k => exact lawful_cancelCloser h stepped

theorem lawful_create (budget : ExecutionBudgetConfig) : Lawful (Tree.create budget) := by
  have only {i : Nat} {s : ExecutionScope} (found : (Tree.create budget).scopes[i]? = some s) :
      i = 0 ∧ s = { parent := none, agentDepth := 0 } := by
    cases i with
    | zero =>
      cases found
      exact ⟨rfl, rfl⟩
    | succ i => cases found
  exact {
    parents := fun i s p found parent => by
      obtain ⟨-, rfl⟩ := only found
      cases parent
    ordered := fun i s p ps found parent => by
      obtain ⟨-, rfl⟩ := only found
      cases parent
    settled := fun i s found frozen => by
      obtain ⟨-, rfl⟩ := only found
      rfl
    depth := fun i s found => by
      obtain ⟨-, rfl⟩ := only found
      exact Nat.zero_le _
    childRuns := Nat.zero_le _
    nestedTools := Nat.zero_le _
    closers := nofun }

theorem lawful_run {budget : ExecutionBudgetConfig} {actions : List Action}
    (reached : run step (Tree.create budget) actions = some t) : Lawful t :=
  run_invariant_all (fun _ _ _ h stepped => (lawful_step h stepped).1) (lawful_create budget) reached

/-- What lies below a scope that is frozen is frozen too. -/
theorem frozen_below (h : Lawful t) {root : Nat} (frozen : IsFrozen t root) (i : Nat)
    (below : isDescendant t.scopes root i = true) : IsFrozen t i := by
  induction i using Nat.strongRecOn with
  | ind i ih =>
    rw [isDescendant] at below
    cases found : t.scopes[i]? with
    | none =>
      rw [found] at below
      cases below
    | some s =>
      rw [found] at below
      obtain here | above := Bool.or_eq_true_iff.mp below
      · exact (beq_iff_eq.mp here) ▸ frozen
      · cases parent : s.parent with
        | none =>
          rw [parent] at above
          cases above
        | some p =>
          rw [parent] at above
          dsimp only at above
          split_ifs at above with before
          obtain ⟨ps, stored, last⟩ := ih p before above
          have ordered := h.ordered i s p ps found parent stored
          have := rank_eq_two.mpr last
          exact ⟨s, found, rank_eq_two.mp (by omega)⟩

/-- What a step admits into a scope: a child, a resource or a settlement. -/
inductive Admits (t t' : Tree) (scope : Nat) : Prop
  | child {i : Nat} {s' : ExecutionScope} (absent : t.scopes[i]? = none)
    (found : t'.scopes[i]? = some s') (parent : s'.parent = some scope)
  | resource {s s' : ExecutionScope} (found : t.scopes[scope]? = some s)
    (found' : t'.scopes[scope]? = some s') (more : s'.registered ≠ s.registered)
  | settlement {s s' : ExecutionScope} (found : t.scopes[scope]? = some s)
    (found' : t'.scopes[scope]? = some s') (more : s.activeSettlements < s'.activeSettlements)

theorem Grows.admits (grows : Grows t t') {scope : Nat} (h : Admits t t' scope) :
    ∃ s, t.scopes[scope]? = some s ∧ s.state = .opened := by
  cases h with
  | child absent found parent =>
    obtain ⟨p, ps, parent', stored, opened⟩ := grows.fresh _ _ found absent
    cases parent.symm.trans parent'
    exact ⟨ps, stored, opened⟩
  | @resource s s' found found' more =>
    by_contra none
    have shut : s.state ≠ .opened := fun opened => none ⟨s, found, opened⟩
    obtain ⟨s'', found'', -, -, kept⟩ := grows.kept scope s found
    cases found'.symm.trans found''
    exact more (kept shut).2
  | @settlement s s' found found' more =>
    by_contra none
    have shut : s.state ≠ .opened := fun opened => none ⟨s, found, opened⟩
    obtain ⟨s'', found'', -, -, kept⟩ := grows.kept scope s found
    cases found'.symm.trans found''
    have := (kept shut).1
    omega

/-- A root scope with a child that holds a resource, closed while a settlement of the child is
left. -/
def closedRun : List Action :=
  [.childTool 0, .registerResource 1 ⟨0, "Worker"⟩, .enterSettlement 1, .closeScope 0,
    .leaveSettlement 1] ++ List.replicate 9 (.advance 0 none)

end RoboAgent.ScopeLifecycle
