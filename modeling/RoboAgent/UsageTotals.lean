import Mathlib
import RoboAgent.ContributionAtomicity

/-! Totals of usage. The accumulator is a commutative monoid in which an unknown absorbs, so a total
does not depend on the order of the contributions, and the total of a scope is made of its own
contributions and the totals of its children. -/

namespace RoboAgent.UsageTotals
open RoboAgent.KeyedLists RoboAgent.Dicts RoboAgent.Runs RoboAgent.ExecutionTree
open RoboAgent.ScopeLifecycle RoboAgent.Contributions RoboAgent.ContributionAtomicity

theorem mergeTokens_comm (a b : Option Nat) : mergeTokens a b = mergeTokens b a := by
  cases a <;> cases b <;> simp [mergeTokens, Nat.add_comm]

theorem mergeTokens_assoc (a b c : Option Nat) :
    mergeTokens (mergeTokens a b) c = mergeTokens a (mergeTokens b c) := by
  cases a <;> cases b <;> cases c <;> simp [mergeTokens, Nat.add_assoc]

theorem mergeKnownUsage_comm (u v : Usage) : mergeKnownUsage u v = mergeKnownUsage v u := by
  ext1 <;> exact mergeTokens_comm ..

theorem mergeKnownUsage_assoc (u v w : Usage) :
    mergeKnownUsage (mergeKnownUsage u v) w = mergeKnownUsage u (mergeKnownUsage v w) := by
  ext1 <;> exact mergeTokens_assoc ..

def UsageState.combine : UsageState → UsageState → UsageState
  | .absent, other => other
  | state, .absent => state
  | .unknown, _ => .unknown
  | _, .unknown => .unknown
  | .known u, .known v => .known (mergeKnownUsage u v)

instance : Zero UsageState := ⟨.absent⟩

instance : Add UsageState := ⟨UsageState.combine⟩

instance : AddCommMonoid UsageState where
  zero_add _ := rfl
  add_zero state := by cases state <;> rfl
  add_comm a b := by
    change UsageState.combine a b = UsageState.combine b a
    cases a <;> cases b <;> simp [UsageState.combine, mergeKnownUsage_comm]
  add_assoc a b c := by
    change UsageState.combine (UsageState.combine a b) c =
      UsageState.combine a (UsageState.combine b c)
    cases a <;> cases b <;> cases c <;> simp [UsageState.combine, mergeKnownUsage_assoc]
  nsmul := nsmulRec

def UsageContribution.state : UsageContribution → UsageState
  | .known usage => .known usage
  | .unknown => .unknown

theorem mergeUsage_eq (state : UsageState) (usage : UsageContribution) :
    mergeUsage state usage = state + UsageContribution.state usage := by
  cases state <;> cases usage <;> rfl

theorem unknown_add (state : UsageState) : UsageState.unknown + state = .unknown := by
  cases state <;> rfl

/-- The usage with whether it is known. -/
def UsageState.result : UsageState → Option Usage × Option Bool
  | .absent => (none, none)
  | .known usage => (some usage, some true)
  | .unknown => (none, some false)

section Model
variable {E R T : Type}

def FactTree.usageResult (t : FactTree E R T) : Option Usage × Option Bool :=
  UsageState.result t.usage

/-- The loop of usage_for_scope over the contributions. -/
def scopeTotal (t : FactTree E R T) (scope : Nat) : UsageState :=
  t.contributions.entries.foldl (fun state entry =>
    match entry.2.usage with
    | none => state
    | some usage =>
      if isDescendant t.scopes scope entry.2.contributionId.scopeId then mergeUsage state usage
      else state) .absent

def FactTree.usageForScope (t : FactTree E R T) (scope : Nat) : Option Usage × Option Bool :=
  UsageState.result (scopeTotal t scope)

def usageOf (contribution : ExecutionContribution E R) : UsageState :=
  contribution.usage.elim 0 UsageContribution.state

def scopeOf (entry : ContributionId × ExecutionContribution E R) : Nat :=
  entry.2.contributionId.scopeId

/-- The usage that the scope itself contributed. -/
def ownTotal (t : FactTree E R T) (scope : Nat) : UsageState :=
  (t.contributions.entries.map fun entry =>
    if scopeOf entry = scope then usageOf entry.2 else 0).sum

def children (t : FactTree E R T) (scope : Nat) : List Nat :=
  (List.range t.scopes.length).filter fun child =>
    t.scopes[child]?.any fun s => s.parent = some scope

theorem foldl_add_eq {α : Type} (amount : α → UsageState) (start : UsageState) (values : List α) :
    values.foldl (fun state value => state + amount value) start =
      start + (values.map amount).sum := by
  induction values generalizing start with
  | nil => exact (add_zero start).symm
  | cons value values ih => rw [List.foldl_cons, ih, List.map_cons, List.sum_cons, add_assoc]

theorem scopeTotal_eq (t : FactTree E R T) (scope : Nat) :
    scopeTotal t scope = (t.contributions.entries.map fun entry =>
      if isDescendant t.scopes scope (scopeOf entry) then usageOf entry.2 else 0).sum := by
  have step : (fun (state : UsageState) (entry : ContributionId × ExecutionContribution E R) =>
      match entry.2.usage with
      | none => state
      | some usage =>
        if isDescendant t.scopes scope entry.2.contributionId.scopeId then mergeUsage state usage
        else state) = fun state entry => state +
          if isDescendant t.scopes scope (scopeOf entry) then usageOf entry.2 else 0 := by
    funext state entry
    rw [usageOf, scopeOf]
    cases entry.2.usage with
    | none =>
      dsimp only [Option.elim_none]
      rw [ite_self, add_zero]
    | some usage =>
      dsimp only [Option.elim_some]
      split_ifs
      · exact mergeUsage_eq state usage
      · exact (add_zero state).symm
  rw [scopeTotal, step, foldl_add_eq]
  exact zero_add _

end Model

section Scopes
variable {scopes scopes' : List ExecutionScope}

/-- Only the parents of the scopes matter. -/
theorem isDescendant_congr (same : scopes.map ExecutionScope.parent = scopes'.map
    ExecutionScope.parent) (ancestor scope : Nat) :
    isDescendant scopes ancestor scope = isDescendant scopes' ancestor scope := by
  induction scope using Nat.strongRecOn with
  | ind scope ih =>
    have parents : scopes[scope]?.map ExecutionScope.parent =
        scopes'[scope]?.map ExecutionScope.parent := by
      rw [← List.getElem?_map, ← List.getElem?_map, same]
    rw [isDescendant.eq_1 scopes, isDescendant.eq_1 scopes']
    cases found : scopes[scope]? with
    | none =>
      rw [found, Option.map_none] at parents
      rw [Option.map_eq_none_iff.mp parents.symm]
    | some s =>
      rw [found, Option.map_some] at parents
      obtain ⟨s', found', equal⟩ := Option.map_eq_some_iff.mp parents.symm
      rw [found']
      dsimp only
      rw [equal]
      cases s.parent with
      | none => rfl
      | some parent =>
        dsimp only
        split_ifs with before
        · rw [ih parent before]
        · rfl

/-- The scope is the ancestor itself, or below the one child of the ancestor that leads to it. -/
theorem isDescendant_iff {scope : Nat} {s : ExecutionScope} (found : scopes[scope]? = some s)
    (ancestor : Nat) : isDescendant scopes ancestor scope = true ↔
      scope = ancestor ∨ ∃ parent, s.parent = some parent ∧ parent < scope ∧
        isDescendant scopes ancestor parent = true := by
  rw [isDescendant, found]
  dsimp only
  cases held : s.parent with
  | none => simp
  | some parent =>
    dsimp only
    rw [Bool.or_eq_true, beq_iff_eq]
    refine or_congr Iff.rfl ⟨fun below => ?_, ?_⟩
    · split_ifs at below with before
      exact ⟨parent, rfl, before, below⟩
    · rintro ⟨parent', same, before, below⟩
      cases same
      rw [if_pos before, below]

/-- How many of the scopes hold the scope as a child of the ancestor that leads to it. -/
theorem exists_child {ancestor scope : Nat} (other : scope ≠ ancestor)
    (below : isDescendant scopes ancestor scope = true) :
    ∃ child s, scopes[child]? = some s ∧ s.parent = some ancestor ∧ ancestor < child ∧
      isDescendant scopes child scope = true := by
  induction scope using Nat.strongRecOn with
  | ind scope ih =>
    cases found : scopes[scope]? with
    | none =>
      rw [isDescendant, found] at below
      cases below
    | some s =>
      obtain here | ⟨parent, held, before, above⟩ := (isDescendant_iff found ancestor).mp below
      · exact absurd here other
      · by_cases first : parent = ancestor
        · subst first
          exact ⟨scope, s, found, held, before, isDescendant_self found⟩
        · obtain ⟨child, s', found', held', before', above'⟩ := ih parent before first above
          exact ⟨child, s', found', held', before', isDescendant_child found held before above'⟩

theorem isDescendant_le {ancestor scope : Nat} (below : isDescendant scopes ancestor scope = true) :
    ancestor ≤ scope := by
  induction scope using Nat.strongRecOn with
  | ind scope ih =>
    cases found : scopes[scope]? with
    | none =>
      rw [isDescendant, found] at below
      cases below
    | some s =>
      obtain here | ⟨parent, -, before, above⟩ := (isDescendant_iff found ancestor).mp below
      · exact here.ge
      · exact (ih parent before above).trans before.le

/-- Two scopes above a third are one above the other. -/
theorem isDescendant_linear {a b scope : Nat} (le : a ≤ b)
    (first : isDescendant scopes a scope = true) (second : isDescendant scopes b scope = true) :
    isDescendant scopes a b = true := by
  induction scope using Nat.strongRecOn with
  | ind scope ih =>
    cases found : scopes[scope]? with
    | none =>
      rw [isDescendant, found] at first
      cases first
    | some s =>
      obtain rfl | ⟨parent, held, before, above⟩ := (isDescendant_iff found b).mp second
      · exact first
      · obtain rfl | ⟨parent', held', -, above'⟩ := (isDescendant_iff found a).mp first
        · have := isDescendant_le above
          omega
        · cases held.symm.trans held'
          exact ih parent before above' above

theorem isDescendant_trans {ancestor child scope : Nat} {c a : ExecutionScope}
    (found : scopes[child]? = some c) (held : c.parent = some ancestor) (before : ancestor < child)
    (here : scopes[ancestor]? = some a) (below : isDescendant scopes child scope = true) :
    isDescendant scopes ancestor scope = true := by
  induction scope using Nat.strongRecOn with
  | ind scope ih =>
    cases stored : scopes[scope]? with
    | none =>
      rw [isDescendant, stored] at below
      cases below
    | some s =>
      obtain rfl | ⟨parent, held', before', above⟩ := (isDescendant_iff stored child).mp below
      · exact isDescendant_child found held before (isDescendant_self here)
      · exact isDescendant_child stored held' before' (ih parent before' above)

theorem child_unique {ancestor scope a b : Nat} {s s' : ExecutionScope}
    (found : scopes[a]? = some s) (found' : scopes[b]? = some s') (held : s.parent = some ancestor)
    (held' : s'.parent = some ancestor) (before : ancestor < a) (before' : ancestor < b)
    (first : isDescendant scopes a scope = true) (second : isDescendant scopes b scope = true) :
    a = b := by
  have wrong {a b : Nat} {s' : ExecutionScope} (found' : scopes[b]? = some s')
      (held' : s'.parent = some ancestor) (before : ancestor < a)
      (below : isDescendant scopes a b = true) : b = a := by
    refine ((isDescendant_iff found' a).mp below).resolve_right ?_
    rintro ⟨parent, same, -, above⟩
    cases held'.symm.trans same
    have := isDescendant_le above
    omega
  obtain le | le := Nat.le_total a b
  · exact (wrong found' held' before (isDescendant_linear le first second)).symm
  · exact wrong found held before' (isDescendant_linear le second first)

end Scopes

section Totals

theorem sum_comm {α β : Type} (amount : α → β → UsageState) (rows : List α) (columns : List β) :
    (rows.map fun a => (columns.map (amount a)).sum).sum =
      (columns.map fun b => (rows.map fun a => amount a b).sum).sum := by
  induction rows with
  | nil => simp
  | cons a rows ih =>
    rw [List.map_cons, List.sum_cons, ih, ← List.sum_map_add]
    rfl

/-- An unknown among the amounts makes the sum unknown. -/
theorem sum_unknown {amounts : List UsageState} (mem : .unknown ∈ amounts) :
    amounts.sum = .unknown := by
  obtain ⟨before, after, rfl⟩ := List.append_of_mem mem
  rw [List.sum_append, List.sum_cons, unknown_add, add_comm, unknown_add]

theorem known_add {state other : UsageState} {total : Usage} (h : state + other = .known total) :
    (state = .absent ∧ other = .known total) ∨ (state = .known total ∧ other = .absent) ∨
      ∃ u v, state = .known u ∧ other = .known v ∧ total = mergeKnownUsage u v := by
  cases state with
  | absent =>
    rw [show UsageState.absent + other = other from zero_add other] at h
    exact .inl ⟨rfl, h⟩
  | known u =>
    cases other with
    | absent => exact .inr (.inl ⟨h, rfl⟩)
    | known v => exact .inr (.inr ⟨u, v, rfl, rfl, (UsageState.known.inj h).symm⟩)
    | unknown => cases h
  | unknown => cases (unknown_add other).symm.trans h

def tokens : List (Usage → Option Nat) :=
  [Usage.inputTokens, Usage.outputTokens, Usage.totalTokens]

theorem mergeKnownUsage_none {component : Usage → Option Nat} (listed : component ∈ tokens)
    (u v : Usage) (h : component u = none ∨ component v = none) :
    component (mergeKnownUsage u v) = none := by
  have merges : component (mergeKnownUsage u v) = mergeTokens (component u) (component v) := by
    simp only [tokens, List.mem_cons, List.not_mem_nil, or_false] at listed
    obtain rfl | rfl | rfl := listed <;> rfl
  rw [merges]
  obtain absent | absent := h
  · rw [absent]
    rfl
  · rw [absent, mergeTokens_comm]
    rfl

/-- A token count that is absent in a known amount is absent in a sum that is known. -/
theorem sum_none {component : Usage → Option Nat} (listed : component ∈ tokens)
    {amounts : List UsageState} {usage total : Usage} (mem : .known usage ∈ amounts)
    (absent : component usage = none) (known : amounts.sum = .known total) :
    component total = none := by
  induction amounts generalizing total with
  | nil => cases mem
  | cons amount amounts ih =>
    rw [List.sum_cons] at known
    obtain ⟨rfl, rest⟩ | ⟨rfl, rest⟩ | ⟨u, v, rfl, rest, rfl⟩ := known_add known
    · exact ih ((List.mem_cons.mp mem).resolve_left nofun) rest
    · obtain same | later := List.mem_cons.mp mem
      · cases same
        exact absent
      · exfalso
        obtain ⟨before, after, rfl⟩ := List.append_of_mem later
        rw [List.sum_append, List.sum_cons] at rest
        have lhs : (UsageState.known usage) + (before.sum + after.sum) = .absent := by
          rw [← rest, add_left_comm]
        cases state : before.sum + after.sum with
        | absent =>
          rw [state] at lhs
          cases lhs
        | known v =>
          rw [state] at lhs
          cases lhs
        | unknown =>
          rw [state] at lhs
          cases lhs
    · obtain same | later := List.mem_cons.mp mem
      · cases same
        exact mergeKnownUsage_none listed _ _ (.inl absent)
      · exact mergeKnownUsage_none listed _ _ (.inr (ih later rest))

end Totals

section Runs
variable {E R T : Type} {bounded : R → R} {t t' : FactTree E R T}

/-- Every scope is below the root, every contribution comes from a scope, and the running total is
the total of the contributions. -/
structure Rooted (t : FactTree E R T) : Prop where
  lawful : Lawful t.toTree
  root : ∃ s, t.scopes[0]? = some s
  below : ∀ (i : Nat) (s : ExecutionScope), t.scopes[i]? = some s → i = 0 ∨ ∃ p, s.parent = some p
  known : ∀ entry ∈ t.contributions.entries, ∃ s, t.scopes[scopeOf entry]? = some s
  total : t.usage = (t.contributions.entries.map fun entry => usageOf entry.2).sum

theorem Rooted.grow (rooted : Rooted t) (lawful : Lawful t'.toTree) (grows : Grows t.toTree t'.toTree)
    (contributions : t'.contributions = t.contributions) (usage : t'.usage = t.usage) :
    Rooted t' where
  lawful := lawful
  root := by
    obtain ⟨s, found⟩ := rooted.root
    obtain ⟨s', found', -⟩ := grows.kept 0 s found
    exact ⟨s', found'⟩
  below i s' found' := by
    cases found : t.scopes[i]? with
    | none =>
      obtain ⟨p, -, held, -⟩ := grows.fresh i s' found' found
      exact .inr ⟨p, held⟩
    | some s =>
      obtain ⟨s'', found'', held, -⟩ := grows.kept i s found
      cases found'.symm.trans found''
      rw [held]
      exact rooted.below i s found
  known entry mem := by
    rw [contributions] at mem
    obtain ⟨s, found⟩ := rooted.known entry mem
    obtain ⟨s', found', -⟩ := grows.kept _ s found
    exact ⟨s', found'⟩
  total := by rw [usage, contributions, rooted.total]

/-- A step of the logs. -/
theorem Rooted.same (rooted : Rooted t) (scopes : t'.toTree.scopes = t.toTree.scopes)
    (budget : t'.toTree.budget = t.toTree.budget) (closers : t'.toTree.closers = t.toTree.closers)
    (childRuns : t'.toTree.childRunsUsed = t.toTree.childRunsUsed)
    (nestedTools : t'.toTree.nestedToolsUsed = t.toTree.nestedToolsUsed)
    (contributions : t'.contributions = t.contributions) (usage : t'.usage = t.usage) :
    Rooted t' :=
  rooted.grow (rooted.lawful.congr scopes budget closers childRuns nestedTools)
    ((Grows.refl t.toTree).congr scopes budget) contributions usage

theorem Rooted.put (rooted : Rooted t) {contribution : ExecutionContribution E R}
    {s : ExecutionScope} (found : t.scopes[contribution.contributionId.scopeId]? = some s)
    (fresh : t.contributions.get contribution.contributionId = none)
    (lawful : Lawful t'.toTree) (scopes : t'.toTree.scopes = t.toTree.scopes)
    (contributions : t'.contributions =
      t.contributions.put contribution.contributionId contribution)
    (usage : t'.usage = contribution.usage.elim t.usage (mergeUsage t.usage)) : Rooted t' := by
  have entries : t'.contributions.entries =
      t.contributions.entries ++ [(contribution.contributionId, contribution)] := by
    rw [contributions, Dict.put_eq_append contribution fresh]
  refine ⟨lawful, scopes ▸ rooted.root, scopes ▸ rooted.below, fun entry mem => ?_, ?_⟩
  · rw [entries] at mem
    rw [scopes]
    obtain old | new := List.mem_append.mp mem
    · exact rooted.known entry old
    · cases List.mem_singleton.mp new
      exact ⟨s, found⟩
  · rw [usage, entries, List.map_append, List.sum_append, ← rooted.total, List.map_singleton,
      List.sum_singleton, usageOf]
    cases contribution.usage with
    | none => exact (add_zero _).symm
    | some usage => exact mergeUsage_eq t.usage usage

theorem rooted_create (budget : ExecutionBudgetConfig) (maxExecutionRecords : Nat) :
    Rooted (FactTree.create budget maxExecutionRecords : FactTree E R T) where
  lawful := lawful_create budget
  root := ⟨_, rfl⟩
  below i s found := by
    cases i with
    | zero => exact .inl rfl
    | succ i => cases found
  known := nofun
  total := rfl

theorem Rooted.isDescendant_root (rooted : Rooted t) {i : Nat} {s : ExecutionScope}
    (found : t.scopes[i]? = some s) : isDescendant t.scopes 0 i = true := by
  induction i using Nat.strongRecOn generalizing s with
  | ind i ih =>
    obtain rfl | ⟨p, held⟩ := rooted.below i s found
    · exact isDescendant_self found
    · have before := rooted.lawful.parents i s p found held
      have inside : i < t.scopes.length := (List.getElem?_eq_some_iff.mp found).1
      obtain ⟨parent, stored⟩ : ∃ parent, t.scopes[p]? = some parent :=
        ⟨_, List.getElem?_eq_getElem (before.trans inside)⟩
      exact isDescendant_child found held before (ih p before stored)

/-- The contributions at or below a scope are its own and those at or below one of its children. -/
theorem Rooted.split (rooted : Rooted t) {x scope : Nat} {s : ExecutionScope}
    (found : t.scopes[scope]? = some s) {known : ExecutionScope} (here : t.scopes[x]? = some known)
    (usage : UsageState) :
    (if isDescendant t.scopes x scope then usage else 0) = (if scope = x then usage else 0) +
      ((children t x).map fun child =>
        if isDescendant t.scopes child scope then usage else 0).sum := by
  have listed (child : Nat) : child ∈ children t x ↔
      ∃ c, t.scopes[child]? = some c ∧ c.parent = some x := by
    rw [children, List.mem_filter, List.mem_range, Option.any_eq_true]
    simp only [decide_eq_true_eq]
    exact ⟨And.right, fun ⟨c, held⟩ => ⟨(List.getElem?_eq_some_iff.mp held.1).1, c, held⟩⟩
  by_cases same : scope = x
  · subst same
    have none_ : ∀ child ∈ children t scope,
        (if isDescendant t.scopes child scope then usage else 0) = 0 := by
      intro child mem
      obtain ⟨c, stored, held⟩ := (listed child).mp mem
      rw [if_neg]
      intro below
      have := isDescendant_le below
      have := rooted.lawful.parents child c scope stored held
      omega
    rw [if_pos (isDescendant_self found), if_pos rfl, List.map_congr_left none_]
    simp
  · rw [if_neg same, zero_add]
    split_ifs with below
    · obtain ⟨child, c, stored, held, before, above⟩ := exists_child same below
      have others : ∀ other, other ≠ child → other ∈ children t x →
          (if isDescendant t.scopes other scope then usage else 0) = 0 := by
        intro other differs mem
        obtain ⟨o, stored', held'⟩ := (listed other).mp mem
        rw [if_neg]
        intro above'
        exact differs (child_unique stored' stored held' held
          (rooted.lawful.parents other o x stored' held') before above' above)
      have once : (children t x).count child = 1 :=
        List.count_eq_one_of_mem (List.nodup_range.filter _) ((listed child).mpr ⟨c, stored, held⟩)
      rw [List.sum_map_eq_nsmul_single child _ others, once, one_nsmul, if_pos above]
    · have none_ : ∀ child ∈ children t x,
          (if isDescendant t.scopes child scope then usage else 0) = 0 := by
        intro child mem
        obtain ⟨c, stored, held⟩ := (listed child).mp mem
        rw [if_neg]
        intro above
        refine below (isDescendant_trans stored held ?_ here above)
        exact rooted.lawful.parents child c x stored held
      rw [List.map_congr_left none_]
      simp

variable [DecidableEq E] [DecidableEq R]

theorem rooted_step (t : FactTree E R T) (action : FactAction E R T) (t' : FactTree E R T)
    (rooted : Rooted t) (stepped : factStep bounded t action = some t') : Rooted t' := by
  cases action with
  | scopes action =>
    obtain ⟨tree, inner, rfl⟩ := Option.map_eq_some_iff.mp stepped
    obtain ⟨lawful, grows⟩ := lawful_step rooted.lawful inner
    exact rooted.grow lawful grows rfl rfl
  | addToolRecord scope record =>
    cases stepped
    exact rooted.same rfl rfl rfl rfl rfl rfl rfl
  | addRetryBlocker blocker =>
    cases stepped
    have fields : (t.toTree.addRetryBlocker blocker).scopes = t.scopes ∧
        (t.toTree.addRetryBlocker blocker).budget = t.budget ∧
        (t.toTree.addRetryBlocker blocker).closers = t.closers ∧
        (t.toTree.addRetryBlocker blocker).childRunsUsed = t.childRunsUsed ∧
        (t.toTree.addRetryBlocker blocker).nestedToolsUsed = t.nestedToolsUsed := by
      rw [Tree.addRetryBlocker]
      split_ifs <;> exact ⟨rfl, rfl, rfl, rfl, rfl⟩
    obtain ⟨scopes, budget, closers, childRuns, nestedTools⟩ := fields
    exact rooted.same scopes budget closers childRuns nestedTools rfl rfl
  | markCommitted effectIds =>
    cases stepped
    exact rooted.same rfl rfl rfl rfl rfl rfl rfl
  | contribute contribution settlement =>
    cases stepped
    obtain ⟨-, error, done⟩ | ⟨-, -, done⟩ | ⟨-, -, error, done⟩ |
      ⟨⟨s, found, -⟩, fresh, -, t', done, merged⟩ |
      ⟨⟨⟨s, found, -⟩, fresh, -⟩, error, t', done, contributions, usage, tree⟩ :=
        @contribute_cases _ _ _ _ _ bounded t contribution settlement
    · rw [done]
      exact rooted
    · rw [done]
      exact rooted
    · rw [done]
      exact rooted
    · rw [done]
      refine rooted.put found fresh ?_ (by rw [merged.scopes]) merged.contributions merged.usage
      rw [merged.scopes]
      exact rooted.lawful.congr rfl rfl rfl rfl rfl
    · rw [done]
      exact rooted.put found fresh (tree ▸ rooted.lawful) (by rw [tree]) contributions usage

theorem rooted_run {budget : ExecutionBudgetConfig} {maxExecutionRecords : Nat}
    {actions : List (FactAction E R T)}
    (ran : run (factStep bounded) (FactTree.create budget maxExecutionRecords) actions = some t) :
    Rooted t :=
  run_invariant_all (fun t action t' rooted stepped => rooted_step t action t' rooted stepped)
    (rooted_create budget maxExecutionRecords) ran

omit [DecidableEq E] [DecidableEq R] in
/-- The total of a scope is its own with those of its children. -/
theorem Rooted.scopeTotal_split (rooted : Rooted t) {x : Nat} {known : ExecutionScope}
    (here : t.scopes[x]? = some known) :
    scopeTotal t x = ownTotal t x + ((children t x).map (scopeTotal t)).sum := by
  have each : ∀ entry ∈ t.contributions.entries,
      (if isDescendant t.scopes x (scopeOf entry) then usageOf entry.2 else 0) =
        (if scopeOf entry = x then usageOf entry.2 else 0) + ((children t x).map fun child =>
          if isDescendant t.scopes child (scopeOf entry) then usageOf entry.2 else 0).sum := by
    intro entry mem
    obtain ⟨s, found⟩ := rooted.known entry mem
    exact rooted.split found here _
  have totals : (children t x).map (scopeTotal t) = (children t x).map fun child =>
      (t.contributions.entries.map fun entry =>
        if isDescendant t.scopes child (scopeOf entry) then usageOf entry.2 else 0).sum :=
    List.map_congr_left fun child _ => scopeTotal_eq t child
  rw [scopeTotal_eq, List.map_congr_left each, List.sum_map_add, totals, ownTotal, sum_comm]

omit [DecidableEq E] [DecidableEq R] in
theorem Rooted.scopeTotal_root (rooted : Rooted t) : scopeTotal t 0 = t.usage := by
  rw [scopeTotal_eq, rooted.total]
  refine congrArg List.sum (List.map_congr_left fun entry mem => ?_)
  obtain ⟨s, found⟩ := rooted.known entry mem
  rw [if_pos (rooted.isDescendant_root found)]

omit [DecidableEq E] [DecidableEq R] in
/-- The amount of a contribution is among those that the total of an enclosing scope adds up. -/
theorem mem_amounts {entry : ContributionId × ExecutionContribution E R}
    (mem : entry ∈ t.contributions.entries) {x : Nat}
    (inside : isDescendant t.scopes x (scopeOf entry) = true) :
    usageOf entry.2 ∈ t.contributions.entries.map fun entry =>
      if isDescendant t.scopes x (scopeOf entry) then usageOf entry.2 else 0 :=
  List.mem_map.mpr ⟨entry, mem, if_pos inside⟩

theorem UsageState.result_known {state : UsageState} {total : Usage}
    (h : UsageState.result state = (some total, some true)) : state = .known total := by
  cases state with
  | absent => cases h
  | known usage =>
    cases h
    rfl
  | unknown => cases h

/-- What the totals of a tree are, after any run: they do not depend on the order in which the
contributions arrived, the root's is that of the Run, each is made of the scope's own usage and its
children's totals, an unknown contribution makes it unknown and an absent token count stays absent. -/
theorem usage_aggregates {budget : ExecutionBudgetConfig} {maxExecutionRecords : Nat}
    {actions : List (FactAction E R T)}
    (ran : run (factStep bounded) (FactTree.create budget maxExecutionRecords) actions = some t) :
    (∀ (budget' : ExecutionBudgetConfig) (max' : Nat) (actions' : List (FactAction E R T))
      (other : FactTree E R T),
      run (factStep bounded) (FactTree.create budget' max') actions' = some other →
      t.scopes.map ExecutionScope.parent = other.scopes.map ExecutionScope.parent →
      t.contributions.entries.Perm other.contributions.entries →
        FactTree.usageResult t = FactTree.usageResult other ∧
          ∀ x, FactTree.usageForScope t x = FactTree.usageForScope other x) ∧
    FactTree.usageForScope t 0 = FactTree.usageResult t ∧
    (∀ x < t.scopes.length,
      FactTree.usageForScope t x = UsageState.result (scopeTotal t x) ∧
        scopeTotal t x = ownTotal t x + ((children t x).map (scopeTotal t)).sum) ∧
    ∀ entry ∈ t.contributions.entries, ∀ x,
      isDescendant t.scopes x (scopeOf entry) = true →
        (entry.2.usage = some .unknown → FactTree.usageForScope t x = (none, some false)) ∧
          ∀ usage, entry.2.usage = some (.known usage) → ∀ component ∈ tokens,
            component usage = none → ∀ total,
              FactTree.usageForScope t x = (some total, some true) → component total = none := by
  have rooted := rooted_run ran
  refine ⟨fun budget' max' actions' other ran' parents order => ⟨?_, fun x => ?_⟩, ?_, ?_, ?_⟩
  · rw [FactTree.usageResult, FactTree.usageResult, rooted.total, (rooted_run ran').total,
      (order.map _).sum_eq]
  · rw [FactTree.usageForScope, FactTree.usageForScope, scopeTotal_eq, scopeTotal_eq,
      (order.map _).sum_eq]
    simp only [isDescendant_congr parents]
  · rw [FactTree.usageForScope, FactTree.usageResult, rooted.scopeTotal_root]
  · intro x inside
    exact ⟨rfl, rooted.scopeTotal_split (List.getElem?_eq_getElem inside)⟩
  · intro entry mem x inside
    have amount := mem_amounts mem inside
    refine ⟨fun unknown => ?_, fun usage known component listed absent total result => ?_⟩
    · rw [usageOf, unknown] at amount
      rw [FactTree.usageForScope, scopeTotal_eq, sum_unknown amount]
      rfl
    · rw [usageOf, known] at amount
      rw [FactTree.usageForScope, scopeTotal_eq] at result
      exact sum_none listed amount absent (UsageState.result_known result)

section Example

/-- A tool scope below the root contributes tokens of input only, the root of both kinds. -/
def counted : List (FactAction Nat Nat Nat) := [
  .scopes (.childTool 0),
  .contribute { contributionId := ⟨1, 0⟩, usage := some (.known { inputTokens := some 3 }) } false,
  .contribute { contributionId := ⟨0, 0⟩, usage := some (.known ⟨some 1, some 2, some 3⟩) } false]

theorem usage_aggregates_counted : ∃ t, run (factStep id) (FactTree.create {} 8) counted = some t ∧
    FactTree.usageForScope t 0 = FactTree.usageResult t ∧
    FactTree.usageResult t = (some { inputTokens := some 4 }, some true) := by
  have ran : ∃ t, run (factStep id) (FactTree.create {} 8) counted = some t := ⟨_, rfl⟩
  obtain ⟨t, ran⟩ := ran
  refine ⟨t, ran, (usage_aggregates ran).2.1, ?_⟩
  cases ran
  decide

end Example

end Runs

end RoboAgent.UsageTotals
