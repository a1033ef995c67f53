import RoboAgent.ScopeLifecycle

/-! Cleanup before freeze. The cleanup of a scope takes all its resources at once; as long as no
close_scope call comes to a scope that another one is cleaning up, a call that returns has seen
every resource of its subtree closed, in last-in-first-out order. -/

namespace RoboAgent.ScopeCleanup
open RoboAgent.ExecutionTree RoboAgent.ExecutionTree.Tree RoboAgent.FalliblePrograms RoboAgent.Runs
open RoboAgent.ScopeLifecycle

variable {t t' : Tree}

/-- The resources of a scope whose cleanup has finished, in order. -/
def disposedOf (t : Tree) (scope : Nat) : List Resource :=
  (t.disposed.filter fun d => d.scope = scope).map Disposal.resource

/-- The errors and blockers of a finished cleanup are in the tree. -/
def Recorded (t : Tree) (d : Disposal) : Prop :=
  match d.ending with
  | .closed => True
  | .forced fault => cleanupError d.scope d.resource fault ∈ t.cleanupErrors
  | .failed fault => cleanupError d.scope d.resource fault ∈ t.cleanupErrors ∧
      cleanupBlocker d.scope ∈ t.retryBlockers

/-- A close_scope call is in the cleanup of the scope, with these resources still to close. -/
def Draining (t : Tree) (closer scope : Nat) (pending : List Resource) : Prop :=
  ∃ c raised left, t.closers[closer]? = some c ∧ c.stage = .draining scope pending raised left

/-- No call comes to the cleanup of a scope that another one is cleaning up. -/
def Undisturbed (t : Tree) : Action → Prop
  | .advance k _ => ∀ c scope left, t.closers[k]? = some c → c.stage = .sweeping (scope :: left) →
      ∀ other pending, ¬Draining t other scope pending
  | _ => True

/-- Whether a call in flight is in the cleanup of the scope. -/
def isDrained (t : Tree) (scope : Nat) : Bool := t.closers.any fun c =>
  match c.stage with
  | .draining drained _ _ _ => drained == scope
  | _ => false

theorem isDrained_iff {scope : Nat} :
    isDrained t scope = true ↔ ∃ k pending, Draining t k scope pending := by
  rw [isDrained, List.any_eq_true]
  constructor
  · rintro ⟨c, mem, here⟩
    obtain ⟨k, found⟩ := List.mem_iff_getElem?.mp mem
    cases stage : c.stage with
    | draining drained pending raised left =>
      rw [stage] at here
      cases beq_iff_eq.mp here
      exact ⟨k, pending, c, raised, left, found, stage⟩
    | settling left => rw [stage] at here; cases here
    | sweeping left => rw [stage] at here; cases here
    | returned => rw [stage] at here; cases here
    | raised => rw [stage] at here; cases here
  · rintro ⟨k, pending, c, raised, left, found, stage⟩
    refine ⟨c, List.mem_of_getElem? found, ?_⟩
    rw [stage]
    exact beq_self_eq_true scope

/-- The scope whose cleanup the next step of the call begins. -/
def nextSwept (t : Tree) (k : Nat) : Option Nat :=
  match t.closers[k]?.map Closer.stage with
  | some (.sweeping (scope :: _)) => some scope
  | _ => none

theorem nextSwept_eq_some {k scope : Nat} : nextSwept t k = some scope ↔
    ∃ c left, t.closers[k]? = some c ∧ c.stage = .sweeping (scope :: left) := by
  rw [nextSwept]
  constructor
  · intro h
    split at h
    · rename_i left found
      cases h
      obtain ⟨c, stored, stage⟩ := Option.map_eq_some_iff.mp found
      exact ⟨c, left, stored, stage⟩
    · cases h
  · rintro ⟨c, left, found, stage⟩
    rw [found, Option.map_some, stage]

instance (t : Tree) (a : Action) : Decidable (Undisturbed t a) :=
  match a with
  | .advance k _ => decidable_of_iff (∀ scope ∈ nextSwept t k, isDrained t scope = false) <| by
      constructor
      · intro h c scope left found stage other pending draining
        have none := h scope (nextSwept_eq_some.mpr ⟨c, left, found, stage⟩)
        exact ne_true_of_eq_false none (isDrained_iff.mpr ⟨other, pending, draining⟩)
      · intro h scope next
        obtain ⟨c, left, found, stage⟩ := nextSwept_eq_some.mp next
        rw [Bool.eq_false_iff]
        intro drained
        obtain ⟨other, pending, draining⟩ := isDrained_iff.mp drained
        exact h c scope left found stage other pending draining
  | .childTool _ | .newChildRunScope _ | .acceptNestedTool | .registerResource _ _
  | .enterSettlement _ | .leaveSettlement _ | .closeScope _ | .cancel _ => .isTrue trivial

structure Complete (t : Tree) (scope : Nat) (s : ExecutionScope) : Prop where
  found : t.scopes[scope]? = some s
  taken : s.resources = []
  disposed : disposedOf t scope = s.registered.reverse

/-- The scopes that a call has still to clean up. -/
def Closer.remaining (c : Closer) : List Nat :=
  match c.stage with
  | .settling _ | .raised => c.descendants
  | .sweeping left => left
  | .draining scope _ _ left => scope :: left
  | .returned => []

/-- What was registered in a scope is disposed of, or left to the call in its cleanup, or left in
the scope. -/
structure Balanced (t : Tree) (scope : Nat) (s : ExecutionScope) : Prop where
  free : (∀ k p, ¬Draining t k scope p) →
    disposedOf t scope ++ s.resources.reverse = s.registered.reverse
  held : ∀ k p, Draining t k scope p →
    s.resources = [] ∧ disposedOf t scope ++ p = s.registered.reverse

structure Tidy (t : Tree) : Prop where
  lawful : Lawful t
  sole : ∀ i j x p q, Draining t i x p → Draining t j x q → i = j
  balanced : ∀ (x : Nat) (s : ExecutionScope), t.scopes[x]? = some s → Balanced t x s
  unopened : ∀ (x : Nat) (s : ExecutionScope), t.scopes[x]? = some s → s.state = .opened →
    disposedOf t x = []
  known : ∀ d ∈ t.disposed, d.scope < t.scopes.length
  passed : ∀ c ∈ t.closers, ∃ passed, c.descendants = passed ++ Closer.remaining c ∧
    ∀ x ∈ passed, ∃ s, Complete t x s
  recorded : ∀ d ∈ t.disposed, Recorded t d

theorem disposedOf_eq_nil (known : ∀ d ∈ t.disposed, d.scope < t.scopes.length) {x : Nat}
    (fresh : t.scopes.length ≤ x) : disposedOf t x = [] := by
  rw [disposedOf, List.map_eq_nil_iff, List.filter_eq_nil_iff]
  intro d mem here
  have := known d mem
  have := of_decide_eq_true here
  omega

/-- A step that neither closes nor takes anything: resources are registered in OPEN scopes only. -/
structure Quiet (t t' : Tree) : Prop where
  disposed : t'.disposed = t.disposed
  cleanupErrors : t'.cleanupErrors = t.cleanupErrors
  retryBlockers : t'.retryBlockers = t.retryBlockers
  kept : ∀ (x : Nat) (s : ExecutionScope), t.scopes[x]? = some s → ∃ s' : ExecutionScope,
    t'.scopes[x]? = some s' ∧ ((s'.resources = s.resources ∧ s'.registered = s.registered) ∨
      s.state = .opened ∧ ∃ r, s'.resources = s.resources ++ [r] ∧
        s'.registered = s.registered ++ [r])
  fresh : ∀ (x : Nat) (s' : ExecutionScope), t'.scopes[x]? = some s' → t.scopes[x]? = none →
    s'.resources = [] ∧ s'.registered = []

theorem Quiet.disposedOf (quiet : Quiet t t') (x : Nat) :
    ScopeCleanup.disposedOf t' x = ScopeCleanup.disposedOf t x := by
  rw [ScopeCleanup.disposedOf, ScopeCleanup.disposedOf, quiet.disposed]

theorem Quiet.recorded (quiet : Quiet t t') {d : Disposal} (h : Recorded t d) : Recorded t' d := by
  unfold Recorded at h ⊢
  rw [quiet.cleanupErrors, quiet.retryBlockers]
  exact h

theorem Quiet.complete (quiet : Quiet t t') {x : Nat} {s : ExecutionScope} (shut : IsShut t x)
    (h : Complete t x s) : ∃ s', Complete t' x s' := by
  obtain ⟨s', found', same⟩ := quiet.kept x s h.found
  obtain ⟨resources, registered⟩ := same.resolve_right fun ⟨opened, _⟩ => by
    obtain ⟨s'', found, shut⟩ := shut
    cases h.found.symm.trans found
    exact shut opened
  exact ⟨s', found', resources.trans h.taken, by
    rw [quiet.disposedOf, registered, h.disposed]⟩

/-- A scope in the cleanup of a call is not OPEN. -/
theorem shut_of_draining (h : Lawful t) {k x : Nat} {p : List Resource}
    (draining : Draining t k x p) : IsShut t x := by
  obtain ⟨c, raised, left, found, here⟩ := draining
  have following := h.closers c (List.mem_of_getElem? found)
  obtain ⟨-, passed, split, -⟩ := following.onCourse here
  exact following.shut x (split ▸ List.mem_append_right _ List.mem_cons_self)

theorem passed_shut (h : Lawful t) {c : Closer} (mem : c ∈ t.closers) {passed rest : List Nat}
    (split : c.descendants = passed ++ rest) : ∀ x ∈ passed, IsShut t x := fun x here =>
  (h.closers c mem).shut x (split ▸ List.mem_append_left _ here)

/-- Steps of other tasks keep the cleanup in order. -/
theorem Tidy.quiet (h : Tidy t) (lawful : Lawful t') (grows : Grows t t') (quiet : Quiet t t')
    (closers : t'.closers = t.closers) : Tidy t' := by
  have same (k x : Nat) (p : List Resource) : Draining t' k x p ↔ Draining t k x p := by
    rw [Draining, Draining, closers]
  exact {
    lawful
    sole := fun i j x p q first second => h.sole i j x p q ((same ..).mp first) ((same ..).mp second)
    balanced := fun x s' found' => by
      cases found : t.scopes[x]? with
      | none =>
        obtain ⟨resources, registered⟩ := quiet.fresh x s' found' found
        have nothing := disposedOf_eq_nil h.known (List.getElem?_eq_none_iff.mp found)
        refine ⟨fun _ => ?_, fun k p draining => ?_⟩
        · rw [quiet.disposedOf, resources, registered, nothing]
          rfl
        · obtain ⟨s, found', -⟩ := shut_of_draining h.lawful ((same ..).mp draining)
          cases found.symm.trans found'
      | some s =>
        have before := h.balanced x s found
        obtain ⟨s'', found'', kept⟩ := quiet.kept x s found
        cases found'.symm.trans found''
        refine ⟨fun nobody => ?_, fun k p draining => ?_⟩
        · have free := before.free fun k p draining => nobody k p ((same ..).mpr draining)
          rw [quiet.disposedOf]
          obtain ⟨resources, registered⟩ | ⟨opened, r, resources, registered⟩ := kept
          · rw [resources, registered, free]
          · have nothing := h.unopened x s found opened
            rw [nothing, List.nil_append] at free
            rw [nothing, resources, registered, List.reverse_append, List.reverse_append, free]
            rfl
        · have draining := (same ..).mp draining
          obtain ⟨s'', found', shut⟩ := shut_of_draining h.lawful draining
          cases found.symm.trans found'
          obtain ⟨taken, disposed⟩ := before.held k p draining
          obtain ⟨resources, registered⟩ := kept.resolve_right fun ⟨opened, _⟩ => shut opened
          rw [quiet.disposedOf, resources, registered]
          exact ⟨taken, disposed⟩
    unopened := fun x s' found' opened => by
      rw [quiet.disposedOf]
      cases found : t.scopes[x]? with
      | none => exact disposedOf_eq_nil h.known (List.getElem?_eq_none_iff.mp found)
      | some s =>
        obtain ⟨s'', found'', -, rank, -⟩ := grows.kept x s found
        cases found'.symm.trans found''
        have := rank_eq_zero.mpr opened
        exact h.unopened x s found (rank_eq_zero.mp (by omega))
    known := fun d mem => by
      rw [quiet.disposed] at mem
      have found := List.getElem?_eq_getElem (h.known d mem)
      obtain ⟨s', found', -⟩ := quiet.kept d.scope _ found
      exact (List.getElem?_eq_some_iff.mp found').1
    passed := fun c mem => by
      rw [closers] at mem
      obtain ⟨passed, split, complete⟩ := h.passed c mem
      refine ⟨passed, split, fun x here => ?_⟩
      obtain ⟨s, done⟩ := complete x here
      exact quiet.complete (passed_shut h.lawful mem split x here) done
    recorded := fun d mem => quiet.recorded (h.recorded d (quiet.disposed ▸ mem)) }

section Touch
variable {k x : Nat} {c : Closer} {stage : Stage}

/-- A step of one call, which changes nothing of the other scopes than the one it is about. -/
structure Touches (t t' : Tree) (k x : Nat) (c : Closer) (stage : Stage) : Prop where
  found : t.closers[k]? = some c
  closers : t'.closers = t.closers.modify k fun c => { c with stage }
  length : t'.scopes.length = t.scopes.length
  scopes : ∀ (y : Nat) (s' : ExecutionScope), t'.scopes[y]? = some s' → ∃ s : ExecutionScope,
    t.scopes[y]? = some s ∧ s'.registered = s.registered ∧ s.state.rank ≤ s'.state.rank ∧
      (y ≠ x → s'.resources = s.resources)
  disposed : ∀ y, y ≠ x → disposedOf t' y = disposedOf t y
  before : ∀ y pending raised left, c.stage = .draining y pending raised left → y = x
  now : ∀ y pending raised left, stage = .draining y pending raised left → y = x

theorem getElem?_restaged (closers : t'.closers = t.closers.modify k fun c => { c with stage })
    (i : Nat) : t'.closers[i]? = if k = i then t.closers[i]?.map fun c => { c with stage }
      else t.closers[i]? := by
  rw [closers, List.getElem?_modify]
  split_ifs with here
  · simp [here]
  · simp [here]

theorem Touches.draining_iff (touches : Touches t t' k x c stage) {i y : Nat} {p : List Resource} :
    Draining t' i y p ↔ (i ≠ k ∧ Draining t i y p) ∨
      (i = k ∧ ∃ raised left, stage = .draining y p raised left) := by
  rw [Draining, Draining, getElem?_restaged touches.closers]
  by_cases here : k = i
  · subst here
    rw [if_pos rfl, touches.found, Option.map_some]
    constructor
    · rintro ⟨c', raised, left, same, at'⟩
      cases same
      exact .inr ⟨rfl, raised, left, at'⟩
    · rintro (⟨away, -⟩ | ⟨-, raised, left, at'⟩)
      · exact absurd rfl away
      · exact ⟨_, raised, left, rfl, at'⟩
  · rw [if_neg here]
    exact ⟨fun h => .inl ⟨Ne.symm here, h⟩, fun h => (h.resolve_right fun h => here h.1.symm).2⟩

/-- The other scopes are drained by whom they were. -/
theorem Touches.draining_away (touches : Touches t t' k x c stage) {i y : Nat} {p : List Resource}
    (away : y ≠ x) : Draining t' i y p ↔ Draining t i y p := by
  rw [touches.draining_iff]
  constructor
  · rintro (⟨-, draining⟩ | ⟨-, raised, left, here⟩)
    · exact draining
    · exact absurd (touches.now y p raised left here) away
  · intro draining
    refine .inl ⟨?_, draining⟩
    rintro rfl
    obtain ⟨c', raised, left, found, here⟩ := draining
    cases touches.found.symm.trans found
    exact away (touches.before y p raised left here)

theorem Touches.complete (touches : Touches t t' k x c stage) {y : Nat} {s : ExecutionScope}
    (away : y ≠ x) (h : Complete t y s) : ∃ s', Complete t' y s' := by
  have below := (List.getElem?_eq_some_iff.mp h.found).1
  have found' := List.getElem?_eq_getElem (touches.length ▸ below)
  obtain ⟨s'', found, registered, -, resources⟩ := touches.scopes y _ found'
  cases h.found.symm.trans found
  exact ⟨_, found', (resources away).trans h.taken, by
    rw [touches.disposed y away, registered, h.disposed]⟩

/-- What a step of a call has to show: the account of its own scope, and of what it has passed. -/
theorem Tidy.touch (h : Tidy t) (lawful : Lawful t') (touches : Touches t t' k x c stage)
    (alone : ∀ p raised left, stage = .draining x p raised left →
      ∀ j q, j ≠ k → ¬Draining t j x q)
    (here : ∀ s', t'.scopes[x]? = some s' → Balanced t' x s')
    (shut : ∀ s', t'.scopes[x]? = some s' → s'.state = .opened → disposedOf t' x = [])
    (known : ∀ d ∈ t'.disposed, d.scope < t'.scopes.length)
    (complete : ∀ s, Complete t x s → ∃ s', Complete t' x s')
    (passed : ∃ passed, c.descendants = passed ++ Closer.remaining { c with stage } ∧
      ∀ y ∈ passed, ∃ s, Complete t' y s)
    (recorded : ∀ d ∈ t'.disposed, Recorded t' d) : Tidy t' where
  lawful := lawful
  sole i j y p q first second := by
    obtain ⟨other, first⟩ | ⟨rfl, raised, left, at'⟩ := touches.draining_iff.mp first
    · obtain ⟨other', second⟩ | ⟨rfl, raised, left, at'⟩ := touches.draining_iff.mp second
      · exact h.sole i j y p q first second
      · cases touches.now y q raised left at'
        exact absurd first (alone q raised left at' i p other)
    · obtain ⟨other', second⟩ | ⟨rfl, -⟩ := touches.draining_iff.mp second
      · cases touches.now y p raised left at'
        exact absurd second (alone p raised left at' j q other')
      · rfl
  balanced y s' found' := by
    by_cases away : y = x
    · subst away
      exact here s' found'
    · obtain ⟨s, found, registered, -, resources⟩ := touches.scopes y s' found'
      have before := h.balanced y s found
      constructor
      · intro nobody
        rw [touches.disposed y away, resources away, registered]
        exact before.free fun i p draining => nobody i p ((touches.draining_away away).mpr draining)
      · intro i p draining
        rw [touches.disposed y away, resources away, registered]
        exact before.held i p ((touches.draining_away away).mp draining)
  unopened y s' found' opened := by
    by_cases away : y = x
    · subst away
      exact shut s' found' opened
    · obtain ⟨s, found, -, rank, -⟩ := touches.scopes y s' found'
      have := rank_eq_zero.mpr opened
      rw [touches.disposed y away]
      exact h.unopened y s found (rank_eq_zero.mp (by omega))
  known := known
  passed c' mem := by
    obtain ⟨i, found'⟩ := List.mem_iff_getElem?.mp mem
    rw [getElem?_restaged touches.closers] at found'
    split_ifs at found' with own
    · subst own
      rw [touches.found, Option.map_some, Option.some.injEq] at found'
      rw [← found']
      exact passed
    · obtain ⟨before, split, all⟩ := h.passed c' (List.mem_of_getElem? found')
      refine ⟨before, split, fun y mem => ?_⟩
      obtain ⟨s, done⟩ := all y mem
      by_cases away : y = x
      · subst away
        exact complete s done
      · exact touches.complete away done
  recorded := recorded

theorem tidy_move (h : Tidy t) (found : t.closers[k]? = some c)
    (lawful : Lawful (t.setStage k stage))
    (before : ∀ y pending raised left, c.stage ≠ .draining y pending raised left)
    (now : ∀ y pending raised left, stage ≠ .draining y pending raised left)
    (remaining : Closer.remaining { c with stage } = Closer.remaining c) :
    Tidy (t.setStage k stage) := by
  have touches : Touches t (t.setStage k stage) k t.scopes.length c stage := {
    found
    closers := rfl
    length := rfl
    scopes := fun y s' found' => ⟨s', found', rfl, Nat.le_refl _, fun _ => rfl⟩
    disposed := fun _ _ => rfl
    before := fun y p raised left here => absurd here (before y p raised left)
    now := fun y p raised left here => absurd here (now y p raised left) }
  have absent (s : ExecutionScope) : t.scopes[t.scopes.length]? ≠ some s := by
    rw [List.getElem?_eq_none (Nat.le_refl _)]
    exact nofun
  refine h.touch lawful touches (fun p raised left here => absurd here (now _ p raised left))
    (fun s' found' => absurd found' (absent s')) (fun s' found' => absurd found' (absent s')) h.known
    (fun s done => absurd done.found (absent s)) ?_ h.recorded
  obtain ⟨passed, split, complete⟩ := h.passed c (List.mem_of_getElem? found)
  exact ⟨passed, remaining ▸ split, fun y mem => by
    obtain ⟨s, done⟩ := complete y mem
    exact ⟨s, done.found, done.taken, done.disposed⟩⟩

theorem not_opened_of_shut (shut : IsShut t x) {s : ExecutionScope}
    (found : t.scopes[x]? = some s) : s.state ≠ .opened := by
  obtain ⟨s', found', shut⟩ := shut
  cases found.symm.trans found'
  exact shut

variable {left : List Nat} {raised : Option Fault}

/-- The cleanup of a scope takes its resources; no other call holds any. -/
theorem tidy_take (h : Tidy t) (found : t.closers[k]? = some c)
    (here : c.stage = .sweeping (x :: left)) {s : ExecutionScope} (stored : t.scopes[x]? = some s)
    (alone : ∀ j q, ¬Draining t j x q)
    (lawful : Lawful ((t.modifyScope x fun s => { s with resources := [] }).setStage k
      (.draining x s.resources.reverse none left))) :
    Tidy ((t.modifyScope x fun s => { s with resources := [] }).setStage k
      (.draining x s.resources.reverse none left)) := by
  have mem := List.mem_of_getElem? found
  have following := h.lawful.closers c mem
  obtain ⟨-, passed, split, -⟩ := following.onCourse here
  have shut := following.shut x (split ▸ List.mem_append_right _ List.mem_cons_self)
  have own {s' : ExecutionScope} (found' : (t.modifyScope x fun s =>
      { s with resources := [] }).scopes[x]? = some s') : s' = { s with resources := [] } := by
    rw [getElem?_modifyScope, if_pos rfl, stored] at found'
    exact (Option.some.inj found').symm
  have touches : Touches t ((t.modifyScope x fun s => { s with resources := [] }).setStage k
      (.draining x s.resources.reverse none left)) k x c
      (.draining x s.resources.reverse none left) := {
    found
    closers := rfl
    length := List.length_modify ..
    scopes := fun y s' found' => by
      obtain ⟨rfl, s, stored, rfl⟩ | ⟨away, stored⟩ := found_modifyScope found'
      · exact ⟨s, stored, rfl, Nat.le_refl _, fun away => absurd rfl away⟩
      · exact ⟨s', stored, rfl, Nat.le_refl _, fun _ => rfl⟩
    disposed := fun _ _ => rfl
    before := fun y p raised left at' => by
      rw [here] at at'
      cases at'
    now := fun y p raised left at' => by
      cases at'
      rfl }
  have kept (s' : ExecutionScope) (done : Complete t x s') : ∃ s'', Complete ((t.modifyScope x
      fun s => { s with resources := [] }).setStage k (.draining x s.resources.reverse none left))
      x s'' := by
    cases stored.symm.trans done.found
    refine ⟨{ s with resources := [] }, ?_, rfl, done.disposed⟩
    change (t.modifyScope x fun s => { s with resources := [] }).scopes[x]? = _
    rw [getElem?_modifyScope, if_pos rfl, stored, Option.map_some]
  refine h.touch lawful touches (fun _ _ _ _ j q _ => alone j q) (fun s' found' => ?_)
    (fun s' found' opened => ?_) (fun d mem => touches.length ▸ h.known d mem) kept ?_ h.recorded
  · cases own found'
    constructor
    · intro nobody
      exact absurd (touches.draining_iff.mpr (.inr ⟨rfl, none, left, rfl⟩)) (nobody k _)
    · intro i p draining
      obtain ⟨-, draining⟩ | ⟨-, raised, left, at'⟩ := touches.draining_iff.mp draining
      · exact absurd draining (alone i p)
      · cases at'
        exact ⟨rfl, (h.balanced x s stored).free alone⟩
  · cases own found'
    exact (not_opened_of_shut shut stored opened).elim
  · obtain ⟨passed, split, complete⟩ := h.passed c mem
    rw [Closer.remaining, here] at split
    refine ⟨passed, split, fun y before => ?_⟩
    obtain ⟨s', done⟩ := complete y before
    by_cases away : y = x
    · subst away
      exact kept s' done
    · exact touches.complete away done

/-- Only one call holds resources of the scope. -/
theorem holder (h : Tidy t) (found : t.closers[k]? = some c) {pending : List Resource}
    (here : c.stage = .draining x pending raised left) {j : Nat} {q : List Resource}
    (draining : Draining t j x q) : j = k :=
  h.sole j k x q pending draining ⟨c, raised, left, found, here⟩

/-- A step in the cleanup of a scope: nothing but the logs changes, and the account is kept. -/
theorem tidy_drain (h : Tidy t) (found : t.closers[k]? = some c) {resource : Resource}
    {rest : List Resource} (here : c.stage = .draining x (resource :: rest) raised left)
    (lawful : Lawful t') {pending : List Resource} {raised' : Option Fault}
    (closers : t'.closers = t.closers.modify k
      fun c => { c with stage := .draining x pending raised' left })
    (scopes : t'.scopes = t.scopes)
    (disposed : t'.disposed = t.disposed ∧ pending = resource :: rest ∨
      (∃ ending, t'.disposed = t.disposed ++ [⟨x, resource, ending⟩] ∧
        Recorded t' ⟨x, resource, ending⟩) ∧ pending = rest)
    (grown : ∀ d, Recorded t d → Recorded t' d) : Tidy t' := by
  have mem := List.mem_of_getElem? found
  have following := h.lawful.closers c mem
  obtain ⟨-, passed, split, -⟩ := following.onCourse here
  have shut := following.shut x (split ▸ List.mem_append_right _ List.mem_cons_self)
  obtain ⟨s, stored, -⟩ := shut
  have own : Draining t k x (resource :: rest) := ⟨c, raised, left, found, here⟩
  have before := (h.balanced x s stored).held k _ own
  have elsewhere (y : Nat) (away : y ≠ x) : disposedOf t' y = disposedOf t y := by
    obtain ⟨same, -⟩ | ⟨⟨ending, same, -⟩, -⟩ := disposed
    · rw [disposedOf, disposedOf, same]
    · rw [disposedOf, disposedOf, same, List.filter_append,
        List.filter_cons_of_neg (by simpa using Ne.symm away), List.filter_nil, List.append_nil]
  have moved : disposedOf t' x ++ pending = disposedOf t x ++ resource :: rest := by
    obtain ⟨same, rfl⟩ | ⟨⟨ending, same, -⟩, rfl⟩ := disposed
    · rw [disposedOf, disposedOf, same]
    · rw [disposedOf, disposedOf, same, List.filter_append,
        List.filter_cons_of_pos (by simp), List.filter_nil, List.map_append, List.append_assoc]
      rfl
  have touches : Touches t t' k x c (.draining x pending raised' left) := {
    found
    closers
    length := by rw [scopes]
    scopes := fun y s' found' => ⟨s', scopes ▸ found', rfl, Nat.le_refl _, fun _ => rfl⟩
    disposed := elsewhere
    before := fun y p raised left at' => by
      rw [here] at at'
      cases at'
      rfl
    now := fun y p raised left at' => by
      cases at'
      rfl }
  have unfinished (s' : ExecutionScope) : ¬Complete t x s' := fun done => by
    cases stored.symm.trans done.found
    have := congrArg List.length (before.2.trans done.disposed.symm)
    simp at this
  refine h.touch lawful touches (fun _ _ _ _ j q other draining => other (holder h found here draining))
    (fun s' found' => ?_) (fun s' found' opened => ?_) (fun d logged => ?_)
    (fun s' done => absurd done (unfinished s')) ?_ (fun d logged => ?_)
  · rw [scopes, stored] at found'
    cases found'
    constructor
    · intro nobody
      exact absurd (touches.draining_iff.mpr (.inr ⟨rfl, raised', left, rfl⟩)) (nobody k _)
    · intro i p draining
      obtain ⟨other, draining⟩ | ⟨-, raised, left, at'⟩ := touches.draining_iff.mp draining
      · exact absurd (holder h found here draining) other
      · cases at'
        exact ⟨before.1, moved.trans before.2⟩
  · rw [scopes] at found'
    exact absurd opened (not_opened_of_shut (following.shut x
      (split ▸ List.mem_append_right _ List.mem_cons_self)) found')
  · rw [scopes]
    obtain ⟨same, -⟩ | ⟨⟨ending, same, -⟩, -⟩ := disposed
    · exact h.known d (same ▸ logged)
    · rw [same] at logged
      obtain old | new := List.mem_append.mp logged
      · exact h.known d old
      · cases List.mem_singleton.mp new
        exact (List.getElem?_eq_some_iff.mp stored).1
  · obtain ⟨passed, split, complete⟩ := h.passed c mem
    rw [Closer.remaining, here] at split
    refine ⟨passed, split, fun y before => ?_⟩
    obtain ⟨s', done⟩ := complete y before
    by_cases away : y = x
    · subst away
      exact absurd done (unfinished s')
    · exact touches.complete away done
  · obtain ⟨same, -⟩ | ⟨⟨ending, same, fine⟩, -⟩ := disposed
    · exact grown d (h.recorded d (same ▸ logged))
    · rw [same] at logged
      obtain old | new := List.mem_append.mp logged
      · exact grown d (h.recorded d old)
      · cases List.mem_singleton.mp new
        exact fine

/-- A scope is frozen when all its resources are disposed of. -/
theorem tidy_freeze (h : Tidy t) (found : t.closers[k]? = some c)
    (here : c.stage = .draining x [] raised left)
    (lawful : Lawful ((t.modifyScope x fun s => { s with state := .frozen }).setStage k
      (.sweeping left))) :
    Tidy ((t.modifyScope x fun s => { s with state := .frozen }).setStage k (.sweeping left)) := by
  have mem := List.mem_of_getElem? found
  have following := h.lawful.closers c mem
  obtain ⟨-, above, split, -⟩ := following.onCourse here
  obtain ⟨s, stored, shut⟩ :=
    following.shut x (split ▸ List.mem_append_right _ List.mem_cons_self)
  have own : Draining t k x [] := ⟨c, raised, left, found, here⟩
  obtain ⟨taken, disposed⟩ := (h.balanced x s stored).held k _ own
  rw [List.append_nil] at disposed
  have froze : ((t.modifyScope x fun s => { s with state := .frozen }).setStage k
      (.sweeping left)).scopes[x]? = some { s with state := .frozen } := by
    change (t.modifyScope x fun s => { s with state := .frozen }).scopes[x]? = _
    rw [getElem?_modifyScope, if_pos rfl, stored, Option.map_some]
  have complete : Complete ((t.modifyScope x fun s => { s with state := .frozen }).setStage k
      (.sweeping left)) x { s with state := .frozen } := ⟨froze, taken, disposed⟩
  have touches : Touches t ((t.modifyScope x fun s => { s with state := .frozen }).setStage k
      (.sweeping left)) k x c (.sweeping left) := {
    found
    closers := rfl
    length := List.length_modify ..
    scopes := fun y s' found' => by
      obtain ⟨rfl, s, stored, rfl⟩ | ⟨away, stored⟩ := found_modifyScope found'
      · exact ⟨s, stored, rfl, rank_le_two s.state, fun away => absurd rfl away⟩
      · exact ⟨s', stored, rfl, Nat.le_refl _, fun _ => rfl⟩
    disposed := fun _ _ => rfl
    before := fun y p raised left at' => by
      rw [here] at at'
      cases at'
      rfl
    now := fun y p raised left at' => by cases at' }
  refine h.touch lawful touches (fun _ _ _ at' => by cases at') (fun s' found' => ?_)
    (fun s' found' opened => ?_) (fun d logged => touches.length ▸ h.known d logged)
    (fun _ _ => ⟨_, complete⟩) ?_ h.recorded
  · cases froze.symm.trans found'
    constructor
    · intro nobody
      change disposedOf t x ++ s.resources.reverse = s.registered.reverse
      rw [taken, disposed, List.reverse_nil, List.append_nil]
    · intro i p draining
      obtain ⟨other, draining⟩ | ⟨-, raised, left, at'⟩ := touches.draining_iff.mp draining
      · exact absurd (holder h found here draining) other
      · cases at'
  · cases froze.symm.trans found'
    cases opened
  · obtain ⟨passed, split, done⟩ := h.passed c mem
    rw [Closer.remaining, here] at split
    refine ⟨passed ++ [x], by rw [split, List.append_assoc]; rfl, fun y before => ?_⟩
    by_cases away : y = x
    · subst away
      exact ⟨_, complete⟩
    · obtain old | last := List.mem_append.mp before
      · obtain ⟨s', done⟩ := done y old
        exact touches.complete away done
      · exact absurd (List.mem_singleton.mp last) away

end Touch

theorem Quiet.modify {x : Nat} {f : ExecutionScope → ExecutionScope}
    (kept : ∀ s, t.scopes[x]? = some s →
      ((f s).resources = s.resources ∧ (f s).registered = s.registered) ∨
        s.state = .opened ∧ ∃ r, (f s).resources = s.resources ++ [r] ∧
          (f s).registered = s.registered ++ [r]) : Quiet t (t.modifyScope x f) where
  disposed := rfl
  cleanupErrors := rfl
  retryBlockers := rfl
  kept y s found := by
    rw [getElem?_modifyScope]
    split_ifs with here
    · subst here
      exact ⟨f s, by rw [found, Option.map_some], kept s found⟩
    · exact ⟨s, found, .inl ⟨rfl, rfl⟩⟩
  fresh y s' found absent := by
    obtain ⟨-, s, stored, -⟩ | ⟨-, stored⟩ := found_modifyScope found
    · cases absent.symm.trans stored
    · cases absent.symm.trans stored

theorem Quiet.newScope (t : Tree) (parent depth : Nat) : Quiet t (t.newScope parent depth) where
  disposed := rfl
  cleanupErrors := rfl
  retryBlockers := rfl
  kept y s found := by
    refine ⟨s, ?_, .inl ⟨rfl, rfl⟩⟩
    rw [Tree.newScope, List.getElem?_append_left (List.getElem?_eq_some_iff.mp found).1, found]
  fresh y s' found absent := by
    obtain stored | ⟨-, rfl⟩ := getElem?_newScope found
    · cases absent.symm.trans stored
    · exact ⟨rfl, rfl⟩

theorem Quiet.congr (h : Quiet t t') {u : Tree} (scopes : u.scopes = t'.scopes)
    (disposed : u.disposed = t'.disposed) (cleanupErrors : u.cleanupErrors = t'.cleanupErrors)
    (retryBlockers : u.retryBlockers = t'.retryBlockers) : Quiet t u where
  disposed := disposed.trans h.disposed
  cleanupErrors := cleanupErrors.trans h.cleanupErrors
  retryBlockers := retryBlockers.trans h.retryBlockers
  kept := scopes ▸ h.kept
  fresh := scopes ▸ h.fresh

theorem Quiet.refl (t : Tree) : Quiet t t where
  disposed := rfl
  cleanupErrors := rfl
  retryBlockers := rfl
  kept _ s found := ⟨s, found, .inl ⟨rfl, rfl⟩⟩
  fresh _ _ found absent := by
    rw [absent] at found
    cases found

theorem beginClosing_logs (t : Tree) (scopes : List Nat) :
    (t.beginClosing scopes).disposed = t.disposed ∧
    (t.beginClosing scopes).cleanupErrors = t.cleanupErrors ∧
    (t.beginClosing scopes).retryBlockers = t.retryBlockers := by
  induction scopes generalizing t with
  | nil => exact ⟨rfl, rfl, rfl⟩
  | cons x scopes ih => exact ih _

theorem Quiet.beginClosing (t : Tree) (scopes : List Nat) : Quiet t (t.beginClosing scopes) := by
  obtain ⟨disposed, cleanupErrors, retryBlockers⟩ := beginClosing_logs t scopes
  refine ⟨disposed, cleanupErrors, retryBlockers, fun x s found => ?_, fun x s' found absent => ?_⟩
  · rw [getElem?_beginClosing, found]
    split_ifs
    · refine ⟨s.beginClosing, rfl, .inl ?_⟩
      unfold ExecutionScope.beginClosing
      split_ifs <;> exact ⟨rfl, rfl⟩
    · exact ⟨s, rfl, .inl ⟨rfl, rfl⟩⟩
  · obtain ⟨s, stored, -⟩ := found_beginClosing found
    cases absent.symm.trans stored

theorem found_concat {α : Type} {entries : List α} {last found : α} {i : Nat}
    (h : (entries ++ [last])[i]? = some found) : entries[i]? = some found ∨ found = last := by
  rw [List.getElem?_append] at h
  split_ifs at h with old
  · exact .inl h
  · exact .inr (List.mem_singleton.mp (List.mem_of_getElem? h))

/-- A new call has taken nothing yet. -/
theorem tidy_closer (h : Tidy t) (scopes : t'.scopes = t.scopes)
    (disposed : t'.disposed = t.disposed) (cleanupErrors : t'.cleanupErrors = t.cleanupErrors)
    (retryBlockers : t'.retryBlockers = t.retryBlockers) {c : Closer}
    (closers : t'.closers = t.closers ++ [c]) (start : c.stage = .settling c.descendants)
    (lawful : Lawful t') : Tidy t' := by
  have same (k x : Nat) (p : List Resource) : Draining t' k x p ↔ Draining t k x p := by
    rw [Draining, Draining, closers]
    constructor
    · rintro ⟨c', raised, left, found, here⟩
      obtain old | rfl := found_concat found
      · exact ⟨c', raised, left, old, here⟩
      · rw [start] at here
        cases here
    · rintro ⟨c', raised, left, found, here⟩
      have below := (List.getElem?_eq_some_iff.mp found).1
      exact ⟨c', raised, left, (List.getElem?_append_left below).trans found, here⟩
  have kept (x : Nat) : disposedOf t' x = disposedOf t x := by rw [disposedOf, disposedOf, disposed]
  have quiet : Quiet t t' := (Quiet.refl t).congr scopes disposed cleanupErrors retryBlockers
  refine {
    lawful
    sole := fun i j x p q first second =>
      h.sole i j x p q ((same ..).mp first) ((same ..).mp second)
    balanced := fun x s found => ?_
    unopened := fun x s found opened => kept x ▸ h.unopened x s (scopes ▸ found) opened
    known := fun d mem => scopes ▸ h.known d (disposed ▸ mem)
    passed := fun c' mem => ?_
    recorded := fun d mem => quiet.recorded (h.recorded d (disposed ▸ mem)) }
  · have before := h.balanced x s (scopes ▸ found)
    constructor
    · intro nobody
      rw [kept]
      exact before.free fun k p draining => nobody k p ((same ..).mpr draining)
    · intro k p draining
      rw [kept]
      exact before.held k p ((same ..).mp draining)
  · rw [closers] at mem
    obtain old | new := List.mem_append.mp mem
    · obtain ⟨passed, split, complete⟩ := h.passed c' old
      refine ⟨passed, split, fun x here => ?_⟩
      obtain ⟨s, done⟩ := complete x here
      exact quiet.complete (passed_shut h.lawful old split x here) done
    · cases List.mem_singleton.mp new
      refine ⟨[], ?_, nofun⟩
      rw [Closer.remaining, start, List.nil_append]

theorem recorded_of_logs (errors : ∀ e ∈ t.cleanupErrors, e ∈ t'.cleanupErrors)
    (blockers : ∀ b ∈ t.retryBlockers, b ∈ t'.retryBlockers) (d : Disposal)
    (h : Recorded t d) : Recorded t' d := by
  unfold Recorded at h ⊢
  cases ending : d.ending with
  | closed => trivial
  | forced fault =>
    rw [ending] at h
    exact errors _ h
  | failed fault =>
    rw [ending] at h
    exact ⟨errors _ h.1, blockers _ h.2⟩

theorem mem_addRetryBlocker (t : Tree) (blocker : RetryBlocker) :
    (∀ b ∈ t.retryBlockers, b ∈ (t.addRetryBlocker blocker).retryBlockers) ∧
      blocker ∈ (t.addRetryBlocker blocker).retryBlockers := by
  unfold addRetryBlocker
  split_ifs with known
  · exact ⟨fun _ mem => mem, known⟩
  · exact ⟨fun _ mem => List.mem_append_left _ mem,
      List.mem_append_right _ (List.mem_singleton.mpr rfl)⟩

theorem addRetryBlocker_frame (t : Tree) (blocker : RetryBlocker) :
    (t.addRetryBlocker blocker).scopes = t.scopes ∧
    (t.addRetryBlocker blocker).closers = t.closers ∧
    (t.addRetryBlocker blocker).disposed = t.disposed ∧
    (t.addRetryBlocker blocker).cleanupErrors = t.cleanupErrors := by
  unfold addRetryBlocker
  split_ifs <;> exact ⟨rfl, rfl, rfl, rfl⟩

/-- Whatever the awaited close or forced close does, the account of the scope is kept. -/
theorem tidy_drained (h : Tidy t) {k x : Nat} {c : Closer} {resource : Resource}
    {rest : List Resource} {raised : Option Fault} {left : List Nat} {outcome : Option Fault}
    (found : t.closers[k]? = some c) (here : c.stage = .draining x (resource :: rest) raised left)
    (lawful : Lawful (t.drain k x resource rest raised left outcome)) :
    Tidy (t.drain k x resource rest raised left outcome) := by
  have noted (e : CleanupError) (mem : e ∈ t.cleanupErrors) (new : CleanupError) :
      e ∈ t.cleanupErrors ++ [new] := List.mem_append_left _ mem
  have last (new : CleanupError) : new ∈ t.cleanupErrors ++ [new] :=
    List.mem_append_right _ (List.mem_singleton.mpr rfl)
  unfold drain at lawful ⊢
  cases raised with
  | none =>
    cases outcome with
    | none =>
      exact tidy_drain h found here lawful rfl rfl (.inr ⟨⟨.closed, rfl, trivial⟩, rfl⟩)
        (recorded_of_logs (fun _ mem => mem) fun _ mem => mem)
    | some fault =>
      exact tidy_drain h found here lawful rfl rfl (.inl ⟨rfl, rfl⟩) fun _ recorded => recorded
  | some before =>
    cases outcome with
    | none =>
      exact tidy_drain h found here lawful rfl rfl (.inr ⟨⟨.forced before, rfl, last _⟩, rfl⟩)
        (recorded_of_logs (fun e mem => noted e mem _) fun _ mem => mem)
    | some fault =>
      obtain ⟨scopes, closers, disposed, errors⟩ := addRetryBlocker_frame
        (t.addCleanupError (cleanupError x resource fault)) (cleanupBlocker x)
      obtain ⟨blockers, blocker⟩ := mem_addRetryBlocker
        (t.addCleanupError (cleanupError x resource fault)) (cleanupBlocker x)
      have error (e : CleanupError) (mem : e ∈ t.cleanupErrors ++ [cleanupError x resource fault]) :
          e ∈ ((t.addCleanupError (cleanupError x resource fault)).addRetryBlocker
            (cleanupBlocker x)).cleanupErrors := errors ▸ mem
      have logged : ((t.addCleanupError (cleanupError x resource fault)).addRetryBlocker
          (cleanupBlocker x)).disposed ++ [⟨x, resource, .failed fault⟩] =
          t.disposed ++ [⟨x, resource, .failed fault⟩] := by
        rw [disposed]
        rfl
      refine tidy_drain h found here lawful (congrArg _ closers) scopes
        (.inr ⟨⟨.failed fault, logged, ?_⟩, rfl⟩) ?_
      · exact ⟨error _ (last _), blocker⟩
      · exact recorded_of_logs (fun e mem => error e (noted e mem _)) blockers

theorem tidy_advance (h : Tidy t) {k : Nat} {outcome : Option Fault}
    (calm : Undisturbed t (.advance k outcome)) (stepped : t.advance k outcome = some t') :
    Tidy t' := by
  have lawful := (lawful_advance h.lawful stepped).1
  obtain ⟨c, found, stepped⟩ := Option.bind_eq_some_iff.mp stepped
  have following := h.lawful.closers c (List.mem_of_getElem? found)
  cases here : c.stage with
  | settling left =>
    rw [here] at stepped
    have moved (stage : Stage) (lawful : Lawful (t.setStage k stage))
        (next : ∀ y pending raised left, stage ≠ .draining y pending raised left)
        (remaining : Closer.remaining { c with stage } = c.descendants) :
        Tidy (t.setStage k stage) :=
      tidy_move h found lawful (by rw [here]; exact nofun) next
        (remaining.trans (by rw [Closer.remaining, here]))
    cases left with
    | nil =>
      cases stepped
      exact moved _ lawful nofun rfl
    | cons x left =>
      dsimp only at stepped
      split_ifs at stepped
      cases stepped
      exact moved _ lawful nofun rfl
  | sweeping left =>
    rw [here] at stepped
    cases left with
    | nil =>
      cases stepped
      refine tidy_move h found lawful (by rw [here]; exact nofun) nofun ?_
      rw [Closer.remaining, Closer.remaining, here]
    | cons x left =>
      obtain ⟨s, stored, stepped⟩ := Option.bind_eq_some_iff.mp stepped
      cases stepped
      exact tidy_take h found here stored (calm c x left found here) lawful
  | draining x pending raised left =>
    rw [here] at stepped
    cases pending with
    | nil =>
      obtain ⟨-, passed, split, -⟩ := following.onCourse here
      obtain ⟨s, stored, shut⟩ :=
        following.shut x (split ▸ List.mem_append_right _ List.mem_cons_self)
      have allowed : ¬∀ s ∈ t.scopes[x]?, s.state = .opened := fun all => shut (all s stored)
      dsimp only at stepped
      rw [freeze, if_neg allowed] at stepped
      cases stepped
      exact tidy_freeze h found here lawful
    | cons resource rest =>
      cases stepped
      exact tidy_drained h found here lawful
  | returned =>
    rw [here] at stepped
    cases stepped
  | raised =>
    rw [here] at stepped
    cases stepped

theorem tidy_step (h : Tidy t) {a : Action} (calm : Undisturbed t a)
    (stepped : step t a = some t') : Tidy t' := by
  obtain ⟨lawful, grows⟩ := lawful_step h.lawful stepped
  cases a with
  | childTool parent =>
    obtain ⟨s, -, made⟩ := bind_eq_ok (toOption_eq_some.mp stepped)
    cases made
    exact h.quiet lawful grows (Quiet.newScope ..) rfl
  | newChildRunScope parent =>
    obtain ⟨s, -, made⟩ := bind_eq_ok (toOption_eq_some.mp stepped)
    split_ifs at made
    cases made
    exact h.quiet lawful grows ((Quiet.newScope ..).congr rfl rfl rfl rfl) rfl
  | acceptNestedTool =>
    cases stepped
    unfold acceptNestedTool at lawful grows ⊢
    split_ifs at lawful grows ⊢
    · exact h
    · exact h.quiet lawful grows ((Quiet.refl t).congr rfl rfl rfl rfl) rfl
  | registerResource x resource =>
    obtain ⟨s, required, made⟩ := bind_eq_ok (toOption_eq_some.mp stepped)
    obtain ⟨found, opened⟩ := requireOpen_eq_ok.mp required
    cases made
    refine h.quiet lawful grows (Quiet.modify fun s' found' => ?_) rfl
    cases found.symm.trans found'
    exact .inr ⟨opened, resource, rfl, rfl⟩
  | enterSettlement x =>
    obtain ⟨s, -, made⟩ := bind_eq_ok (toOption_eq_some.mp stepped)
    cases made
    exact h.quiet lawful grows (Quiet.modify fun _ _ => .inl ⟨rfl, rfl⟩) rfl
  | leaveSettlement x =>
    have stepped := toOption_eq_some.mp stepped
    rw [leaveSettlement] at stepped
    split_ifs at stepped
    cases stepped
    exact h.quiet lawful grows (Quiet.modify fun _ _ => .inl ⟨rfl, rfl⟩) rfl
  | closeScope root =>
    rw [step] at stepped
    split_ifs at stepped with known
    cases stepped
    obtain ⟨-, closers, -⟩ := beginClosing_frame (t := t) (t.descendants root)
    have closing := h.quiet (lawful_beginClosing h.lawful root) (Grows.beginClosing _)
      (Quiet.beginClosing t _) closers
    exact tidy_closer closing rfl rfl rfl rfl rfl rfl lawful
  | advance k outcome => exact tidy_advance h calm stepped
  | cancel k =>
    obtain ⟨c, found, stepped⟩ := Option.bind_eq_some_iff.mp stepped
    split at stepped
    · rename_i left here
      cases stepped
      refine tidy_move h found lawful (by rw [here]; rintro _ _ _ _ ⟨⟩) (by rintro _ _ _ _ ⟨⟩) ?_
      rw [Closer.remaining, Closer.remaining, here]
    · cases stepped

theorem tidy_create (budget : ExecutionBudgetConfig) : Tidy (Tree.create budget) where
  lawful := lawful_create budget
  sole _ _ _ _ _ := by
    rintro ⟨_, _, _, found, -⟩
    cases found
  balanced x s found := by
    constructor
    · intro _
      cases x with
      | zero =>
        cases found
        rfl
      | succ x => cases found
    · rintro k p ⟨_, _, _, absent, -⟩
      cases absent
  unopened _ _ _ _ := rfl
  known := nofun
  passed := nofun
  recorded := nofun

/-- All that lies below the root of a call is in its subtree. -/
theorem mem_of_isDescendant (h : Lawful t) {c : Closer} (mem : c ∈ t.closers) (x : Nat)
    (below : isDescendant t.scopes c.root x = true) : x ∈ c.descendants := by
  have following := h.closers c mem
  induction x using Nat.strongRecOn with
  | ind x ih =>
    rw [isDescendant] at below
    cases found : t.scopes[x]? with
    | none =>
      rw [found] at below
      cases below
    | some s =>
      rw [found] at below
      obtain here | above := Bool.or_eq_true_iff.mp below
      · exact (beq_iff_eq.mp here) ▸ following.root
      · cases parent : s.parent with
        | none =>
          rw [parent] at above
          cases above
        | some p =>
          rw [parent] at above
          dsimp only at above
          split_ifs at above with before
          exact following.below x s p found parent (ih p before above)

/-- In every run in which no call comes to a scope that another one is cleaning up: once a
close_scope call has returned, each resource of its subtree has been disposed of exactly once, the
last registered first, and its errors are recorded. -/
theorem cleanup_before_return {budget : ExecutionBudgetConfig} {actions : List Action}
    (calm : Along step Undisturbed (Tree.create budget) actions)
    (reached : run step (Tree.create budget) actions = some t) :
    ∀ c ∈ t.closers, c.stage = .returned → ∀ x, isDescendant t.scopes c.root x = true →
      ∃ s, t.scopes[x]? = some s ∧ disposedOf t x = s.registered.reverse ∧
        ∀ d ∈ t.disposed, d.scope = x → Recorded t d := by
  have h : Tidy t := run_invariant (fun _ _ _ h calm stepped => tidy_step h calm stepped)
    (tidy_create budget) calm reached
  intro c mem returned x below
  have within := mem_of_isDescendant h.lawful mem x below
  obtain ⟨passed, split, complete⟩ := h.passed c mem
  rw [Closer.remaining, returned, List.append_nil] at split
  obtain ⟨s, done⟩ := complete x (split ▸ within)
  exact ⟨s, done.found, done.disposed, fun d logged _ => h.recorded d logged⟩

section Example

def worker : Resource := ⟨0, "Worker"⟩

def camera : Resource := ⟨1, "Camera"⟩

/-- A child with two resources is closed twice, one call after the other; the first resource resists. -/
def orderlyRun : List Action :=
  [.childTool 0, .registerResource 1 worker, .registerResource 1 camera, .closeScope 1] ++
    List.replicate 3 (.advance 0 none) ++ [.advance 0 (some .timeout), .advance 0 (some .failure)] ++
    List.replicate 3 (.advance 0 none) ++ [.closeScope 1] ++ List.replicate 5 (.advance 1 none)

theorem cleanup_before_return_orderly : ∃ t, run step (Tree.create {}) orderlyRun = some t ∧
    ∃ s, t.scopes[1]? = some s ∧ disposedOf t 1 = s.registered.reverse ∧
      disposedOf t 1 = [camera, worker] ∧ t.retryBlockers = [cleanupBlocker 1] := by
  have calm : Along step Undisturbed (Tree.create {}) orderlyRun := by decide +kernel
  have ends : (run step (Tree.create {}) orderlyRun).map (fun t => (t.closers[1]?,
      isDescendant t.scopes 1 1, disposedOf t 1, t.retryBlockers)) =
      some (some ⟨1, [1], .returned⟩, true, [camera, worker], [cleanupBlocker 1]) := by
    decide +kernel
  obtain ⟨t, reached, last⟩ := Option.map_eq_some_iff.mp ends
  obtain ⟨closer, last⟩ := Prod.mk.inj last
  obtain ⟨below, last⟩ := Prod.mk.inj last
  obtain ⟨disposed, blockers⟩ := Prod.mk.inj last
  obtain ⟨s, found, all, -⟩ := cleanup_before_return calm reached _
    (List.mem_of_getElem? closer) rfl 1 below
  exact ⟨t, reached, s, found, all, disposed, blockers⟩

/-- A second call finds the resources taken, freezes the scope and returns while the first still
waits for the resource to close. -/
def overlappingRun : List Action :=
  [.registerResource 0 worker, .closeScope 0, .advance 0 none, .advance 0 none, .advance 0 none,
    .closeScope 0, .advance 1 none, .advance 1 none, .advance 1 none, .advance 1 none,
    .advance 1 none]

theorem overlapping_returns_early :
    (run step (Tree.create {}) overlappingRun).map (fun t => (t.closers,
      t.scopes.map ExecutionScope.state, t.disposed)) =
      some ([⟨0, [0], .draining 0 [worker] none []⟩, ⟨0, [0], .returned⟩], [.frozen], []) := by
  decide +kernel

end Example

end RoboAgent.ScopeCleanup
