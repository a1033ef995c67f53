import Mathlib

/-! Runs of a partial step function. A run is a list of actions; a step may be refused. `Along`
says that a condition on the state and the action holds at every step of a run, and an invariant
of the steps that meet the condition holds wherever such a run ends. -/

namespace RoboAgent.Runs

variable {S A : Type}

def run (step : S → A → Option S) : S → List A → Option S
  | s, [] => some s
  | s, a :: rest => (step s a).bind fun s' => run step s' rest

/-- The condition holds of every step of the run, as far as the run goes. -/
def Along (step : S → A → Option S) (condition : S → A → Prop) : S → List A → Prop
  | _, [] => True
  | s, a :: rest => condition s a ∧ ∀ s', step s a = some s' → Along step condition s' rest

variable {step : S → A → Option S} {condition : S → A → Prop}

theorem run_nil (s : S) : run step s [] = some s := rfl

theorem run_cons_eq_some {s s'' : S} {a : A} {rest : List A} :
    run step s (a :: rest) = some s'' ↔ ∃ s', step s a = some s' ∧ run step s' rest = some s'' :=
  Option.bind_eq_some_iff

theorem run_append (s : S) (first second : List A) :
    run step s (first ++ second) = (run step s first).bind fun s' => run step s' second := by
  induction first generalizing s with
  | nil => rfl
  | cons a rest ih =>
    rw [List.cons_append, run, run, Option.bind_assoc]
    exact congrArg _ (funext fun s' => ih s')

theorem run_append_eq_some {s s'' : S} {first second : List A} :
    run step s (first ++ second) = some s'' ↔
      ∃ s', run step s first = some s' ∧ run step s' second = some s'' := by
  rw [run_append]
  exact Option.bind_eq_some_iff

/-- A condition on the actions alone. -/
theorem along_of_forall {allowed : A → Prop} {s : S} {actions : List A}
    (h : ∀ a ∈ actions, allowed a) : Along step (fun _ a => allowed a) s actions := by
  induction actions generalizing s with
  | nil => trivial
  | cons a rest ih =>
    exact ⟨h a List.mem_cons_self, fun s' _ => ih fun b mem => h b (List.mem_cons_of_mem _ mem)⟩

theorem along_append {s : S} {first second : List A} (h : Along step condition s (first ++ second)) :
    Along step condition s first ∧
      ∀ s', run step s first = some s' → Along step condition s' second := by
  induction first generalizing s with
  | nil => exact ⟨trivial, fun s' h' => Option.some.inj h' ▸ h⟩
  | cons a rest ih =>
    refine ⟨⟨h.1, fun s' h' => (ih (h.2 s' h')).1⟩, fun s'' h'' => ?_⟩
    obtain ⟨s', first, later⟩ := run_cons_eq_some.mp h''
    exact (ih (h.2 s' first)).2 s'' later

/-- Whether a run meets a condition can be computed, if whether a step does can. -/
instance decidableAlong [∀ s a, Decidable (condition s a)] :
    ∀ (s : S) (actions : List A), Decidable (Along step condition s actions)
  | _, [] => inferInstanceAs (Decidable True)
  | s, a :: rest =>
    match stepped : step s a with
    | none => decidable_of_iff (condition s a) ⟨fun h => ⟨h, fun s' later => by
        cases stepped.symm.trans later⟩, And.left⟩
    | some next =>
      have := decidableAlong next rest
      decidable_of_iff (condition s a ∧ Along step condition next rest)
        ⟨fun h => ⟨h.1, fun s' later => by
          cases stepped.symm.trans later
          exact h.2⟩, fun h => ⟨h.1, h.2 next stepped⟩⟩

/-- An invariant of the steps that meet the condition holds at the end of a run along it. -/
theorem run_invariant {I : S → Prop}
    (preserved : ∀ s a s', I s → condition s a → step s a = some s' → I s')
    {s s' : S} {actions : List A} (start : I s) (along : Along step condition s actions)
    (h : run step s actions = some s') : I s' := by
  induction actions generalizing s with
  | nil => exact Option.some.inj h ▸ start
  | cons a rest ih =>
    obtain ⟨t, first, later⟩ := run_cons_eq_some.mp h
    exact ih (preserved s a t start along.1 first) (along.2 t first) later

/-- Without a condition, the invariant holds at the end of every run. -/
theorem run_invariant_all {I : S → Prop}
    (preserved : ∀ s a s', I s → step s a = some s' → I s')
    {s s' : S} {actions : List A} (start : I s) (h : run step s actions = some s') :
    I s' := by
  induction actions generalizing s with
  | nil => exact Option.some.inj h ▸ start
  | cons a rest ih =>
    obtain ⟨t, first, later⟩ := run_cons_eq_some.mp h
    exact ih (preserved s a t start first) later

/-- A property that holds from the first step on that breaks a condition, and never before: it holds
at the end of a run if the run was not along the condition. -/
theorem run_broken_iff {I P : S → Prop}
    (preserved : ∀ s a s', I s → step s a = some s' → I s')
    (breaks : ∀ s a s', I s → step s a = some s' → (P s' ↔ P s ∨ ¬condition s a))
    {s s' : S} {actions : List A} (start : I s) (h : run step s actions = some s') :
    P s' ↔ P s ∨ ¬Along step condition s actions := by
  induction actions generalizing s with
  | nil =>
    cases h
    exact (or_iff_left (not_not.mpr trivial)).symm
  | cons a rest ih =>
    obtain ⟨t, first, later⟩ := run_cons_eq_some.mp h
    have along : Along step condition s (a :: rest) ↔
        condition s a ∧ Along step condition t rest :=
      and_congr_right fun _ => ⟨fun each => each t first, fun each u stepped => by
        cases first.symm.trans stepped
        exact each⟩
    rw [ih (preserved s a t start first) later, breaks s a t start first, along, not_and_or,
      or_assoc]

/-- A reflexive and transitive relation that every step respects relates the ends of a run. -/
theorem run_relation {related : S → S → Prop} (refl : ∀ s, related s s)
    (trans : ∀ s t u, related s t → related t u → related s u)
    (steps : ∀ s a s', step s a = some s' → related s s')
    {s s' : S} {actions : List A} (h : run step s actions = some s') : related s s' := by
  induction actions generalizing s with
  | nil => exact Option.some.inj h ▸ refl s
  | cons a rest ih =>
    obtain ⟨t, first, later⟩ := run_cons_eq_some.mp h
    exact trans s t s' (steps s a t first) (ih later)

end RoboAgent.Runs
