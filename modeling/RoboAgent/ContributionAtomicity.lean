import RoboAgent.Contributions

/-! Contributions are all or nothing as long as their effects do not clash. One whose effects clash
raises with its identity taken, its usage counted and its first effects stored, and the retry of it
passes for a repetition. -/

namespace RoboAgent.ContributionAtomicity
open RoboAgent.KeyedLists RoboAgent.Dicts RoboAgent.Runs RoboAgent.ExecutionTree
open RoboAgent.ToolEffects (EffectIdentity)
open RoboAgent.Contributions

variable {E R T : Type} [DecidableEq E] [DecidableEq R] {bounded : R → R} {t t' : FactTree E R T}

section Effects
variable {effects effects' : Dict EffectIdentity (Effect E)} {added : List (Effect E)}

/-- An effect without an identity, or with the identity of another effect that is stored or added. -/
def Clash (effects : Dict EffectIdentity (Effect E)) (added : List (Effect E)) : Prop :=
  ∃ effect ∈ added, effect.effectId = none ∨ ∃ effectId, effect.effectId = some effectId ∧
    ((∃ stored, effects.get effectId = some stored ∧ stored ≠ effect) ∨
      ∃ other ∈ added, other.effectId = some effectId ∧ other ≠ effect)

omit [DecidableEq E] in
theorem clash_cons {effect : Effect E} {effectId : EffectIdentity}
    (identified : effect.effectId = some effectId)
    (agrees : ∀ stored, effects.get effectId = some stored → stored = effect) :
    Clash effects (effect :: added) ↔ Clash (effects.put effectId effect) added := by
  constructor
  · rintro ⟨first, mem, none_ | ⟨id, named, ⟨stored, found, differs⟩ | ⟨other, mem', same, differs⟩⟩⟩
    · obtain rfl | mem := List.mem_cons.mp mem
      · cases none_.symm.trans identified
      · exact ⟨first, mem, .inl none_⟩
    · obtain rfl | mem := List.mem_cons.mp mem
      · cases named.symm.trans identified
        exact absurd (agrees stored found) differs
      · refine ⟨first, mem, .inr ⟨id, named, .inl ?_⟩⟩
        by_cases here : id = effectId
        · refine ⟨effect, by rw [here, Dict.get_put_self], ?_⟩
          rw [← agrees stored (here ▸ found)]
          exact differs
        · exact ⟨stored, by rw [Dict.get_put, if_neg here, found], differs⟩
    · obtain rfl | mem := List.mem_cons.mp mem
      · cases named.symm.trans identified
        refine ⟨other, (List.mem_cons.mp mem').resolve_left differs, .inr ⟨_, same, .inl ?_⟩⟩
        exact ⟨first, Dict.get_put_self .., differs.symm⟩
      · refine ⟨first, mem, .inr ⟨id, named, ?_⟩⟩
        obtain rfl | mem' := List.mem_cons.mp mem'
        · cases same.symm.trans identified
          exact .inl ⟨other, Dict.get_put_self .., differs⟩
        · exact .inr ⟨other, mem', same, differs⟩
  · rintro ⟨first, mem, none_ | ⟨id, named, ⟨stored, found, differs⟩ | ⟨other, mem', same, differs⟩⟩⟩
    · exact ⟨first, List.mem_cons_of_mem _ mem, .inl none_⟩
    · refine ⟨first, List.mem_cons_of_mem _ mem, .inr ⟨id, named, ?_⟩⟩
      rw [Dict.get_put] at found
      split_ifs at found with here
      · cases found
        exact .inr ⟨effect, List.mem_cons_self, here ▸ identified, differs⟩
      · exact .inl ⟨stored, found, differs⟩
    · exact ⟨first, List.mem_cons_of_mem _ mem, .inr ⟨id, named, .inr
        ⟨other, List.mem_cons_of_mem _ mem', same, differs⟩⟩⟩

/-- What adding effects leaves when it does not raise. -/
structure Added (effects : Dict EffectIdentity (Effect E)) (added : List (Effect E))
    (effects' : Dict EffectIdentity (Effect E)) : Prop where
  stored : ∀ effect ∈ added, ∃ effectId, effect.effectId = some effectId ∧
    effects'.get effectId = some effect
  kept : ∀ effectId effect, effects.get effectId = some effect →
    effects'.get effectId = some effect
  only : ∀ effectId effect, effects'.get effectId = some effect →
    effects.get effectId = some effect ∨ effect ∈ added

theorem addEffects_cases (effects : Dict EffectIdentity (Effect E)) (added : List (Effect E)) :
    (Clash effects added ∧ ∃ error effects', addEffects effects added = (.error error, effects')) ∨
      (¬Clash effects added ∧ ∃ effects', addEffects effects added = (.ok (), effects') ∧
        Added effects added effects') := by
  induction added generalizing effects with
  | nil => exact .inr ⟨nofun, effects, rfl, nofun, fun _ _ => id, fun _ _ => .inl⟩
  | cons effect added ih =>
    rw [addEffects]
    cases identified : effect.effectId with
    | none => exact .inl ⟨⟨effect, List.mem_cons_self, .inl identified⟩, _, _, rfl⟩
    | some effectId =>
      dsimp only
      split_ifs with taken
      · obtain ⟨stored, found, differs⟩ := (Option.any_eq_true _ _).mp taken
        refine .inl ⟨⟨effect, List.mem_cons_self, .inr ⟨effectId, identified, .inl ?_⟩⟩, _, _, rfl⟩
        exact ⟨stored, found, of_decide_eq_true differs⟩
      · have agrees (stored : Effect E) (found : effects.get effectId = some stored) :
            stored = effect := by
          by_contra differs
          exact taken ((Option.any_eq_true _ _).mpr ⟨stored, found, decide_eq_true differs⟩)
        rw [clash_cons identified agrees]
        obtain clash | ⟨fine, effects', made, stored, kept, only⟩ := ih (effects.put effectId effect)
        · exact .inl clash
        · refine .inr ⟨fine, effects', made, ?_, fun id other found => kept id other ?_, ?_⟩
          · refine List.forall_mem_cons.mpr ⟨⟨effectId, identified, ?_⟩, stored⟩
            exact kept effectId effect (Dict.get_put_self ..)
          · rw [Dict.get_put]
            split_ifs with here
            · rw [agrees other (here ▸ found)]
            · exact found
          · intro id other found
            obtain before | mem := only id other found
            · rw [Dict.get_put] at before
              split_ifs at before with here
              · cases before
                exact .inr List.mem_cons_self
              · exact .inl before
            · exact .inr (List.mem_cons_of_mem _ mem)

end Effects

/-- The contribution is merged completely. -/
structure Merged (bounded : R → R) (t : FactTree E R T) (contribution : ExecutionContribution E R)
    (t' : FactTree E R T) : Prop where
  scopes : t'.toTree = { t.toTree with
    cleanupErrors := t.cleanupErrors ++ contribution.cleanupErrors }
  contributions : t'.contributions = t.contributions.put contribution.contributionId contribution
  usage : t'.usage = contribution.usage.elim t.usage (mergeUsage t.usage)
  effects : Added t.effects contribution.effects t'.effects
  recorded : t'.recorded = contribution.records.foldl (fun recorded record =>
    recorded.append contribution.contributionId.scopeId (.summary (bounded record))) t.recorded

/-- The scope still takes contributions, or settlements if this is one. -/
def Admits (t : FactTree E R T) (contribution : ExecutionContribution E R) (settlement : Bool) :
    Prop :=
  ∃ scope, t.scopes[contribution.contributionId.scopeId]? = some scope ∧
    ¬(scope.state = .frozen ∨ scope.state = .closing ∧ settlement = false)

/-- The contribution is new, its scope takes it, and its effects clash. -/
def Torn (t : FactTree E R T) (contribution : ExecutionContribution E R) (settlement : Bool) :
    Prop :=
  Admits t contribution settlement ∧
    t.contributions.get contribution.contributionId = none ∧ Clash t.effects contribution.effects

/-- All that a contribution can do. -/
theorem contribute_cases (t : FactTree E R T) (contribution : ExecutionContribution E R)
    (settlement : Bool) :
    (¬Admits t contribution settlement ∧
      ∃ error, contribute bounded t contribution settlement = (.error error, t)) ∨
    (Admits t contribution settlement ∧
      t.contributions.get contribution.contributionId = some contribution ∧
      contribute bounded t contribution settlement = (.ok (), t)) ∨
    (Admits t contribution settlement ∧ (∃ previous, previous ≠ contribution ∧
      t.contributions.get contribution.contributionId = some previous) ∧
      ∃ error, contribute bounded t contribution settlement = (.error error, t)) ∨
    (Admits t contribution settlement ∧
      t.contributions.get contribution.contributionId = none ∧
      ¬Clash t.effects contribution.effects ∧
      ∃ t', contribute bounded t contribution settlement = (.ok (), t') ∧
        Merged bounded t contribution t') ∨
    (Torn t contribution settlement ∧
      ∃ error t', contribute bounded t contribution settlement = (.error error, t') ∧
        t'.contributions = t.contributions.put contribution.contributionId contribution ∧
        t'.usage = contribution.usage.elim t.usage (mergeUsage t.usage) ∧
        t'.toTree = t.toTree) := by
  rw [contribute]
  cases found : t.scopes[contribution.contributionId.scopeId]? with
  | none =>
    refine .inl ⟨?_, _, rfl⟩
    rintro ⟨scope, known, -⟩
    cases found.symm.trans known
  | some scope =>
    dsimp only
    split_ifs with shut
    · refine .inl ⟨?_, _, rfl⟩
      rintro ⟨other, known, admits⟩
      cases found.symm.trans known
      exact admits shut
    · have admits : Admits t contribution settlement := ⟨scope, found, shut⟩
      cases known : t.contributions.get contribution.contributionId with
      | some previous =>
        dsimp only
        split_ifs with same
        · exact .inr (.inl ⟨admits, by rw [same], rfl⟩)
        · exact .inr (.inr (.inl ⟨admits, ⟨previous, same, rfl⟩, _, rfl⟩))
      | none =>
        dsimp only
        obtain ⟨clash, error, effects, raised⟩ | ⟨fine, effects, made, added⟩ :=
          addEffects_cases t.effects contribution.effects
        · rw [raised]
          exact .inr (.inr (.inr (.inr ⟨⟨admits, known, clash⟩, error, _, rfl, rfl, rfl, rfl⟩)))
        · rw [made]
          exact .inr (.inr (.inr (.inl ⟨admits, rfl, fine, _, rfl, ⟨rfl, rfl, rfl, added, rfl⟩⟩)))

/-- The effect is stored, up to the mark that the transcript holds it. -/
def Present (effects : Dict EffectIdentity (Effect E)) (effect : Effect E) : Prop :=
  ∃ effectId, effect.effectId = some effectId ∧ (effects.get effectId = some effect ∨
    effects.get effectId = some { effect with transcriptCommitted := true })

/-- Every effect of a contribution that was taken is there. -/
def Whole (t : FactTree E R T) : Prop :=
  ∀ id contribution, t.contributions.get id = some contribution →
    id = contribution.contributionId ∧ ∀ effect ∈ contribution.effects, Present t.effects effect

omit [DecidableEq E] in
theorem Present.mark {effects : Dict EffectIdentity (Effect E)} {effect : Effect E}
    (present : Present effects effect) (effectIds : List EffectIdentity) :
    Present (effectIds.foldl commitEffect effects) effect := by
  induction effectIds generalizing effects with
  | nil => exact present
  | cons marked effectIds ih =>
    refine ih ?_
    obtain ⟨effectId, identified, stored⟩ := present
    refine ⟨effectId, identified, ?_⟩
    rw [commitEffect]
    cases known : effects.get marked with
    | none => exact stored
    | some other =>
      dsimp only
      rw [Dict.get_put]
      split_ifs with here
      · rw [here, known] at stored
        obtain stored | stored := stored
        · cases stored
          exact .inr rfl
        · cases stored
          exact .inr rfl
      · exact stored

omit [DecidableEq E] in
theorem Present.kept {effects effects' : Dict EffectIdentity (Effect E)}
    (kept : ∀ effectId effect, effects.get effectId = some effect →
      effects'.get effectId = some effect) {effect : Effect E} (present : Present effects effect) :
    Present effects' effect := by
  obtain ⟨effectId, identified, stored⟩ := present
  exact ⟨effectId, identified, stored.imp (kept _ _) (kept _ _)⟩

theorem whole_merged {contribution : ExecutionContribution E R} (whole : Whole t)
    (merged : Merged bounded t contribution t') : Whole t' := by
  intro id other found
  rw [merged.contributions, Dict.get_put] at found
  split_ifs at found with here
  · cases found
    refine ⟨here, fun effect mem => ?_⟩
    obtain ⟨effectId, identified, stored⟩ := merged.effects.stored effect mem
    exact ⟨effectId, identified, .inl stored⟩
  · obtain ⟨named, present⟩ := whole id other found
    exact ⟨named, fun effect mem => (present effect mem).kept merged.effects.kept⟩

/-- The action is not a contribution whose effects clash. -/
def Untorn (t : FactTree E R T) : FactAction E R T → Prop
  | .contribute contribution settlement => ¬Torn t contribution settlement
  | _ => True

theorem whole_step (t : FactTree E R T) (action : FactAction E R T) (t' : FactTree E R T)
    (whole : Whole t) (untorn : Untorn t action) (stepped : factStep bounded t action = some t') :
    Whole t' := by
  cases action with
  | scopes action =>
    obtain ⟨tree, -, rfl⟩ := Option.map_eq_some_iff.mp stepped
    exact whole
  | addToolRecord scope record =>
    cases stepped
    exact whole
  | addRetryBlocker blocker =>
    cases stepped
    exact whole
  | markCommitted effectIds =>
    cases stepped
    intro id contribution found
    obtain ⟨named, present⟩ := whole id contribution found
    exact ⟨named, fun effect mem => (present effect mem).mark effectIds⟩
  | contribute contribution settlement =>
    cases stepped
    obtain ⟨-, error, done⟩ | ⟨-, -, done⟩ | ⟨-, -, error, done⟩ | ⟨-, -, -, t', done, merged⟩ |
      ⟨torn, -⟩ := @contribute_cases _ _ _ _ _ bounded t contribution settlement
    · rw [done]
      exact whole
    · rw [done]
      exact whole
    · rw [done]
      exact whole
    · rw [done]
      exact whole_merged whole merged
    · exact absurd torn untorn

/-- A contribution that was taken is never forgotten or replaced. -/
theorem kept_step {id : ContributionId} {contribution : ExecutionContribution E R}
    (t : FactTree E R T) (action : FactAction E R T) (t' : FactTree E R T)
    (taken : t.contributions.get id = some contribution)
    (stepped : factStep bounded t action = some t') :
    t'.contributions.get id = some contribution := by
  cases action with
  | scopes action =>
    obtain ⟨tree, -, rfl⟩ := Option.map_eq_some_iff.mp stepped
    exact taken
  | addToolRecord scope record =>
    cases stepped
    exact taken
  | addRetryBlocker blocker =>
    cases stepped
    exact taken
  | markCommitted effectIds =>
    cases stepped
    exact taken
  | contribute other settlement =>
    cases stepped
    have put (fresh : t.contributions.get other.contributionId = none) :
        (t.contributions.put other.contributionId other).get id = some contribution := by
      rw [Dict.get_put, if_neg, taken]
      rintro rfl
      cases fresh.symm.trans taken
    obtain ⟨-, error, done⟩ | ⟨-, -, done⟩ | ⟨-, -, error, done⟩ | ⟨-, fresh, -, t', done, merged⟩ |
      ⟨⟨-, fresh, -⟩, error, t', done, contributions, -⟩ :=
        @contribute_cases _ _ _ _ _ bounded t other settlement
    · rw [done]
      exact taken
    · rw [done]
      exact taken
    · rw [done]
      exact taken
    · rw [done]
      exact merged.contributions ▸ put fresh
    · rw [done]
      exact contributions ▸ put fresh

/-- The contribution is accepted completely, or it raises and changes nothing; where it was accepted
before it changes nothing; and accepted or repeated, none of its effects is missing. After any further
steps the same contribution is no operation while its scope is open, and another one under its
identity raises. -/
structure AllOrNothing (bounded : R → R) (t : FactTree E R T)
    (contribution : ExecutionContribution E R) (settlement : Bool) : Prop where
  outcome : (∃ error, contribute bounded t contribution settlement = (.error error, t)) ∨
    (t.contributions.get contribution.contributionId = some contribution ∧
      contribute bounded t contribution settlement = (.ok (), t)) ∨
    ∃ t', contribute bounded t contribution settlement = (.ok (), t') ∧
      Merged bounded t contribution t'
  effects : ∀ t', contribute bounded t contribution settlement = (.ok (), t') →
    ∀ effect ∈ contribution.effects, Present t'.effects effect
  resent : ∀ t' actions later, contribute bounded t contribution settlement = (.ok (), t') →
    run (factStep bounded) t' actions = some later →
      (∀ again, Admits later contribution again →
        contribute bounded later contribution again = (.ok (), later)) ∧
      ∀ other again, other.contributionId = contribution.contributionId → other ≠ contribution →
        ∃ error, contribute bounded later other again = (.error error, later)

theorem contribute_resent {contribution : ExecutionContribution E R}
    (taken : t.contributions.get contribution.contributionId = some contribution)
    {settlement : Bool} (admits : Admits t contribution settlement) :
    contribute bounded t contribution settlement = (.ok (), t) := by
  obtain ⟨shut, -⟩ | ⟨-, -, done⟩ | ⟨-, ⟨previous, differs, known⟩, -⟩ | ⟨-, fresh, -⟩ |
    ⟨⟨-, fresh, -⟩, -⟩ := @contribute_cases _ _ _ _ _ bounded t contribution settlement
  · exact absurd admits shut
  · exact done
  · exact absurd (Option.some.inj (known.symm.trans taken)) differs
  · cases fresh.symm.trans taken
  · cases fresh.symm.trans taken

theorem contribute_reused {contribution other : ExecutionContribution E R}
    (taken : t.contributions.get contribution.contributionId = some contribution)
    (same : other.contributionId = contribution.contributionId) (differs : other ≠ contribution)
    (settlement : Bool) : ∃ error, contribute bounded t other settlement = (.error error, t) := by
  rw [← same] at taken
  obtain ⟨-, raised⟩ | ⟨-, known, -⟩ | ⟨-, -, raised⟩ | ⟨-, fresh, -⟩ | ⟨⟨-, fresh, -⟩, -⟩ :=
    @contribute_cases _ _ _ _ _ bounded t other settlement
  · exact raised
  · exact absurd (Option.some.inj (known.symm.trans taken)) differs
  · exact raised
  · cases fresh.symm.trans taken
  · cases fresh.symm.trans taken

theorem taken_of_ok {contribution : ExecutionContribution E R} {settlement : Bool}
    (done : contribute bounded t contribution settlement = (.ok (), t')) :
    t'.contributions.get contribution.contributionId = some contribution := by
  obtain ⟨-, error, raised⟩ | ⟨-, known, unchanged⟩ | ⟨-, -, error, raised⟩ |
    ⟨-, -, -, next, made, merged⟩ | ⟨-, error, next, raised, -⟩ :=
      @contribute_cases _ _ _ _ _ bounded t contribution settlement
  · cases raised.symm.trans done
  · cases unchanged.symm.trans done
    exact known
  · cases raised.symm.trans done
  · cases made.symm.trans done
    rw [merged.contributions, Dict.get_put_self]
  · cases raised.symm.trans done

theorem whole_create (budget : ExecutionBudgetConfig) (maxExecutionRecords : Nat) :
    Whole (FactTree.create budget maxExecutionRecords : FactTree E R T) := by
  intro id contribution found
  cases found

section Example

/-- Effects and records by number. -/
abbrev SmallTree := FactTree Nat Nat Nat

def sighted (sequence : Nat) (effects : List (Effect Nat)) : ExecutionContribution Nat Nat where
  contributionId := ⟨0, sequence⟩
  usage := some (.known { inputTokens := some 1 })
  effects

/-- The tree after the effect 5 was contributed under the first identity. -/
def seen : SmallTree :=
  (contribute id (FactTree.create {} 8) (sighted 0 [⟨some ⟨0, 0⟩, false, 5⟩]) false).2

/-- Two effects, the second under the identity of the effect 5. -/
def clashing : ExecutionContribution Nat Nat :=
  sighted 1 [⟨some ⟨0, 1⟩, false, 6⟩, ⟨some ⟨0, 0⟩, false, 7⟩]

end Example

end RoboAgent.ContributionAtomicity
