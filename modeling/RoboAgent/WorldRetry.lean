import RoboAgent.WorldRuns

/-! Retries. A call that was accepted once is answered by what the store holds for ever after. -/

namespace RoboAgent.WorldRetry
open RoboAgent.FrozenJson RoboAgent.SortedJson RoboAgent.JsonText RoboAgent.JsonIdentity
open RoboAgent.KeyedLists RoboAgent.Dicts RoboAgent.DepthFirst RoboAgent.FalliblePrograms
open RoboAgent.WorldTypes RoboAgent.WorldStore RoboAgent.WorldStore.World RoboAgent.WorldCommit
open RoboAgent.WorldInvariant RoboAgent.WorldRuns RoboAgent.Runs

variable {lib : Library} {w : World} {call again other : Call}

/-- The store holds what the call asks it to hold, as far as digests can tell. -/
structure Stored (w : World) (call : Call) : Prop where
  claims : ∀ claim ∈ call.batch, ∃ old, w.claims.get claim.ref = some old ∧
    sortKeys old.data = sortKeys claim.data
  observed : ∀ o, call.observation = some o → ∃ old, w.observations.get o.ref = some old ∧
    sortKeys old.data = sortKeys o.data
  transaction : ∀ o, call.observation = some o →
    w.transactions.get o.ref = some (call.batch.map Claim.ref).toFinset

theorem toFinset_incoming (lib : Library) (call : Call) :
    (keys (prepared lib call).incoming.entries).toFinset =
      (call.batch.map Claim.ref).toFinset := by
  ext ref
  rw [List.mem_toFinset, List.mem_toFinset, List.mem_map, Dict.mem_keys_iff,
    ← Option.isSome_iff_exists]
  exact isSome_incoming

/-- What the batch makes of a reference has the data of every claim of the batch under it. -/
theorem incoming_data (call : Call) (correct : lib.Correct)
    (agreeing : Agreeing lib .empty call.batch) {claim : Claim} (mem : claim ∈ call.batch) :
    ∃ s, (prepared lib call).incoming.get claim.ref = some s ∧
      sortKeys s.claim.data = sortKeys claim.data := by
  have present : ((prepared lib call).incoming.get claim.ref).isSome = true :=
    isSome_incoming.mpr ⟨claim, mem, rfl⟩
  obtain ⟨s, found⟩ := Option.isSome_iff_exists.mp present
  obtain ⟨member, ref, -⟩ := incoming_spec found
  have digests := agreeing.2 s.claim member claim mem ref
  exact ⟨s, found, (dataDigest_injective correct s.claim.wellFormed_data
    claim.wellFormed_data).mp digests⟩

theorem mem_submitted {ref : ClaimRef} {s : Submitted}
    (found : (prepared lib call).incoming.get ref = some s) :
    (ref, s.claim) ∈ submitted (prepared lib call) :=
  List.mem_map.mpr ⟨(ref, s), Dict.get_eq_some_iff.mp found, rfl⟩

theorem changes_eq_false : changes lib w call = false ↔
    w.claims.newEntries (submitted (prepared lib call)) = [] ∧
      w.isNewObservation call.observation = false := by
  rw [changes, outcome, Bool.or_eq_false_iff, Bool.not_eq_false', List.isEmpty_iff]

theorem stored_of_committed (correct : lib.Correct) (h : Accepted lib w call) :
    Stored (committed lib w call.observation (prepared lib call)) call where
  claims claim mem := by
    obtain ⟨s, found, same⟩ := incoming_data call correct h.preparable.agreeing mem
    refine ⟨s.claim, ?_, same⟩
    change (claimsAfter w (prepared lib call)).get claim.ref = some s.claim
    rw [get_claimsAfter w (prepared lib call), found]
    rfl
  observed o submitted := by
    refine ⟨o, ?_, rfl⟩
    rw [committed, submitted, observationsAfter, Option.elim_some, Dict.get_put_self]
  transaction o submitted := by
    rw [committed, submitted, Option.elim_some, Dict.get_put_self, toFinset_incoming]

/-- A call that changes nothing finds everything stored. -/
theorem stored_of_unchanged (correct : lib.Correct) (inv : Consistent lib w)
    (h : Accepted lib w call) (unchanged : changes lib w call = false) : Stored w call := by
  obtain ⟨noClaim, noObservation⟩ := changes_eq_false.mp unchanged
  have known {o : Observation} (submitted : call.observation = some o) :
      ∃ old, w.observations.get o.ref = some old := by
    rw [submitted, isNewObservation, Option.any_some, Option.isNone_eq_false_iff] at noObservation
    exact Option.isSome_iff_exists.mp noObservation
  have fine {o : Observation} (submitted : call.observation = some o) :
      w.observationConflicts o (preparation lib (some o) call.batch) = false := by
    have observed := h.plannable.observed
    rw [prepared, submitted] at observed
    exact observed
  constructor
  · intro claim mem
    obtain ⟨s, found, same⟩ := incoming_data call correct h.preparable.agreeing mem
    cases stored : w.claims.get claim.ref with
    | none =>
      have fresh : (claim.ref, s.claim) ∈ w.claims.newEntries (submitted (prepared lib call)) :=
        List.mem_filter.mpr ⟨mem_submitted found, Option.isNone_iff_eq_none.mpr stored⟩
      rw [noClaim] at fresh
      cases fresh
    | some old =>
      have kept := stored_same correct inv h.plannable.claims stored found
      exact ⟨old, rfl, ((sameClaim_iff _ _).mp kept).trans same⟩
  · intro o submitted
    obtain ⟨old, stored⟩ := known submitted
    exact ⟨old, stored, (stored_observation correct inv (fine submitted) stored).1⟩
  · intro o submitted
    obtain ⟨old, stored⟩ := known submitted
    rw [(stored_observation correct inv (fine submitted) stored).2, ← toFinset_incoming lib,
      prepared, submitted]

theorem stored_of_accepted (correct : lib.Correct) (inv : Consistent lib w)
    (h : Accepted lib w call) : Stored (after lib w call) call := by
  rw [after]
  cases changed : changes lib w call with
  | true => exact stored_of_committed correct h
  | false => exact stored_of_unchanged correct inv h changed

/-- No later commit replaces what is stored by something else. -/
theorem Stored.committed (correct : lib.Correct) (inv : Consistent lib w) (stored : Stored w call)
    (h : Accepted lib w other) :
    Stored (committed lib w other.observation (prepared lib other)) call where
  claims claim mem := by
    obtain ⟨old, found, same⟩ := stored.claims claim mem
    obtain ⟨new, found', kept⟩ := stored_after correct inv h.plannable.claims found
    exact ⟨new, found', ((sameClaim_iff _ _).mp kept).symm.trans same⟩
  observed o submitted := by
    obtain ⟨old, found, same⟩ := stored.observed o submitted
    change ∃ old, (observationsAfter w other.observation).get o.ref = some old ∧ _
    have observed := h.plannable.observed
    cases replacing : other.observation with
    | none => exact ⟨old, found, same⟩
    | some new =>
      rw [observationsAfter, Option.elim_some, Dict.get_put]
      split_ifs with here
      · rw [prepared, replacing, Option.any_some] at observed
        rw [here] at found
        exact ⟨new, rfl, (stored_observation correct inv observed found).1.symm.trans same⟩
      · exact ⟨old, found, same⟩
  transaction o submitted := by
    obtain ⟨old, found, -⟩ := stored.observed o submitted
    have transaction := stored.transaction o submitted
    have observed := h.plannable.observed
    rw [WorldCommit.committed]
    cases replacing : other.observation with
    | none => exact transaction
    | some new =>
      rw [Option.elim_some, Dict.get_put]
      split_ifs with here
      · rw [prepared, replacing, Option.any_some] at observed
        rw [here] at found transaction
        rw [← transaction, (stored_observation correct inv observed found).2, prepared, replacing]
      · exact transaction

theorem stored_step (correct : lib.Correct) {next : World}
    (kept : Consistent lib w ∧ Stored w call) (h : step lib w other = some next) :
    Consistent lib next ∧ Stored next call := by
  obtain ⟨inv, stored⟩ := kept
  refine ⟨consistent_step correct inv h, ?_⟩
  cases h
  obtain ⟨error, -, performed⟩ | ⟨accepted, performed⟩ := perform_cases other inv
  · rw [performed]
    exact stored
  · rw [performed, after]
    split_ifs
    · exact stored.committed correct inv accepted
    · exact stored

theorem stored_run (correct : lib.Correct) (inv : Consistent lib w) (stored : Stored w call)
    {calls : List Call} {next : World} (h : run (step lib) w calls = some next) :
    Stored next call :=
  (run_invariant_all (fun _ _ _ kept => stored_step correct kept) ⟨inv, stored⟩ h).2

/-- The same call again, its claims in any order and the keys of its JSON objects in any order. -/
structure Repeats (call again : Call) : Prop where
  observation : Option.Rel SameObservation call.observation again.observation
  batch : ∃ batch, call.batch.Perm batch ∧ List.Forall₂ SameClaim batch again.batch

theorem exists_of_forall₂ {α β : Type} {R : α → β → Prop} {xs : List α} {ys : List β}
    (h : List.Forall₂ R xs ys) {y : β} (mem : y ∈ ys) : ∃ x ∈ xs, R x y := by
  induction h with
  | nil => cases mem
  | cons related _ ih =>
    obtain rfl | later := List.mem_cons.mp mem
    · exact ⟨_, List.mem_cons_self, related⟩
    · obtain ⟨x, mem, related⟩ := ih later
      exact ⟨x, List.mem_cons_of_mem _ mem, related⟩

theorem Repeats.claim (h : Repeats call again) {claim : Claim} (mem : claim ∈ again.batch) :
    ∃ original ∈ call.batch, SameClaim original claim := by
  obtain ⟨batch, perm, same⟩ := h.batch
  obtain ⟨original, member, kept⟩ := exists_of_forall₂ same mem
  exact ⟨original, perm.mem_iff.mpr member, kept⟩

theorem Repeats.refs (h : Repeats call again) :
    (call.batch.map Claim.ref).toFinset = (again.batch.map Claim.ref).toFinset := by
  obtain ⟨batch, perm, same⟩ := h.batch
  have refs : batch.map Claim.ref = again.batch.map Claim.ref := by
    refine (congrFun₂ List.forall₂_eq_eq_eq _ _).mp ?_
    rw [List.forall₂_map_left_iff, List.forall₂_map_right_iff]
    exact same.imp fun _ _ h => h.ref
  rw [← refs]
  exact List.toFinset_eq_of_perm _ _ (perm.map _)

theorem Repeats.length (h : Repeats call again) : call.batch.length = again.batch.length := by
  obtain ⟨batch, perm, same⟩ := h.batch
  exact perm.length_eq.trans same.length_eq

theorem Repeats.observed (h : Repeats call again) {o : Observation}
    (submitted : again.observation = some o) :
    ∃ original, call.observation = some original ∧ SameObservation original o := by
  have related := h.observation
  rw [submitted] at related
  cases original : call.observation with
  | none =>
    rw [original] at related
    cases related
  | some first =>
    rw [original] at related
    cases related with
    | some same => exact ⟨first, rfl, same⟩

theorem Repeats.stored (h : Repeats call again) (stored : Stored w call) : Stored w again where
  claims claim mem := by
    obtain ⟨original, member, same⟩ := h.claim mem
    obtain ⟨old, found, kept⟩ := stored.claims original member
    exact ⟨old, same.ref ▸ found, kept.trans ((sameClaim_iff _ _).mp same)⟩
  observed o submitted := by
    obtain ⟨original, first, same⟩ := h.observed submitted
    obtain ⟨old, found, kept⟩ := stored.observed original first
    exact ⟨old, same.1.ref ▸ found, kept.trans ((observation_data_iff _ _).mpr (.inl same))⟩
  transaction o submitted := by
    obtain ⟨original, first, same⟩ := h.observed submitted
    rw [← h.refs, ← same.1.ref]
    exact stored.transaction original first

theorem printable_congr {a b : JsonValue} (h : sortKeys a = sortKeys b)
    (prints : printable a = true) : printable b = true := by
  rw [← printable_sortKeys, ← h, printable_sortKeys]
  exact prints

theorem Stored.agreeing (stored : Stored w call) : Agreeing lib .empty call.batch := by
  refine ⟨fun _ _ _ found => (nomatch found), fun a memA b memB ref => ?_⟩
  obtain ⟨old, found, data⟩ := stored.claims a memA
  obtain ⟨old', found', data'⟩ := stored.claims b memB
  rw [ref] at found
  cases found.symm.trans found'
  rw [dataDigest, dataDigest, ← data, ← data']

/-- What the checks before the lock ask of a call, they grant to its repetition. -/
theorem Repeats.preparable (correct : lib.Correct) (h : Repeats call again) {before : World}
    (limits : w.limits = before.limits) (sources : w.sources = before.sources)
    (scopes : w.scopes = before.scopes) (stored : Stored w again)
    (preparable : Preparable lib before call.observation call.batch) :
    Preparable lib w again.observation again.batch where
  count := by
    have := preparable.count
    rw [limits, ← h.length]
    omega
  observed o submitted := by
    obtain ⟨original, first, same⟩ := h.observed submitted
    obtain ⟨allowed, prints, bounded⟩ := preparable.observed original first
    have data := (observation_data_iff original o).mpr (.inl same)
    rw [limits, sources, scopes, ← same.1.ref, ← same.1.scope, ← dataSize_congr data]
    exact ⟨allowed, printable_congr data prints, bounded⟩
  claims claim mem := by
    obtain ⟨original, member, same⟩ := h.claim mem
    obtain ⟨allowed, prints⟩ := preparable.claims original member
    have data := (sameClaim_iff original claim).mp same
    rw [Admissible, sources, scopes, ← same.source, ← same.scope]
    exact ⟨allowed, printable_congr data prints⟩
  agreeing := stored.agreeing
  sizes s mem := by
    obtain ⟨⟨ref, _⟩, found, rfl⟩ := List.mem_map.mp mem
    obtain ⟨member, -, -⟩ := incoming_spec (Dict.get_eq_some_iff.mpr found)
    obtain ⟨original, first, same⟩ := h.claim member
    obtain ⟨s', found', data⟩ := incoming_data call correct preparable.agreeing first
    have bounded := preparable.sizes s'
      (List.mem_map_of_mem (Dict.get_eq_some_iff.mp found'))
    rw [limits, ← dataSize_congr ((sameClaim_iff _ _).mp same), ← dataSize_congr data]
    exact bounded

section Plan
variable (stored : Stored w call)
include stored

theorem incoming_stored {ref : ClaimRef} {s : Submitted}
    (found : (prepared lib call).incoming.get ref = some s) :
    ∃ old, w.claims.get ref = some old ∧ sortKeys old.data = sortKeys s.claim.data := by
  obtain ⟨member, rfl, -⟩ := incoming_spec found
  exact stored.claims s.claim member

theorem newEntries_stored : w.claims.newEntries (submitted (prepared lib call)) = [] := by
  refine List.filter_eq_nil_iff.mpr fun entry mem => ?_
  obtain ⟨⟨ref, s⟩, found, made⟩ := List.mem_map.mp mem
  obtain ⟨old, known, -⟩ := incoming_stored stored (Dict.get_eq_some_iff.mpr found)
  rw [← made, known]
  exact Bool.false_ne_true

theorem isNewObservation_stored : w.isNewObservation call.observation = false := by
  cases submitted : call.observation with
  | none => rfl
  | some o =>
    obtain ⟨old, known, -⟩ := stored.observed o submitted
    rw [isNewObservation, Option.any_some, known]
    rfl

theorem payload_stored : payloadAfter lib w call.observation (prepared lib call) =
    w.payloadBytes := by
  rw [payloadAfter, newEntries_stored stored, isNewObservation_stored stored, List.map_nil,
    List.sum_nil, if_neg Bool.false_ne_true]
  omega

/-- The claims a repeated call leaves are the stored ones, seen through anything that does not
tell equal data apart. -/
theorem map_claims_stored (lib : Library) {β : Type} (f : ClaimRef × Claim → β)
    (same : ∀ ref a b, SameClaim a b → f (ref, a) = f (ref, b)) :
    (claimsAfter w (prepared lib call)).entries.map f = w.claims.entries.map f := by
  have distinct : (keys (submitted (prepared lib call))).Nodup :=
    keys_submitted (prepared lib call) ▸ (prepared lib call).incoming.distinct
  have kept : ∀ entry ∈ submitted (prepared lib call), ∀ old,
      w.claims.get entry.1 = some old → f (entry.1, old) = f entry := by
    intro entry mem old known
    obtain ⟨⟨ref, s⟩, found, made⟩ := List.mem_map.mp mem
    obtain ⟨old', known', data⟩ := incoming_stored stored (Dict.get_eq_some_iff.mpr found)
    rw [← made] at known ⊢
    cases known.symm.trans known'
    exact same ref old s.claim ((sameClaim_iff _ _).mpr data)
  rw [claimsAfter, Dict.map_update distinct kept, newEntries_stored stored, List.map_nil,
    List.append_nil]

theorem length_claims_stored :
    (claimsAfter w (prepared lib call)).entries.length = w.claims.entries.length := by
  have keys := map_claims_stored stored lib Prod.fst fun _ _ _ _ => rfl
  simpa using congrArg List.length keys

/-- The entity that the value of a claim names. -/
def entityNamed (claim : Claim) : Option EntityRef :=
  match claim.value with
  | .entity reference => some reference
  | .json _ => none

theorem entities_stored :
    entities (values (claimsAfter w (prepared lib call))) = entities (values w.claims) := by
  have subjects := map_claims_stored stored lib (fun entry => entry.2.subject)
    fun _ _ _ same => same.subject
  have named := map_claims_stored stored lib (fun entry => entityNamed entry.2)
    fun _ a b same => by
      have value := same.value
      rw [entityNamed, entityNamed]
      revert value
      cases a.value <;> cases b.value <;> simp [SameValue]
  rw [entities, entities, values, values, List.map_map, List.map_map]
  have filtered := congrArg (List.filterMap id) named
  rw [List.filterMap_map, List.filterMap_map] at filtered
  rw [List.filterMap_map, List.filterMap_map]
  exact congrArg List.toFinset (congrArg₂ _ subjects filtered)

theorem length_observations_stored :
    (observationsAfter w call.observation).entries.length = w.observations.entries.length := by
  cases submitted : call.observation with
  | none => rfl
  | some o =>
    obtain ⟨old, known, -⟩ := stored.observed o submitted
    have keys : (w.observations.put o.ref o).entries.map Prod.fst =
        w.observations.entries.map Prod.fst := Dict.map_put known rfl
    rw [observationsAfter, Option.elim_some]
    simpa using congrArg List.length keys

theorem claimConflicts_stored (inv : Consistent lib w) :
    w.claimConflicts (prepared lib call) = false := by
  refine List.any_eq_false.mpr fun entry mem => ?_
  obtain ⟨ref, s⟩ := entry
  have found := Dict.get_eq_some_iff.mpr mem
  obtain ⟨old, known, data⟩ := incoming_stored stored found
  rw [Bool.and_eq_true, not_and, inv.claimDigests, known, (incoming_spec found).2.2,
    Option.map_some, dataDigest, dataDigest, data]
  intro _
  rw [bne_self_eq_false]
  exact Bool.false_ne_true

theorem observationConflicts_stored (inv : Consistent lib w) :
    (call.observation.any fun o => w.observationConflicts o (prepared lib call)) = false := by
  cases submitted : call.observation with
  | none => rfl
  | some o =>
    obtain ⟨old, known, data⟩ := stored.observed o submitted
    have digest : (prepared lib call).observationDigest = some (dataDigest lib o.data) := by
      rw [prepared, preparation, submitted, Option.map_some]
    rw [Option.any_some, observationConflicts, known, inv.observationDigests, known, digest,
      Option.map_some, dataDigest, dataDigest, data, stored.transaction o submitted,
      toFinset_incoming, bne_self_eq_false, Bool.false_or, Bool.and_eq_false_imp]
    intro _
    rw [decide_eq_false_iff_not, not_not]

theorem referenced_stored (correct : lib.Correct) (inv : Consistent lib w) :
    ∀ claim ∈ (submitted (prepared lib call)).map Prod.snd,
      Referenced (observationsAfter w call.observation) (claimsAfter w (prepared lib call))
        claim := by
  intro claim mem
  rw [submitted, List.map_map] at mem
  obtain ⟨⟨ref, s⟩, found, rfl⟩ := List.mem_map.mp mem
  obtain ⟨old, known, data⟩ := incoming_stored stored (Dict.get_eq_some_iff.mpr found)
  have same := (sameClaim_iff _ _).mpr data
  have kept : Referenced (observationsAfter w call.observation) (claimsAfter w (prepared lib call))
      old := referenced_mono (fun _ => isSome_observationsAfter) (fun _ _ => stored_after
    correct inv (claimConflicts_stored stored inv)) (inv.referenced ref old known)
  rw [Referenced, same.kind, same.evidenceRefs, same.supersedes] at kept
  exact kept

theorem graph_stored :
    validateGraph (claimsAfter w (prepared lib call)) (keys w.claims.entries) = .ok () := by
  have roots := map_claims_stored stored lib Prod.fst fun _ _ _ _ => rfl
  change keys (claimsAfter w (prepared lib call)).entries = keys w.claims.entries at roots
  rw [validateGraph, roots, visitAll_known fun _ mem => mem]

end Plan

/-- A resource reference in the place of a stored JSON payload, when there is room for no more. -/
def Recounts (w : World) (observation : Option Observation) : Prop :=
  ∃ o old, observation = some o ∧ w.observations.get o.ref = some old ∧
    isMedia old = false ∧ isMedia o = true ∧
    (values w.observations).countP isMedia = w.limits.maxMediaRefs

theorem counts_le_iff {observations : Dict ObservationRef Observation}
    {claims : Dict ClaimRef Claim} {payloadBytes : Nat} :
    (∀ count ∈ w.counts observations claims payloadBytes, count.1 ≤ count.2) ↔
      (entities (values claims)).card ≤ w.limits.maxEntities ∧
      observations.entries.length ≤ w.limits.maxObservations ∧
      claims.entries.length ≤ w.limits.maxClaims ∧
      observations.entries.length + claims.entries.length ≤ w.limits.maxEvidenceMetadata ∧
      (values observations).countP isMedia ≤ w.limits.maxMediaRefs ∧
      payloadBytes ≤ w.limits.maxPayloadBytes := by
  simp [counts]

theorem countP_put {K V : Type} [DecidableEq K] {p : V → Bool} {d : Dict K V} {key : K}
    {old : V} (value : V) (known : d.get key = some old) :
    (values (d.put key value)).countP p + (if p old then 1 else 0) =
      (values d).countP p + (if p value then 1 else 0) := by
  obtain ⟨entries, distinct⟩ := d
  change (((putEntry key value entries).map Prod.snd).countP p) + _ =
    ((entries.map Prod.snd).countP p) + _
  change entries.lookup key = some old at known
  clear distinct
  induction entries with
  | nil => cases known
  | cons first rest ih =>
    obtain ⟨k, v⟩ := first
    rw [List.lookup_cons] at known
    by_cases here : k = key
    · subst here
      rw [beq_self_eq_true] at known
      cases known
      rw [putEntry, if_pos rfl]
      simp only [List.map_cons, List.countP_cons]
      omega
    · rw [beq_eq_false_iff_ne.mpr (Ne.symm here)] at known
      have := ih known
      rw [putEntry, if_neg here]
      simp only [List.map_cons, List.countP_cons]
      omega

theorem media_stored (inv : Consistent lib w) (stored : Stored w call) :
    (values (observationsAfter w call.observation)).countP isMedia ≤ w.limits.maxMediaRefs ↔
      ¬Recounts w call.observation := by
  have bounded : (values w.observations).countP isMedia ≤ w.limits.maxMediaRefs :=
    (counts_le_iff.mp inv.counted).2.2.2.2.1
  cases submitted : call.observation with
  | none => exact iff_of_true bounded fun ⟨_, _, absent, _⟩ => nomatch absent
  | some o =>
    obtain ⟨old, known, -⟩ := stored.observed o submitted
    have recounts : Recounts w (some o) ↔ isMedia old = false ∧ isMedia o = true ∧
        (values w.observations).countP isMedia = w.limits.maxMediaRefs := by
      constructor
      · rintro ⟨_, _, same, found, recount⟩
        cases same
        cases known.symm.trans found
        exact recount
      · exact fun recount => ⟨o, old, rfl, known, recount⟩
    have count := countP_put (p := isMedia) o known
    rw [recounts, observationsAfter, Option.elim_some]
    cases before : isMedia old <;> cases later : isMedia o <;> simp [before, later] at count ⊢ <;>
      omega

theorem accepted_stored (correct : lib.Correct) (inv : Consistent lib w) (stored : Stored w call)
    (preparable : Preparable lib w call.observation call.batch) :
    Accepted lib w call ↔ ¬Recounts w call.observation := by
  rw [← media_stored inv stored]
  constructor
  · exact fun h => (counts_le_iff.mp h.plannable.counts).2.2.2.2.1
  · intro room
    refine ⟨preparable, observationConflicts_stored stored inv, claimConflicts_stored stored inv,
      referenced_stored stored correct inv, graph_stored stored, counts_le_iff.mpr ?_⟩
    have before := counts_le_iff.mp inv.counted
    rw [entities_stored stored, length_claims_stored stored, length_observations_stored stored,
      payload_stored stored]
    exact ⟨before.1, before.2.1, before.2.2.1, before.2.2.2.1, room, before.2.2.2.2.2⟩

/-- The allowed sources and scopes and the limits are those of the constructor. -/
structure SameRules (w next : World) : Prop where
  limits : next.limits = w.limits
  sources : next.sources = w.sources
  scopes : next.scopes = w.scopes

theorem sameRules_after (lib : Library) (w : World) (call : Call) : SameRules w (after lib w call) := by
  rw [after]
  split_ifs
  · exact ⟨rfl, rfl, rfl⟩
  · exact ⟨rfl, rfl, rfl⟩

theorem sameRules_run (correct : lib.Correct) {start : World} (inv : Consistent lib start)
    {calls : List Call} (h : run (step lib) start calls = some w) : SameRules start w := by
  refine (run_invariant_all (I := fun s => Consistent lib s ∧ SameRules start s) ?_
    ⟨inv, rfl, rfl, rfl⟩ h).2
  rintro s call next ⟨inv, same⟩ stepped
  refine ⟨consistent_step correct inv stepped, ?_⟩
  cases stepped
  obtain ⟨error, -, performed⟩ | ⟨-, performed⟩ := perform_cases call inv
  · rw [performed]
    exact same
  · rw [performed]
    have kept := sameRules_after lib s call
    exact ⟨kept.limits.trans same.limits, kept.sources.trans same.sources,
      kept.scopes.trans same.scopes⟩

/-- What the store and the acceptance leave to a retry. -/
theorem Repeats.accepted (correct : lib.Correct) (repeats : Repeats call again)
    {first later : World} (inv : Consistent lib first) (accepted : Accepted lib first call)
    {calls : List Call} (h : run (step lib) (after lib first call) calls = some later) :
    Stored later again ∧
      (Accepted lib later again ↔ ¬Recounts later again.observation) := by
  have inv' := consistent_after correct inv accepted
  have stored := repeats.stored (stored_run correct inv' (stored_of_accepted correct inv accepted) h)
  have rules := sameRules_after lib first call
  have kept := sameRules_run correct inv' h
  refine ⟨stored, accepted_stored correct (consistent_run correct inv' h) stored ?_⟩
  exact repeats.preparable correct (kept.limits.trans rules.limits)
    (kept.sources.trans rules.sources) (kept.scopes.trans rules.scopes) stored accepted.preparable

theorem perform_stored (inv : Consistent lib w) (stored : Stored w call)
    (accepted : Accepted lib w call) : perform lib call w = (.ok (receiptOf lib w call), w) ∧
      (receiptOf lib w call).changed = false ∧ (receiptOf lib w call).revision = w.revision := by
  have unchanged : changes lib w call = false :=
    changes_eq_false.mpr ⟨newEntries_stored stored, isNewObservation_stored stored⟩
  have same : after lib w call = w := by rw [after, unchanged, if_neg Bool.false_ne_true]
  refine ⟨?_, unchanged, congrArg World.revision same⟩
  rw [perform_accepted inv accepted, same]

theorem perform_not_accepted (inv : Consistent lib w) (refused : ¬Accepted lib w call) :
    ∃ error, perform lib call w = (.error error, w) := by
  obtain ⟨error, -, performed⟩ | ⟨accepted, -⟩ := perform_cases call inv
  · exact ⟨error, performed⟩
  · exact absurd accepted refused

/-- A call that was accepted once is answered again, at any later time and without a change, except
when its resource reference stands in for a stored JSON payload and there is room for no more. -/
theorem retry_unchanged (correct : lib.Correct) {first later : World} (reached : Reached lib first)
    {receipt : WorldReceipt} (accepted : (perform lib call first).1 = .ok receipt)
    {calls : List Call} (h : run (step lib) (perform lib call first).2 calls = some later)
    (repeats : Repeats call again) :
    ((∃ answer, (perform lib again later).1 = .ok answer ∧ answer.changed = false ∧
        answer.revision = later.revision) ∧ (perform lib again later).2 = later) ↔
      ¬Recounts later again.observation := by
  have inv := reached.consistent correct
  obtain ⟨error, -, performed⟩ | ⟨passed, performed⟩ := perform_cases call inv
  · rw [performed] at accepted
    cases accepted
  rw [performed] at h
  obtain ⟨stored, answered⟩ := repeats.accepted correct inv passed h
  have inv' := consistent_run correct (consistent_after correct inv passed) h
  constructor
  · rintro ⟨⟨answer, ok, -, -⟩, -⟩ recounts
    obtain ⟨error, refused⟩ := perform_not_accepted inv' (mt answered.mp (not_not.mpr recounts))
    rw [refused] at ok
    cases ok
  · intro room
    obtain ⟨performed, unchanged, current⟩ := perform_stored inv' stored (answered.mpr room)
    rw [performed]
    exact ⟨⟨_, rfl, unchanged, current⟩, rfl⟩

section Example

def sighting (id : String) (payload : Payload) (claims : List Claim) : Call :=
  ⟨some (frame id payload), claims⟩

theorem SameObservation.refl (o : Observation) : SameObservation o o := by
  refine ⟨⟨rfl, rfl, rfl, rfl, rfl⟩, ?_⟩
  cases o.payload with
  | json value => exact (same_value value value).mp rfl
  | resource reference => exact rfl

theorem Repeats.self (call : Call) : Repeats call call where
  observation := by
    cases call.observation with
    | none => exact .none
    | some o => exact .some (SameObservation.refl o)
  batch := ⟨call.batch, .refl _, List.forall₂_same.mpr fun _ _ => (sameClaim_iff _ _).mpr rfl⟩

theorem exists_ok {ε α : Type} {result : Except ε α} (h : result.isOk = true) :
    ∃ value, result = .ok value := by
  cases result with
  | error error => cases h
  | ok value => exact ⟨value, rfl⟩

theorem retry_unchanged_red :
    (perform cameraLibrary (sighting "a" (.resource image) [red])
      (led [sighting "a" (.resource image) [red]])).2 =
        led [sighting "a" (.resource image) [red]] := by
  have accepted : (perform cameraLibrary (sighting "a" (.resource image) [red])
      (led [])).1.isOk = true := by decide +kernel
  obtain ⟨receipt, accepted⟩ := exists_ok accepted
  have next : run (step cameraLibrary) (perform cameraLibrary
      (sighting "a" (.resource image) [red]) (led [])).2 [] =
      some (led [sighting "a" (.resource image) [red]]) := by
    rw [← led_concat [], run_nil, List.nil_append]
  refine ((retry_unchanged cameraLibrary_correct (reached_led []) accepted next
    (Repeats.self _)).mpr ?_).2
  rintro ⟨o, old, submitted, known, json, -, -⟩
  obtain rfl := Option.some.inj submitted
  have known' : (led [sighting "a" (.resource image) [red]]).observations.get ⟨"camera", "a"⟩ =
      some (frame "a" (.resource image)) := by decide +kernel
  obtain rfl := Option.some.inj (known'.symm.trans known)
  cases json

theorem sameRules_led (calls : List Call) : SameRules bare (led calls) :=
  sameRules_run cameraLibrary_correct ((reached_led []).consistent cameraLibrary_correct)
    (run_step bare calls)

section Disguise
variable (known : w.observations.get ⟨"camera", "a"⟩ = some (frame "a" (.json imageObject)))
  (alone : w.transactions.get ⟨"camera", "a"⟩ = some ∅)

include known alone in
theorem stored_disguised : Stored w (sighting "a" (.resource image) []) where
  claims := List.forall_mem_nil _
  observed o submitted := by
    obtain rfl := Option.some.inj submitted
    have disguised : same imageObject.value image.data = true := by decide +kernel
    exact ⟨_, known, (observation_data_iff _ _).mpr (.inr ⟨⟨rfl, rfl, rfl, rfl, rfl⟩, disguised⟩)⟩
  transaction o submitted := by
    obtain rfl := Option.some.inj submitted
    exact alone

theorem preparable_disguised (rules : SameRules bare w) :
    Preparable cameraLibrary w (some (frame "a" (.resource image))) [] where
  count := Nat.zero_le _
  observed o submitted := by
    obtain rfl := Option.some.inj submitted
    rw [rules.limits, rules.sources, rules.scopes]
    decide +kernel
  claims := List.forall_mem_nil _
  agreeing := ⟨List.forall_mem_nil _, List.forall_mem_nil _⟩
  sizes := List.forall_mem_nil _

end Disguise

theorem led_idle (calls : List Call) (call next : Call)
    (idle : (perform cameraLibrary call (led calls)).2 = led calls) : led (calls ++ [call] ++ [next]) = led (calls ++ [next]) := by
  rw [led_concat, led_concat, idle, ← led_concat]

/-- The reference stands in for its JSON object and is accepted; once another reference is stored,
the same call is refused. -/
theorem retry_refused :
    (∃ receipt, (perform cameraLibrary (sighting "a" (.resource image) [])
      (led [sighting "a" (.json imageObject) []])).1 = .ok receipt) ∧
    ∃ error, (perform cameraLibrary (sighting "a" (.resource image) [])
      (led [sighting "a" (.json imageObject) [], sighting "a" (.resource image) [],
        sighting "b" (.resource image) []])).1 = .error error := by
  have answered (calls : List Call) (known : (led calls).observations.get ⟨"camera", "a"⟩ =
        some (frame "a" (.json imageObject)))
      (alone : (led calls).transactions.get ⟨"camera", "a"⟩ = some ∅) :=
    accepted_stored cameraLibrary_correct ((reached_led calls).consistent cameraLibrary_correct)
      (stored_disguised known alone) (preparable_disguised (sameRules_led calls))
  have room : ¬Recounts (led [sighting "a" (.json imageObject) []])
      (some (frame "a" (.resource image))) := by
    rintro ⟨_, _, _, _, _, _, full⟩
    exact absurd full (by decide +kernel)
  have first := (answered [sighting "a" (.json imageObject) []]
    (by decide +kernel) (by decide +kernel)).mpr room
  obtain ⟨performed, -⟩ := perform_stored
    ((reached_led [sighting "a" (.json imageObject) []]).consistent cameraLibrary_correct)
    (stored_disguised (by decide +kernel) (by decide +kernel)) first
  refine ⟨⟨_, congrArg Prod.fst performed⟩, ?_⟩
  have skipped : led [sighting "a" (.json imageObject) [], sighting "a" (.resource image) [],
      sighting "b" (.resource image) []] =
      led [sighting "a" (.json imageObject) [], sighting "b" (.resource image) []] :=
    led_idle [sighting "a" (.json imageObject) []] (sighting "a" (.resource image) [])
      (sighting "b" (.resource image) []) (by rw [performed])
  rw [skipped]
  have full : Recounts (led [sighting "a" (.json imageObject) [],
      sighting "b" (.resource image) []]) (some (frame "a" (.resource image))) :=
    ⟨_, frame "a" (.json imageObject), rfl, by decide +kernel, rfl, rfl, by decide +kernel⟩
  obtain ⟨error, refused⟩ := perform_not_accepted ((reached_led _).consistent cameraLibrary_correct)
    (mt (answered [sighting "a" (.json imageObject) [], sighting "b" (.resource image) []]
      (by decide +kernel) (by decide +kernel)).mp (not_not.mpr full))
  exact ⟨error, congrArg Prod.fst refused⟩

end Example

end RoboAgent.WorldRetry
