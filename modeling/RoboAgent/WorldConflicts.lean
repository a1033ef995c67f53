import RoboAgent.WorldRetry

/-! Conflicts. Sameness is decided by digests of data, and the data of an observation does not say
whether its payload is a resource reference or the JSON object with the same fields. -/

namespace RoboAgent.WorldConflicts
open RoboAgent.FrozenJson RoboAgent.SortedJson RoboAgent.JsonText RoboAgent.JsonIdentity
open RoboAgent.KeyedLists RoboAgent.Dicts RoboAgent.DepthFirst RoboAgent.FalliblePrograms
open RoboAgent.WorldTypes RoboAgent.WorldStore RoboAgent.WorldStore.World RoboAgent.WorldCommit
open RoboAgent.WorldInvariant RoboAgent.WorldRuns RoboAgent.WorldRetry

variable {lib : Library} {w : World} {call : Call}

/-- The call uses the reference of a stored item for another one. -/
def Differs (w : World) (call : Call) : Prop :=
  (∃ o old, call.observation = some o ∧ w.observations.get o.ref = some old ∧
    ¬SameObservation old o) ∨
  ∃ claim ∈ call.batch, ∃ old, w.claims.get claim.ref = some old ∧ ¬SameClaim old claim

def IsConflict (error : WorldError) : Prop :=
  error = .claimConflict ∨ error = .observationConflict

/-- The call raises a conflict and changes nothing. -/
def Conflicts (lib : Library) (w : World) (call : Call) : Prop :=
  ∃ error, IsConflict error ∧ perform lib call w = (.error error, w)

/-- Everything the call submits is stored, but for a resource reference in the place of its JSON
object, or the object in the place of the reference. -/
def Masked (w : World) (call : Call) : Prop :=
  (∃ o old, call.observation = some o ∧ w.observations.get o.ref = some old ∧
    SameFields old o ∧ Disguised old.payload o.payload ∧
    w.transactions.get o.ref = some (call.batch.map Claim.ref).toFinset) ∧
  ∀ claim ∈ call.batch, ∀ old, w.claims.get claim.ref = some old → SameClaim old claim

theorem checkReferences_not_conflict {observations : Dict ObservationRef Observation}
    {claims : Dict ClaimRef Claim} {batch : List Claim} {error : WorldError}
    (h : checkReferences observations claims batch = .error error) : ¬IsConflict error := by
  have invalid : ¬IsConflict .invalidClaim := by rintro (h | h) <;> cases h
  have missing : ¬IsConflict .evidenceNotFound := by rintro (h | h) <;> cases h
  induction batch with
  | nil => cases h
  | cons claim rest ih =>
    rw [checkReferences] at h
    split_ifs at h
    · cases h
      exact invalid
    · exact ih h
    · cases h
      exact missing
    · cases h
      exact missing

/-- The checks under the lock raise a conflict just where they compare with the store. -/
theorem plan_conflict_iff {prepared : Prepared} :
    (∃ error, IsConflict error ∧ w.plan lib call.observation prepared = .error error) ↔
      (call.observation.any fun o => w.observationConflicts o prepared) = true ∨
        w.claimConflicts prepared = true := by
  rw [plan_eq]
  by_cases observed : (call.observation.any fun o => w.observationConflicts o prepared) = true
  · rw [if_pos observed]
    exact iff_of_true ⟨_, .inr rfl, rfl⟩ (.inl observed)
  rw [if_neg observed]
  by_cases claims : w.claimConflicts prepared = true
  · rw [if_pos claims]
    exact iff_of_true ⟨_, .inl rfl, rfl⟩ (.inr claims)
  rw [if_neg claims]
  refine iff_of_false ?_ (not_or.mpr ⟨observed, claims⟩)
  rintro ⟨error, conflict, raised⟩
  cases references : checkReferences (observationsAfter w call.observation)
      (claimsAfter w prepared) ((submitted prepared).map Prod.snd) with
  | error other =>
    rw [references] at raised
    cases raised
    exact checkReferences_not_conflict references conflict
  | ok _ =>
    rw [references, ok_bind] at raised
    cases graph : validateGraph (claimsAfter w prepared) (keys w.claims.entries) with
    | error other =>
      rw [graph] at raised
      rw [validateGraph] at graph
      cases raised
      split at graph
      · cases graph
      · cases graph
        rcases conflict with h | h <;> cases h
    | ok _ =>
      rw [graph, ok_bind] at raised
      split_ifs at raised
      cases raised
      rcases conflict with h | h <;> cases h

theorem claimConflicts_eq_false (correct : lib.Correct) (inv : Consistent lib w)
    (agreeing : Agreeing lib .empty call.batch) :
    w.claimConflicts (prepared lib call) = false ↔
      ∀ claim ∈ call.batch, ∀ old, w.claims.get claim.ref = some old → SameClaim old claim := by
  constructor
  · intro fine claim mem old known
    obtain ⟨s, found, data⟩ := incoming_data call correct agreeing mem
    have same := stored_same correct inv fine known found
    exact (sameClaim_iff _ _).mpr (((sameClaim_iff _ _).mp same).trans data)
  · intro same
    refine List.any_eq_false.mpr fun entry mem => ?_
    obtain ⟨ref, s⟩ := entry
    obtain ⟨member, here, digest⟩ := incoming_spec (Dict.get_eq_some_iff.mpr mem)
    rw [Bool.and_eq_true, not_and, inv.claimDigests]
    intro known
    obtain ⟨old, known⟩ := Option.isSome_iff_exists.mp known
    have data := (sameClaim_iff _ _).mp (same s.claim member old (here ▸ known))
    rw [known, Option.map_some, digest, dataDigest, dataDigest, data, bne_self_eq_false]
    exact Bool.false_ne_true

theorem observationConflicts_eq_false (correct : lib.Correct) (inv : Consistent lib w)
    {o old : Observation} (submitted : call.observation = some o)
    (known : w.observations.get o.ref = some old) :
    w.observationConflicts o (prepared lib call) = false ↔
      sortKeys old.data = sortKeys o.data ∧
        w.transactions.get o.ref = some (call.batch.map Claim.ref).toFinset := by
  have digest : (prepared lib call).observationDigest = some (dataDigest lib o.data) := by
    rw [prepared, preparation, submitted, Option.map_some]
  rw [observationConflicts, known, Option.isSome_some, Bool.true_and, Bool.or_eq_false_iff,
    bne_eq_false_iff_eq, decide_eq_false_iff_not, not_not, inv.observationDigests, known, digest,
    Option.map_some, Option.some.injEq,
    dataDigest_injective correct old.wellFormed_data o.wellFormed_data, toFinset_incoming]

/-- Where the digests find no conflict, only a disguise tells the call from what is stored. -/
theorem no_conflict_iff (correct : lib.Correct) (inv : Consistent lib w)
    (agreeing : Agreeing lib .empty call.batch) (differs : Differs w call) :
    ((call.observation.any fun o => w.observationConflicts o (prepared lib call)) = false ∧
      w.claimConflicts (prepared lib call) = false) ↔ Masked w call := by
  rw [claimConflicts_eq_false correct inv agreeing]
  refine and_congr_left fun claims => ?_
  constructor
  · intro fine
    obtain ⟨o, old, submitted, known, other⟩ | ⟨claim, mem, old, known, other⟩ := differs
    · rw [submitted, Option.any_some] at fine
      obtain ⟨data, transaction⟩ :=
        (observationConflicts_eq_false correct inv submitted known).mp fine
      obtain ⟨fields, disguised⟩ := ((observation_data_iff old o).mp data).resolve_left other
      exact ⟨o, old, submitted, known, fields, disguised, transaction⟩
    · exact absurd (claims claim mem old known) other
  · rintro ⟨o, old, submitted, known, fields, disguised, transaction⟩
    rw [submitted, Option.any_some]
    exact (observationConflicts_eq_false correct inv submitted known).mpr
      ⟨(observation_data_iff old o).mpr (.inr ⟨fields, disguised⟩), transaction⟩

theorem conflicts_iff_decision (inv : Consistent lib w) : Conflicts lib w call ↔
    ∃ error, IsConflict error ∧
      decision lib w call.observation call.batch = .error error := by
  constructor
  · rintro ⟨error, conflict, performed⟩
    obtain ⟨raised, decided, performed'⟩ | ⟨-, performed'⟩ := perform_cases call inv
    · rw [performed'] at performed
      cases performed
      exact ⟨error, conflict, decided⟩
    · rw [performed'] at performed
      cases performed
  · rintro ⟨error, conflict, decided⟩
    exact ⟨error, conflict, perform_refused inv decided⟩

/-- A call that uses a stored reference for something else raises a conflict, if no earlier check
raises another error and it is not the payload's disguise that makes the difference. -/
theorem conflict_exact (correct : lib.Correct) (reached : Reached lib w) :
    (Differs w call → Conflicts lib w call) ↔
      (Differs w call →
        (∃ error, IsConflict error ∧
          w.prepare lib call.observation call.batch = .error error) ∨
        (∃ ready, w.prepare lib call.observation call.batch = .ok ready) ∧ ¬Masked w call) := by
  have inv := reached.consistent correct
  refine imp_congr_right fun differs => ?_
  rw [conflicts_iff_decision inv, decision]
  cases prepares : w.prepare lib call.observation call.batch with
  | error error =>
    constructor
    · rintro ⟨raised, conflict, same⟩
      cases same
      exact .inl ⟨error, conflict, rfl⟩
    · rintro (⟨raised, conflict, same⟩ | ⟨⟨_, absurd⟩, -⟩)
      · cases same
        exact ⟨error, conflict, rfl⟩
      · cases absurd
  | ok ready =>
    obtain ⟨preparable, rfl⟩ := prepare_eq_ok.mp prepares
    have masked := no_conflict_iff correct inv preparable.agreeing differs
    rw [ok_bind, plan_conflict_iff, ← prepared, ← masked, not_and_or, Bool.not_eq_false,
      Bool.not_eq_false]
    refine ⟨fun h => .inr ⟨⟨_, rfl⟩, h⟩, fun h => (h.resolve_left ?_).2⟩
    rintro ⟨_, -, absurd⟩
    cases absurd

section Example

/-- The frame, with another modality under its reference. -/
def relabelled : Call :=
  ⟨some { frame "a" (.resource image) with modality := "depth" }, []⟩

theorem conflict_exact_relabelled :
    Conflicts cameraLibrary (led [sighting "a" (.resource image) []]) relabelled := by
  have known : (led [sighting "a" (.resource image) []]).observations.get ⟨"camera", "a"⟩ =
      some (frame "a" (.resource image)) := by decide +kernel
  have other : ¬SameFields (frame "a" (.resource image))
      { frame "a" (.resource image) with modality := "depth" } :=
    fun same => absurd same.modality (show "image" ≠ "depth" by decide)
  refine (conflict_exact cameraLibrary_correct (reached_led _)).mpr (fun _ => .inr ⟨?_, ?_⟩)
    (.inl ⟨_, _, rfl, known, fun same => other same.1⟩)
  · refine ⟨_, prepare_eq_ok.mpr ⟨⟨Nat.zero_le _, ?_, nofun, ⟨nofun, nofun⟩, nofun⟩, rfl⟩⟩
    intro o submitted
    obtain rfl := Option.some.inj submitted
    rw [(sameRules_led _).limits, (sameRules_led _).sources, (sameRules_led _).scopes]
    decide +kernel
  · rintro ⟨⟨o, old, submitted, known', fields, -⟩, -⟩
    obtain rfl := Option.some.inj submitted
    obtain rfl := Option.some.inj (known.symm.trans known')
    exact other fields

/-- The reference under the identity of its JSON object is taken for the stored observation. -/
theorem conflict_missed :
    Differs (led [sighting "a" (.json imageObject) []]) (sighting "a" (.resource image) []) ∧
    ∃ receipt, perform cameraLibrary (sighting "a" (.resource image) [])
      (led [sighting "a" (.json imageObject) []]) =
        (.ok receipt, led [sighting "a" (.json imageObject) []]) := by
  have known : (led [sighting "a" (.json imageObject) []]).observations.get ⟨"camera", "a"⟩ =
      some (frame "a" (.json imageObject)) := by decide +kernel
  have inv := (reached_led [sighting "a" (.json imageObject) []]).consistent cameraLibrary_correct
  have stored := stored_disguised known (by decide +kernel)
  have room : ¬Recounts (led [sighting "a" (.json imageObject) []])
      (some (frame "a" (.resource image))) := by
    rintro ⟨_, _, _, _, _, _, full⟩
    exact absurd full (by decide +kernel)
  have accepted := (accepted_stored cameraLibrary_correct inv stored
    (preparable_disguised (sameRules_led _))).mpr room
  obtain ⟨performed, -⟩ := perform_stored inv stored accepted
  exact ⟨.inl ⟨_, _, rfl, known, And.right⟩, _, performed⟩

end Example

end RoboAgent.WorldConflicts
