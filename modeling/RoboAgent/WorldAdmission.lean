import Mathlib
import RoboAgent.WorldRetry

/-! What a World holds has been admitted: its sources and scopes are allowed, and its data can be
written. So a call for what is stored already is accepted, whoever stored it. -/

namespace RoboAgent.WorldAdmission
open RoboAgent.JsonIdentity RoboAgent.KeyedLists RoboAgent.Dicts
open RoboAgent.WorldTypes RoboAgent.WorldStore RoboAgent.WorldStore.World RoboAgent.WorldCommit
open RoboAgent.WorldInvariant RoboAgent.WorldRuns RoboAgent.WorldRetry RoboAgent.Runs

structure Admitted (w : World) : Prop where
  observations : ∀ ref o, w.observations.get ref = some o →
    (o.ref.source ∈ w.sources ∧ o.scope ∈ w.scopes) ∧ printable o.data = true
  claims : ∀ ref claim, w.claims.get ref = some claim → Admissible w claim

variable {lib : Library} {w : World} {call : Call}

theorem admitted_create {worldId : String} {limits : WorldLimits} {sources : List String}
    {scopes : List (Option String)} (made : create worldId limits sources scopes = .ok w) :
    Admitted w := by
  rw [create] at made
  split_ifs at made
  cases made
  exact ⟨fun _ o found => absurd found.symm (Option.some_ne_none o),
    fun _ claim found => absurd found.symm (Option.some_ne_none claim)⟩

theorem admitted_committed (admitted : Admitted w) (h : Accepted lib w call) :
    Admitted (committed lib w call.observation (prepared lib call)) where
  observations ref o found := by
    change (observationsAfter w call.observation).get ref = some o at found
    cases submitted : call.observation with
    | none =>
      rw [submitted] at found
      exact admitted.observations ref o found
    | some new =>
      rw [submitted, observationsAfter, Option.elim_some, Dict.get_put] at found
      split_ifs at found
      · cases found
        obtain ⟨allowed, prints, -⟩ := h.preparable.observed o submitted
        exact ⟨allowed, prints⟩
      · exact admitted.observations ref o found
  claims ref claim found := by
    change (claimsAfter w (prepared lib call)).get ref = some claim at found
    rw [get_claimsAfter] at found
    cases incoming : (prepared lib call).incoming.get ref with
    | none =>
      rw [incoming] at found
      exact admitted.claims ref claim found
    | some s =>
      rw [incoming] at found
      cases found
      exact h.preparable.claims s.claim (incoming_spec incoming).1

theorem admitted_step {next : World} (kept : Consistent lib w ∧ Admitted w)
    (correct : lib.Correct) (h : step lib w call = some next) :
    Consistent lib next ∧ Admitted next := by
  obtain ⟨inv, admitted⟩ := kept
  refine ⟨consistent_step correct inv h, ?_⟩
  cases h
  obtain ⟨error, -, performed⟩ | ⟨accepted, performed⟩ := perform_cases call inv
  · rw [performed]
    exact admitted
  · rw [performed, after]
    split_ifs
    · exact admitted_committed admitted accepted
    · exact admitted

theorem mem_values {K V : Type} [DecidableEq K] {d : Dict K V} {key : K} {value : V}
    (found : d.get key = some value) : value ∈ values d :=
  List.mem_map_of_mem (Dict.get_eq_some_iff.mp found)

section
variable (inv : Consistent lib w)
include inv

theorem claim_size_le {ref : ClaimRef} {claim : Claim} (found : w.claims.get ref = some claim) :
    dataSize lib claim.data ≤ w.limits.maxPayloadBytes := by
  have part : dataSize lib claim.data ≤
      ((values w.claims).map fun claim => dataSize lib claim.data).sum :=
    List.le_sum_of_mem (List.mem_map_of_mem (mem_values found))
  have bounded : w.payloadBytes ≤ w.limits.maxPayloadBytes :=
    (counts_le_iff.mp inv.counted).2.2.2.2.2
  rw [inv.payload] at bounded
  omega

theorem observation_size_le {ref : ObservationRef} {o : Observation}
    (found : w.observations.get ref = some o) :
    dataSize lib o.data ≤ w.limits.maxPayloadBytes := by
  have part : dataSize lib o.data ≤
      ((values w.observations).map fun o => dataSize lib o.data).sum :=
    List.le_sum_of_mem (List.mem_map_of_mem (mem_values found))
  have bounded : w.payloadBytes ≤ w.limits.maxPayloadBytes :=
    (counts_le_iff.mp inv.counted).2.2.2.2.2
  rw [inv.payload] at bounded
  omega

variable (stored : Stored w call)
include stored

theorem length_le (distinct : (call.batch.map Claim.ref).Nodup) :
    call.batch.length ≤ w.limits.maxClaims := by
  have known : call.batch.map Claim.ref ⊆ keys w.claims.entries := by
    intro ref mem
    obtain ⟨claim, member, rfl⟩ := List.mem_map.mp mem
    obtain ⟨old, found, -⟩ := stored.claims claim member
    exact Dict.mem_keys_iff.mpr ⟨old, found⟩
  have shorter := (distinct.subperm known).length_le
  rw [List.length_map, keys, List.length_map] at shorter
  exact shorter.trans (counts_le_iff.mp inv.counted).2.2.1

/-- The checks before the lock grant a call for what is stored. -/
theorem preparable_stored (admitted : Admitted w)
    (distinct : (call.batch.map Claim.ref).Nodup) :
    Preparable lib w call.observation call.batch where
  count := length_le inv stored distinct
  observed o submitted := by
    obtain ⟨old, found, data⟩ := stored.observed o submitted
    obtain ⟨⟨source, scope⟩, prints⟩ := admitted.observations o.ref old found
    obtain ⟨same, -⟩ := (sameFields_iff old o).mp data
    refine ⟨⟨same.ref ▸ source, same.scope ▸ scope⟩, printable_congr data prints, ?_⟩
    rw [← dataSize_congr data]
    exact observation_size_le inv found
  claims claim mem := by
    obtain ⟨old, found, data⟩ := stored.claims claim mem
    obtain ⟨⟨source, scope⟩, prints⟩ := admitted.claims claim.ref old found
    have same := (sameClaim_iff old claim).mpr data
    exact ⟨⟨same.source ▸ source, same.scope ▸ scope⟩, printable_congr data prints⟩
  agreeing := stored.agreeing
  sizes s mem := by
    obtain ⟨⟨ref, _⟩, submitted, rfl⟩ := List.mem_map.mp mem
    obtain ⟨old, found, data⟩ := incoming_stored stored (Dict.get_eq_some_iff.mpr submitted)
    rw [← dataSize_congr data]
    exact claim_size_le inv found

/-- A call for what is stored is accepted, if the payload of its observation is JSON. -/
theorem accepted_known (correct : lib.Correct) (admitted : Admitted w)
    (distinct : (call.batch.map Claim.ref).Nodup)
    (json : ∀ o, call.observation = some o → isMedia o = false) : Accepted lib w call := by
  refine (accepted_stored correct inv stored
    (preparable_stored inv stored admitted distinct)).mpr ?_
  rintro ⟨o, old, submitted, -, -, media, -⟩
  rw [json o submitted] at media
  cases media

end

end RoboAgent.WorldAdmission
