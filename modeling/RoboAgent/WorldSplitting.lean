import RoboAgent.WorldRetry

/-! One transaction or two. An observation that is new to a World can be committed together with
claims on it, or alone and the claims after it: one way is accepted just when the other is, and they
leave the same store but for the record of the transaction and the revision. -/

namespace RoboAgent.WorldSplitting
open RoboAgent.KeyedLists RoboAgent.Dicts RoboAgent.DepthFirst
open RoboAgent.WorldTypes RoboAgent.WorldStore RoboAgent.WorldStore.World RoboAgent.WorldCommit
open RoboAgent.WorldInvariant RoboAgent.WorldRuns RoboAgent.WorldRetry RoboAgent.Runs

variable {lib : Library} {w : World} {o : Observation} {batch : List Claim}

def alone (o : Observation) : Call := ⟨some o, []⟩

def claimsOnly (batch : List Claim) : Call := ⟨none, batch⟩

def together (o : Observation) (batch : List Claim) : Call := ⟨some o, batch⟩

theorem incoming_together (lib : Library) (o : Observation) (batch : List Claim) :
    (prepared lib (together o batch)).incoming = (prepared lib (claimsOnly batch)).incoming := rfl

theorem submitted_together (lib : Library) (o : Observation) (batch : List Claim) :
    submitted (prepared lib (together o batch)) = submitted (prepared lib (claimsOnly batch)) := by
  rw [submitted, submitted, incoming_together]

section
variable (fresh : w.observations.get o.ref = none)
include fresh

theorem changes_of_fresh (batch : List Claim) : changes lib w (together o batch) = true := by
  have isNew : w.isNewObservation (some o) = true := by
    rw [isNewObservation, Option.any_some, fresh]
    rfl
  change (_ || w.isNewObservation (some o)) = true
  rw [isNew, Bool.or_true]

theorem after_together (lib : Library) (batch : List Claim) : after lib w (together o batch) =
    committed lib w (some o) (prepared lib (together o batch)) := by
  rw [after, changes_of_fresh fresh, if_pos rfl]
  rfl

theorem payloadAfter_of_fresh (lib : Library) (batch : List Claim) :
    payloadAfter lib w (some o) (prepared lib (together o batch)) =
      w.payloadBytes + dataSize lib o.data +
        ((w.claims.newEntries (submitted (prepared lib (claimsOnly batch)))).map fun entry =>
          dataSize lib entry.2.data).sum := by
  have isNew : w.isNewObservation (some o) = true := by
    rw [isNewObservation, Option.any_some, fresh]
    rfl
  have size : (prepared lib (together o batch)).observationSize = dataSize lib o.data := by
    simp only [prepared, preparation, together, Option.elim_some]
  rw [payloadAfter, isNew, if_pos rfl, Nat.add_right_comm, size, submitted_together]

/-- The store between the two transactions. -/
theorem after_alone (lib : Library) :
    (after lib w (alone o)).observations = observationsAfter w (some o) ∧
      (after lib w (alone o)).claims = w.claims ∧
      (after lib w (alone o)).claimDigests = w.claimDigests ∧
      (after lib w (alone o)).payloadBytes = w.payloadBytes + dataSize lib o.data := by
  have led : after lib w (alone o) = committed lib w (some o) (prepared lib (together o [])) :=
    after_together fresh lib []
  have paid := payloadAfter_of_fresh fresh lib []
  have none : w.claims.newEntries (submitted (prepared lib (claimsOnly []))) = [] := rfl
  rw [none, List.map_nil, List.sum_nil, Nat.add_zero] at paid
  rw [led]
  exact ⟨rfl, rfl, rfl, paid⟩

end

theorem graph_self (w : World) : validateGraph w.claims (keys w.claims.entries) = .ok () := by
  rw [validateGraph, visitAll_known fun _ mem => mem]

theorem length_claimsAfter (w : World) (prepared : Prepared) :
    w.claims.entries.length ≤ (claimsAfter w prepared).entries.length := by
  have known : keys w.claims.entries ⊆ keys (claimsAfter w prepared).entries := by
    intro ref mem
    obtain ⟨claim, found⟩ := Dict.mem_keys_iff.mp mem
    rw [Dict.mem_keys_iff, ← Option.isSome_iff_exists, get_claimsAfter, found]
    cases prepared.incoming.get ref <;> rfl
  have shorter := (w.claims.distinct.subperm known).length_le
  rw [keys, keys, List.length_map, List.length_map] at shorter
  exact shorter

/-- The checks of the observation alone are among those of the whole transaction. -/
theorem accepted_alone (inv : Consistent lib w) (fresh : w.observations.get o.ref = none)
    (h : Accepted lib w (together o batch)) : Accepted lib w (alone o) where
  preparable := {
    count := Nat.zero_le _
    observed := h.preparable.observed
    claims := List.forall_mem_nil _
    agreeing := ⟨List.forall_mem_nil _, List.forall_mem_nil _⟩
    sizes := List.forall_mem_nil _ }
  plannable := by
    have before := counts_le_iff.mp inv.counted
    have later := counts_le_iff.mp h.plannable.counts
    have longer := length_claimsAfter w (prepared lib (together o batch))
    refine ⟨?_, rfl, List.forall_mem_nil _, graph_self w, counts_le_iff.mpr ?_⟩
    · change w.observationConflicts o _ = false
      rw [observationConflicts, fresh]
      rfl
    · refine ⟨before.1, later.2.1, before.2.2.1, ?_, later.2.2.2.2.1, ?_⟩
      · change (observationsAfter w (some o)).entries.length + w.claims.entries.length ≤ _
        have total : (observationsAfter w (some o)).entries.length +
          (claimsAfter w (prepared lib (together o batch))).entries.length ≤ _ := later.2.2.2.1
        omega
      · have paid : payloadAfter lib w (some o) (prepared lib (together o batch)) ≤ _ :=
          later.2.2.2.2.2
        rw [payloadAfter_of_fresh fresh] at paid
        have none : w.claims.newEntries (submitted (prepared lib (claimsOnly []))) = [] := rfl
        change payloadAfter lib w (some o) (prepared lib (together o [])) ≤ _
        rw [payloadAfter_of_fresh fresh, none, List.map_nil, List.sum_nil]
        omega

section
variable (fresh : w.observations.get o.ref = none)
include fresh

theorem claimsAfter_between (lib : Library) (batch : List Claim) :
    claimsAfter (after lib w (alone o)) (prepared lib (claimsOnly batch)) =
      claimsAfter w (prepared lib (together o batch)) := by
  obtain ⟨-, claims, -⟩ := after_alone fresh lib
  rw [claimsAfter, claimsAfter, claims, submitted_together]

theorem payloadAfter_between (lib : Library) (batch : List Claim) :
    payloadAfter lib (after lib w (alone o)) none (prepared lib (claimsOnly batch)) =
      payloadAfter lib w (some o) (prepared lib (together o batch)) := by
  obtain ⟨-, claims, -, paid⟩ := after_alone fresh lib
  rw [payloadAfter_of_fresh fresh, payloadAfter, paid, claims, isNewObservation, Option.any_none,
    if_neg Bool.false_ne_true, Nat.add_zero]

/-- The checks under the lock are the same for the claims after their observation. -/
theorem plannable_after (lib : Library) (batch : List Claim) :
    Plannable lib (after lib w (alone o)) none (prepared lib (claimsOnly batch)) ↔
      Plannable lib w (some o) (prepared lib (together o batch)) := by
  obtain ⟨observed, claims, digests, -⟩ := after_alone fresh lib
  have rules := sameRules_after lib w (alone o)
  have conflicts : (after lib w (alone o)).claimConflicts (prepared lib (claimsOnly batch)) =
      w.claimConflicts (prepared lib (together o batch)) := by
    rw [claimConflicts, claimConflicts, claims, digests, incoming_together]
  have known : ((some o).any fun o' =>
      w.observationConflicts o' (prepared lib (together o batch))) = false := by
    rw [Option.any_some, observationConflicts, fresh]
    rfl
  have after := claimsAfter_between fresh lib batch
  have bytes := payloadAfter_between fresh lib batch
  constructor
  · intro h
    have references := h.references
    have graph := h.graph
    have counts := counts_le_iff.mp h.counts
    rw [after] at references graph counts
    rw [claims] at graph
    rw [bytes, rules.limits, observationsAfter, Option.elim_none, observed] at counts
    rw [observationsAfter, Option.elim_none, observed, ← submitted_together lib o] at references
    exact ⟨known, conflicts.symm.trans h.claims, references, graph, counts_le_iff.mpr counts⟩
  · intro h
    have counts := counts_le_iff.mp h.counts
    rw [← after, ← bytes, ← observed, ← rules.limits] at counts
    refine ⟨rfl, conflicts.trans h.claims, ?_, ?_, counts_le_iff.mpr counts⟩
    · rw [after, observationsAfter, Option.elim_none, observed, ← submitted_together lib o]
      exact h.references
    · rw [after, claims]
      exact h.graph

omit fresh in
theorem preparable_together (lib : Library) (batch : List Claim) :
    Preparable lib w (some o) batch ↔
      Preparable lib w (some o) [] ∧ Preparable lib (after lib w (alone o)) none batch := by
  have rules := sameRules_after lib w (alone o)
  constructor
  · intro h
    refine ⟨⟨Nat.zero_le _, h.observed, List.forall_mem_nil _,
      ⟨List.forall_mem_nil _, List.forall_mem_nil _⟩, List.forall_mem_nil _⟩, ?_⟩
    refine ⟨?_, nofun, fun claim mem => ?_, h.agreeing, ?_⟩
    · rw [rules.limits]
      exact h.count
    · rw [Admissible, rules.sources, rules.scopes]
      exact h.claims claim mem
    · rw [rules.limits]
      exact h.sizes
  · rintro ⟨evidence, claims⟩
    have count := claims.count
    have sizes := claims.sizes
    rw [rules.limits] at count sizes
    refine ⟨count, evidence.observed, fun claim mem => ?_, claims.agreeing, sizes⟩
    have admissible := claims.claims claim mem
    rw [Admissible, rules.sources, rules.scopes] at admissible
    exact admissible

theorem accepted_together (inv : Consistent lib w) : Accepted lib w (together o batch) ↔
    Accepted lib w (alone o) ∧ Accepted lib (after lib w (alone o)) (claimsOnly batch) := by
  constructor
  · intro h
    exact ⟨accepted_alone inv fresh h, ((preparable_together lib batch).mp h.preparable).2,
      (plannable_after fresh lib batch).mpr h.plannable⟩
  · rintro ⟨evidence, claims⟩
    exact ⟨(preparable_together lib batch).mpr ⟨evidence.preparable, claims.preparable⟩,
      (plannable_after fresh lib batch).mp claims.plannable⟩

/-- The same observations, bytes and claims. -/
structure SameStore (one two : World) : Prop where
  observations : one.observations = two.observations
  payloadBytes : one.payloadBytes = two.payloadBytes
  claims : ∀ ref, Option.Rel SameClaim (one.claims.get ref) (two.claims.get ref)

theorem sameStore_after (correct : lib.Correct) (inv : Consistent lib w)
    (h : Accepted lib w (together o batch)) :
    SameStore (after lib w (together o batch))
      (after lib (after lib w (alone o)) (claimsOnly batch)) := by
  obtain ⟨observed, claims, -, paid⟩ := after_alone fresh lib
  have same (ref : ClaimRef) (claim : Option Claim) : Option.Rel SameClaim claim claim := by
    cases claim with
    | none => exact .none
    | some claim => exact .some ((sameClaim_iff _ _).mpr rfl)
  rw [after_together fresh lib batch]
  cases changed : changes lib (after lib w (alone o)) (claimsOnly batch) with
  | true =>
    have led : after lib (after lib w (alone o)) (claimsOnly batch) =
        committed lib (after lib w (alone o)) none (prepared lib (claimsOnly batch)) := by
      rw [after.eq_def lib (after lib w (alone o)), changed, if_pos rfl]
      rfl
    rw [led]
    refine ⟨observed.symm, (payloadAfter_between fresh lib batch).symm, fun ref => ?_⟩
    have kept := claimsAfter_between fresh lib batch
    rw [committed, committed, kept]
    exact same ref _
  | false =>
    have led : after lib (after lib w (alone o)) (claimsOnly batch) = after lib w (alone o) := by
      rw [after.eq_def lib (after lib w (alone o)), changed, if_neg Bool.false_ne_true]
    obtain ⟨none, -⟩ := changes_eq_false.mp changed
    rw [claims] at none
    rw [led]
    refine ⟨observed.symm, ?_, fun ref => ?_⟩
    · rw [paid, committed, payloadAfter_of_fresh fresh, none, List.map_nil, List.sum_nil]
      exact Nat.add_zero _
    · rw [claims]
      change Option.Rel SameClaim ((claimsAfter w (prepared lib (together o batch))).get ref) _
      rw [get_claimsAfter]
      cases found : (prepared lib (together o batch)).incoming.get ref with
      | none => exact same ref _
      | some s =>
        cases stored : w.claims.get ref with
        | none =>
          have fresh : (ref, s.claim) ∈ w.claims.newEntries
              (submitted (prepared lib (claimsOnly batch))) := by
            rw [← submitted_together lib o]
            exact List.mem_filter.mpr ⟨mem_submitted found, Option.isNone_iff_eq_none.mpr stored⟩
          rw [none] at fresh
          cases fresh
        | some old =>
          have kept := stored_same correct inv h.plannable.claims stored found
          exact .some ((sameClaim_iff _ _).mpr ((sameClaim_iff _ _).mp kept).symm)

end

theorem performed_iff {call : Call} (inv : Consistent lib w) :
    (∃ receipt, (perform lib call w).1 = .ok receipt) ↔ Accepted lib w call := by
  constructor
  · rintro ⟨receipt, answered⟩
    obtain ⟨error, -, performed⟩ | ⟨accepted, -⟩ := perform_cases call inv
    · rw [performed] at answered
      cases answered
    · exact accepted
  · intro accepted
    exact ⟨_, congrArg Prod.fst (perform_accepted inv accepted)⟩

/-- One transaction of an observation that is new and of claims is accepted just when the two
transactions are, and then they leave the same store. -/
theorem one_transaction_or_two (correct : lib.Correct) (reached : Reached lib w)
    (fresh : w.observations.get o.ref = none) (batch : List Claim) :
    ((∃ receipt, (perform lib (together o batch) w).1 = .ok receipt) ↔
      (∃ receipt, (perform lib (alone o) w).1 = .ok receipt) ∧
        ∃ receipt, (perform lib (claimsOnly batch) (perform lib (alone o) w).2).1 = .ok receipt) ∧
    ∀ receipt, (perform lib (together o batch) w).1 = .ok receipt →
      SameStore (perform lib (together o batch) w).2
        (perform lib (claimsOnly batch) (perform lib (alone o) w).2).2 := by
  have inv := reached.consistent correct
  constructor
  · rw [performed_iff inv, performed_iff inv, accepted_together fresh inv]
    refine and_congr_right fun evidence => ?_
    rw [perform_accepted inv evidence, performed_iff (consistent_after correct inv evidence)]
  · intro receipt answered
    have accepted := (performed_iff inv).mp ⟨receipt, answered⟩
    obtain ⟨evidence, claims⟩ := (accepted_together fresh inv).mp accepted
    rw [perform_accepted inv accepted, perform_accepted inv evidence,
      perform_accepted (consistent_after correct inv evidence) claims]
    exact sameStore_after fresh correct inv accepted

theorem one_transaction_or_two_red : ∃ receipt, (perform cameraLibrary (claimsOnly [red])
    (perform cameraLibrary (alone (frame "a" (.resource image))) (led [])).2).1 = .ok receipt :=
  ((one_transaction_or_two cameraLibrary_correct (reached_led []) rfl [red]).1.mp
    (exists_ok (by decide +kernel))).2

end RoboAgent.WorldSplitting
