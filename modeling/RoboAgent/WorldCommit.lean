import RoboAgent.WorldStore

/-! What a commit does, said once: when each of its checks passes, and the store and the receipt it
then leaves. -/

namespace RoboAgent.WorldCommit
open RoboAgent.FrozenJson RoboAgent.SortedJson RoboAgent.JsonText RoboAgent.JsonIdentity
open RoboAgent.KeyedLists RoboAgent.Dicts RoboAgent.DepthFirst RoboAgent.FalliblePrograms
open RoboAgent.WorldTypes RoboAgent.WorldStore RoboAgent.WorldStore.World

variable {lib : Library} {w : World}

theorem membership_eq_ok {source : String} {scope : Option String} :
    w.membership source scope = .ok () ↔ source ∈ w.sources ∧ scope ∈ w.scopes := by
  rw [membership]
  by_cases allowed : source ∈ w.sources
  · rw [if_neg (not_not.mpr allowed)]
    by_cases inScope : scope ∈ w.scopes
    · rw [if_neg (not_not.mpr inScope)]
      exact iff_of_true rfl ⟨allowed, inScope⟩
    · rw [if_pos inScope]
      exact iff_of_false nofun fun h => inScope h.2
  · rw [if_pos allowed]
    exact iff_of_false nofun fun h => allowed h.1

theorem canonicalJsonDigest_eq_ok {data : JsonValue} {digest : String} :
    canonicalJsonDigest lib data = .ok digest ↔
      printable data = true ∧ digest = dataDigest lib data := by
  rw [canonicalJsonDigest]
  split_ifs with prints
  · constructor
    · intro h
      exact ⟨prints, (Except.ok.inj h).symm⟩
    · intro h
      rw [h.2]
  · exact iff_of_false nofun fun h => prints h.1

/-- A claim as the loop over the batch records it. -/
def submit (lib : Library) (claim : Claim) : ClaimRef × Submitted :=
  (claim.ref, ⟨claim, dataDigest lib claim.data⟩)

/-- The source and scope of a claim are allowed, and its data can be written. -/
def Admissible (w : World) (claim : Claim) : Prop :=
  (claim.source ∈ w.sources ∧ claim.scope ∈ w.scopes) ∧ printable claim.data = true

/-- Claims that share a reference share their digest, with each other and with earlier ones. -/
def Agreeing (lib : Library) (incoming : Dict ClaimRef Submitted) (batch : List Claim) : Prop :=
  (∀ claim ∈ batch, ∀ earlier, incoming.get claim.ref = some earlier →
    earlier.digest = dataDigest lib claim.data) ∧
  ∀ a ∈ batch, ∀ b ∈ batch, a.ref = b.ref → dataDigest lib a.data = dataDigest lib b.data

theorem agreeing_cons {incoming : Dict ClaimRef Submitted} {claim : Claim} {rest : List Claim} :
    Agreeing lib incoming (claim :: rest) ↔
      (∀ earlier, incoming.get claim.ref = some earlier →
        earlier.digest = dataDigest lib claim.data) ∧
      Agreeing lib (incoming.put claim.ref (submit lib claim).2) rest := by
  constructor
  · rintro ⟨before, among⟩
    refine ⟨before claim List.mem_cons_self, fun other mem earlier found => ?_,
      fun a mem b mem' => among a (List.mem_cons_of_mem _ mem) b (List.mem_cons_of_mem _ mem')⟩
    rw [Dict.get_put] at found
    split_ifs at found with same
    · cases found
      exact among claim List.mem_cons_self other (List.mem_cons_of_mem _ mem) same.symm
    · exact before other (List.mem_cons_of_mem _ mem) earlier found
  · rintro ⟨here, later, among⟩
    have first {other : Claim} (mem : other ∈ rest) (same : other.ref = claim.ref) :
        dataDigest lib claim.data = dataDigest lib other.data :=
      later other mem _ (by rw [same, Dict.get_put_self])
    constructor
    · intro other mem earlier found
      obtain rfl | mem := List.mem_cons.mp mem
      · exact here earlier found
      · by_cases same : other.ref = claim.ref
        · exact (here earlier (same ▸ found)).trans (first mem same)
        · exact later other mem earlier (by rw [Dict.get_put, if_neg same]; exact found)
    · intro a mem b mem' same
      obtain rfl | left := List.mem_cons.mp mem
      · obtain rfl | right := List.mem_cons.mp mem'
        · rfl
        · exact first right same.symm
      · obtain rfl | right := List.mem_cons.mp mem'
        · exact (first left same).symm
        · exact among a left b right same

theorem gather_eq_ok {incoming result : Dict ClaimRef Submitted} {batch : List Claim} :
    w.gather lib incoming batch = .ok result ↔
      (∀ claim ∈ batch, Admissible w claim) ∧ Agreeing lib incoming batch ∧
        result = incoming.update (batch.map (submit lib)) := by
  induction batch generalizing incoming with
  | nil =>
    constructor
    · intro h
      cases h
      exact ⟨List.forall_mem_nil _, ⟨List.forall_mem_nil _, List.forall_mem_nil _⟩, rfl⟩
    · rintro ⟨-, -, rfl⟩
      rfl
  | cons claim rest ih =>
    rw [gather, List.forall_mem_cons, agreeing_cons, List.map_cons, Dict.update, List.foldl_cons,
      ← Dict.update]
    constructor
    · intro h
      obtain ⟨⟨⟩, allowed, h⟩ := bind_eq_ok h
      obtain ⟨digest, digested, h⟩ := bind_eq_ok h
      obtain ⟨prints, rfl⟩ := canonicalJsonDigest_eq_ok.mp digested
      split_ifs at h with conflict
      obtain ⟨admissible, agreeing, made⟩ := ih.mp h
      refine ⟨⟨⟨membership_eq_ok.mp allowed, prints⟩, admissible⟩, ⟨?_, agreeing⟩, made⟩
      intro earlier found
      rw [found, Option.any_some, bne_iff_ne, not_not] at conflict
      exact conflict
    · rintro ⟨⟨⟨allowed, prints⟩, admissible⟩, ⟨before, agreeing⟩, made⟩
      rw [membership_eq_ok.mpr allowed, ok_bind, canonicalJsonDigest_eq_ok.mpr ⟨prints, rfl⟩,
        ok_bind]
      have fine : ¬((incoming.get claim.ref).any fun earlier =>
          earlier.digest != dataDigest lib claim.data) = true := by
        cases found : incoming.get claim.ref with
        | none => exact Bool.false_ne_true
        | some earlier =>
          rw [Option.any_some, bne_iff_ne, not_not]
          exact before earlier found
      rw [if_neg fine]
      exact ih.mpr ⟨admissible, agreeing, made⟩

theorem canonicalJsonSize_eq_ok {data : JsonValue} {size : Nat} :
    canonicalJsonSize lib data = .ok size ↔ printable data = true ∧ size = dataSize lib data := by
  rw [canonicalJsonSize]
  split_ifs with prints
  · constructor
    · intro h
      exact ⟨prints, (Except.ok.inj h).symm⟩
    · intro h
      rw [h.2]
  · exact iff_of_false nofun fun h => prints h.1

variable {observation : Option Observation} {batch : List Claim}

/-- What the checks before the lock compute when they pass. -/
def preparation (lib : Library) (observation : Option Observation) (batch : List Claim) :
    Prepared where
  incoming := Dict.empty.update (batch.map (submit lib))
  observationSize := observation.elim 0 fun o => dataSize lib o.data
  observationDigest := observation.map fun o => dataDigest lib o.data

structure Preparable (lib : Library) (w : World) (observation : Option Observation)
    (batch : List Claim) : Prop where
  count : batch.length ≤ w.limits.maxClaims
  observed : ∀ o, observation = some o → (o.ref.source ∈ w.sources ∧ o.scope ∈ w.scopes) ∧
    printable o.data = true ∧ dataSize lib o.data ≤ w.limits.maxPayloadBytes
  claims : ∀ claim ∈ batch, Admissible w claim
  agreeing : Agreeing lib .empty batch
  sizes : ∀ s ∈ values (preparation lib observation batch).incoming,
    dataSize lib s.claim.data ≤ w.limits.maxPayloadBytes

theorem any_size_eq_false {submitted : List Submitted} {bound : Nat} :
    submitted.any (fun s => bound < dataSize lib s.claim.data) = false ↔
      ∀ s ∈ submitted, dataSize lib s.claim.data ≤ bound := by
  rw [List.any_eq_false]
  exact forall₂_congr fun s _ => by rw [decide_eq_true_eq, Nat.not_lt]

theorem prepare_eq_ok {prepared : Prepared} :
    w.prepare lib observation batch = .ok prepared ↔
      Preparable lib w observation batch ∧ prepared = preparation lib observation batch := by
  rw [World.prepare]
  by_cases count : w.limits.maxClaims < batch.length
  · rw [if_pos count]
    exact iff_of_false nofun fun h => absurd h.1.count (Nat.not_le.mpr count)
  rw [if_neg count]
  constructor
  · intro h
    obtain ⟨⟨⟩, allowed, h⟩ := bind_eq_ok h
    obtain ⟨incoming, gathered, h⟩ := bind_eq_ok h
    obtain ⟨admissible, agreeing, rfl⟩ := gather_eq_ok.mp gathered
    obtain ⟨size, sized, h⟩ := bind_eq_ok h
    split_ifs at h with large
    obtain ⟨digest, digested, h⟩ := bind_eq_ok h
    cases h
    obtain ⟨small, observed⟩ := not_or.mp large
    rw [Bool.not_eq_true, any_size_eq_false] at small
    cases observation with
    | none =>
      cases sized
      cases digested
      exact ⟨⟨Nat.le_of_not_lt count, nofun, admissible, agreeing, small⟩, rfl⟩
    | some o =>
      rw [Option.elim_some] at allowed sized digested
      obtain ⟨prints, sameSize⟩ := canonicalJsonSize_eq_ok.mp sized
      obtain ⟨text, digested, same⟩ := map_eq_ok digested
      obtain ⟨-, sameText⟩ := canonicalJsonDigest_eq_ok.mp digested
      rw [sameSize] at observed ⊢
      rw [← same, sameText]
      refine ⟨⟨Nat.le_of_not_lt count, ?_, admissible, agreeing, small⟩, rfl⟩
      intro o' present
      cases present
      exact ⟨membership_eq_ok.mp allowed, prints, Nat.le_of_not_lt observed⟩
  · rintro ⟨h, rfl⟩
    have gathered : w.gather lib .empty batch = .ok (preparation lib observation batch).incoming :=
      gather_eq_ok.mpr ⟨h.claims, h.agreeing, rfl⟩
    have small := any_size_eq_false.mpr h.sizes
    rw [← Bool.not_eq_true] at small
    cases observation with
    | none =>
      rw [Option.elim_none, ok_bind, gathered, ok_bind, Option.elim_none, ok_bind,
        if_neg (not_or.mpr ⟨small, Nat.not_lt_zero _⟩), Option.elim_none, ok_bind]
      rfl
    | some o =>
      obtain ⟨allowed, prints, bounded⟩ := h.observed o rfl
      rw [Option.elim_some, membership_eq_ok.mpr allowed, ok_bind, gathered, ok_bind,
        Option.elim_some, canonicalJsonSize_eq_ok.mpr ⟨prints, rfl⟩, ok_bind,
        if_neg (not_or.mpr ⟨small, Nat.not_lt.mpr bounded⟩), Option.elim_some,
        canonicalJsonDigest_eq_ok.mpr ⟨prints, rfl⟩, map_ok, ok_bind]
      rfl

/-- The references of a claim resolve, and it names evidence if its kind asks for some. -/
def Referenced (observations : Dict ObservationRef Observation) (claims : Dict ClaimRef Claim)
    (claim : Claim) : Prop :=
  ¬(claim.kind.isGrounded = true ∧ claim.evidenceRefs = []) ∧
    claim.evidenceRefs.all (resolves observations claims) = true ∧
    (claim.supersedes.all fun replaced => (claims.get replaced).isSome) = true

theorem checkReferences_eq_ok {observations : Dict ObservationRef Observation}
    {claims : Dict ClaimRef Claim} {batch : List Claim} :
    checkReferences observations claims batch = .ok () ↔
      ∀ claim ∈ batch, Referenced observations claims claim := by
  induction batch with
  | nil => exact iff_of_true rfl (List.forall_mem_nil _)
  | cons claim rest ih =>
    rw [checkReferences, List.forall_mem_cons, Referenced]
    by_cases grounded : claim.kind.isGrounded = true ∧ claim.evidenceRefs = []
    · rw [if_pos grounded]
      exact iff_of_false nofun fun h => h.1.1 grounded
    rw [if_neg grounded]
    by_cases evidence : claim.evidenceRefs.all (resolves observations claims) = true
    · rw [if_neg (not_not.mpr evidence)]
      by_cases supersedes : (claim.supersedes.all fun r => (claims.get r).isSome) = true
      · rw [if_neg (not_not.mpr supersedes), ih]
        exact (and_iff_right ⟨grounded, evidence, supersedes⟩).symm
      · rw [if_pos supersedes]
        exact iff_of_false nofun fun h => supersedes h.1.2.2
    · rw [if_pos evidence]
      exact iff_of_false nofun fun h => evidence h.1.2.1

variable {prepared : Prepared}

def submitted (prepared : Prepared) : List (ClaimRef × Claim) :=
  prepared.incoming.entries.map fun entry => (entry.1, entry.2.claim)

def observationsAfter (w : World) (observation : Option Observation) :
    Dict ObservationRef Observation :=
  observation.elim w.observations fun o => w.observations.put o.ref o

def claimsAfter (w : World) (prepared : Prepared) : Dict ClaimRef Claim :=
  w.claims.update (submitted prepared)

def payloadAfter (lib : Library) (w : World) (observation : Option Observation)
    (prepared : Prepared) : Nat :=
  w.payloadBytes +
    ((w.claims.newEntries (submitted prepared)).map fun entry => dataSize lib entry.2.data).sum +
    (if w.isNewObservation observation then prepared.observationSize else 0)

structure Plannable (lib : Library) (w : World) (observation : Option Observation)
    (prepared : Prepared) : Prop where
  observed : (observation.any fun o => w.observationConflicts o prepared) = false
  claims : w.claimConflicts prepared = false
  references : ∀ claim ∈ (submitted prepared).map Prod.snd,
    Referenced (observationsAfter w observation) (claimsAfter w prepared) claim
  graph : validateGraph (claimsAfter w prepared) (keys w.claims.entries) = .ok ()
  counts : ∀ count ∈ w.counts (observationsAfter w observation) (claimsAfter w prepared)
    (payloadAfter lib w observation prepared), count.1 ≤ count.2

def outcome (lib : Library) (w : World) (observation : Option Observation) (prepared : Prepared) :
    Planned where
  observations := observationsAfter w observation
  claims := claimsAfter w prepared
  payloadBytes := payloadAfter lib w observation prepared
  changed := !(w.claims.newEntries (submitted prepared)).isEmpty || w.isNewObservation observation

def Overfull (lib : Library) (w : World) (observation : Option Observation)
    (prepared : Prepared) : Bool :=
  (w.counts (observationsAfter w observation) (claimsAfter w prepared)
    (payloadAfter lib w observation prepared)).any fun count => count.2 < count.1

theorem plan_eq : w.plan lib observation prepared =
    if (observation.any fun o => w.observationConflicts o prepared) = true then
      .error .observationConflict
    else if w.claimConflicts prepared = true then .error .claimConflict
    else (do
      checkReferences (observationsAfter w observation) (claimsAfter w prepared)
        ((submitted prepared).map Prod.snd)
      validateGraph (claimsAfter w prepared) (keys w.claims.entries)
      if Overfull lib w observation prepared = true then .error .capacityExceeded
      else .ok (outcome lib w observation prepared)) := rfl

theorem overfull_eq_false : Overfull lib w observation prepared = false ↔
    ∀ count ∈ w.counts (observationsAfter w observation) (claimsAfter w prepared)
      (payloadAfter lib w observation prepared), count.1 ≤ count.2 := by
  rw [Overfull, List.any_eq_false]
  exact forall₂_congr fun count _ => by rw [decide_eq_true_eq, Nat.not_lt]

theorem plan_eq_ok {planned : Planned} :
    w.plan lib observation prepared = .ok planned ↔
      Plannable lib w observation prepared ∧ planned = outcome lib w observation prepared := by
  rw [plan_eq]
  by_cases observed : (observation.any fun o => w.observationConflicts o prepared) = true
  · rw [if_pos observed]
    exact iff_of_false nofun fun h => ne_true_of_eq_false h.1.observed observed
  rw [if_neg observed]
  by_cases claims : w.claimConflicts prepared = true
  · rw [if_pos claims]
    exact iff_of_false nofun fun h => ne_true_of_eq_false h.1.claims claims
  rw [if_neg claims]
  rw [Bool.not_eq_true] at observed claims
  constructor
  · intro h
    obtain ⟨⟨⟩, references, h⟩ := bind_eq_ok h
    obtain ⟨⟨⟩, graph, h⟩ := bind_eq_ok h
    split_ifs at h with full
    cases h
    rw [Bool.not_eq_true, overfull_eq_false] at full
    exact ⟨⟨observed, claims, checkReferences_eq_ok.mp references, graph, full⟩, rfl⟩
  · rintro ⟨h, rfl⟩
    rw [checkReferences_eq_ok.mpr h.references, h.graph]
    exact if_neg (ne_true_of_eq_false (overfull_eq_false.mpr h.counts))

/-- The store a commit leaves that changes it. -/
def committed (lib : Library) (w : World) (observation : Option Observation)
    (prepared : Prepared) : World := { w with
  observations := observationsAfter w observation
  claims := claimsAfter w prepared
  payloadBytes := payloadAfter lib w observation prepared
  claimDigests := w.claimDigests.update
    (prepared.incoming.entries.map fun entry => (entry.1, entry.2.digest))
  observationDigests := observation.elim w.observationDigests fun o =>
    w.observationDigests.put o.ref (dataDigest lib o.data)
  transactions := observation.elim w.transactions fun o =>
    w.transactions.put o.ref (keys prepared.incoming.entries).toFinset
  revision := w.revision + 1 }

/-- The checks of a commit, those before the lock and those under it. -/
def decision (lib : Library) (w : World) (observation : Option Observation) (batch : List Claim) :
    Except WorldError Planned := do
  let prepared ← w.prepare lib observation batch
  w.plan lib observation prepared

/-- A commit raises and leaves the store alone, or returns its receipt. -/
theorem exec_commit (named : textChecked w.worldId = true) :
    exec (commit lib observation batch) w =
      match decision lib w observation batch with
      | .error error => (.error error, w)
      | .ok planned =>
        let prepared := preparation lib observation batch
        let after := if planned.changed then committed lib w observation prepared else w
        (.ok {
          worldId := w.worldId
          revision := after.revision
          changed := planned.changed
          observationRef := observation.map Observation.ref
          committedClaimRefs := keys prepared.incoming.entries }, after) := by
  rw [commit, decision, exec_bind, exec_get]
  dsimp only
  rw [exec_bind, exec_raising]
  cases prepares : w.prepare lib observation batch with
  | error error => rfl
  | ok prepared =>
    obtain ⟨-, rfl⟩ := prepare_eq_ok.mp prepares
    rw [ok_bind]
    dsimp only
    rw [exec_bind, exec_raising]
    cases plans : w.plan lib observation (preparation lib observation batch) with
    | error error => rfl
    | ok planned =>
      obtain ⟨-, rfl⟩ := plan_eq_ok.mp plans
      dsimp only
      have returned (after : World) (same : after.worldId = w.worldId) (changed : Bool)
          (refs : List ClaimRef) :
          exec (raising (after.receipt changed (observation.map Observation.ref) refs)) after =
            (.ok {
              worldId := w.worldId
              revision := after.revision
              changed
              observationRef := observation.map Observation.ref
              committedClaimRefs := refs }, after) := by
        rw [exec_raising, receipt, same, if_pos named]
      cases changed : (outcome lib w observation (preparation lib observation batch)).changed with
      | false => exact returned w rfl _ _
      | true =>
        cases observation with
        | none => exact returned (committed lib w none _) rfl _ _
        | some o => exact returned (committed lib w (some o) _) rfl _ _

end RoboAgent.WorldCommit
