import RoboAgent.WorldCommit
import RoboAgent.Runs

/-! The invariant of the World store. A commit that passes its checks leaves a store whose references
resolve, whose claims refer to each other without a cycle, which respects the limits, and whose
digests and byte count are those of what it holds. -/

namespace RoboAgent.WorldInvariant
open RoboAgent.FrozenJson RoboAgent.SortedJson RoboAgent.JsonText RoboAgent.JsonIdentity
open RoboAgent.KeyedLists RoboAgent.Dicts RoboAgent.DepthFirst RoboAgent.FalliblePrograms
open RoboAgent.WorldTypes RoboAgent.WorldStore RoboAgent.WorldStore.World RoboAgent.WorldCommit
open RoboAgent.Runs

structure Consistent (lib : Library) (w : World) : Prop where
  named : textChecked w.worldId = true
  observationRefs : ∀ ref o, w.observations.get ref = some o → o.ref = ref
  claimRefs : ∀ ref claim, w.claims.get ref = some claim → claim.ref = ref
  referenced : ∀ ref claim, w.claims.get ref = some claim →
    Referenced w.observations w.claims claim
  acyclic : ∀ ref, Acc (Refers (claimGraph w.claims)) ref
  counted : ∀ count ∈ w.counts w.observations w.claims w.payloadBytes, count.1 ≤ count.2
  payload : w.payloadBytes = ((values w.claims).map fun claim => dataSize lib claim.data).sum +
    ((values w.observations).map fun o => dataSize lib o.data).sum
  claimDigests : ∀ ref, w.claimDigests.get ref =
    (w.claims.get ref).map fun claim => dataDigest lib claim.data
  observationDigests : ∀ ref, w.observationDigests.get ref =
    (w.observations.get ref).map fun o => dataDigest lib o.data
  transactions : ∀ ref, (w.transactions.get ref).isSome = (w.observations.get ref).isSome
  transacted : ∀ ref refs, w.transactions.get ref = some refs →
    ∀ claim ∈ refs, (w.claims.get claim).isSome = true

variable {lib : Library} {w : World} {observation : Option Observation} {batch : List Claim}

theorem dataDigest_injective (correct : lib.Correct) {a b : JsonValue}
    (valid : wellFormed a = true) (valid' : wellFormed b = true) :
    dataDigest lib a = dataDigest lib b ↔ sortKeys a = sortKeys b := by
  constructor
  · intro h
    exact write_injective correct.floats (wellFormed_sortKeys valid) (wellFormed_sortKeys valid')
      (correct.collisionFree h)
  · intro h
    rw [dataDigest, dataDigest, h]

theorem dataSize_congr {a b : JsonValue} (h : sortKeys a = sortKeys b) :
    dataSize lib a = dataSize lib b := by
  rw [dataSize, dataSize, ← byteSize_sortKeys, h, byteSize_sortKeys]

/-- The claims a commit looks at are those of its batch, under their own references. -/
theorem incoming_spec {ref : ClaimRef} {s : Submitted}
    (h : (preparation lib observation batch).incoming.get ref = some s) :
    s.claim ∈ batch ∧ s.claim.ref = ref ∧ s.digest = dataDigest lib s.claim.data := by
  obtain mem | absent := Dict.get_update_cases h
  · obtain ⟨claim, member, same⟩ := List.mem_map.mp mem
    cases same
    exact ⟨member, rfl, rfl⟩
  · cases absent

theorem isSome_incoming {ref : ClaimRef} :
    ((preparation lib observation batch).incoming.get ref).isSome = true ↔
      ∃ claim ∈ batch, claim.ref = ref := by
  have absent : ¬((Dict.empty : Dict ClaimRef Submitted).get ref).isSome = true :=
    Bool.false_ne_true
  rw [preparation, Dict.isSome_get_update, or_iff_left absent, keys, List.map_map, List.mem_map]
  rfl

theorem keys_submitted (prepared : Prepared) :
    keys (submitted prepared) = keys prepared.incoming.entries := by
  rw [submitted, keys, List.map_map]
  rfl

theorem get_claimsAfter (w : World) (prepared : Prepared) (ref : ClaimRef) :
    (claimsAfter w prepared).get ref =
      ((prepared.incoming.get ref).map Submitted.claim).or (w.claims.get ref) := by
  rw [claimsAfter, Dict.get_update (keys_submitted prepared ▸ prepared.incoming.distinct),
    submitted, lookup_map]
  rfl

/-- A claim of the batch whose reference is stored is the stored claim. -/
theorem stored_same (correct : lib.Correct) (inv : Consistent lib w)
    (fine : w.claimConflicts (preparation lib observation batch) = false) {ref : ClaimRef}
    {old : Claim} {s : Submitted} (stored : w.claims.get ref = some old)
    (found : (preparation lib observation batch).incoming.get ref = some s) :
    SameClaim old s.claim := by
  obtain ⟨-, -, digest⟩ := incoming_spec found
  have checked := List.any_eq_false.mp fine (ref, s) (Dict.get_eq_some_iff.mp found)
  rw [Bool.and_eq_true, not_and, stored, inv.claimDigests, stored, bne_iff_ne, not_not] at checked
  have equal := Option.some.inj (checked rfl)
  rw [digest] at equal
  exact (sameClaim_iff _ _).mpr
    ((dataDigest_injective correct old.wellFormed_data s.claim.wellFormed_data).mp equal)

/-- A stored claim stays, up to the order of the keys in its value. -/
theorem stored_after (correct : lib.Correct) (inv : Consistent lib w)
    (fine : w.claimConflicts (preparation lib observation batch) = false) {ref : ClaimRef}
    {old : Claim} (stored : w.claims.get ref = some old) :
    ∃ claim, (claimsAfter w (preparation lib observation batch)).get ref = some claim ∧
      SameClaim old claim := by
  rw [get_claimsAfter]
  cases found : (preparation lib observation batch).incoming.get ref with
  | none => exact ⟨old, stored, (sameClaim_iff _ _).mpr rfl⟩
  | some s => exact ⟨s.claim, rfl, stored_same correct inv fine stored found⟩

theorem isSome_observationsAfter {ref : ObservationRef}
    (stored : (w.observations.get ref).isSome = true) :
    ((observationsAfter w observation).get ref).isSome = true := by
  cases observation with
  | none => exact stored
  | some o =>
    rw [observationsAfter, Option.elim_some, Dict.get_put]
    split_ifs
    · rfl
    · exact stored

section
variable {observations observations' : Dict ObservationRef Observation}
  {claims claims' : Dict ClaimRef Claim}

theorem resolves_mono
    (observed : ∀ ref, (observations.get ref).isSome = true → (observations'.get ref).isSome = true)
    (kept : ∀ ref old, claims.get ref = some old →
      ∃ claim, claims'.get ref = some claim ∧ SameClaim old claim)
    {evidence : EvidenceRef} (h : resolves observations claims evidence = true) :
    resolves observations' claims' evidence = true := by
  unfold resolves at h ⊢
  cases kind : evidence.kind with
  | observation =>
    rw [kind] at h
    exact observed _ h
  | claim =>
    rw [kind] at h
    obtain ⟨parent, stored, source⟩ := (Option.any_eq_true ..).mp h
    obtain ⟨parent', stored', same⟩ := kept _ _ stored
    rw [same.source] at source
    exact (Option.any_eq_true ..).mpr ⟨parent', stored', source⟩

theorem referenced_mono
    (observed : ∀ ref, (observations.get ref).isSome = true → (observations'.get ref).isSome = true)
    (kept : ∀ ref old, claims.get ref = some old →
      ∃ claim, claims'.get ref = some claim ∧ SameClaim old claim)
    {claim : Claim} (h : Referenced observations claims claim) :
    Referenced observations' claims' claim := by
  obtain ⟨grounded, evidence, supersedes⟩ := h
  rw [List.all_eq_true] at evidence supersedes
  refine ⟨grounded, List.all_eq_true.mpr fun e mem => resolves_mono observed kept (evidence e mem),
    List.all_eq_true.mpr fun replaced mem => ?_⟩
  obtain ⟨old, stored⟩ := Option.isSome_iff_exists.mp (supersedes replaced mem)
  obtain ⟨new, stored', -⟩ := kept _ _ stored
  exact Option.isSome_iff_exists.mpr ⟨new, stored'⟩

/-- What a stored claim refers to as its parent is stored. -/
theorem Referenced.parents {claim : Claim} (h : Referenced observations claims claim)
    {parent : ClaimRef} (mem : parent ∈ claim.parents) : (claims.get parent).isSome = true := by
  obtain ⟨-, evidence, supersedes⟩ := h
  rw [List.all_eq_true] at evidence supersedes
  obtain replaced | derived := List.mem_append.mp mem
  · exact supersedes parent replaced
  · obtain ⟨e, listed, rfl⟩ := List.mem_map.mp derived
    obtain ⟨listed, kind⟩ := List.mem_filter.mp listed
    have resolved := evidence e listed
    rw [resolves, of_decide_eq_true kind] at resolved
    obtain ⟨claim, stored, -⟩ := (Option.any_eq_true ..).mp resolved
    exact Option.isSome_iff_exists.mpr ⟨claim, stored⟩

theorem SameClaim.parents {a b : Claim} (h : SameClaim a b) : a.parents = b.parents := by
  rw [Claim.parents, Claim.parents, h.supersedes, h.evidenceRefs]

end

/-- Every claim the commit leaves was checked by it, or was stored and still resolves. -/
theorem referenced_after (correct : lib.Correct) (inv : Consistent lib w)
    (h : Plannable lib w observation (preparation lib observation batch)) {ref : ClaimRef}
    {claim : Claim} (stored : (claimsAfter w (preparation lib observation batch)).get ref = some claim) :
    Referenced (observationsAfter w observation)
      (claimsAfter w (preparation lib observation batch)) claim := by
  rw [get_claimsAfter] at stored
  cases found : (preparation lib observation batch).incoming.get ref with
  | none =>
    rw [found] at stored
    exact referenced_mono (fun _ => isSome_observationsAfter)
      (fun _ _ => stored_after correct inv h.claims) (inv.referenced ref claim stored)
  | some s =>
    rw [found] at stored
    cases stored
    refine h.references s.claim ?_
    rw [submitted, List.map_map]
    exact List.mem_map.mpr ⟨(ref, s), Dict.get_eq_some_iff.mp found, rfl⟩

theorem lookup_claimGraph (claims : Dict ClaimRef Claim) (ref : ClaimRef) :
    (claimGraph claims).lookup ref = (claims.get ref).map Claim.parents :=
  lookup_map ..

/-- The search skips the stored claims; no commit changes what they refer to. -/
theorem acc_stored (correct : lib.Correct) (inv : Consistent lib w)
    (fine : w.claimConflicts (preparation lib observation batch) = false) {ref : ClaimRef}
    (acc : Acc (Refers (claimGraph w.claims)) ref) (stored : (w.claims.get ref).isSome = true) :
    Acc (Refers (claimGraph (claimsAfter w (preparation lib observation batch)))) ref := by
  induction acc with
  | intro ref _ ih =>
    refine Acc.intro _ fun parent refers => ?_
    obtain ⟨old, stored⟩ := Option.isSome_iff_exists.mp stored
    obtain ⟨new, stored', same⟩ := stored_after correct inv fine stored
    obtain ⟨parents, found, mem⟩ := refers
    rw [lookup_claimGraph, stored', Option.map_some, Option.some.injEq] at found
    rw [← found, ← SameClaim.parents same] at mem
    exact ih parent ⟨old.parents, by rw [lookup_claimGraph, stored]; rfl, mem⟩
      (Referenced.parents (inv.referenced ref old stored) mem)

theorem acc_after (correct : lib.Correct) (inv : Consistent lib w)
    (h : Plannable lib w observation (preparation lib observation batch)) (ref : ClaimRef) :
    Acc (Refers (claimGraph (claimsAfter w (preparation lib observation batch)))) ref := by
  have graph := h.graph
  unfold validateGraph at graph
  split at graph
  · rename_i finished searched
    obtain ⟨settled, each⟩ := visitAll_settled searched
    have left := settled.acc fun node mem => by
      obtain ⟨claim, stored⟩ := Dict.mem_keys_iff.mp mem
      exact acc_stored correct inv h.claims (inv.acyclic node)
        (Option.isSome_iff_exists.mpr ⟨claim, stored⟩)
    by_cases stored : ref ∈ keys (claimsAfter w (preparation lib observation batch)).entries
    · exact left ref (each ref stored)
    · refine Acc.intro _ fun parent refers => absurd ?_ stored
      obtain ⟨parents, found, -⟩ := refers
      rw [lookup_claimGraph] at found
      obtain ⟨claim, held, -⟩ := Option.map_eq_some_iff.mp found
      exact Dict.mem_keys_iff.mpr ⟨claim, held⟩
  · cases graph

/-- An observation whose reference is stored has the data and the claims it was stored with. -/
theorem stored_observation (correct : lib.Correct) (inv : Consistent lib w) {o old : Observation}
    (fine : w.observationConflicts o (preparation lib (some o) batch) = false)
    (stored : w.observations.get o.ref = some old) :
    sortKeys old.data = sortKeys o.data ∧ w.transactions.get o.ref =
      some (keys (preparation lib (some o) batch).incoming.entries).toFinset := by
  rw [observationConflicts, stored, Option.isSome_some, Bool.true_and, Bool.or_eq_false_iff,
    bne_eq_false_iff_eq, decide_eq_false_iff_not, not_not, inv.observationDigests, stored] at fine
  exact ⟨(dataDigest_injective correct old.wellFormed_data o.wellFormed_data).mp
    (Option.some.inj fine.1), fine.2⟩

section
variable {K V : Type} [DecidableEq K] {size : V → Nat} {d : Dict K V}

theorem sum_update {later : List (K × V)} (distinct : (keys later).Nodup)
    (same : ∀ entry ∈ later, ∀ old, d.get entry.1 = some old → size old = size entry.2) :
    ((values (d.update later)).map size).sum =
      ((values d).map size).sum + ((d.newEntries later).map fun entry => size entry.2).sum := by
  rw [values, values, List.map_map, List.map_map, ← List.sum_append]
  exact congrArg List.sum (Dict.map_update (f := fun entry => size entry.2) distinct same)

theorem sum_put_fresh {key : K} {value : V} (fresh : d.get key = none) :
    ((values (d.put key value)).map size).sum = ((values d).map size).sum + size value := by
  rw [values, Dict.put_eq_append value fresh, List.map_append, List.map_append, List.sum_append]
  rfl

theorem sum_put_known {key : K} {value old : V} (known : d.get key = some old)
    (same : size old = size value) :
    ((values (d.put key value)).map size).sum = ((values d).map size).sum := by
  rw [values, values, List.map_map, List.map_map]
  exact congrArg List.sum (Dict.map_put (f := fun entry => size entry.2) known same)

end

theorem claims_size_after (correct : lib.Correct) (inv : Consistent lib w)
    (fine : w.claimConflicts (preparation lib observation batch) = false) :
    ((values (claimsAfter w (preparation lib observation batch))).map fun claim =>
        dataSize lib claim.data).sum =
      ((values w.claims).map fun claim => dataSize lib claim.data).sum +
      ((w.claims.newEntries (submitted (preparation lib observation batch))).map fun entry =>
        dataSize lib entry.2.data).sum := by
  refine sum_update (keys_submitted (preparation lib observation batch) ▸
    (preparation lib observation batch).incoming.distinct) fun entry mem old stored => ?_
  obtain ⟨⟨ref, s⟩, found, made⟩ := List.mem_map.mp mem
  rw [← made] at stored ⊢
  exact dataSize_congr ((sameClaim_iff _ _).mp
    (stored_same correct inv fine stored (Dict.get_eq_some_iff.mpr found)))

theorem sum_observationsAfter {size : Observation → Nat}
    (same : ∀ o old, observation = some o → w.observations.get o.ref = some old →
      size old = size o) :
    ((values (observationsAfter w observation)).map size).sum =
      ((values w.observations).map size).sum +
      (if w.isNewObservation observation then observation.elim 0 size else 0) := by
  cases observation with
  | none => rfl
  | some o =>
    rw [observationsAfter, Option.elim_some, isNewObservation, Option.any_some]
    cases stored : w.observations.get o.ref with
    | none => rw [sum_put_fresh stored, Option.isNone_none, if_pos rfl, Option.elim_some]
    | some old =>
      rw [sum_put_known stored (same o old rfl stored), Option.isNone_some,
        if_neg Bool.false_ne_true, Nat.add_zero]

theorem observations_size_after (correct : lib.Correct) (inv : Consistent lib w)
    (fine : (observation.any fun o =>
      w.observationConflicts o (preparation lib observation batch)) = false) :
    ((values (observationsAfter w observation)).map fun o => dataSize lib o.data).sum =
      ((values w.observations).map fun o => dataSize lib o.data).sum +
      (if w.isNewObservation observation then
        (preparation lib observation batch).observationSize else 0) := by
  refine sum_observationsAfter fun o old submitted stored => ?_
  subst submitted
  exact dataSize_congr (stored_observation correct inv fine stored).1

theorem payload_after (correct : lib.Correct) (inv : Consistent lib w)
    (h : Plannable lib w observation (preparation lib observation batch)) :
    payloadAfter lib w observation (preparation lib observation batch) =
      ((values (claimsAfter w (preparation lib observation batch))).map fun claim =>
        dataSize lib claim.data).sum +
      ((values (observationsAfter w observation)).map fun o => dataSize lib o.data).sum := by
  rw [claims_size_after correct inv h.claims, observations_size_after correct inv h.observed,
    payloadAfter, inv.payload]
  omega

theorem claimDigests_after (inv : Consistent lib w) (ref : ClaimRef) :
    (committed lib w observation (preparation lib observation batch)).claimDigests.get ref =
      ((claimsAfter w (preparation lib observation batch)).get ref).map fun claim =>
        dataDigest lib claim.data := by
  have distinct : (keys ((preparation lib observation batch).incoming.entries.map fun entry =>
      (entry.1, entry.2.digest))).Nodup := by
    rw [keys, List.map_map]
    exact (preparation lib observation batch).incoming.distinct
  have found : ((preparation lib observation batch).incoming.entries.map fun entry =>
      (entry.1, entry.2.digest)).lookup ref =
      ((preparation lib observation batch).incoming.get ref).map Submitted.digest :=
    lookup_map ..
  rw [committed, Dict.get_update distinct, found, get_claimsAfter, inv.claimDigests]
  cases incoming : (preparation lib observation batch).incoming.get ref with
  | none => rfl
  | some s => exact congrArg some (incoming_spec incoming).2.2

theorem claimRefs_after (inv : Consistent lib w) {ref : ClaimRef} {claim : Claim}
    (stored : (claimsAfter w (preparation lib observation batch)).get ref = some claim) :
    claim.ref = ref := by
  rw [get_claimsAfter] at stored
  cases incoming : (preparation lib observation batch).incoming.get ref with
  | none =>
    rw [incoming] at stored
    exact inv.claimRefs ref claim stored
  | some s =>
    rw [incoming] at stored
    cases stored
    exact (incoming_spec incoming).2.1

theorem observationDigests_after (inv : Consistent lib w) (prepared : Prepared)
    (ref : ObservationRef) :
    (committed lib w observation prepared).observationDigests.get ref =
      ((observationsAfter w observation).get ref).map fun o => dataDigest lib o.data := by
  cases observation with
  | none => exact inv.observationDigests ref
  | some o =>
    change ((w.observationDigests.put o.ref _).get ref) = ((w.observations.put o.ref o).get ref).map _
    rw [Dict.get_put, Dict.get_put]
    split_ifs
    · rfl
    · exact inv.observationDigests ref

theorem observationRefs_after (inv : Consistent lib w) {ref : ObservationRef} {o : Observation}
    (stored : (observationsAfter w observation).get ref = some o) : o.ref = ref := by
  cases observation with
  | none => exact inv.observationRefs ref o stored
  | some submitted =>
    rw [observationsAfter, Option.elim_some, Dict.get_put] at stored
    split_ifs at stored with here
    · cases stored
      exact here.symm
    · exact inv.observationRefs ref o stored

theorem isSome_transactions_after (inv : Consistent lib w) (prepared : Prepared)
    (ref : ObservationRef) :
    ((committed lib w observation prepared).transactions.get ref).isSome =
      ((observationsAfter w observation).get ref).isSome := by
  cases observation with
  | none => exact inv.transactions ref
  | some o =>
    change ((w.transactions.put o.ref _).get ref).isSome = ((w.observations.put o.ref o).get ref).isSome
    rw [Dict.get_put, Dict.get_put]
    split_ifs
    · rfl
    · exact inv.transactions ref

theorem isSome_claimsAfter_of_stored {ref : ClaimRef}
    (stored : (w.claims.get ref).isSome = true) (prepared : Prepared) :
    ((claimsAfter w prepared).get ref).isSome = true := by
  rw [get_claimsAfter, Option.isSome_or, stored, Bool.or_true]

theorem isSome_claimsAfter_of_incoming {ref : ClaimRef} {prepared : Prepared}
    (mem : ref ∈ keys prepared.incoming.entries) :
    ((claimsAfter w prepared).get ref).isSome = true := by
  obtain ⟨s, found⟩ := Dict.mem_keys_iff.mp mem
  rw [get_claimsAfter, found]
  rfl

theorem transacted_after (inv : Consistent lib w) {prepared : Prepared} {ref : ObservationRef}
    {refs : Finset ClaimRef}
    (found : (committed lib w observation prepared).transactions.get ref = some refs) :
    ∀ claim ∈ refs, ((claimsAfter w prepared).get claim).isSome = true := by
  have old : w.transactions.get ref = some refs →
      ∀ claim ∈ refs, ((claimsAfter w prepared).get claim).isSome = true :=
    fun found claim mem =>
      isSome_claimsAfter_of_stored (inv.transacted ref refs found claim mem) prepared
  cases observation with
  | none => exact old found
  | some o =>
    change (w.transactions.put o.ref _).get ref = some refs at found
    rw [Dict.get_put] at found
    split_ifs at found
    · cases found
      exact fun claim mem => isSome_claimsAfter_of_incoming (List.mem_toFinset.mp mem)
    · exact old found

/-- A commit whose checks pass leaves a consistent store. -/
theorem consistent_committed (correct : lib.Correct) (inv : Consistent lib w)
    (h : Plannable lib w observation (preparation lib observation batch)) :
    Consistent lib (committed lib w observation (preparation lib observation batch)) where
  named := inv.named
  observationRefs _ _ := observationRefs_after inv
  claimRefs _ _ := claimRefs_after inv
  referenced _ _ := referenced_after correct inv h
  acyclic := acc_after correct inv h
  counted := h.counts
  payload := payload_after correct inv h
  claimDigests := claimDigests_after inv
  observationDigests := observationDigests_after inv _
  transactions := isSome_transactions_after inv _
  transacted _ _ := transacted_after inv

theorem consistent_create {worldId : String} {limits : WorldLimits} {sources : List String}
    {scopes : List (Option String)} (made : create worldId limits sources scopes = .ok w) :
    Consistent lib w := by
  rw [create] at made
  split_ifs at made with named
  cases made
  exact {
    named
    observationRefs := nofun
    claimRefs := nofun
    referenced := nofun
    acyclic := fun ref => Acc.intro _ fun parent refers => nomatch refers
    counted := by simp [counts, entities, values, Dict.empty]
    payload := rfl
    claimDigests := fun _ => rfl
    observationDigests := fun _ => rfl
    transactions := fun _ => rfl
    transacted := nofun }

end RoboAgent.WorldInvariant
