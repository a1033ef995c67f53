import Mathlib
import RoboAgent.WorldSnapshots

/-! Grounding. What the loop over the claims finds is the least fixpoint of one rule, whatever the
order of the claims; and a known entry rests on claims from which evidence leads to an observation. -/

namespace RoboAgent.WorldGrounding
open RoboAgent.KeyedLists RoboAgent.Dicts RoboAgent.DepthFirst RoboAgent.PostOrder
open RoboAgent.FalliblePrograms RoboAgent.WorldTypes RoboAgent.WorldStore
open RoboAgent.WorldStore.World RoboAgent.WorldCommit RoboAgent.WorldInvariant RoboAgent.WorldRuns
open RoboAgent.WorldSnapshots
open RoboAgent.SortedJson RoboAgent.JsonText

/-- Of the claims, those that are not replaced, are of a kind that needs evidence, and have an
observation or a claim of the set for it. -/
def rule (claims : List Claim) (replaced : List ClaimRef) : Set ClaimRef →o Set ClaimRef where
  toFun supported := {ref | ∃ claim ∈ claims, claim.ref = ref ∧ claim.ref ∉ replaced ∧
    claim.kind.isGrounded = true ∧ ∃ evidence ∈ claim.evidenceRefs,
      evidence.kind = .observation ∨ ClaimRef.mk evidence.id ∈ supported}
  monotone' := by
    rintro supported more grown ref ⟨claim, mem, same, current, kind, evidence, listed, holds⟩
    exact ⟨claim, mem, same, current, kind, evidence, listed, holds.imp_right (@grown _)⟩

def Derives (claims : List Claim) (parent ref : ClaimRef) : Prop :=
  ∃ claim ∈ claims, claim.ref = ref ∧ parent ∈ Claim.evidenceClaims claim

variable {claims : List Claim} {replaced : List ClaimRef}

theorem rule_congr {others : List Claim} {replaced' : List ClaimRef}
    (same : ∀ claim, claim ∈ claims ↔ claim ∈ others)
    (same' : ∀ ref, ref ∈ replaced ↔ ref ∈ replaced') : rule claims replaced = rule others replaced' := by
  refine OrderHom.ext _ _ (funext fun supported => Set.ext fun ref => ?_)
  exact exists_congr fun claim => and_congr (same claim) (and_congr_right fun _ =>
    and_congr_left fun _ => not_congr (same' claim.ref))

theorem mem_lfp {ref : ClaimRef} : ref ∈ OrderHom.lfp (rule claims replaced) ↔
    ∃ claim ∈ claims, claim.ref = ref ∧ claim.ref ∉ replaced ∧ claim.kind.isGrounded = true ∧
      ∃ evidence ∈ claim.evidenceRefs, evidence.kind = .observation ∨
        ClaimRef.mk evidence.id ∈ OrderHom.lfp (rule claims replaced) :=
  (Set.ext_iff.mp (OrderHom.map_lfp (rule claims replaced)) ref).symm

theorem get_index (distinct : (claims.map Claim.ref).Nodup) {ref : ClaimRef} {claim : Claim} :
    (index claims).get ref = some claim ↔ claim ∈ claims ∧ claim.ref = ref := by
  have distinct' : (keys (claims.map fun claim => (claim.ref, claim))).Nodup := by
    rw [keys, List.map_map]
    exact distinct
  rw [index, Dict.get_update distinct']
  change (List.lookup ref _).or none = _ ↔ _
  rw [Option.or_none]
  constructor
  · intro found
    obtain ⟨other, mem, same⟩ := List.mem_map.mp (mem_of_lookup found)
    cases same
    exact ⟨mem, rfl⟩
  · rintro ⟨mem, rfl⟩
    exact lookup_of_mem distinct' (List.mem_map_of_mem mem)

theorem lookup_evidenceGraph (indexed : Dict ClaimRef Claim) (ref : ClaimRef) :
    (evidenceGraph indexed).lookup ref = (indexed.get ref).map Claim.evidenceClaims :=
  lookup_map ..

theorem mem_evidenceClaims {claim : Claim} {ref : ClaimRef} :
    ref ∈ Claim.evidenceClaims claim ↔
      ∃ evidence ∈ claim.evidenceRefs, evidence.kind = .claim ∧ ClaimRef.mk evidence.id = ref := by
  rw [Claim.evidenceClaims, List.mem_map]
  constructor
  · rintro ⟨evidence, mem, rfl⟩
    obtain ⟨mem, kind⟩ := List.mem_filter.mp mem
    exact ⟨evidence, mem, of_decide_eq_true kind, rfl⟩
  · rintro ⟨evidence, mem, kind, rfl⟩
    exact ⟨evidence, List.mem_filter.mpr ⟨mem, decide_eq_true kind⟩, rfl⟩

/-- The check of a claim is the rule, if what it reads of the set is right. -/
theorem isSupported_iff {claim : Claim} {supported : List ClaimRef} {set : Set ClaimRef}
    (agree : ∀ parent ∈ Claim.evidenceClaims claim, parent ∈ supported ↔ parent ∈ set) :
    isSupported replaced supported claim = true ↔ claim.ref ∉ replaced ∧
      claim.kind.isGrounded = true ∧ ∃ evidence ∈ claim.evidenceRefs,
        evidence.kind = .observation ∨ ClaimRef.mk evidence.id ∈ set := by
  rw [isSupported, Bool.and_eq_true, Bool.and_eq_true, decide_eq_true_eq, List.any_eq_true,
    and_assoc]
  refine and_congr_right fun _ => and_congr_right fun _ => exists_congr fun evidence =>
    and_congr_right fun mem => ?_
  rw [Bool.or_eq_true, decide_eq_true_eq, decide_eq_true_eq]
  cases kind : evidence.kind with
  | observation => exact iff_of_true (.inl rfl) (.inl rfl)
  | claim => exact or_congr_right (agree _ (mem_evidenceClaims.mpr ⟨evidence, mem, kind, rfl⟩))

/-- Of the claims left, the supported ones are those of the least fixpoint. -/
theorem passed_supported (distinct : (claims.map Claim.ref).Nodup)
    {done supported : List ClaimRef} (passed : Passed (evidenceGraph (index claims))
      (support (index claims) replaced) [] done supported) :
    supported ⊆ done ∧
      ∀ ref ∈ done, ref ∈ supported ↔ ref ∈ OrderHom.lfp (rule claims replaced) := by
  induction passed with
  | start => exact ⟨List.Subset.refl _, nofun⟩
  | @left node parents done supported found before tail ih =>
    obtain ⟨within, agree⟩ := ih
    rw [lookup_evidenceGraph] at found
    obtain ⟨claim, stored, rfl⟩ := Option.map_eq_some_iff.mp found
    have verdict : isSupported replaced supported claim = true ↔
        node ∈ OrderHom.lfp (rule claims replaced) := by
      rw [isSupported_iff fun parent mem => agree parent (before parent mem), mem_lfp]
      obtain ⟨mem, rfl⟩ := (get_index distinct).mp stored
      constructor
      · intro holds
        exact ⟨claim, mem, rfl, holds⟩
      · rintro ⟨other, mem', same, holds⟩
        have equal : other = claim := by
          have found' := (get_index distinct).mpr ⟨mem', same⟩
          exact Option.some.inj (found'.symm.trans stored)
        exact equal ▸ holds
    have left : ∀ ref, ref ∈ support (index claims) replaced node supported ↔
        ref = node ∧ isSupported replaced supported claim = true ∨ ref ∈ supported := by
      intro ref
      rw [support, stored, Option.any_some]
      split_ifs with holds
      · rw [List.mem_cons, and_iff_left holds]
      · exact (or_iff_right fun h => holds h.2).symm
    refine ⟨fun ref mem => ?_, List.forall_mem_cons.mpr ⟨?_, fun ref mem => ?_⟩⟩
    · obtain ⟨rfl, -⟩ | old := (left ref).mp mem
      · exact List.mem_cons_self
      · exact List.mem_cons_of_mem _ (within old)
    · rw [left, and_iff_right rfl, verdict]
      exact or_iff_left_of_imp fun old => (agree node (within old)).mp old
    · rw [left, verdict]
      refine ⟨?_, fun inside => .inr ((agree ref mem).mpr inside)⟩
      rintro (⟨rfl, inside⟩ | old)
      · exact inside
      · exact (agree ref mem).mp old

/-- The loop ends, and finds the least fixpoint. -/
theorem groundedClaims_eq_lfp (distinct : (claims.map Claim.ref).Nodup)
    (stored : ∀ claim ∈ claims, ∀ parent ∈ Claim.evidenceClaims claim,
      ∃ other ∈ claims, other.ref = parent)
    (acyclic : ∀ ref, Acc (Derives claims) ref) (replaced : List ClaimRef) :
    ∃ grounded, groundedClaims claims replaced = some grounded ∧
      {ref | ref ∈ grounded} = OrderHom.lfp (rule claims replaced) := by
  have derives : ∀ parent ref, Refers (evidenceGraph (index claims)) parent ref →
      Derives claims parent ref := by
    rintro parent ref ⟨parents, found, mem⟩
    rw [lookup_evidenceGraph] at found
    obtain ⟨claim, held, rfl⟩ := Option.map_eq_some_iff.mp found
    obtain ⟨member, same⟩ := (get_index distinct).mp held
    exact ⟨claim, member, same, mem⟩
  have complete : Complete (evidenceGraph (index claims)) := by
    intro ref parents found parent mem
    obtain ⟨claim, member, -, mem⟩ := derives parent ref ⟨parents, found, mem⟩
    obtain ⟨other, held⟩ := stored claim member parent mem
    rw [lookup_evidenceGraph, (get_index distinct).mpr held]
    rfl
  have roots : ∀ ref ∈ keys (index claims).entries,
      ((evidenceGraph (index claims)).lookup ref).isSome = true := by
    intro ref mem
    obtain ⟨claim, held⟩ := Dict.mem_keys_iff.mp mem
    rw [lookup_evidenceGraph, held]
    rfl
  obtain ⟨done, supported, found, passed, each⟩ :=
    @searchAll_passed _ _ _ _ (support (index claims) replaced) []
      (fun ref => Subrelation.accessible (derives _ _) (acyclic ref)) complete _ roots
  obtain ⟨within, agree⟩ := passed_supported distinct passed
  refine ⟨supported, by rw [groundedClaims, found]; rfl, Set.ext fun ref => ?_⟩
  constructor
  · exact fun mem => (agree ref (within mem)).mp mem
  · intro inside
    obtain ⟨claim, mem, same, -⟩ := mem_lfp.mp inside
    have listed : ref ∈ keys (index claims).entries :=
      Dict.mem_keys_iff.mpr ⟨claim, (get_index distinct).mpr ⟨mem, same⟩⟩
    exact (agree ref (each ref listed)).mpr inside

/-- The claim is stored, is not superseded, and is of a kind that needs evidence. -/
structure Current (w : World) (claim : Claim) : Prop where
  stored : w.claims.get claim.ref = some claim
  current : claim.ref ∉ superseded (values w.claims)
  kind : claim.kind.isGrounded = true

/-- Claims of which each has the next for evidence, and the last an observation that is stored. -/
inductive EvidenceChain (w : World) : List Claim → Prop
  | observed {claim : Claim} {evidence : EvidenceRef} (current : Current w claim)
    (listed : evidence ∈ claim.evidenceRefs) (kind : evidence.kind = .observation)
    (committed : (w.observations.get ⟨evidence.source.getD "", evidence.id⟩).isSome = true) :
    EvidenceChain w [claim]
  | derived {claim next : Claim} {rest : List Claim} {evidence : EvidenceRef}
    (current : Current w claim) (listed : evidence ∈ claim.evidenceRefs)
    (kind : evidence.kind = .claim) (refers : ClaimRef.mk evidence.id = next.ref)
    (tail : EvidenceChain w (next :: rest)) : EvidenceChain w (claim :: next :: rest)

/-- The claim has no time, or its clock is in the time it holds for. -/
def Live (clock : Clock) (claim : Claim) : Prop :=
  match claim.validAt with
  | none => claim.validForNs = none
  | some validAt => ∃ time, now clock validAt.clockId = .ok (some time) ∧
      validAt.nanoseconds ≤ time.nanoseconds ∧
      ∀ duration ∈ claim.validForNs, time.nanoseconds < validAt.nanoseconds + duration

variable {lib : Library} {w : World} {clock : Clock}

theorem mem_values {K V : Type} [DecidableEq K] {d : Dict K V} {value : V} :
    value ∈ values d ↔ ∃ key, d.get key = some value := by
  rw [values, List.mem_map]
  constructor
  · rintro ⟨⟨key, value⟩, mem, rfl⟩
    exact ⟨key, Dict.get_eq_some_iff.mpr mem⟩
  · rintro ⟨key, found⟩
    exact ⟨(key, value), Dict.get_eq_some_iff.mp found, rfl⟩

theorem mem_claims (inv : Consistent lib w) {claim : Claim} :
    claim ∈ values w.claims ↔ w.claims.get claim.ref = some claim := by
  rw [mem_values]
  constructor
  · rintro ⟨ref, found⟩
    rw [inv.claimRefs ref claim found]
    exact found
  · exact fun found => ⟨_, found⟩

theorem refs_claims (inv : Consistent lib w) :
    (values w.claims).map Claim.ref = keys w.claims.entries := by
  rw [values, List.map_map, keys]
  refine List.map_congr_left fun entry mem => ?_
  exact inv.claimRefs entry.1 entry.2 (Dict.get_eq_some_iff.mpr mem)

/-- The claims of a consistent store are grounded by the rule, in any order. -/
theorem groundedClaims_consistent (inv : Consistent lib w) {claims : List Claim}
    (order : claims.Perm (values w.claims)) (replaced : List ClaimRef) :
    ∃ grounded, groundedClaims claims replaced = some grounded ∧
      {ref | ref ∈ grounded} = OrderHom.lfp (rule (values w.claims) replaced) := by
  have stored : ∀ claim ∈ claims, w.claims.get claim.ref = some claim :=
    fun claim mem => (mem_claims inv).mp (order.mem_iff.mp mem)
  have parents : ∀ claim ∈ claims, ∀ parent ∈ Claim.evidenceClaims claim,
      parent ∈ claim.parents := fun claim _ parent mem => List.mem_append_right _ mem
  have distinct : (claims.map Claim.ref).Nodup := by
    rw [(order.map Claim.ref).nodup_iff, refs_claims inv]
    exact w.claims.distinct
  rw [← rule_congr (fun _ => order.mem_iff) fun _ => Iff.rfl]
  refine groundedClaims_eq_lfp distinct (fun claim mem parent refers => ?_) (fun ref => ?_) replaced
  · have resolved := Referenced.parents (inv.referenced _ _ (stored claim mem))
      (parents claim mem _ refers)
    obtain ⟨other, held⟩ := Option.isSome_iff_exists.mp resolved
    have named := inv.claimRefs _ _ held
    refine ⟨other, order.mem_iff.mpr ((mem_claims inv).mpr ?_), named⟩
    rw [named]
    exact held
  · refine Subrelation.accessible (fun {parent ref} derives => ?_) (inv.acyclic ref)
    obtain ⟨claim, mem, rfl, refers⟩ := derives
    refine ⟨claim.parents, ?_, parents claim mem _ refers⟩
    rw [lookup_claimGraph, stored claim mem]
    rfl

/-- From a grounded claim evidence leads to an observation. -/
theorem exists_chain (inv : Consistent lib w) {ref : ClaimRef}
    (grounded : ref ∈ OrderHom.lfp (rule (values w.claims) (superseded (values w.claims)))) :
    ∃ claim rest, claim.ref = ref ∧ EvidenceChain w (claim :: rest) := by
  have closed : rule (values w.claims) (superseded (values w.claims))
      {ref | ∃ claim rest, claim.ref = ref ∧ EvidenceChain w (claim :: rest)} ≤
        {ref | ∃ claim rest, claim.ref = ref ∧ EvidenceChain w (claim :: rest)} := by
    rintro ref ⟨claim, mem, same, unreplaced, needs, evidence, listed, holds⟩
    have stored := (mem_claims inv).mp mem
    have current : Current w claim := ⟨stored, unreplaced, needs⟩
    have resolved := List.all_eq_true.mp (inv.referenced _ _ stored).2.1 evidence listed
    cases kind : evidence.kind with
    | observation =>
      rw [resolves, kind] at resolved
      exact ⟨claim, [], same, .observed current listed kind resolved⟩
    | claim =>
      obtain observed | ⟨next, rest, named, chain⟩ := holds
      · cases kind.symm.trans observed
      · exact ⟨claim, next :: rest, same, .derived current listed kind named.symm chain⟩
  exact OrderHom.lfp_le _ closed grounded

/-- What was read of a clock is what it shows. -/
theorem readClocks_spec {times last : Dict String (Option ObservationTime)} {claims : List Claim}
    (read : readClocks clock times claims = .ok last)
    (before : ∀ id time, times.get id = some time → now clock id = .ok time) :
    (∀ id time, last.get id = some time → now clock id = .ok time) ∧
      (∀ id, (times.get id).isSome = true → (last.get id).isSome = true) ∧
      ∀ claim ∈ claims, ∀ validAt ∈ claim.validAt, (last.get validAt.clockId).isSome = true := by
  induction claims generalizing times with
  | nil =>
    cases read
    exact ⟨before, fun _ found => found, List.forall_mem_nil _⟩
  | cons claim claims ih =>
    rw [readClocks] at read
    rw [List.forall_mem_cons]
    cases timed : claim.validAt with
    | none =>
      rw [timed] at read
      obtain ⟨shown, kept, each⟩ := ih read before
      exact ⟨shown, kept, fun _ absurd => (Option.not_mem_none _ absurd).elim, each⟩
    | some validAt =>
      rw [timed] at read
      dsimp only at read
      split_ifs at read with known
      · obtain ⟨shown, kept, each⟩ := ih read before
        refine ⟨shown, kept, ?_, each⟩
        rintro _ ⟨⟩
        exact kept _ known
      · obtain ⟨time, shows, read⟩ := bind_eq_ok read
        have before' : ∀ id found, (times.put validAt.clockId time).get id = some found →
            now clock id = .ok found := by
          intro id found put
          rw [Dict.get_put] at put
          split_ifs at put with same
          · cases put
            rw [same]
            exact shows
          · exact before id found put
        obtain ⟨shown, kept, each⟩ := ih read before'
        have here : ((times.put validAt.clockId time).get validAt.clockId).isSome = true := by
          rw [Dict.get_put_self]
          rfl
        refine ⟨shown, fun id found => kept id ?_, ?_, each⟩
        · rw [Dict.get_put]
          split_ifs
          · rfl
          · exact found
        · rintro _ ⟨⟩
          exact kept _ here

theorem live_of_temporalClass {times : Dict String (Option ObservationTime)} {claim : Claim}
    (shown : ∀ id time, times.get id = some time → now clock id = .ok time)
    (live : temporalClass times claim = .live) : Live clock claim := by
  unfold temporalClass at live
  unfold Live
  cases timed : claim.validAt with
  | none =>
    rw [timed] at live
    dsimp only at live ⊢
    split_ifs at live with free
    exact Option.isNone_iff_eq_none.mp free
  | some validAt =>
    rw [timed] at live
    dsimp only at live ⊢
    split at live
    · cases live
    · next time read =>
      split_ifs at live with early late
      have found : times.get validAt.clockId = some (some time) := Option.join_eq_some_iff.mp read
      refine ⟨time, shown _ _ found, Nat.not_lt.mp early, fun duration lasts => ?_⟩
      rw [Option.mem_def] at lasts
      rw [lasts, Option.any_some, decide_eq_true_eq] at late
      exact Nat.not_le.mp late

/-- A known entry rests on its live claims. -/
theorem judge_known {live expired unresolved ungrounded basis : List Claim} {value : ClaimValue}
    (judged : judge lib live expired unresolved ungrounded = .ok (.known, basis, value)) :
    basis = live ∧ live ≠ [] := by
  obtain ⟨keys, -, judged⟩ := bind_eq_ok judged
  cases live with
  | nil =>
    dsimp only at judged
    split_ifs at judged <;> cases judged
  | cons first rest =>
    dsimp only at judged
    split_ifs at judged
    · cases judged
    · obtain ⟨differs, -, judged⟩ := bind_eq_ok judged
      split_ifs at judged
      · cases judged
      · cases judged
        exact ⟨rfl, List.cons_ne_nil _ _⟩

theorem mem_provenance {claims : List Claim} {ref : ClaimRef} :
    ref ∈ (provenance claims).refs ↔ ∃ claim ∈ claims, claim.ref = ref := by
  rw [provenance, List.mem_insertionSort, List.mem_dedup, List.mem_map]

/-- A known entry has support, and every claim it names for it is grounded and live. -/
theorem resolve_known {times : Dict String (Option ObservationTime)} {grounded : List ClaimRef}
    {key : WorldEntryKey} {claims : List Claim} {entry : WorldEntry}
    (resolved : resolve lib times grounded key claims = .ok entry) (known : entry.status = .known) :
    entry.supportingClaims ≠ [] ∧ ∀ ref ∈ entry.supportingClaims,
      ∃ claim ∈ claims, claim.ref = ref ∧ ref ∈ grounded ∧ temporalClass times claim = .live := by
  obtain ⟨⟨status, basis, value⟩, judged, resolved⟩ := bind_eq_ok resolved
  obtain ⟨keyed, -, resolved⟩ := bind_eq_ok resolved
  rw [WorldEntry.construct] at resolved
  split_ifs at resolved
  cases resolved
  cases known
  obtain ⟨rfl, some_live⟩ := judge_known judged
  refine ⟨?_, fun ref mem => ?_⟩
  · obtain ⟨claim, mem⟩ := List.exists_mem_of_ne_nil _ some_live
    exact List.ne_nil_of_mem (mem_provenance.mpr ⟨claim, mem, rfl⟩)
  · obtain ⟨claim, listed, rfl⟩ := mem_provenance.mp mem
    obtain ⟨selected, class_⟩ := List.mem_filter.mp listed
    rw [Bool.and_eq_true, isGrounded, decide_eq_true_eq, decide_eq_true_eq] at class_
    exact ⟨claim, (List.mem_filter.mp selected).1, rfl, class_⟩

/-- What a snapshot is made of. -/
theorem snapshot_cases {s : WorldSnapshot} (taken : snapshot lib clock w = .ok s) :
    ∃ times grounded, readClocks clock .empty (values w.claims) = .ok times ∧
      groundedClaims (values w.claims) (superseded (values w.claims)) = some grounded ∧
      ∀ entry ∈ s.entries, ∃ key, resolve lib times grounded key
        (((values w.claims).filter fun claim => Claim.key claim = key).filter fun claim =>
          claim.ref ∉ superseded (values w.claims)) = .ok entry := by
  obtain ⟨times, read, taken⟩ := bind_eq_ok taken
  obtain ⟨grounded, found, taken⟩ := bind_eq_ok taken
  obtain ⟨entries, resolved, taken⟩ := bind_eq_ok taken
  rw [WorldSnapshot.construct] at taken
  split_ifs at taken
  cases taken
  refine ⟨times, grounded, read, ?_, fun entry mem => ?_⟩
  · obtain none_ | ⟨other, some_⟩ :=
      Option.eq_none_or_eq_some (groundedClaims (values w.claims) (superseded (values w.claims)))
    · rw [none_] at found
      cases found
    · rw [some_] at found ⊢
      cases found
      rfl
  · obtain ⟨key, -, made⟩ := mem_of_mapM resolved entry mem
    exact ⟨key, made⟩

/-- In every store that calls lead to and at every reading of the clocks, a known entry has support,
and each claim of it is live and not superseded and begins a chain of evidence that ends at an
observation; and what the grounding loop finds is the least fixpoint of the rule, whatever the order
of the stored claims. -/
theorem known_grounded (correct : lib.Correct) (reached : Reached lib w) (clock : Clock) :
    (∀ s, snapshot lib clock w = .ok s → ∀ entry ∈ s.entries, entry.status = .known →
      entry.supportingClaims ≠ [] ∧ ∀ ref ∈ entry.supportingClaims, ∃ claim rest,
        claim.ref = ref ∧ Live clock claim ∧ ref ∉ superseded (values w.claims) ∧
          EvidenceChain w (claim :: rest)) ∧
    ∀ claims : List Claim, claims.Perm (values w.claims) →
      ∃ grounded, groundedClaims claims (superseded claims) = some grounded ∧
        {ref | ref ∈ grounded} =
          OrderHom.lfp (rule (values w.claims) (superseded (values w.claims))) := by
  have inv := reached.consistent correct
  refine ⟨fun s taken entry mem known => ?_, fun claims order => ?_⟩
  · obtain ⟨times, grounded, read, found, each⟩ := snapshot_cases taken
    obtain ⟨shown, -⟩ := readClocks_spec read nofun
    obtain ⟨least, found', fixpoint⟩ := groundedClaims_consistent inv (List.Perm.refl _)
      (superseded (values w.claims))
    cases found.symm.trans found'
    obtain ⟨key, resolved⟩ := each entry mem
    obtain ⟨support, each⟩ := resolve_known resolved known
    refine ⟨support, fun ref mem => ?_⟩
    obtain ⟨claim, listed, rfl, supported, live⟩ := each ref mem
    obtain ⟨grouped, unreplaced⟩ := List.mem_filter.mp listed
    obtain ⟨first, rest, same, chain⟩ :=
      exists_chain inv (Set.ext_iff.mp fixpoint claim.ref |>.mp supported)
    have stored := (mem_claims inv).mp (List.mem_filter.mp grouped).1
    have equal : first = claim := by
      have held : w.claims.get first.ref = some first := by
        cases chain with
        | observed current => exact current.stored
        | derived current => exact current.stored
      rw [same, stored] at held
      exact (Option.some.inj held).symm
    exact ⟨claim, rest, rfl, live_of_temporalClass shown live, of_decide_eq_true unreplaced,
      equal ▸ chain⟩
  · have replaced : ∀ ref, ref ∈ superseded claims ↔ ref ∈ superseded (values w.claims) :=
      fun ref => (order.flatMap_right _).mem_iff
    rw [← rule_congr (fun _ => Iff.rfl) replaced]
    exact groundedClaims_consistent inv order _

section Example

/-- A claim inferred from the claim that the cube is red. -/
def ripe : Claim where
  ref := ⟨"ripe"⟩
  subject := ⟨"cube"⟩
  predicate := "ripe"
  value := .json ⟨.bool true, rfl⟩
  kind := .inference
  source := "camera"
  scope := none
  evidenceRefs := [⟨.claim, none, "red"⟩]
  assertedAt := "2026-01-01T00:00:02+00:00"
  validAt := none
  validForNs := none
  supersedes := []

/-- The digests sha256 gives, those of the values among them. -/
def ripeDigests : List (List Char × String) := cameraDigests ++ [
  (write bitsText (sortKeys ripe.data),
    "2f052a7de6bc7fefb8fcb03d44437bc3e5da44f7ebd3345c5868bdd5028354c5"),
  (write bitsText (.str "red"),
    "4bc9274d8758b867e8c071a6082c68a2eb1668fc5ad34f631f96bf94f354c1e1"),
  (write bitsText (.bool true),
    "b5bea41b6c623f7c09f1bf24dcae58ebab3c0cdd90ad966bc43a45b44867e12b")]

def ripeLibrary : Library := ⟨bitsText, recordedDigest ripeDigests⟩

theorem ripeLibrary_correct : ripeLibrary.Correct := by
  refine ⟨bitsText_correct, recordedDigest_injective (by decide +kernel) ?_⟩
  simp only [ripeDigests, cameraDigests, List.map_append, List.map_cons, List.map_nil,
    List.forall_mem_append, List.forall_mem_cons]
  repeat rw [String.toList_ofList]
  decide

/-- The store after the frame with the first claim, and then the second claim. -/
def ripened : World :=
  [⟨some (frame "a" (.resource image)), [red]⟩, ⟨none, [ripe]⟩].foldl
    (fun w call => (perform ripeLibrary call w).2) bare

theorem reached_ripened : Reached ripeLibrary ripened :=
  ⟨"world", { maxMediaRefs := 1 }, ["camera"], [none], bare, _, rfl, run_step bare _⟩

theorem ripened_known : (snapshot ripeLibrary none ripened).toOption.map (fun s =>
    s.entries.map fun entry => (entry.predicate, entry.status, entry.supportingClaims)) =
      some [("color", .known, [⟨"red"⟩]), ("ripe", .known, [⟨"ripe"⟩])] := by
  decide +kernel

theorem known_grounded_ripe : ∃ claim rest, claim.ref = ⟨"ripe"⟩ ∧ Live none claim ∧
    EvidenceChain ripened (claim :: rest) := by
  cases taken : snapshot ripeLibrary none ripened with
  | error error =>
    have made := ripened_known
    rw [taken] at made
    cases made
  | ok s =>
    have made := ripened_known
    rw [taken] at made
    have listed : ("ripe", WorldStatus.known, [ClaimRef.mk "ripe"]) ∈ s.entries.map fun entry =>
        (entry.predicate, entry.status, entry.supportingClaims) := by
      have entries := Option.some.inj made
      dsimp only at entries
      rw [entries]
      exact List.mem_cons_of_mem _ List.mem_cons_self
    obtain ⟨entry, mem, same⟩ := List.mem_map.mp listed
    obtain ⟨-, known, support⟩ := Prod.mk.inj same |>.imp_right Prod.mk.inj
    obtain ⟨-, each⟩ :=
      (known_grounded ripeLibrary_correct reached_ripened none).1 s taken entry mem known
    obtain ⟨claim, rest, named, live, -, chain⟩ :=
      each ⟨"ripe"⟩ (support ▸ List.mem_singleton_self _)
    exact ⟨claim, rest, named, live, chain⟩

end Example

end RoboAgent.WorldGrounding
