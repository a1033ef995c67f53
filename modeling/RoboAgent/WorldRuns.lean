import RoboAgent.WorldInvariant

/-! Runs of a World: any sequence of observe and add_claims calls on the store the constructor
returns. -/

namespace RoboAgent.WorldRuns
open RoboAgent.FrozenJson RoboAgent.SortedJson RoboAgent.JsonText RoboAgent.JsonIdentity
open RoboAgent.KeyedLists RoboAgent.Dicts RoboAgent.DepthFirst RoboAgent.FalliblePrograms
open RoboAgent.WorldTypes RoboAgent.WorldStore RoboAgent.WorldStore.World RoboAgent.WorldCommit
open RoboAgent.WorldInvariant RoboAgent.Runs

/-- World.observe, or World.add_claims without an observation. -/
structure Call where
  observation : Option Observation
  batch : List Claim

def perform (lib : Library) (call : Call) (w : World) : Except WorldError WorldReceipt × World :=
  exec (commit lib call.observation call.batch) w

def step (lib : Library) (w : World) (call : Call) : Option World := some (perform lib call w).2

/-- A store that the constructor and then any calls lead to. -/
def Reached (lib : Library) (w : World) : Prop :=
  ∃ worldId limits sources scopes start calls,
    create worldId limits sources scopes = .ok start ∧ run (step lib) start calls = some w

/-- The second store holds an observation or a claim that the first does not. -/
def Added (w after : World) : Prop :=
  (∃ ref, w.observations.get ref = none ∧ after.observations.get ref ≠ none) ∨
    ∃ ref, w.claims.get ref = none ∧ after.claims.get ref ≠ none

def prepared (lib : Library) (call : Call) : Prepared := preparation lib call.observation call.batch

/-- The checks of the call all pass. -/
structure Accepted (lib : Library) (w : World) (call : Call) : Prop where
  preparable : Preparable lib w call.observation call.batch
  plannable : Plannable lib w call.observation (prepared lib call)

def changes (lib : Library) (w : World) (call : Call) : Bool :=
  (outcome lib w call.observation (prepared lib call)).changed

def after (lib : Library) (w : World) (call : Call) : World :=
  if changes lib w call then committed lib w call.observation (prepared lib call) else w

def receiptOf (lib : Library) (w : World) (call : Call) : WorldReceipt where
  worldId := w.worldId
  revision := (after lib w call).revision
  changed := changes lib w call
  observationRef := call.observation.map Observation.ref
  committedClaimRefs := keys (prepared lib call).incoming.entries

variable {lib : Library} {w : World} {call : Call}

theorem decision_eq_ok {planned : Planned} :
    decision lib w call.observation call.batch = .ok planned ↔
      Accepted lib w call ∧ planned = outcome lib w call.observation (prepared lib call) := by
  rw [decision]
  constructor
  · intro h
    obtain ⟨made, prepares, plans⟩ := bind_eq_ok h
    obtain ⟨preparable, same⟩ := prepare_eq_ok.mp prepares
    subst same
    obtain ⟨plannable, same⟩ := plan_eq_ok.mp plans
    exact ⟨⟨preparable, plannable⟩, same⟩
  · rintro ⟨⟨preparable, plannable⟩, rfl⟩
    rw [prepare_eq_ok.mpr ⟨preparable, rfl⟩, ok_bind]
    exact plan_eq_ok.mpr ⟨plannable, rfl⟩

theorem perform_accepted (inv : Consistent lib w) (h : Accepted lib w call) :
    perform lib call w = (.ok (receiptOf lib w call), after lib w call) := by
  rw [perform, exec_commit inv.named, decision_eq_ok.mpr ⟨h, rfl⟩]
  rfl

/-- A call raises the error of the check that fails, and leaves the store alone. -/
theorem perform_refused (inv : Consistent lib w) {error : WorldError}
    (h : decision lib w call.observation call.batch = .error error) :
    perform lib call w = (.error error, w) := by
  rw [perform, exec_commit inv.named, h]

theorem perform_cases (call : Call) (inv : Consistent lib w) :
    (∃ error, decision lib w call.observation call.batch = .error error ∧
      perform lib call w = (.error error, w)) ∨
    (Accepted lib w call ∧
      perform lib call w = (.ok (receiptOf lib w call), after lib w call)) := by
  cases decided : decision lib w call.observation call.batch with
  | error error => exact .inl ⟨error, rfl, perform_refused inv decided⟩
  | ok planned =>
    obtain ⟨accepted, -⟩ := decision_eq_ok.mp decided
    exact .inr ⟨accepted, perform_accepted inv accepted⟩

theorem consistent_after (correct : lib.Correct) (inv : Consistent lib w)
    (h : Accepted lib w call) : Consistent lib (after lib w call) := by
  rw [after]
  split_ifs
  · exact consistent_committed correct inv h.plannable
  · exact inv

theorem consistent_step (correct : lib.Correct) (inv : Consistent lib w) {next : World}
    (h : step lib w call = some next) : Consistent lib next := by
  cases h
  obtain ⟨error, -, performed⟩ | ⟨accepted, performed⟩ := perform_cases call inv
  · rw [performed]
    exact inv
  · rw [performed]
    exact consistent_after correct inv accepted

theorem consistent_run (correct : lib.Correct) {start : World} (inv : Consistent lib start)
    {calls : List Call} (h : run (step lib) start calls = some w) : Consistent lib w :=
  run_invariant_all (fun _ _ _ inv => consistent_step correct inv) inv h

theorem Reached.consistent (correct : lib.Correct) (reached : Reached lib w) :
    Consistent lib w := by
  obtain ⟨_, _, _, _, start, calls, made, h⟩ := reached
  exact consistent_run correct (consistent_create made) h

theorem Reached.run (reached : Reached lib w) {calls : List Call} {next : World}
    (h : Runs.run (step lib) w calls = some next) : Reached lib next := by
  obtain ⟨worldId, limits, sources, scopes, start, before, made, led⟩ := reached
  exact ⟨worldId, limits, sources, scopes, start, before ++ calls, made,
    run_append_eq_some.mpr ⟨w, led, h⟩⟩

/-- What counts as a change is that something is stored which was not. -/
theorem added_committed (h : changes lib w call = true) :
    Added w (committed lib w call.observation (prepared lib call)) := by
  rw [changes, outcome, Bool.or_eq_true, Bool.not_eq_true'] at h
  obtain claims | observed := h
  · obtain ⟨entry, mem⟩ := List.exists_mem_of_ne_nil _ (List.isEmpty_eq_false_iff.mp claims)
    obtain ⟨mem, fresh⟩ := List.mem_filter.mp mem
    refine .inr ⟨entry.1, Option.isNone_iff_eq_none.mp fresh, Option.isSome_iff_ne_none.mp ?_⟩
    refine isSome_claimsAfter_of_incoming ?_
    rw [← keys_submitted]
    exact List.mem_map_of_mem mem
  · obtain ⟨o, submitted, fresh⟩ := (Option.any_eq_true ..).mp observed
    refine .inl ⟨o.ref, Option.isNone_iff_eq_none.mp fresh, Option.isSome_iff_ne_none.mp ?_⟩
    change ((observationsAfter w call.observation).get o.ref).isSome = true
    rw [submitted, observationsAfter, Option.elim_some, Dict.get_put_self]
    rfl

theorem not_added_self (w : World) : ¬Added w w := by
  rintro (⟨ref, absent, present⟩ | ⟨ref, absent, present⟩)
  · exact present absent
  · exact present absent

/-- Every store that calls lead to is consistent and free of cycles; a call that raises leaves it
alone, and the revision grows by one exactly when the call adds an observation or a claim. -/
theorem reached_consistent (correct : lib.Correct) (reached : Reached lib w) :
    Consistent lib w ∧
    (∀ ref, ¬Relation.TransGen (Refers (claimGraph w.claims)) ref ref) ∧
    ∀ call : Call,
      (∀ error, (perform lib call w).1 = .error error → (perform lib call w).2 = w) ∧
      ((Added w (perform lib call w).2 ∧ (perform lib call w).2.revision = w.revision + 1) ∨
        (¬Added w (perform lib call w).2 ∧ (perform lib call w).2 = w)) := by
  have inv := reached.consistent correct
  refine ⟨inv, fun ref cycle => ?_, fun call => ?_⟩
  · exact (WellFounded.transGen ⟨inv.acyclic⟩).asymmetric ref ref cycle cycle
  obtain ⟨error, -, performed⟩ | ⟨accepted, performed⟩ := perform_cases call inv
  · rw [performed]
    exact ⟨fun _ _ => rfl, .inr ⟨not_added_self w, rfl⟩⟩
  · rw [performed]
    refine ⟨nofun, ?_⟩
    change Added w (after lib w call) ∧ (after lib w call).revision = w.revision + 1 ∨
      ¬Added w (after lib w call) ∧ after lib w call = w
    rw [after]
    split_ifs with changed
    · exact .inl ⟨added_committed changed, rfl⟩
    · exact .inr ⟨not_added_self w, rfl⟩

section Example

/-- The digest recorded for a text; any other text stands for its own digest. -/
def recordedDigest (digests : List (List Char × String)) (text : List Char) : String :=
  (digests.lookup text).getD (String.ofList ('-' :: text))

theorem recordedDigest_injective {digests : List (List Char × String)}
    (distinct : (digests.map Prod.snd).Nodup)
    (digested : ∀ digest ∈ digests.map Prod.snd, digest.toList.head? ≠ some '-') :
    Function.Injective (recordedDigest digests) := by
  have plain {a b : List Char} {digest : String} (found : digests.lookup a = some digest) :
      digest ≠ String.ofList ('-' :: b) := by
    rintro rfl
    refine digested _ (List.mem_map_of_mem (mem_of_lookup found)) ?_
    rw [String.toList_ofList, List.head?_cons]
  intro a b same
  rw [recordedDigest, recordedDigest] at same
  cases here : digests.lookup a with
  | none =>
    cases there : digests.lookup b with
    | none =>
      rw [here, there] at same
      exact (List.cons.inj (String.ofList_injective same)).2
    | some digest =>
      rw [here, there] at same
      exact absurd same.symm (plain there)
  | some digest =>
    cases there : digests.lookup b with
    | none =>
      rw [here, there] at same
      exact absurd same (plain here)
    | some other =>
      rw [here, there] at same
      exact congrArg Prod.fst (List.inj_on_of_nodup_map distinct (mem_of_lookup here)
        (mem_of_lookup there) same)

def bitsText (x : PyFloat) : List Char := '.' :: Nat.toDigits 10 x.bits.toNat

theorem bitsText_correct : FloatText bitsText where
  injective := by
    rintro ⟨x⟩ ⟨y⟩ - - same
    exact congrArg _ (UInt64.toNat_inj.mp (toDigits_injective (List.cons.inj same).2))
  chars := by
    rintro x - c mem
    obtain rfl | digit := List.mem_cons.mp mem
    · exact .inr (by decide)
    · exact .inl (Nat.isDigit_of_mem_toDigits (by decide) (by decide) digit)
  marked _ _ := .inl List.mem_cons_self

def frame (id : String) (payload : Payload) : Observation where
  ref := ⟨"camera", id⟩
  modality := "image"
  observedAt := ⟨"robot", 1⟩
  receivedAt := "2026-01-01T00:00:00+00:00"
  payload
  scope := none

def image : ResourceRef := { uri := "u" }

/-- The JSON object with the fields of the resource reference. -/
def imageObject : FrozenJsonValue := ⟨image.data, image.wellFormed_data⟩

def red : Claim where
  ref := ⟨"red"⟩
  subject := ⟨"cube"⟩
  predicate := "color"
  value := .json ⟨.str "red", rfl⟩
  kind := .measurement
  source := "camera"
  scope := none
  evidenceRefs := [⟨.observation, some "camera", "a"⟩]
  assertedAt := "2026-01-01T00:00:01+00:00"
  validAt := none
  validForNs := none
  supersedes := []

/-- The digests sha256 gives for the data of the frames and of the claim. -/
def cameraDigests : List (List Char × String) := [
  (write bitsText (sortKeys (frame "a" (.resource image)).data),
    "8a97b03818407be98262e6328d9df329006e5ed19db9aed1808d1bc0bde20047"),
  (write bitsText (sortKeys (frame "b" (.resource image)).data),
    "11c4172719c12181289798dff37a2bddfe33d77b454e9c41f015ebe9a249efae"),
  (write bitsText (sortKeys red.data),
    "8a4a7c080bda72e7bc5897d3f8540b9af7ef5316c6ffed9e1349124a9f2dfe9c")]

def cameraLibrary : Library := ⟨bitsText, recordedDigest cameraDigests⟩

theorem cameraLibrary_correct : cameraLibrary.Correct := by
  refine ⟨bitsText_correct, recordedDigest_injective (by decide +kernel) ?_⟩
  simp only [cameraDigests, List.map_cons, List.map_nil, List.forall_mem_cons]
  repeat rw [String.toList_ofList]
  decide

/-- The store of a World that has room for one resource reference. -/
def bare : World where
  worldId := "world"
  limits := { maxMediaRefs := 1 }
  sources := ["camera"]
  scopes := [none]
  revision := 0
  observations := .empty
  transactions := .empty
  claims := .empty
  payloadBytes := 0
  claimDigests := .empty
  observationDigests := .empty

/-- The store after the calls, from the bare one. -/
def led (calls : List Call) : World :=
  calls.foldl (fun w call => (perform cameraLibrary call w).2) bare

theorem run_step (start : World) (calls : List Call) : run (step lib) start calls =
    some (calls.foldl (fun w call => (perform lib call w).2) start) := by
  induction calls generalizing start with
  | nil => rfl
  | cons call calls ih => exact ih _

theorem reached_led (calls : List Call) : Reached cameraLibrary (led calls) :=
  ⟨"world", { maxMediaRefs := 1 }, ["camera"], [none], bare, calls, rfl, run_step bare calls⟩

theorem led_concat (calls : List Call) (call : Call) :
    led (calls ++ [call]) = (perform cameraLibrary call (led calls)).2 :=
  List.foldl_concat ..

theorem reached_consistent_red :
    Consistent cameraLibrary (led [⟨some (frame "a" (.resource image)), [red]⟩]) ∧
      (led [⟨some (frame "a" (.resource image)), [red]⟩]).revision = 1 ∧
      (led [⟨some (frame "a" (.resource image)), [red]⟩]).payloadBytes = 244 + 312 :=
  ⟨(reached_consistent cameraLibrary_correct (reached_led _)).1, by decide +kernel,
    by decide +kernel⟩

end Example

end RoboAgent.WorldRuns
