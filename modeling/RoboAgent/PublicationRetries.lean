import RoboAgent.WorldAdmission
import RoboAgent.WorldSplitting
import RoboAgent.WorldPublications
import RoboAgent.BufferRuns

/-! VisionWorldAdapter.publish: the observation in a commit of its own, then the claims in another,
and what a call leaves and reports among the commits of others. -/

namespace RoboAgent.PublicationRetries
open RoboAgent.Dicts RoboAgent.KeyedLists RoboAgent.Runs
open RoboAgent.WorldTypes RoboAgent.WorldStore RoboAgent.WorldStore.World RoboAgent.WorldCommit
open RoboAgent.WorldInvariant RoboAgent.WorldRuns RoboAgent.WorldRetry RoboAgent.WorldAdmission
open RoboAgent.WorldPublications

inductive PublicationStatus
  | notCommitted
  | evidenceOnly
  | complete
deriving DecidableEq

structure PublicationResult where
  status : PublicationStatus
  evidenceReceipt : Option WorldReceipt
  claimsReceipt : Option WorldReceipt
  errorCode : Option String
deriving DecidableEq

/-- The code of a WorldError; a ValueError or a failed assertion has none. -/
def errorCode : WorldError → Option String
  | .sourceNotAllowed => some "source_not_allowed"
  | .scopeNotAllowed => some "scope_not_allowed"
  | .capacityExceeded => some "world_capacity_exceeded"
  | .claimConflict => some "claim_conflict"
  | .observationConflict => some "observation_conflict"
  | .invalidClaim => some "invalid_claim"
  | .evidenceNotFound => some "evidence_not_found"
  | .clockUnavailable => some "clock_unavailable"
  | .value | .assertion => none

/-- What a call of publish meets: whether it is cancelled before and between its commits, what
on_receipt does, and the commits of others that come between. -/
structure Turn where
  cancelledBefore : Bool := false
  onReceipt : Except PublicationError Unit := .ok ()
  between : List Call := []
  cancelledBetween : Bool := false

def evidenceCall (p : WorldPublication) : Call := ⟨some p.observation, []⟩

def claimsCall (p : WorldPublication) : Call := ⟨none, p.claims⟩

def checkPublication (b : VisionWorldBinding) (p : WorldPublication) :
    Except PublicationError Unit :=
  if p.worldId ≠ b.worldId then visionError "world_mismatch"
  else if p.observation.ref.source ≠ b.observationSource ∨ p.observation.scope ≠ b.scope then
    visionError "publication_binding_invalid"
  else if p.claims.any fun claim =>
      claim.source ∉ [b.semanticClaimSource, b.geometryClaimSource] || claim.scope != b.scope then
    visionError "publication_binding_invalid"
  else .ok ()

/-- The answer to what is raised after the checks: a WorldError is reported. -/
def failed (evidence : Option WorldReceipt) (error : PublicationError) :
    Except PublicationError PublicationResult :=
  match error with
  | .world raised =>
    match errorCode raised with
    | some code => .ok {
        status := if evidence.isSome then .evidenceOnly else .notCommitted
        evidenceReceipt := evidence
        claimsReceipt := none
        errorCode := some code }
    | none => .error error
  | _ => .error error

section
variable (lib : Library)

def commits (calls : List Call) (w : World) : World :=
  calls.foldl (fun w call => (perform lib call w).2) w

/-- The second commit of a call. -/
def publishClaims (p : WorldPublication) (turn : Turn) (evidence : WorldReceipt) (w : World) :
    Except PublicationError PublicationResult × World :=
  if turn.cancelledBetween then (failed (some evidence) .cancelled, w)
  else
    match perform lib (claimsCall p) w with
    | (.error error, w) => (failed (some evidence) (.world error), w)
    | (.ok claims, w) => (.ok {
        status := .complete
        evidenceReceipt := some evidence
        claimsReceipt := some claims
        errorCode := none }, w)

def publish (b : VisionWorldBinding) (p : WorldPublication) (turn : Turn) (w : World) :
    Except PublicationError PublicationResult × World :=
  match checkPublication b p with
  | .error error => (.error error, w)
  | .ok () =>
    if turn.cancelledBefore then (failed none .cancelled, w)
    else
      match perform lib (evidenceCall p) w with
      | (.error error, w) => (failed none (.world error), w)
      | (.ok evidence, w) =>
        match turn.onReceipt with
        | .error error => (failed (some evidence) error, w)
        | .ok () => publishClaims lib p turn evidence (commits lib turn.between w)

/-- A commit of anyone, or a publication by any binding. -/
inductive Act
  | commit (call : Call)
  | publish (b : VisionWorldBinding) (p : WorldPublication) (turn : Turn)

def act (w : World) : Act → World
  | .commit call => (perform lib call w).2
  | .publish b p turn => (publish lib b p turn w).2

def acted (acts : List Act) (w : World) : World := acts.foldl (act lib) w

end

/-! What one call does. -/

section
variable {lib : Library} {b : VisionWorldBinding} {p : WorldPublication} {turn : Turn} {w : World}

theorem commits_run (calls : List Call) (w : World) :
    run (step lib) w calls = some (commits lib calls w) := run_step w calls

/-- What both hold before the commits of a call, they hold after them. -/
structure Sound (lib : Library) (w : World) : Prop where
  consistent : Consistent lib w
  admitted : Admitted w

theorem Sound.perform (correct : lib.Correct) (sound : Sound lib w) (call : Call) :
    Sound lib (perform lib call w).2 := by
  obtain ⟨consistent, admitted⟩ := admitted_step ⟨sound.consistent, sound.admitted⟩ correct
    (show step lib w call = some (WorldRuns.perform lib call w).2 from rfl)
  exact ⟨consistent, admitted⟩

theorem commits_invariant {I : World → Prop} {calls : List Call}
    (kept : ∀ w, ∀ call ∈ calls, I w → I (perform lib call w).2) (start : I w) :
    I (commits lib calls w) := by
  induction calls generalizing w with
  | nil => exact start
  | cons call calls ih =>
    exact ih (fun w other mem => kept w other (List.mem_cons_of_mem _ mem))
      (kept w call List.mem_cons_self start)

def calls (p : WorldPublication) (turn : Turn) : List Call :=
  evidenceCall p :: claimsCall p :: turn.between

theorem publish_invariant {I : World → Prop}
    (kept : ∀ w, ∀ call ∈ calls p turn, I w → I (perform lib call w).2) (start : I w) :
    I (publish lib b p turn w).2 := by
  have observed := kept w (evidenceCall p) List.mem_cons_self start
  rw [publish]
  cases checkPublication b p with
  | error error => exact start
  | ok _ =>
    dsimp only
    split_ifs
    · exact start
    generalize perform lib (evidenceCall p) w = first at observed
    obtain ⟨error | evidence, w₁⟩ := first
    · exact observed
    cases turn.onReceipt with
    | error error => exact observed
    | ok _ =>
      have between {call : Call} (mem : call ∈ turn.between) : call ∈ calls p turn :=
        List.mem_cons_of_mem _ (List.mem_cons_of_mem _ mem)
      have others : I (commits lib turn.between w₁) :=
        commits_invariant (fun w call mem => kept w call (between mem)) observed
      have claimed := kept _ (claimsCall p) (List.mem_cons_of_mem _ List.mem_cons_self) others
      change I (publishClaims lib p turn evidence (commits lib turn.between w₁)).2
      rw [publishClaims]
      split_ifs
      · exact others
      · generalize perform lib (claimsCall p) (commits lib turn.between w₁) = second at claimed
        obtain ⟨error | claims, w₂⟩ := second
        · exact claimed
        · exact claimed

theorem acted_invariant {I : World → Prop} {acts : List Act}
    (kept : ∀ w, ∀ a ∈ acts, I w → I (act lib w a)) (start : I w) : I (acted lib acts w) := by
  induction acts generalizing w with
  | nil => exact start
  | cons first acts ih =>
    exact ih (fun w a mem => kept w a (List.mem_cons_of_mem _ mem))
      (kept w first List.mem_cons_self start)

/-- What every commit keeps, every act keeps. -/
theorem act_invariant {I : World → Prop} (kept : ∀ w call, I w → I (perform lib call w).2)
    (start : I w) (a : Act) : I (act lib w a) := by
  cases a with
  | commit call => exact kept w call start
  | publish b p turn => exact publish_invariant (fun w call _ => kept w call) start

theorem Sound.acted (correct : lib.Correct) (sound : Sound lib w) (acts : List Act) :
    Sound lib (acted lib acts w) :=
  acted_invariant (fun _ a _ sound => act_invariant (fun _ call sound => sound.perform correct call)
    sound a) sound

/-- The World after the commit of the evidence and the commits of others that come then. -/
def evidenced (lib : Library) (p : WorldPublication) (turn : Turn) (w : World) : World :=
  commits lib turn.between (after lib w (evidenceCall p))

/-- What a call answers and leaves, by the commits that are accepted. -/
inductive Course (lib : Library) (p : WorldPublication) (turn : Turn) (w : World) :
    Except PublicationError PublicationResult × World → Prop
  | raised (error : PublicationError) : Course lib p turn w (.error error, w)
  | refused (error : WorldError) : ¬Accepted lib w (evidenceCall p) →
    Course lib p turn w (failed none (.world error), w)
  | interrupted (error : PublicationError) : Accepted lib w (evidenceCall p) →
    turn.onReceipt = .error error →
    Course lib p turn w (failed (some (receiptOf lib w (evidenceCall p))) error,
      after lib w (evidenceCall p))
  | cancelled : Accepted lib w (evidenceCall p) →
    Course lib p turn w (.error .cancelled, evidenced lib p turn w)
  | unclaimed (error : WorldError) : Accepted lib w (evidenceCall p) →
    ¬Accepted lib (evidenced lib p turn w) (claimsCall p) →
    Course lib p turn w
      (failed (some (receiptOf lib w (evidenceCall p))) (.world error), evidenced lib p turn w)
  | complete : Accepted lib w (evidenceCall p) →
    Accepted lib (evidenced lib p turn w) (claimsCall p) →
    Course lib p turn w (.ok {
      status := .complete
      evidenceReceipt := some (receiptOf lib w (evidenceCall p))
      claimsReceipt := some (receiptOf lib (evidenced lib p turn w) (claimsCall p))
      errorCode := none }, after lib (evidenced lib p turn w) (claimsCall p))

theorem not_accepted {call : Call} {error : WorldError}
    (h : decision lib w call.observation call.batch = .error error) : ¬Accepted lib w call := by
  intro accepted
  rw [decision_eq_ok.mpr ⟨accepted, rfl⟩] at h
  cases h

theorem publish_course (correct : lib.Correct) (sound : Sound lib w) :
    Course lib p turn w (publish lib b p turn w) := by
  rw [publish]
  cases checkPublication b p with
  | error error => exact .raised error
  | ok _ =>
    dsimp only
    split_ifs
    · exact .raised .cancelled
    obtain ⟨error, decided, performed⟩ | ⟨accepted, performed⟩ :=
      perform_cases (evidenceCall p) sound.consistent
    · rw [performed]
      exact .refused error (not_accepted decided)
    have here := sound.perform correct (evidenceCall p)
    rw [performed] at here ⊢
    have later : Sound lib (evidenced lib p turn w) :=
      commits_invariant (fun _ call _ sound => sound.perform correct call) here
    cases receipt : turn.onReceipt with
    | error error => exact .interrupted error accepted receipt
    | ok _ =>
      change Course lib p turn w (publishClaims lib p turn _ (evidenced lib p turn w))
      rw [publishClaims]
      split_ifs
      · exact .cancelled accepted
      obtain ⟨error, decided, performed⟩ | ⟨claimed, performed⟩ :=
        perform_cases (claimsCall p) later.consistent
      · rw [performed]
        exact .unclaimed error accepted (not_accepted decided)
      · rw [performed]
        exact .complete accepted claimed

/-! What a call leaves and what it says. -/

/-- Nothing, or the evidence, or the evidence and then all of the claims. -/
inductive Leaves (lib : Library) (p : WorldPublication) (turn : Turn) (w : World) : World → Prop
  | nothing : Leaves lib p turn w w
  | evidence : Stored (after lib w (evidenceCall p)) (evidenceCall p) →
    Leaves lib p turn w (after lib w (evidenceCall p))
  | between : Stored (evidenced lib p turn w) (evidenceCall p) →
    Leaves lib p turn w (evidenced lib p turn w)
  | both : Stored (after lib (evidenced lib p turn w) (claimsCall p)) (evidenceCall p) →
    Stored (after lib (evidenced lib p turn w) (claimsCall p)) (claimsCall p) →
    Leaves lib p turn w (after lib (evidenced lib p turn w) (claimsCall p))

/-- The status says which of the two commits the World holds; and the call has changed nothing if
that is neither, and committed no claim if that is the evidence alone. -/
def Truthful (lib : Library) (p : WorldPublication) (turn : Turn) (w later : World) :
    PublicationStatus → Prop
  | .notCommitted => ¬Stored later (evidenceCall p) ∧ later = w
  | .evidenceOnly => Stored later (evidenceCall p) ∧
    (turn.onReceipt = .ok () → ¬Stored later (claimsCall p)) ∧
    (later = after lib w (evidenceCall p) ∨ later = evidenced lib p turn w)
  | .complete => Stored later (evidenceCall p) ∧ Stored later (claimsCall p)

/-- What holds of a publication that was prepared. -/
structure Publishable (p : WorldPublication) : Prop where
  json : isMedia p.observation = false
  distinct : (p.claims.map Claim.ref).Nodup

theorem Publishable.evidence (fit : Publishable p) (correct : lib.Correct) (sound : Sound lib w)
    (stored : Stored w (evidenceCall p)) : Accepted lib w (evidenceCall p) := by
  refine accepted_known sound.consistent stored correct sound.admitted List.nodup_nil ?_
  intro o submitted
  rw [← Option.some.inj submitted]
  exact fit.json

theorem Publishable.claims (fit : Publishable p) (correct : lib.Correct) (sound : Sound lib w)
    (stored : Stored w (claimsCall p)) : Accepted lib w (claimsCall p) :=
  accepted_known sound.consistent stored correct sound.admitted fit.distinct nofun

theorem Sound.after (correct : lib.Correct) (sound : Sound lib w) {call : Call}
    (accepted : Accepted lib w call) : Sound lib (after lib w call) := by
  have next := sound.perform correct call
  rw [perform_accepted sound.consistent accepted] at next
  exact next

theorem Sound.commits (correct : lib.Correct) (sound : Sound lib w) (calls : List Call) :
    Sound lib (commits lib calls w) :=
  commits_invariant (fun _ call _ sound => sound.perform correct call) sound

theorem stored_perform (correct : lib.Correct) {call : Call}
    (kept : Consistent lib w ∧ Stored w call) (other : Call) :
    Consistent lib (perform lib other w).2 ∧ Stored (perform lib other w).2 call :=
  stored_step correct kept (show step lib w other = some (perform lib other w).2 from rfl)

theorem stored_after (correct : lib.Correct) (sound : Sound lib w) {call other : Call}
    (stored : Stored w call) (accepted : Accepted lib w other) :
    Stored (after lib w other) call := by
  have kept := (stored_perform correct ⟨sound.consistent, stored⟩ other).2
  rw [perform_accepted sound.consistent accepted] at kept
  exact kept

theorem stored_commits (correct : lib.Correct) (sound : Sound lib w) {call : Call}
    (stored : Stored w call) (calls : List Call) : Stored (commits lib calls w) call :=
  (commits_invariant (I := fun w => Consistent lib w ∧ Stored w call)
    (fun _ other _ kept => stored_perform correct kept other) ⟨sound.consistent, stored⟩).2

section
variable (correct : lib.Correct) (sound : Sound lib w)
include correct sound

theorem stored_evidenced (accepted : Accepted lib w (evidenceCall p)) :
    Sound lib (evidenced lib p turn w) ∧ Stored (evidenced lib p turn w) (evidenceCall p) := by
  have here := sound.after correct accepted
  exact ⟨here.commits correct turn.between, stored_commits correct here
    (stored_of_accepted correct sound.consistent accepted) turn.between⟩

theorem stored_complete (accepted : Accepted lib w (evidenceCall p))
    (claimed : Accepted lib (evidenced lib p turn w) (claimsCall p)) :
    Stored (after lib (evidenced lib p turn w) (claimsCall p)) (evidenceCall p) ∧
      Stored (after lib (evidenced lib p turn w) (claimsCall p)) (claimsCall p) := by
  obtain ⟨later, stored⟩ := stored_evidenced correct sound accepted
  exact ⟨stored_after correct later stored claimed,
    stored_of_accepted correct later.consistent claimed⟩

theorem publish_leaves : Leaves lib p turn w (publish lib b p turn w).2 := by
  have course : Course lib p turn w (publish lib b p turn w) := publish_course correct sound
  generalize publish lib b p turn w = result at course
  cases course with
  | raised error => exact .nothing
  | refused error refused => exact .nothing
  | interrupted error accepted raised =>
    exact .evidence (stored_of_accepted correct sound.consistent accepted)
  | cancelled accepted => exact .between (stored_evidenced correct sound accepted).2
  | unclaimed error accepted refused => exact .between (stored_evidenced correct sound accepted).2
  | complete accepted claimed =>
    obtain ⟨evidence, claims⟩ := stored_complete correct sound accepted claimed
    exact .both evidence claims

omit correct sound in
theorem failed_eq_ok {evidence : Option WorldReceipt} {error : PublicationError}
    {result : PublicationResult} (h : failed evidence error = .ok result) :
    result.status = if evidence.isSome then .evidenceOnly else .notCommitted := by
  rw [failed.eq_def] at h
  split at h
  · split at h
    · cases h
      rfl
    · cases h
  · cases h

theorem publish_truthful (fit : Publishable p) {result : PublicationResult}
    (answered : (publish lib b p turn w).1 = .ok result) :
    Truthful lib p turn w (publish lib b p turn w).2 result.status := by
  have course : Course lib p turn w (publish lib b p turn w) := publish_course correct sound
  generalize publish lib b p turn w = answer at course answered
  cases course with
  | raised error => cases answered
  | refused error refused =>
    dsimp only at answered
    rw [failed_eq_ok answered]
    exact ⟨fun stored => refused (fit.evidence correct sound stored), rfl⟩
  | interrupted error accepted raised =>
    dsimp only at answered
    rw [failed_eq_ok answered]
    refine ⟨stored_of_accepted correct sound.consistent accepted, fun fine => ?_, .inl rfl⟩
    rw [fine] at raised
    cases raised
  | cancelled accepted => cases answered
  | unclaimed error accepted refused =>
    dsimp only at answered
    rw [failed_eq_ok answered]
    obtain ⟨later, stored⟩ := stored_evidenced correct sound accepted
    exact ⟨stored, fun _ claims => refused (fit.claims correct later claims), .inr rfl⟩
  | complete accepted claimed =>
    cases answered
    exact stored_complete correct sound accepted claimed

end

/-! Publishing again. -/

structure Turn.Quiet (turn : Turn) : Prop where
  before : turn.cancelledBefore = false
  receipt : turn.onReceipt = .ok ()
  between : turn.cancelledBetween = false

/-- Publishing changes nothing, whatever others commit; and if nothing comes between it says that
both commits are in and that neither was needed. -/
def Settled (lib : Library) (p : WorldPublication) (w : World) : Prop :=
  ∀ (b : VisionWorldBinding) (turn : Turn),
    ((publish lib b p turn w).2 = w ∨ (publish lib b p turn w).2 = commits lib turn.between w) ∧
    (turn.Quiet → checkPublication b p = .ok () → ∃ evidence claims,
      (publish lib b p turn w).1 = .ok {
        status := .complete
        evidenceReceipt := some evidence
        claimsReceipt := some claims
        errorCode := none } ∧
      evidence.changed = false ∧ claims.changed = false)

theorem settled_of_stored (correct : lib.Correct) (sound : Sound lib w) (fit : Publishable p)
    (evidence : Stored w (evidenceCall p)) (claims : Stored w (claimsCall p)) :
    Settled lib p w := by
  intro b turn
  obtain ⟨observed, unchanged, -⟩ :=
    perform_stored sound.consistent evidence (fit.evidence correct sound evidence)
  have later := sound.commits correct turn.between
  have claims' := stored_commits correct sound claims turn.between
  obtain ⟨claimed, unchanged', -⟩ :=
    perform_stored later.consistent claims' (fit.claims correct later claims')
  constructor
  · rw [publish]
    cases checkPublication b p with
    | error error => exact .inl rfl
    | ok _ =>
      dsimp only
      split_ifs
      · exact .inl rfl
      rw [observed]
      cases turn.onReceipt with
      | error error => exact .inl rfl
      | ok _ =>
        refine .inr ?_
        change (publishClaims lib p turn _ (commits lib turn.between w)).2 = _
        rw [publishClaims]
        split_ifs
        · rfl
        · rw [claimed]
  · intro quiet checked
    refine ⟨_, _, ?_, unchanged, unchanged'⟩
    rw [publish, checked]
    dsimp only
    rw [quiet.before, if_neg Bool.false_ne_true, observed]
    dsimp only
    rw [quiet.receipt]
    dsimp only
    rw [publishClaims, quiet.between, if_neg Bool.false_ne_true, claimed]

/-! The claims of a publication in a run. -/

/-- None of the claims is in the World, or all of them and the evidence. -/
def NoneOrAll (p : WorldPublication) (w : World) : Prop :=
  (∀ claim ∈ p.claims, w.claims.get claim.ref = none) ∨
    Stored w (evidenceCall p) ∧ Stored w (claimsCall p)

def Call.Apart (p : WorldPublication) (call : Call) : Prop :=
  ∀ claim ∈ p.claims, ∀ other ∈ call.batch, other.ref ≠ claim.ref

/-- The act publishes the publication, or commits no claim under its references. -/
def Act.Apart (p : WorldPublication) : Act → Prop
  | .commit call => Call.Apart p call
  | .publish _ q turn =>
    (q = p ∨ Call.Apart p (claimsCall q)) ∧ ∀ call ∈ turn.between, Call.Apart p call

theorem absent_after {call : Call} (apart : Call.Apart p call)
    (absent : ∀ claim ∈ p.claims, w.claims.get claim.ref = none) :
    ∀ claim ∈ p.claims, (after lib w call).claims.get claim.ref = none := by
  intro claim mem
  rw [after]
  split_ifs
  · change (claimsAfter w (prepared lib call)).get claim.ref = none
    rw [get_claimsAfter, absent claim mem, Option.or_none, Option.map_eq_none_iff]
    by_contra present
    obtain ⟨other, submitted, same⟩ :=
      isSome_incoming.mp (Option.isSome_iff_ne_none.mpr present)
    exact apart claim mem other submitted same
  · exact absent claim mem

theorem noneOrAll_perform (correct : lib.Correct) {call : Call} (apart : Call.Apart p call)
    (kept : Sound lib w ∧ NoneOrAll p w) :
    Sound lib (perform lib call w).2 ∧ NoneOrAll p (perform lib call w).2 := by
  obtain ⟨sound, absent | ⟨evidence, claims⟩⟩ := kept
  · refine ⟨sound.perform correct call, .inl ?_⟩
    obtain ⟨error, -, performed⟩ | ⟨-, performed⟩ := perform_cases call sound.consistent
    · rw [performed]
      exact absent
    · rw [performed]
      exact absent_after apart absent
  · exact ⟨sound.perform correct call, .inr
      ⟨(stored_perform correct ⟨sound.consistent, evidence⟩ call).2,
        (stored_perform correct ⟨sound.consistent, claims⟩ call).2⟩⟩

theorem apart_evidence (p q : WorldPublication) : Call.Apart p (evidenceCall q) :=
  fun _ _ _ mem => nomatch mem

theorem noneOrAll_publish (correct : lib.Correct)
    (apart : ∀ call ∈ turn.between, Call.Apart p call) (kept : Sound lib w ∧ NoneOrAll p w) :
    NoneOrAll p (publish lib b p turn w).2 := by
  obtain ⟨sound, known⟩ := kept
  have course : Course lib p turn w (publish lib b p turn w) := publish_course correct sound
  have here (accepted : Accepted lib w (evidenceCall p)) :
      Sound lib (after lib w (evidenceCall p)) ∧ NoneOrAll p (after lib w (evidenceCall p)) := by
    have next := noneOrAll_perform correct (apart_evidence p p) ⟨sound, known⟩
    rw [perform_accepted sound.consistent accepted] at next
    exact next
  have later (accepted : Accepted lib w (evidenceCall p)) :
      NoneOrAll p (evidenced lib p turn w) :=
    (commits_invariant (I := fun w => Sound lib w ∧ NoneOrAll p w)
      (fun _ call mem kept => noneOrAll_perform correct (apart call mem) kept) (here accepted)).2
  generalize publish lib b p turn w = result at course
  cases course with
  | raised error => exact known
  | refused error refused => exact known
  | interrupted error accepted raised => exact (here accepted).2
  | cancelled accepted => exact later accepted
  | unclaimed error accepted refused => exact later accepted
  | complete accepted claimed => exact .inr (stored_complete correct sound accepted claimed)

theorem noneOrAll_act (correct : lib.Correct) {a : Act} (apart : Act.Apart p a)
    (kept : Sound lib w ∧ NoneOrAll p w) : Sound lib (act lib w a) ∧ NoneOrAll p (act lib w a) := by
  cases a with
  | commit call => exact noneOrAll_perform correct apart kept
  | publish b q turn =>
    obtain ⟨rfl | other, between⟩ := apart
    · exact ⟨act_invariant (fun _ call sound => sound.perform correct call) kept.1
        (.publish b q turn), noneOrAll_publish correct between kept⟩
    · refine publish_invariant (I := fun w => Sound lib w ∧ NoneOrAll p w)
        (fun w call mem kept => noneOrAll_perform correct ?_ kept) kept
      obtain rfl | mem := List.mem_cons.mp mem
      · exact apart_evidence p q
      · obtain rfl | mem := List.mem_cons.mp mem
        · exact other
        · exact between call mem

theorem noneOrAll_acted (correct : lib.Correct) (sound : Sound lib w) {acts : List Act}
    (apart : ∀ a ∈ acts, Act.Apart p a)
    (none : ∀ claim ∈ p.claims, w.claims.get claim.ref = none) : NoneOrAll p (acted lib acts w) :=
  (acted_invariant (I := fun w => Sound lib w ∧ NoneOrAll p w)
    (fun _ a mem kept => noneOrAll_act correct (apart a mem) kept) ⟨sound, .inl none⟩).2

theorem stored_acted (correct : lib.Correct) (sound : Sound lib w) {call : Call}
    (stored : Stored w call) (acts : List Act) : Stored (acted lib acts w) call := by
  have kept (w : World) (a : Act) (_ : a ∈ acts) (h : Consistent lib w ∧ Stored w call) :
      Consistent lib (act lib w a) ∧ Stored (act lib w a) call :=
    act_invariant (I := fun w => Consistent lib w ∧ Stored w call)
      (fun _ other kept => stored_perform correct kept other) h a
  exact (acted_invariant kept ⟨sound.consistent, stored⟩).2

/-- What is stored under the reference of a claim as that claim has its evidence stored. -/
theorem stored_grounded (inv : Consistent lib w) (bound : Bound b p) {claim old : Claim}
    (mem : claim ∈ p.claims) (found : w.claims.get claim.ref = some old)
    (same : SameClaim old claim) : (w.observations.get p.observation.ref).isSome = true := by
  obtain ⟨-, resolved, -⟩ := inv.referenced claim.ref old found
  obtain ⟨-, -, evidence⟩ := bound.claims claim mem
  rw [same.evidenceRefs, evidence, List.all_cons, Bool.and_eq_true] at resolved
  have named : p.observation.ref = ⟨b.observationSource, p.observation.ref.id⟩ := by
    rw [← bound.source]
  rw [named]
  exact resolved.1

theorem checkPublication_bound (bound : Bound b p) : checkPublication b p = .ok () := by
  have fine : ¬(p.claims.any fun claim =>
      claim.source ∉ [b.semanticClaimSource, b.geometryClaimSource] ||
        claim.scope != b.scope) = true := by
    rw [Bool.not_eq_true, List.any_eq_false]
    intro claim mem
    obtain ⟨source, scope, -⟩ := bound.claims claim mem
    rw [Bool.or_eq_true, decide_eq_true_eq, bne_iff_ne, not_or, not_not, not_not]
    exact ⟨source, scope⟩
  rw [checkPublication, if_neg (not_not.mpr bound.worldId),
    if_neg (not_or.mpr ⟨not_not.mpr bound.source, not_not.mpr bound.scope⟩), if_neg fine]

theorem publishable_prepare (correct : lib.Correct) {sha256 : List UInt8 → String}
    {associationInputDigest : VisionTypes.Capture CaptureMetadata.CaptureContent →
      VisionTypes.VisualScene FrozenJson.PyFloat → Option SpatialResults →
      Except VisionTypes.Raised String}
    {capture : VisionTypes.Capture CaptureMetadata.CaptureContent}
    {analysis : VisionTypes.SemanticAnalysis FrozenJson.PyFloat}
    {tracking : VisualTracking.TrackingResult} {spatial : Option SpatialResults}
    {assertedAt : String}
    (made : WorldPublications.prepare lib sha256 associationInputDigest b capture analysis tracking
      spatial assertedAt = .ok p) : Bound b p ∧ Publishable p := by
  obtain ⟨bound, distinct⟩ := prepare_bound correct made
  obtain ⟨value, json⟩ := bound.json
  refine ⟨bound, ?_, distinct⟩
  rw [isMedia, json]

/-- Nothing comes between, and both commits are accepted. -/
theorem publish_accepted (checked : checkPublication b p = .ok ()) (quiet : turn.Quiet)
    (sound : Sound lib w) (correct : lib.Correct) (accepted : Accepted lib w (evidenceCall p))
    (claimed : Accepted lib (evidenced lib p turn w) (claimsCall p)) :
    publish lib b p turn w = (.ok {
      status := .complete
      evidenceReceipt := some (receiptOf lib w (evidenceCall p))
      claimsReceipt := some (receiptOf lib (evidenced lib p turn w) (claimsCall p))
      errorCode := none }, after lib (evidenced lib p turn w) (claimsCall p)) := by
  have later : Sound lib (evidenced lib p turn w) :=
    (sound.after correct accepted).commits correct turn.between
  rw [publish, checked]
  dsimp only
  rw [quiet.before, if_neg Bool.false_ne_true, perform_accepted sound.consistent accepted]
  dsimp only
  rw [quiet.receipt]
  dsimp only
  rw [publishClaims, quiet.between, if_neg Bool.false_ne_true, ← evidenced,
    perform_accepted later.consistent claimed]

/-- An observation that came with other claims is not taken again without them. -/
theorem perform_conflict (inv : Consistent lib w) {o : Observation} {batch : List Claim}
    (preparable : Preparable lib w (some o) batch)
    (known : (w.observations.get o.ref).isSome = true)
    (other : w.transactions.get o.ref ≠ some (batch.map Claim.ref).toFinset) :
    perform lib ⟨some o, batch⟩ w = (.error .observationConflict, w) := by
  refine perform_refused inv ?_
  have conflict : ((some o).any fun submitted =>
      w.observationConflicts submitted (preparation lib (some o) batch)) = true := by
    have refs := toFinset_incoming lib ⟨some o, batch⟩
    rw [prepared] at refs
    rw [Option.any_some, observationConflicts, known, Bool.true_and, Bool.or_eq_true,
      decide_eq_true_eq, refs]
    exact .inr other
  change decision lib w (some o) batch = _
  rw [decision, prepare_eq_ok.mpr ⟨preparable, rfl⟩, FalliblePrograms.ok_bind, plan_eq,
    if_pos conflict]

/-- A publication that one transaction would take is taken in two. -/
theorem publish_together (checked : checkPublication b p = .ok ()) (quiet : turn.Quiet)
    (alone : turn.between = []) (sound : Sound lib w) (correct : lib.Correct)
    (fresh : w.observations.get p.observation.ref = none)
    (h : Accepted lib w ⟨some p.observation, p.claims⟩) :
    (publish lib b p turn w).1.toOption.map PublicationResult.status = some .complete := by
  obtain ⟨accepted, claimed⟩ := (WorldSplitting.accepted_together fresh sound.consistent).mp h
  have between : evidenced lib p turn w = after lib w (evidenceCall p) := by
    rw [evidenced, alone]
    rfl
  rw [publish_accepted checked quiet sound correct accepted (between ▸ claimed)]
  rfl

theorem failed_incomplete (evidence : Option WorldReceipt) (error : PublicationError) :
    (failed evidence error).toOption.map PublicationResult.status ≠ some .complete := by
  intro complete
  obtain ⟨result, answered, status⟩ := Option.map_eq_some_iff.mp complete
  cases made : failed evidence error with
  | error raised =>
    rw [made] at answered
    cases answered
  | ok other =>
    rw [made] at answered
    have same : other = result := Option.some.inj answered
    rw [← same, failed_eq_ok made] at status
    split_ifs at status

/-- Success is the acceptance of both commits. -/
theorem complete_accepted (correct : lib.Correct) (sound : Sound lib w)
    (answered : (publish lib b p turn w).1.toOption.map PublicationResult.status =
      some .complete) : Accepted lib w (evidenceCall p) ∧
        Accepted lib (evidenced lib p turn w) (claimsCall p) := by
  have course : Course lib p turn w (publish lib b p turn w) := publish_course correct sound
  generalize publish lib b p turn w = result at course answered
  cases course with
  | raised error => cases answered
  | refused error refused => exact (failed_incomplete none (.world error) answered).elim
  | interrupted error accepted raised =>
    exact (failed_incomplete (some (receiptOf lib w (evidenceCall p))) error answered).elim
  | cancelled accepted => cases answered
  | unclaimed error accepted refused =>
    exact (failed_incomplete (some (receiptOf lib w (evidenceCall p))) (.world error)
      answered).elim
  | complete accepted claimed => exact ⟨accepted, claimed⟩

/-- What one transaction took is not published again. -/
theorem publish_after_together (checked : checkPublication b p = .ok ())
    (early : turn.cancelledBefore = false) (sound : Sound lib w) (correct : lib.Correct)
    (h : Accepted lib w ⟨some p.observation, p.claims⟩) (claimed : p.claims ≠ []) :
    Stored (after lib w ⟨some p.observation, p.claims⟩) ⟨some p.observation, p.claims⟩ ∧
    publish lib b p turn (after lib w ⟨some p.observation, p.claims⟩) =
      (failed none (.world .observationConflict),
        after lib w ⟨some p.observation, p.claims⟩) := by
  have stored := stored_of_accepted correct sound.consistent h
  have rules := sameRules_after lib w ⟨some p.observation, p.claims⟩
  obtain ⟨old, known, -⟩ := stored.observed _ rfl
  refine ⟨stored, ?_⟩
  have fits := h.preparable.observed
  rw [← rules.limits, ← rules.sources, ← rules.scopes] at fits
  have preparable : Preparable lib (after lib w ⟨some p.observation, p.claims⟩)
      (some p.observation) [] := {
    count := Nat.zero_le _
    observed := fits
    claims := List.forall_mem_nil _
    agreeing := ⟨List.forall_mem_nil _, List.forall_mem_nil _⟩
    sizes := List.forall_mem_nil _ }
  have other : (after lib w ⟨some p.observation, p.claims⟩).transactions.get p.observation.ref ≠
      some (([] : List Claim).map Claim.ref).toFinset := by
    rw [stored.transaction _ rfl]
    intro same
    have empty : p.claims.map Claim.ref = [] :=
      List.toFinset_eq_empty_iff _ |>.mp (Option.some.inj same)
    exact claimed (List.map_eq_nil_iff.mp empty)
  rw [publish, checked]
  dsimp only
  rw [early, if_neg Bool.false_ne_true, evidenceCall, perform_conflict
    (sound.after correct h).consistent preparable (Option.isSome_iff_exists.mpr ⟨old, known⟩) other]

structure RetrySafe (lib : Library) (b : VisionWorldBinding) (p : WorldPublication) (turn : Turn)
    (w : World) : Prop where
  leaves : Leaves lib p turn w (publish lib b p turn w).2
  truthful : ∀ result, (publish lib b p turn w).1 = .ok result →
    Truthful lib p turn w (publish lib b p turn w).2 result.status
  settled : ∀ result, (publish lib b p turn w).1 = .ok result → result.status = .complete →
    ∀ later, Settled lib p (acted lib later (publish lib b p turn w).2)

theorem publish_safe (correct : lib.Correct) (sound : Sound lib w) (fit : Publishable p) :
    RetrySafe lib b p turn w where
  leaves := publish_leaves correct sound
  truthful _ answered := publish_truthful correct sound fit answered
  settled result answered complete later := by
    have truthful : Truthful lib p turn w (publish lib b p turn w).2 result.status :=
      publish_truthful correct sound fit answered
    rw [complete] at truthful
    have next : Sound lib (publish lib b p turn w).2 :=
      publish_invariant (fun _ call _ sound => sound.perform correct call) sound
    exact settled_of_stored correct (next.acted correct later) fit
      (stored_acted correct next truthful.1 later) (stored_acted correct next truthful.2 later)

/-- Whatever has been committed and published, a call of publish leaves nothing, or the evidence, or
the evidence and then all of the claims; its status is true; and after success every later call
changes nothing. While nobody else commits under the references of the claims, the World holds none
of them, or all and the evidence. -/
theorem publication_retries (correct : lib.Correct) {sha256 : List UInt8 → String}
    {associationInputDigest : VisionTypes.Capture CaptureMetadata.CaptureContent →
      VisionTypes.VisualScene FrozenJson.PyFloat → Option SpatialResults →
      Except VisionTypes.Raised String}
    {capture : VisionTypes.Capture CaptureMetadata.CaptureContent}
    {analysis : VisionTypes.SemanticAnalysis FrozenJson.PyFloat}
    {tracking : VisualTracking.TrackingResult} {spatial : Option SpatialResults}
    {assertedAt worldId : String} {limits : WorldLimits} {sources : List String}
    {scopes : List (Option String)} {start : World}
    (created : create worldId limits sources scopes = .ok start)
    (made : WorldPublications.prepare lib sha256 associationInputDigest b capture analysis tracking
      spatial assertedAt = .ok p) (acts : List Act) (b' : VisionWorldBinding) (turn : Turn) :
    checkPublication b p = .ok () ∧ RetrySafe lib b' p turn (acted lib acts start) ∧
    ((∀ a ∈ acts, Act.Apart p a) → NoneOrAll p (acted lib acts start)) ∧
    ∀ claim ∈ p.claims, ∀ old, (acted lib acts start).claims.get claim.ref = some old →
      SameClaim old claim →
      ((acted lib acts start).observations.get p.observation.ref).isSome = true := by
  obtain ⟨bound, fit⟩ := publishable_prepare correct made
  have first : Sound lib start := ⟨consistent_create created, admitted_create created⟩
  have sound := first.acted correct acts
  refine ⟨checkPublication_bound bound, publish_safe correct sound fit, fun apart => ?_,
    fun claim mem old found same => stored_grounded sound.consistent bound mem found same⟩
  refine noneOrAll_acted correct first apart fun claim _ => ?_
  rw [create] at created
  split_ifs at created
  cases created
  rfl

/-- A publication of a new observation that nothing comes between succeeds just when one transaction
of the observation and the claims would, and then it leaves the same store. -/
theorem published_as_one (correct : lib.Correct) {worldId : String} {limits : WorldLimits}
    {sources : List String} {scopes : List (Option String)} {start : World}
    (created : create worldId limits sources scopes = .ok start) (acts : List Act)
    (checked : checkPublication b p = .ok ()) (quiet : turn.Quiet) (alone : turn.between = [])
    (fresh : (acted lib acts start).observations.get p.observation.ref = none) :
    ((publish lib b p turn (acted lib acts start)).1.toOption.map PublicationResult.status =
        some .complete ↔
      ∃ receipt, (perform lib (WorldSplitting.together p.observation p.claims)
        (acted lib acts start)).1 = .ok receipt) ∧
    ∀ receipt, (perform lib (WorldSplitting.together p.observation p.claims)
        (acted lib acts start)).1 = .ok receipt →
      WorldSplitting.SameStore (perform lib (WorldSplitting.together p.observation p.claims)
        (acted lib acts start)).2 (publish lib b p turn (acted lib acts start)).2 := by
  have first : Sound lib start := ⟨consistent_create created, admitted_create created⟩
  have sound := first.acted correct acts
  generalize acted lib acts start = w at fresh sound ⊢
  have between : evidenced lib p turn w = after lib w (evidenceCall p) := by
    rw [evidenced, alone]
    rfl
  rw [WorldSplitting.performed_iff sound.consistent]
  refine ⟨⟨fun answered => ?_, fun accepted => ?_⟩, fun receipt performed => ?_⟩
  · obtain ⟨accepted, claimed⟩ := complete_accepted correct sound answered
    exact (WorldSplitting.accepted_together fresh sound.consistent).mpr
      ⟨accepted, between ▸ claimed⟩
  · exact publish_together checked quiet alone sound correct fresh accepted
  · have accepted := (WorldSplitting.performed_iff sound.consistent).mp ⟨receipt, performed⟩
    obtain ⟨evidence, claims⟩ :=
      (WorldSplitting.accepted_together fresh sound.consistent).mp accepted
    rw [perform_accepted sound.consistent accepted,
      publish_accepted checked quiet sound correct evidence (between ▸ claims), between]
    exact WorldSplitting.sameStore_after fresh correct sound.consistent accepted

end

section Example
open RoboAgent.FrozenJson RoboAgent.JsonText RoboAgent.JsonIdentity RoboAgent.BufferRuns
open RoboAgent.CaptureMetadata RoboAgent.WorldSnapshots RoboAgent.FalliblePrograms
open RoboAgent.CanonicalDigests (orNull)

def camera : VisionWorldBinding where
  worldId := "world"
  scope := none
  observationSource := "visual"
  semanticClaimSource := "semantic"
  geometryClaimSource := "geometry"
  valueEncoder := some fun _ _ => .ok (.str "seen")

def cup : VisionTypes.VisualDetection PyFloat where
  localId := "cup"
  category := "cup"
  region := ⟨⟨0⟩, ⟨0⟩, ⟨0x3FF0000000000000⟩, ⟨0x3FF0000000000000⟩⟩
  anchor := ⟨⟨0x3FE0000000000000⟩, ⟨0x3FE0000000000000⟩⟩
  attributes := ⟨[], wellFormed_empty⟩

theorem cup_identified : MessageChecks.visible "analysis" = true ∧ "analysis".length ≤ 256 := by
  decide

def cupAnalysis : VisionTypes.SemanticAnalysis PyFloat where
  analysisId := "analysis"
  scene := {
    ref := first.ref
    objects := [cup]
    distinct := List.nodup_singleton _
    distinctRelations := List.nodup_nil
    related := List.forall_mem_nil _ }
  identified := cup_identified

/-- What the tracker digests of the capture and its analysis. -/
def cupDigest : String := "41a80cb00d44805fec9ee580ab6c94576eb7261852a79f503bed83117478176b"

def cupTracking : VisualTracking.TrackingResult where
  captureRef := first.ref
  status := .updated
  authoritativeAnalysisId := some "analysis"
  matchingInputDigest := some cupDigest
  associations := [⟨"cup", .new, some ⟨"tracker", "clock", "track"⟩, []⟩]
  reason := none
  inputDigest := some cupDigest

def cupEntity : EntityRef :=
  ⟨"vision:8235f5641e36e71f116bc7c2860cf99ef61237a59942267adffa8cb3b15a2af1"⟩

def cupObservation : Observation := observationOf pixelDigest camera first
  "vision:ae18aa537a4ec88fa3ca13f50dda09bf50bee019339a9ddb6e4dfbed7a46e0ba"

def cupClaim (predicate digest : String) : Claim where
  ref := ⟨"vision:" ++ digest⟩
  subject := cupEntity
  predicate
  value := .json ⟨.str "seen", rfl⟩
  kind := .interpretation
  source := "semantic"
  scope := none
  evidenceRefs := [⟨.observation, some "visual", cupObservation.ref.id⟩]
  assertedAt := "2026-01-01T00:00:02+00:00"
  validAt := some cupObservation.observedAt
  validForNs := some 1000000000
  supersedes := []

/-- The predicates of the claims, the digests in their references and those of their data. -/
def cupPredicates : List (String × String × String) := [
  ("vision.semantic.category", "5adb8f3b0b8e001fb599619b92372714b7ef79e965e58a776d9174548a2311eb",
    "70524b9eed536873e0e59a930bfbba565734d1d2734e4f53a41716035826045b"),
  ("vision.semantic.region", "e43447de2959e8748a14b5518e20ee893347604cf3f51f34d96964c2de7b7053",
    "ab1894064214acfd34fe9b5674b1aef4892fb155ca9fa0e91889b3373e6c6f30"),
  ("vision.state.observed", "33f4da4d3e12165dd4fbfbd9a1391ab3378086c8fa49a48a99ea854342af1333",
    "6c58f7103aeddcd3f5d52fc944a551cf3b8b826d990370a5cea1f9058397f99c")]

def cupPublication : WorldPublication where
  captureRef := first.ref
  analysisId := "analysis"
  observation := cupObservation
  claims := cupPredicates.map fun entry => cupClaim entry.1 entry.2.1
  worldId := "world"

/-- The data of a capture's reference with its keys in order. -/
def sortedRef (ref : VisionTypes.CaptureRef) : JsonValue :=
  .obj [("capture_id", .str ref.captureId), ("clock_id", .str ref.clockId),
    ("sequence", .int ref.sequence), ("stream_id", .str ref.streamId)]

theorem sortKeys_refData (ref : VisionTypes.CaptureRef) :
    SortedJson.sortKeys (CaptureMetadata.refData ref) = sortedRef ref := by
  rw [CaptureMetadata.refData, SortedJson.sortKeys_obj, SortedJson.sorted]
  simp [SortedJson.sortEntries, SortedJson.sortKeys, List.mergeSort,
    List.MergeSort.Internal.splitInTwo, SortedJson.byKey, sortedRef]

/-- The digests sha256 gives for what the ids of the publication stand for, and for its data. -/
def cupDigests : List (JsonValue × String) := [
  (.arr [.str "camera", .str "tracker", .str "clock", .str "track"],
    "8235f5641e36e71f116bc7c2860cf99ef61237a59942267adffa8cb3b15a2af1"),
  (.arr [.null, sortedRef first.ref],
    "ae18aa537a4ec88fa3ca13f50dda09bf50bee019339a9ddb6e4dfbed7a46e0ba")] ++
  (cupPredicates.map fun entry => (.arr [.str "semantic", .null, sortedRef first.ref,
    .str "analysis", .str cupEntity.id, .str entry.1], entry.2.1)) ++
  [(SortedJson.sortKeys cupObservation.data,
    "a2985def3283a4465168c79b0ee934e06d290e7e9b353a220882c78ac74bbf16")] ++
  cupPredicates.map fun entry =>
    (SortedJson.sortKeys (cupClaim entry.1 entry.2.1).data, entry.2.2)

def cupLibrary : Library := ⟨bitsText, recordedDigest (cupDigests.map fun entry =>
  (JsonText.write bitsText entry.1, entry.2))⟩

theorem cupLibrary_correct : cupLibrary.Correct := by
  refine ⟨bitsText_correct, recordedDigest_injective (by decide) ?_⟩
  simp only [cupDigests, cupPredicates, List.map_append, List.map_cons, List.map_nil,
    List.forall_mem_append, List.forall_mem_cons]
  repeat rw [String.toList_ofList]
  decide

/-- What the ids stand for comes first among the digests. -/
theorem sha256_cup {value : JsonValue} {digest : String}
    (mem : (value, digest) ∈ cupDigests.take 5) :
    cupLibrary.sha256 (write bitsText value) = digest := by
  have distinct : ((cupDigests.take 5).map Prod.fst).Nodup := by decide
  have formed : ∀ value ∈ (cupDigests.take 5).map Prod.fst, wellFormed value = true := by decide
  have texts : (keys ((cupDigests.take 5).map fun entry =>
      (write bitsText entry.1, entry.2))).Nodup := by
    rw [keys, List.map_map]
    refine (List.nodup_map_iff_inj_on distinct.of_map).mpr fun a inA b inB same => ?_
    have equal := write_injective bitsText_correct (formed _ (List.mem_map_of_mem inA))
      (formed _ (List.mem_map_of_mem inB)) same
    exact List.inj_on_of_nodup_map distinct inA inB equal
  have found := lookup_of_mem texts (List.mem_map_of_mem mem)
  change ((cupDigests.map fun entry => (write bitsText entry.1, entry.2)).lookup _).getD _ = digest
  rw [← List.take_append_drop 5 cupDigests, List.map_append, List.lookup_append, found]
  rfl

/-- The id of an array, by its items with their keys in order. -/
def sortedId (parts items : List JsonValue) : Except PublicationError String :=
  if JsonIdentity.printable (.arr parts) then
    .ok ("vision:" ++ cupLibrary.sha256 (JsonText.write cupLibrary.floatText (.arr items)))
  else .error (.world .value)

theorem sortedId_cup {parts items : List JsonValue} {digest : String}
    (prints : JsonIdentity.printable (.arr parts) = true)
    (mem : (.arr items, digest) ∈ cupDigests.take 5) :
    sortedId parts items = .ok ("vision:" ++ digest) := by
  rw [sortedId, if_pos prints, show cupLibrary.floatText = bitsText from rfl, sha256_cup mem]

theorem visionId_sorted {parts items : List JsonValue}
    (sorted : parts.map SortedJson.sortKeys = items) :
    visionId cupLibrary parts = sortedId parts items := by
  rw [visionId, canonicalJsonDigest, sortedId, ← sorted, dataDigest, SortedJson.sortKeys_arr]
  split_ifs <;> rfl

theorem observationId_sorted (ref : VisionTypes.CaptureRef) :
    visionId cupLibrary [camera.scope.elim .null .str, CaptureMetadata.refData ref] =
      sortedId [.null, CaptureMetadata.refData ref] [.null, sortedRef ref] :=
  visionId_sorted (by simp [camera, SortedJson.sortKeys, sortKeys_refData])

theorem claimId_sorted (ref : VisionTypes.CaptureRef) (analysisId : String) (key : Key)
    (source : String) : visionId cupLibrary (claimParts camera ref analysisId key source) =
      sortedId (claimParts camera ref analysisId key source)
        [.str source, .null, sortedRef ref, .str analysisId, .str key.1.id, .str key.2] :=
  visionId_sorted (by simp [claimParts, camera, SortedJson.sortKeys, sortKeys_refData])

def cupWorld : World where
  worldId := "world"
  limits := {}
  sources := ["visual", "semantic", "geometry"]
  scopes := [none]
  revision := 0
  observations := .empty
  transactions := .empty
  claims := .empty
  payloadBytes := 0
  claimDigests := .empty
  observationDigests := .empty

def cupPrepared : Except PublicationError WorldPublication :=
  WorldPublications.prepare cupLibrary pixelDigest (fun _ _ _ => .ok cupDigest) camera first
    cupAnalysis cupTracking none "2026-01-01T00:00:02+00:00"

theorem checked_cup : ∀ claim ∈ cupPublication.claims, Claim.checked claim = true := by
  refine List.forall_mem_map.mpr ?_
  simp only [cupPredicates, List.forall_mem_cons]
  simp only [cupClaim, cupEntity, cupObservation, observationOf, first, pixelAt, camera,
    Claim.checked, ClaimValue.checked, WorldEntryKey.checked, Claim.key, EvidenceRef.checked,
    textChecked, MessageChecks.visible, ← String.length_toList, String.toList_append,
    List.all_cons, Option.all_some, Option.all_none, Option.any_some]
  repeat rw [String.toList_ofList]
  decide

theorem observationId_cup :
    visionId cupLibrary [camera.scope.elim .null .str, CaptureMetadata.refData first.ref] =
      .ok cupObservation.ref.id := by
  rw [observationId_sorted]
  exact sortedId_cup rfl (List.mem_cons_of_mem _ List.mem_cons_self)

theorem entityOf_cup :
    entityOf cupLibrary camera ⟨"tracker", "clock", "track"⟩ "camera" = .ok cupEntity := by
  have named : visionId cupLibrary [.str "camera", .str "tracker", .str "clock", .str "track"] =
      .ok cupEntity.id := by
    rw [visionId_sorted rfl]
    exact sortedId_cup rfl List.mem_cons_self
  exact congrArg (Except.map EntityRef.mk) named

/-- The values to claim, sorted as they are. -/
def cupValues : List (Key × Statement) := cupPredicates.map fun entry =>
  ((cupEntity, entry.1), ⟨"semantic", ⟨.str "seen", rfl⟩, some 1000000000⟩)

theorem sorted_cup :
    cupValues.insertionSort (fun v u => [v.1.1.id, v.1.2] ≤ [u.1.1.id, u.1.2]) = cupValues := by
  have predicates : cupPredicates.Pairwise fun v u => [v.1] ≤ [u.1] := by decide
  refine List.Pairwise.insertionSort_eq (List.pairwise_map.mpr ?_)
  exact predicates.imp fun h => List.cons_le_cons _ h

theorem mapM_cup : cupValues.mapM (claimOf cupLibrary camera cupObservation first.ref "analysis"
    "2026-01-01T00:00:02+00:00") = .ok cupPublication.claims := by
  have named : ∀ entry ∈ cupPredicates,
      visionId cupLibrary (claimParts camera first.ref "analysis" (cupEntity, entry.1) "semantic") =
        .ok ("vision:" ++ entry.2.1) := by
    intro entry mem
    rw [claimId_sorted]
    refine sortedId_cup rfl ?_
    change _ ∈ _ :: _ :: cupPredicates.map fun entry => (JsonValue.arr [.str "semantic", .null,
      sortedRef first.ref, .str "analysis", .str cupEntity.id, .str entry.1], entry.2.1)
    refine List.mem_cons_of_mem _ (List.mem_cons_of_mem _ ?_)
    exact List.mem_map.mpr ⟨entry, mem, rfl⟩
  refine mapM_eq_ok_iff.mpr ?_
  rw [cupValues, cupPublication, List.forall₂_map_left_iff, List.forall₂_map_right_iff,
    List.forall₂_same]
  intro entry mem
  rw [claimOf]
  dsimp only
  rw [named entry mem, ok_bind]
  exact if_pos (checked_cup _ (List.mem_map_of_mem mem))

theorem cup_prepared : cupPrepared = .ok cupPublication := by
  have bound : checkBinding (fun _ _ _ => .ok cupDigest) first cupAnalysis cupTracking none =
      .ok () := rfl
  have named : ((cupTracking.associations.filterMap fun a => a.trackId.map (a.detectionId, ·)).mapM
      fun entry => (entityOf cupLibrary camera entry.2 first.ref.streamId).map (entry.1, ·)) =
        .ok [("cup", cupEntity)] := by
    refine mapM_eq_ok_iff.mpr (.cons ?_ .nil)
    rw [show first.ref.streamId = "camera" from rfl, entityOf_cup]
    rfl
  have facts : addFacts camera (Dict.empty.update [("cup", cupEntity)]) []
      (cupAnalysis.scene.objects.flatMap (detectionFacts camera) ++
        relationFacts camera (Dict.empty.update [("cup", cupEntity)]) cupAnalysis.scene ++
        (none : Option SpatialResults).elim [] (geometryFacts camera)) = .ok cupValues := rfl
  rw [cupPrepared, WorldPublications.prepare]
  dsimp only
  rw [bound, ok_bind, observationId_cup, ok_bind, named, ok_bind, if_neg (by decide), facts,
    ok_bind, sorted_cup]
  exact congrArg (· >>= _) mapM_cup

/-- The observation and the claims in one transaction. -/
def together : Call := ⟨some cupPublication.observation, cupPublication.claims⟩

theorem sound_cup : Sound cupLibrary cupWorld := by
  have created : create "world" {} ["visual", "semantic", "geometry"] [none] = .ok cupWorld := rfl
  exact ⟨consistent_create created, admitted_create created⟩

theorem pixelDigest_pixel : pixelDigest pixel.data =
    "a4d4c009619311d9b83904acfd62fe3b7f918c312522bbcc6ad51cdec4fd1edf" := by
  rw [pixelDigest, recordedDigest, List.lookup_cons_self, Option.getD_some]

theorem dataSize_cupObservation : dataSize cupLibrary cupObservation.data ≤ 10000 := by
  simp only [cupObservation, Observation.data, observationOf, ObservationRef.data,
    ObservationTime.data, Payload.data, captureMetadata, refData, timeData, imageData, first,
    pixelAt, nullable, orNull, pixelDigest_pixel, optionalData, camera, natData, dataSize, write,
    writeEntries, stringText, escaped, List.append_nil, Option.map_none, Option.getD_none,
    Option.elim_none]
  repeat rw [String.toList_ofList]
  decide +kernel

theorem dataSize_cupClaim :
    ∀ claim ∈ cupPublication.claims, dataSize cupLibrary claim.data ≤ 10000 := by
  refine List.forall_mem_map.mpr ?_
  simp only [cupPredicates, List.forall_mem_cons]
  simp only [cupClaim, Claim.data, ClaimRef.data, EntityRef.data, ClaimValue.data,
    ClaimKind.value, ClaimValue.kind, EvidenceRef.data, EvidenceKind.value, ObservationTime.data,
    List.map_cons, List.map_nil, optionalData, natData, cupEntity, cupObservation, observationOf,
    first, pixelAt, camera, dataSize, write, writeEntries, writeItems, stringText, escaped,
    String.toList_append, Option.elim_some, Option.elim_none]
  repeat rw [String.toList_ofList]
  decide +kernel

theorem printable_cup : printable cupObservation.data = true ∧
    ∀ claim ∈ cupPublication.claims, printable claim.data = true := by
  decide

theorem distinct_cup : (cupPublication.claims.map Claim.ref).Nodup := by
  decide

theorem allowed_cup : ∀ claim ∈ cupPublication.claims,
    claim.source ∈ cupWorld.sources ∧ claim.scope ∈ cupWorld.scopes :=
  List.forall_mem_map.mpr fun _ _ =>
    ⟨List.mem_cons_of_mem _ List.mem_cons_self, List.mem_singleton_self _⟩

theorem preparable_cup :
    Preparable cupLibrary cupWorld (some cupObservation) cupPublication.claims where
  count := by decide
  observed := by
    rintro o ⟨⟩
    refine ⟨⟨List.mem_cons_self, List.mem_singleton_self _⟩, printable_cup.1, ?_⟩
    exact dataSize_cupObservation.trans (by decide)
  claims claim mem := ⟨allowed_cup claim mem, printable_cup.2 claim mem⟩
  agreeing := by
    refine ⟨fun _ _ earlier found => absurd found.symm (Option.some_ne_none earlier), ?_⟩
    intro a mem b mem' same
    have equal : a = b := List.inj_on_of_nodup_map distinct_cup mem mem' same
    rw [equal]
  sizes s mem := by
    obtain ⟨⟨ref, _⟩, submitted, rfl⟩ := List.mem_map.mp mem
    obtain ⟨member, -⟩ := incoming_spec (Dict.get_eq_some_iff.mpr submitted)
    exact (dataSize_cupClaim _ member).trans (by decide)

theorem length_submitted_cup : (submitted (WorldRuns.prepared cupLibrary together)).length ≤ 3 := by
  decide

theorem mem_submitted_cup {entry : ClaimRef × Claim}
    (mem : entry ∈ submitted (WorldRuns.prepared cupLibrary together)) :
    entry.2 ∈ cupPublication.claims := by
  obtain ⟨⟨ref, s⟩, listed, rfl⟩ := List.mem_map.mp mem
  exact (incoming_spec (Dict.get_eq_some_iff.mpr listed)).1

theorem payload_cup : payloadAfter cupLibrary cupWorld (some cupObservation)
    (WorldRuns.prepared cupLibrary together) ≤ 1048576 := by
  have each : ∀ size ∈ (cupWorld.claims.newEntries
      (submitted (WorldRuns.prepared cupLibrary together))).map
        (fun entry => dataSize cupLibrary entry.2.data), size ≤ 10000 := by
    refine List.forall_mem_map.mpr fun entry mem => ?_
    exact dataSize_cupClaim _ (mem_submitted_cup (List.mem_of_mem_filter mem))
  have claims := List.sum_le_card_nsmul _ _ each
  have short : (cupWorld.claims.newEntries
      (submitted (WorldRuns.prepared cupLibrary together))).length ≤ 3 :=
    (List.length_filter_le _ _).trans length_submitted_cup
  rw [List.length_map] at claims
  have total := claims.trans (Nat.mul_le_mul_right 10000 short)
  have observation : (if cupWorld.isNewObservation (some cupObservation) then
      (WorldRuns.prepared cupLibrary together).observationSize else 0) ≤ 10000 := by
    have size (o : Observation) (batch : List Claim) :
        (WorldRuns.prepared cupLibrary ⟨some o, batch⟩).observationSize =
          dataSize cupLibrary o.data := rfl
    have published : cupPublication.observation = cupObservation := rfl
    split_ifs
    · rw [together, size, published]
      exact dataSize_cupObservation
    · exact Nat.zero_le _
  rw [payloadAfter, show cupWorld.payloadBytes = 0 from rfl]
  omega

theorem plannable_cup : Plannable cupLibrary cupWorld (some cupObservation)
    (WorldRuns.prepared cupLibrary together) where
  observed := rfl
  claims := by decide +kernel
  references := by
    have checked : (checkReferences (observationsAfter cupWorld (some cupObservation))
        (claimsAfter cupWorld (WorldRuns.prepared cupLibrary together))
        ((submitted (WorldRuns.prepared cupLibrary together)).map Prod.snd)).isOk = true := by
      decide +kernel
    obtain ⟨⟨⟩, passed⟩ := exists_ok checked
    exact checkReferences_eq_ok.mp passed
  graph := by
    have valid : (validateGraph (claimsAfter cupWorld (WorldRuns.prepared cupLibrary together))
        (keys cupWorld.claims.entries)).isOk = true := by
      decide +kernel
    obtain ⟨⟨⟩, acyclic⟩ := exists_ok valid
    exact acyclic
  counts := by
    have counted : ∀ count ∈ cupWorld.counts (observationsAfter cupWorld (some cupObservation))
        (claimsAfter cupWorld (WorldRuns.prepared cupLibrary together)) 0, count.1 ≤ count.2 := by
      decide +kernel
    obtain ⟨entities, observations, claims, metadata, media, -⟩ := counts_le_iff.mp counted
    exact counts_le_iff.mpr ⟨entities, observations, claims, metadata, media, payload_cup⟩

theorem accepted_cup : Accepted cupLibrary cupWorld together := ⟨preparable_cup, plannable_cup⟩

theorem bound_cup : Bound camera cupPublication :=
  (publishable_prepare cupLibrary_correct cup_prepared).1

theorem publication_retries_cup :
    RetrySafe cupLibrary camera cupPublication {} cupWorld ∧
      (publish cupLibrary camera cupPublication {} cupWorld).1.toOption.map
        PublicationResult.status = some .complete :=
  ⟨(publication_retries cupLibrary_correct
    (show create "world" {} ["visual", "semantic", "geometry"] [none] = .ok cupWorld from rfl)
    cup_prepared [] camera {}).2.1,
    publish_together (checkPublication_bound bound_cup) ⟨rfl, rfl, rfl⟩ rfl sound_cup
      cupLibrary_correct rfl accepted_cup⟩

theorem published_as_one_cup : ∃ receipt, (perform cupLibrary together cupWorld).1 = .ok receipt :=
  (published_as_one cupLibrary_correct
    (show create "world" {} ["visual", "semantic", "geometry"] [none] = .ok cupWorld from rfl) []
    (checkPublication_bound bound_cup) (show Turn.Quiet {} from ⟨rfl, rfl, rfl⟩) rfl rfl).1.mp
    (publish_together (checkPublication_bound bound_cup) ⟨rfl, rfl, rfl⟩ rfl sound_cup
      cupLibrary_correct rfl accepted_cup)

/-- The World after it. -/
def holding : World := acted cupLibrary [.commit together] cupWorld

theorem holding_eq : holding = after cupLibrary cupWorld together := by
  rw [holding, acted, List.foldl_cons, List.foldl_nil, act,
    perform_accepted sound_cup.consistent accepted_cup]

/-- A World that was given the observation together with the claims holds all that is published, and
the answer is that nothing is committed. -/
theorem publication_unreported :
    cupPrepared = .ok cupPublication ∧ cupPublication.claims.length = 3 ∧
    ∃ result, (publish cupLibrary camera cupPublication {} holding).1 = .ok result ∧
      result.status = .notCommitted ∧
      Stored (publish cupLibrary camera cupPublication {} holding).2
        ⟨some cupPublication.observation, cupPublication.claims⟩ := by
  refine ⟨cup_prepared, List.length_map _, ?_⟩
  obtain ⟨stored, refused⟩ := publish_after_together (checkPublication_bound bound_cup)
    (show ({} : Turn).cancelledBefore = false from rfl) sound_cup cupLibrary_correct accepted_cup
    (List.cons_ne_nil _ _)
  rw [holding_eq, together, refused]
  exact ⟨_, rfl, rfl, stored⟩

end Example

end RoboAgent.PublicationRetries
