import RoboAgent.ContextCompaction

/-! A snapshot and its restore. A host keeps the Session's world, the context updates its manager
prepared for it, and the sequence numbers its receipts carried; it may reopen the Session from its
own snapshot at any time. What restore checks again holds in every state the host can reach. -/

namespace RoboAgent.SessionRestore
open RoboAgent.Messages RoboAgent.FrozenJson RoboAgent.SessionState RoboAgent.SessionWorld
open RoboAgent.SessionWorld.World RoboAgent.SessionSteps RoboAgent.SessionTranscript RoboAgent.Runs
open RoboAgent.ContextCompaction

structure Host where
  world : World
  prepared : List CompactionUpdate
  issued : List Nat

def Host.opened (session : Session) (record : Option SessionSnapshot) : Host :=
  ⟨SessionWorld.opened session record, [], sequences session.pending⟩

/-- The host with the Session that a restore gave it. -/
def Host.reopened (h : Host) (session : Session) (record : Option SessionSnapshot) : Host :=
  ⟨SessionWorld.opened session record, [], h.issued⟩

/-- A compaction is committed by its place among the prepared updates, and by no other action. -/
inductive HostAction
  | act (action : Action)
  | prepare (manager : CompactingContextManager) (contextWindow maxOutputTokens : Option Nat)
    (world : Option (List WorldEntry))
  | commitCompaction (runId index : Nat)
  | reopen (hasRepository : Bool) (record : Option SessionSnapshot)

def isCompaction : Action → Bool
  | .perform (.commitCompaction _ _) => true
  | _ => false

def isEnqueue : Operation → Bool
  | .enqueue _ _ _ => true
  | _ => false

/-- The sequence numbers of the receipts that an action hands out, by the state it leaves. -/
def receipts (after : World) : Action → List Nat
  | .perform operation => if isEnqueue operation then [after.session.sequence] else []
  | _ => []

variable (digest : List AgentMessage → String)

def hostStep (h : Host) : HostAction → Option Host
  | .act action =>
    if isCompaction action then none
    else (step h.world action).map fun world =>
      { h with world, issued := h.issued ++ receipts world action }
  | .prepare manager contextWindow maxOutputTokens world =>
    match manager.prepare digest {
      transcript := h.world.session.messages
      currentCompaction := h.world.session.currentCompaction
      contextWindow, maxOutputTokens, world } with
    | .ok (some update) => some { h with prepared := h.prepared ++ [update] }
    | _ => none
  | .commitCompaction runId index =>
    h.prepared[index]?.bind fun update =>
      (step h.world (.perform (.commitCompaction runId update))).map fun world => { h with world }
  | .reopen hasRepository record =>
    match restore digest h.world.session.mediaLimits hasRepository h.world.session.snapshot with
    | .ok session => some (h.reopened session record)
    | .error _ => none

variable {digest}

/-- A section other than the commit of a compaction keeps the record, and only appends to the
transcript; the counter moves with each receipt. -/
structure SectionKept (s : Session) (operation : Operation) (x : Section) : Prop where
  messages : s.messages <+: x.session.messages
  compaction : x.session.currentCompaction = s.currentCompaction ∨
    ∃ runId update, operation = .commitCompaction runId update ∧
      x.session.currentCompaction = update.summary
  sequence : x.session.sequence = if isEnqueue operation then s.sequence + 1 else s.sequence

theorem outcome_kept {s : Session} {run : Option Run} {operation : Operation} {x : Section}
    (outcome : operation.outcome s run = some (.ok x)) : SectionKept s operation x := by
  cases operation with
  | enqueue kind message inputId =>
    simp only [Operation.outcome, Option.some.injEq, Session.enqueue] at outcome
    split at outcome <;> cases outcome
    exact ⟨List.prefix_refl _, .inl rfl, rfl⟩
  | commitInitialInput cancelled =>
    obtain ⟨run, -, outcome⟩ := Option.map_eq_some_iff.mp outcome
    simp only [Session.commitInitialInput] at outcome
    split_ifs at outcome <;> cases outcome
    · exact ⟨List.prefix_refl _, .inl rfl, rfl⟩
    · exact ⟨List.prefix_append .., .inl rfl, rfl⟩
  | consumePending cancelled =>
    obtain ⟨run, -, outcome⟩ := Option.map_eq_some_iff.mp outcome
    simp only [Session.consumePending] at outcome
    split_ifs at outcome <;> cases outcome
    · exact ⟨List.prefix_refl _, .inl rfl, rfl⟩
    · exact ⟨List.prefix_append .., .inl rfl, rfl⟩
  | clearPending =>
    simp only [Operation.outcome, Option.some.injEq, Session.clearPending] at outcome
    split_ifs at outcome <;> cases outcome <;> exact ⟨List.prefix_refl _, .inl rfl, rfl⟩
  | commitMessage runId message =>
    simp only [Operation.outcome, Option.some.injEq, Session.commitMessage] at outcome
    split_ifs at outcome
    cases outcome
    exact ⟨List.prefix_append .., .inl rfl, rfl⟩
  | commitExchange runId assistant results =>
    simp only [Operation.outcome, Option.some.injEq, Session.commitExchange] at outcome
    split_ifs at outcome
    cases outcome
    exact ⟨List.prefix_append .., .inl rfl, rfl⟩
  | commitCompaction runId update =>
    simp only [Operation.outcome, Option.some.injEq, Session.commitCompaction] at outcome
    split_ifs at outcome <;> cases outcome
    · exact ⟨List.prefix_refl _, .inl rfl, rfl⟩
    · exact ⟨List.prefix_refl _, .inr ⟨_, _, rfl, rfl⟩, rfl⟩
  | setMetadata metadata =>
    simp only [Operation.outcome, Option.some.injEq, Session.setMetadata] at outcome
    split_ifs at outcome <;> cases outcome <;> exact ⟨List.prefix_refl _, .inl rfl, rfl⟩
  | persist =>
    simp only [Operation.outcome, Option.some.injEq, Session.persist] at outcome
    split_ifs at outcome
    cases outcome
    exact ⟨List.prefix_refl _, .inl rfl, rfl⟩


theorem stands_mono {before after : List AgentMessage} {summary : ContextSummary}
    (h : Stands digest before summary) (grown : before <+: after) :
    Stands digest after summary := by
  obtain ⟨within, grammar, same⟩ := h
  have kept : after.take summary.sourceEndExclusive = before.take summary.sourceEndExclusive := by
    obtain ⟨block, rfl⟩ := grown
    exact List.take_append_of_le_length within
  exact ⟨within.trans grown.length_le, kept.symm ▸ grammar, kept.symm ▸ same⟩

/-- A prefix of complete exchanges of a transcript that validates is itself one. -/
theorem validate_take {limits : MediaLimits} {messages : List AgentMessage} {n : Nat}
    (valid : validateTranscript limits messages = true) (grammar : Grammar (messages.take n)) :
    validateTranscript limits (messages.take n) = true :=
  validateTranscript_iff.mpr ⟨fun message mem =>
    (validateTranscript_iff.mp valid).1 message (List.mem_of_mem_take mem), grammar⟩

/-- The record of a Session, and what its manager prepared, stand for prefixes of its transcript. -/
structure Compacted (digest : List AgentMessage → String) (h : Host) : Prop where
  sound : Sound h.world.session
  current : ∀ summary, h.world.session.currentCompaction = some summary →
    Stands digest h.world.session.messages summary
  prepared : ∀ update ∈ h.prepared, ∀ summary, update.summary = some summary →
    Stands digest h.world.session.messages summary
  issued : ∀ n ∈ h.issued, n ≤ h.world.session.sequence

/-- restore keeps the record of a Session that satisfies its own invariants. -/
theorem restoredCompaction_eq {limits : MediaLimits} {messages : List AgentMessage}
    {compaction : Option ContextSummary} (valid : validateTranscript limits messages = true)
    (stands : ∀ summary, compaction = some summary → Stands digest messages summary) :
    restoredCompaction digest limits messages compaction = compaction := by
  cases compaction with
  | none => rfl
  | some summary =>
    obtain ⟨within, grammar, same⟩ := stands summary rfl
    refine Option.filter_eq_some_iff.mpr ⟨rfl, ?_⟩
    simp only [validate_take valid grammar, same, within, decide_true, Bool.and_true, beq_self_eq_true]

/-- What a record that restore kept stands for. -/
theorem stands_of_restoredCompaction {limits : MediaLimits} {messages : List AgentMessage}
    {compaction : Option ContextSummary} {summary : ContextSummary}
    (kept : restoredCompaction digest limits messages compaction = some summary) :
    Stands digest messages summary := by
  obtain ⟨-, checked⟩ := Option.filter_eq_some_iff.mp kept
  simp only [Bool.and_eq_true, decide_eq_true_eq, beq_iff_eq] at checked
  exact ⟨checked.1.2, (validateTranscript_iff.mp checked.1.1).2, checked.2⟩

/-- What a restored Session shares with the one the snapshot was taken of. -/
structure Restored (s t : Session) : Prop where
  sessionId : t.sessionId = s.sessionId
  mediaLimits : t.mediaLimits = s.mediaLimits
  messages : t.messages = s.messages
  pending : t.pending = s.pending
  sequence : t.sequence = s.sequence
  compaction : t.currentCompaction = s.currentCompaction
  metadata : t.metadata = s.metadata
  revision : t.runtimeRevision = s.runtimeRevision
  idle : t.activeRun = none

theorem sound_not_corrupted {s : Session} (sound : Sound s) :
    (s.pending.any fun item => item.receipt.sessionId != s.sessionId) = false ∧
      (sequences s.pending).any (fun n => s.sequence < n) = false := by
  rw [List.any_eq_false, List.any_eq_false]
  refine ⟨fun item mem => ?_, fun n mem => ?_⟩
  · rw [sound.owned item mem, bne_self_eq_false]
    decide
  · rw [decide_eq_true_eq, Nat.not_lt]
    exact sound.bounded n mem

theorem Compacted.restore {h : Host} (inv : Compacted digest h) (hasRepository : Bool) :
    ∃ t, SessionState.restore digest h.world.session.mediaLimits hasRepository
      h.world.session.snapshot = .ok t ∧ Restored h.world.session t := by
  obtain ⟨owned, bounded⟩ := sound_not_corrupted inv.sound
  have kept := restoredCompaction_eq inv.sound.transcript inv.current
  have valid : (!validateTranscript h.world.session.mediaLimits h.world.session.messages) = false :=
    congrArg not inv.sound.transcript
  unfold SessionState.restore
  exact ⟨_, (if_neg nofun).trans ((if_neg (ne_true_of_eq_false valid)).trans
    ((if_neg (ne_true_of_eq_false owned)).trans ((if_neg (not_not.mpr inv.sound.increasing)).trans
      (if_neg (ne_true_of_eq_false bounded))))), ⟨rfl, rfl, rfl, rfl, rfl, kept, rfl, rfl, rfl⟩⟩

theorem receipts_commitCompaction (world : World) (runId : Nat) (update : CompactionUpdate) :
    receipts world (.perform (.commitCompaction runId update)) = [] := rfl

theorem receipts_le {action : Action} {world : World} {n : Nat} (mem : n ∈ receipts world action) :
    n ≤ world.session.sequence := by
  unfold receipts at mem
  split at mem
  · split_ifs at mem
    · exact (List.mem_singleton.mp mem).le
    · cases mem
  · cases mem

theorem opened_compacted {session : Session} {record : Option SessionSnapshot} {issued : List Nat}
    (sound : Sound session) (current : ∀ summary, session.currentCompaction = some summary →
      Stands digest session.messages summary) (below : ∀ n ∈ issued, n ≤ session.sequence) :
    Compacted digest ⟨SessionWorld.opened session record, [], issued⟩ :=
  ⟨sound, current, nofun, below⟩

theorem Compacted.reopened {h : Host} {hasRepository : Bool} {t : Session}
    (inv : Compacted digest h)
    (made : SessionState.restore digest h.world.session.mediaLimits hasRepository
      h.world.session.snapshot = .ok t) (record : Option SessionSnapshot) :
    Compacted digest (h.reopened t record) := by
  obtain ⟨t', made', same⟩ := inv.restore hasRepository
  cases made.symm.trans made'
  refine opened_compacted (restore_sound made) (fun summary present => ?_) fun n mem => ?_
  · rw [same.messages]
    exact inv.current summary (same.compaction ▸ present)
  · rw [same.sequence]
    exact inv.issued n mem

/-- A step of the world that commits no compaction but a prepared one keeps the invariant. -/
theorem Compacted.act {h : Host} (inv : Compacted digest h) {action : Action} {world : World}
    (stepped : Stepped h.world action world)
    (prepared : ∀ runId update, action = .perform (.commitCompaction runId update) →
      update ∈ h.prepared) :
    Compacted digest { h with world, issued := h.issued ++ receipts world action } := by
  have sound := stepped_sound inv.sound stepped
  have issued (grown : h.world.session.sequence ≤ world.session.sequence) :
      ∀ n ∈ h.issued ++ receipts world action, n ≤ world.session.sequence := by
    intro n mem
    obtain old | new := List.mem_append.mp mem
    · exact (inv.issued n old).trans grown
    · exact receipts_le new
  obtain ⟨operation, x, rfl, outcome, same⟩ | ⟨other, same⟩ := stepped_session stepped
  · obtain ⟨messages, compaction, sequence⟩ := outcome_kept outcome
    rw [← same] at messages compaction sequence
    refine ⟨sound, fun summary present => ?_, fun update mem summary made => ?_, ?_⟩
    · obtain kept | ⟨runId, update, rfl, made⟩ := compaction
      · exact stands_mono (inv.current summary (kept ▸ present)) messages
      · exact stands_mono (inv.prepared update (prepared runId update rfl) summary
          (made ▸ present)) messages
    · exact stands_mono (inv.prepared update mem summary made) messages
    · refine issued (sequence ▸ ?_)
      split_ifs
      · exact Nat.le_succ _
      · exact Nat.le_refl _
  · have messages : world.session.messages = h.world.session.messages := by rw [same]
    have compaction : world.session.currentCompaction = h.world.session.currentCompaction := by
      rw [same]
    have sequence : world.session.sequence = h.world.session.sequence := by rw [same]
    refine ⟨sound, fun summary present => ?_, fun update mem summary made => ?_, ?_⟩
    · rw [messages]
      exact inv.current summary (compaction ▸ present)
    · rw [messages]
      exact inv.prepared update mem summary made
    · exact issued sequence.ge

theorem hostStep_compacted {h h' : Host} {action : HostAction} (inv : Compacted digest h)
    (moved : hostStep digest h action = some h') : Compacted digest h' := by
  cases action with
  | act action =>
    rw [hostStep] at moved
    split_ifs at moved with compaction
    obtain ⟨world, made, rfl⟩ := Option.map_eq_some_iff.mp moved
    refine inv.act (stepped made) fun runId update same => ?_
    subst same
    exact absurd rfl compaction
  | prepare manager contextWindow maxOutputTokens world =>
    rw [hostStep] at moved
    split at moved
    · rename_i update made
      cases moved
      refine ⟨inv.sound, inv.current, fun other mem summary present => ?_, inv.issued⟩
      obtain old | new := List.mem_append.mp mem
      · exact inv.prepared other old summary present
      · cases List.mem_singleton.mp new
        exact prepare_stands made present
    · cases moved
  | commitCompaction runId index =>
    obtain ⟨update, found, moved⟩ := Option.bind_eq_some_iff.mp moved
    obtain ⟨world, made, rfl⟩ := Option.map_eq_some_iff.mp moved
    have next := inv.act (stepped made) fun runId' update' same => by
      cases same
      exact List.mem_of_getElem? found
    rwa [receipts_commitCompaction, List.append_nil] at next
  | reopen hasRepository record =>
    rw [hostStep] at moved
    split at moved
    · rename_i session made
      cases moved
      exact inv.reopened made record
    · cases moved

/-- Later receipts carry larger sequence numbers than all the earlier ones. -/
structure Later (h h' : Host) : Prop where
  counter : h.world.session.sequence ≤ h'.world.session.sequence
  issued : ∃ new, h'.issued = h.issued ++ new ∧ ∀ n ∈ new, h.world.session.sequence < n

theorem Later.refl (h : Host) : Later h h := ⟨Nat.le_refl _, [], (List.append_nil _).symm, nofun⟩

theorem Later.trans {h₁ h₂ h₃ : Host} (first : Later h₁ h₂) (second : Later h₂ h₃) :
    Later h₁ h₃ := by
  obtain ⟨new₁, issued₁, above₁⟩ := first.issued
  obtain ⟨new₂, issued₂, above₂⟩ := second.issued
  refine ⟨first.counter.trans second.counter, new₁ ++ new₂, ?_, fun n mem => ?_⟩
  · rw [issued₂, issued₁, List.append_assoc]
  · obtain one | two := List.mem_append.mp mem
    · exact above₁ n one
    · exact first.counter.trans_lt (above₂ n two)

theorem act_later {h : Host} {action : Action} {world : World}
    (stepped : Stepped h.world action world) :
    Later h { h with world, issued := h.issued ++ receipts world action } := by
  obtain ⟨operation, x, rfl, outcome, same⟩ | ⟨other, same⟩ := stepped_session stepped
  · have sequence := (outcome_kept outcome).sequence
    rw [← same] at sequence
    cases enqueue : isEnqueue operation with
    | true =>
      rw [enqueue, if_pos rfl] at sequence
      refine ⟨sequence ▸ Nat.le_succ _, _, rfl, fun n mem => ?_⟩
      rw [receipts, enqueue, if_pos rfl] at mem
      rw [List.mem_singleton.mp mem, sequence]
      exact Nat.lt_succ_self _
    | false =>
      rw [enqueue, if_neg Bool.false_ne_true] at sequence
      refine ⟨sequence.ge, _, rfl, fun n mem => ?_⟩
      rw [receipts, enqueue, if_neg Bool.false_ne_true] at mem
      cases mem
  · have sequence : world.session.sequence = h.world.session.sequence := by rw [same]
    refine ⟨sequence.ge, _, rfl, fun n mem => ?_⟩
    unfold receipts at mem
    split at mem
    · exact absurd rfl (other _)
    · cases mem

theorem hostStep_later {h h' : Host} {action : HostAction}
    (moved : hostStep digest h action = some h') : Later h h' := by
  cases action with
  | act action =>
    rw [hostStep] at moved
    split_ifs at moved with compaction
    obtain ⟨world, made, rfl⟩ := Option.map_eq_some_iff.mp moved
    exact act_later (stepped made)
  | prepare manager contextWindow maxOutputTokens world =>
    rw [hostStep] at moved
    split at moved
    · cases moved
      exact ⟨Nat.le_refl _, [], (List.append_nil _).symm, nofun⟩
    · cases moved
  | commitCompaction runId index =>
    obtain ⟨update, found, moved⟩ := Option.bind_eq_some_iff.mp moved
    obtain ⟨world, made, rfl⟩ := Option.map_eq_some_iff.mp moved
    have next := act_later (h := h) (stepped made)
    rwa [receipts_commitCompaction, List.append_nil] at next
  | reopen hasRepository record =>
    rw [hostStep] at moved
    split at moved
    · rename_i session made
      cases moved
      have sequence : session.sequence = h.world.session.sequence := by
        unfold restore at made
        split_ifs at made
        cases made
        rfl
      exact ⟨sequence.ge, [], (List.append_nil _).symm, nofun⟩
    · cases moved

/-- A Session as its Agent makes or restores it. -/
inductive Started (digest : List AgentMessage → String) (limits : MediaLimits)
    (session : Session) : Prop
  | created {sessionId : String} {hasRepository : Bool} {messages : List AgentMessage}
    {metadata : FrozenJsonObject}
    (made : create sessionId limits hasRepository messages metadata = .ok session)
  | restored {hasRepository : Bool} {snapshot : SessionSnapshot}
    (made : restore digest limits hasRepository snapshot = .ok session)

theorem started_compacted {limits : MediaLimits} {session : Session}
    (started : Started digest limits session) (record : Option SessionSnapshot) :
    Compacted digest (Host.opened session record) := by
  cases started with
  | created made =>
    have sound := create_sound made
    refine opened_compacted sound (fun summary present => ?_) sound.bounded
    unfold create at made
    split_ifs at made
    cases made
    cases present
  | restored made =>
    have sound := restore_sound made
    refine opened_compacted sound (fun summary present => ?_) sound.bounded
    unfold restore at made
    split_ifs at made
    cases made
    exact stands_of_restoredCompaction present

/-- A manager that counts segments, and has room for two of them. -/
def narrowManager : CompactingContextManager where
  budget := ⟨some 2, 0⟩
  minRecentTurns := 1
  target := id
  providerDefaultReserve := 0
  summaryFormatVersion := 1
  estimate segments := .ok segments.length
  checkSummarizerInput _ _ := .ok ()
  summarize _ _ := .ok ⟨"greeted", none⟩

def countDigest (messages : List AgentMessage) : String := toString messages.length

def replied : AssistantMessage := ⟨[.text "hello"], [], none, ⟨0⟩, "reply"⟩

/-- Two turns, the first of them summarized, with an input queued behind. -/
def compactedRun : List HostAction := [
  .act (.start 7 (some greeting)), .act (.perform (.commitInitialInput false)),
  .act (.perform (.commitMessage 7 replied)), .act .release,
  .act (.start 8 (some greeting)), .act (.perform (.commitInitialInput false)),
  .prepare narrowManager none none none, .commitCompaction 8 0,
  .act (.perform (.enqueue .followUp greeting "input"))]

theorem compactedRun_ends : (run (hostStep countDigest) (Host.opened newSession none)
    compactedRun).any (fun h => h.world.session.currentCompaction.isSome) = true := by
  decide +kernel

theorem newSession_started : Started countDigest {} newSession :=
  .created (show create "session" {} true [] ⟨[], rfl⟩ = .ok newSession from rfl)

end RoboAgent.SessionRestore
