import RoboAgent.SessionCalls
import RoboAgent.OrderedDelivery

/-! Pending input reaches the transcript once and in order. The queue and the transcript of a
Session, with the record of where each message came from, are a mailbox; every step of the world
is one of its moves. A started Run is a cut at the sequence number it saw. -/

namespace RoboAgent.SessionDelivery
open RoboAgent.Messages RoboAgent.FrozenJson RoboAgent.SessionState RoboAgent.SessionWorld
open RoboAgent.SessionWorld.World RoboAgent.SessionSteps RoboAgent.SessionCalls RoboAgent.Runs
open RoboAgent.OrderedDelivery

def sequence (item : PendingInput) : Nat := item.receipt.sequence

def mark (entry : Entry) : Mark PendingInput :=
  match entry.origin with
  | .input item => .item item
  | .run _ throughSequence => .cut throughSequence
  | .initial | .turn => .other

def taken (withdrawn : List (Nat × List PendingInput)) : List PendingInput :=
  withdrawn.flatMap Prod.snd

/-- The sequence number a Run that has not made its first commit saw. -/
def uncommitted (run : Option Run) : Option Nat :=
  (run.filter fun run => !run.committed).map Run.initialPendingSequence

def mailbox (w : World) : Mailbox PendingInput where
  admitted := w.admitted
  queue := w.session.pending
  taken := taken w.withdrawn
  log := w.entries.map mark
  last := w.session.sequence
  open_ := uncommitted w.run

/-- The record of where each message came from is the transcript. -/
structure Faithful (messages : List AgentMessage) (entries : List Entry) : Prop where
  transcript : messages = entries.map Entry.message
  inputs : ∀ entry ∈ entries, ∀ item, entry.origin = .input item →
    entry.message = .user item.message

theorem Faithful.append {messages new : List AgentMessage} {entries added : List Entry}
    (h : Faithful messages entries) (same : new = added.map Entry.message)
    (inputs : ∀ entry ∈ added, ∀ item, entry.origin = .input item →
      entry.message = .user item.message) : Faithful (messages ++ new) (entries ++ added) := by
  constructor
  · rw [h.transcript, same, List.map_append]
  · intro entry mem
    exact (List.mem_append.mp mem).elim (h.inputs entry) (inputs entry)

variable {w w' : World}

theorem mailbox_enter (w : World) (operation : Operation) (x : Section) :
    mailbox (w.enter operation x) = {
      admitted := (w.noted operation x).admitted
      queue := x.session.pending
      taken := taken (w.noted operation x).withdrawn
      log := (w.noted operation x).entries.map mark
      last := x.session.sequence
      open_ := uncommitted (w.runAfter operation) } := by
  have entered := enter_spec w operation x
  have ledger := entered.ledger
  simp only [Prod.mk.injEq] at ledger
  rw [mailbox, entered.session, entered.run, ledger.1, ledger.2.1, ledger.2.2]

/-- The entries of inputs a section delivered. -/
def inputEntries (inputs : List PendingInput) : List Entry :=
  inputs.map fun item => ⟨.input item, .user item.message⟩

theorem mark_inputEntries (inputs : List PendingInput) :
    (inputEntries inputs).map mark = inputs.map Mark.item := by
  rw [inputEntries, List.map_map]
  rfl

theorem message_inputEntries (inputs : List PendingInput) :
    (inputEntries inputs).map Entry.message = userMessages inputs := by
  rw [inputEntries, List.map_map]
  rfl

theorem inputs_inputEntries (inputs : List PendingInput) :
    ∀ entry ∈ inputEntries inputs, ∀ item, entry.origin = .input item →
      entry.message = .user item.message := by
  intro entry mem item origin
  obtain ⟨delivered, -, rfl⟩ := List.mem_map.mp mem
  cases origin
  rfl

/-- A section and the record of it: one move, and the record stays true. -/
structure Recorded (w : World) (operation : Operation) (x : Section) : Prop where
  move : Moves sequence (mailbox w) (mailbox (w.enter operation x))
  faithful : Faithful w.session.messages w.entries →
    Faithful x.session.messages (w.noted operation x).entries

/-- A section that wrote nothing of the queue and the transcript. -/
theorem recorded_quiet {operation : Operation} {x : Section} (noted : w.noted operation x = w)
    (run : w.runAfter operation = w.run) (messages : x.session.messages = w.session.messages)
    (pending : x.session.pending = w.session.pending)
    (last : x.session.sequence = w.session.sequence) : Recorded w operation x := by
  constructor
  · rw [mailbox_enter, noted, run, pending, last]
    exact .stay
  · rw [noted, messages]
    exact fun faithful => faithful

theorem recorded_turn {operation : Operation} {x : Section} (messages : List AgentMessage)
    (noted : w.noted operation x =
      { w with entries := w.entries ++ messages.map (Entry.mk .turn) })
    (run : w.runAfter operation = w.run)
    (same : x.session.messages = w.session.messages ++ messages)
    (pending : x.session.pending = w.session.pending)
    (last : x.session.sequence = w.session.sequence) : Recorded w operation x := by
  constructor
  · rw [mailbox_enter, noted, run, pending, last]
    simp only [List.map_append, List.map_map]
    refine .note fun m mem => ?_
    obtain ⟨message, -, rfl⟩ := List.mem_map.mp mem
    rfl
  · rw [noted, same]
    intro faithful
    apply faithful.append
    · rw [List.map_map]
      exact (List.map_id _).symm
    · intro entry mem item origin
      obtain ⟨message, -, rfl⟩ := List.mem_map.mp mem
      cases origin

theorem recorded_enqueue {kind : InputKind} {message : UserMessage} {inputId : String}
    {x : Section} (h : w.session.enqueue kind message inputId = .ok x) :
    Recorded w (.enqueue kind message inputId) x := by
  unfold Session.enqueue at h
  split_ifs at h with closed
  cases h
  constructor
  · rw [mailbox_enter]
    exact .accept _ rfl
  · exact fun faithful => faithful

theorem recorded_consumePending {run : Run} (current : w.run = some run)
    (committed : run.committed = true) {cancelled : Bool} {x : Section}
    (h : w.session.consumePending run.runId cancelled = .ok x) :
    Recorded w (.consumePending cancelled) x := by
  simp only [Session.consumePending] at h
  split_ifs at h with owner stop empty valid
  · cases h
    constructor
    · rw [mailbox_enter]
      simp only [World.noted, World.entered, List.map_nil, List.append_nil]
      exact .stay
    · intro faithful
      simp only [World.noted, World.entered, List.map_nil, List.append_nil]
      exact faithful
  · cases h
    constructor
    · rw [mailbox_enter]
      have closed : (mailbox w).open_ = none := by
        rw [mailbox, uncommitted, current, Option.filter_some, committed]
        rfl
      have moved : Moves sequence (mailbox w) _ := .deliver closed
      simp only [World.noted, World.entered, List.map_append]
      rw [← mark_inputEntries] at moved
      exact moved
    · intro faithful
      simp only [World.noted, World.entered]
      exact faithful.append (message_inputEntries _).symm (inputs_inputEntries _)

def runEntries (run : Run) : List Entry :=
  run.initialMessage.toList.map fun message =>
    ⟨.run run.runId run.initialPendingSequence, .user message⟩

theorem mark_runEntries (run : Run) :
    ∀ m ∈ (runEntries run).map mark, m = .cut run.initialPendingSequence := by
  rw [runEntries, List.map_map]
  intro m mem
  obtain ⟨message, -, rfl⟩ := List.mem_map.mp mem
  rfl

theorem message_runEntries (run : Run) :
    (runEntries run).map Entry.message = run.initialMessage.toList.map .user := by
  rw [runEntries, List.map_map]
  rfl

theorem inputs_runEntries (run : Run) : ∀ entry ∈ runEntries run, ∀ item,
    entry.origin = .input item → entry.message = .user item.message := by
  intro entry mem item origin
  obtain ⟨message, -, rfl⟩ := List.mem_map.mp mem
  cases origin

theorem recorded_commitInitialInput {run : Run} (current : w.run = some run)
    (waiting : run.committed = false) {cancelled : Bool} {x : Section}
    (h : w.session.commitInitialInput run.runId run.initialMessage run.initialPendingSequence
      cancelled = .ok x) : Recorded w (.commitInitialInput cancelled) x := by
  let pending := w.session.pendingThrough run.initialPendingSequence
  have opened : (mailbox w).open_ = some run.initialPendingSequence := by
    rw [mailbox, uncommitted, current, Option.filter_some, waiting]
    rfl
  have committed : uncommitted (w.runAfter (.commitInitialInput cancelled)) = none := by
    rw [World.runAfter, current]
    rfl
  have noted : ∀ session required, w.noted (.commitInitialInput cancelled)
      ⟨session, .inputs pending, required⟩ =
        { w with entries := w.entries ++ (inputEntries pending ++ runEntries run) } := by
    intro session required
    simp only [World.noted, World.entered, current]
    rfl
  have moved : Moves sequence (mailbox w) _ := .deliverThrough opened (mark_runEntries run)
  have through : OrderedDelivery.through sequence run.initialPendingSequence (mailbox w).queue =
    pending := rfl
  rw [through, ← mark_inputEntries, ← List.map_append] at moved
  simp only [Session.commitInitialInput] at h
  split_ifs at h with owner stop empty valid
  · cases h
    rw [List.append_eq_nil_iff, List.map_eq_nil_iff] at empty
    have none : pending = [] := List.map_eq_nil_iff.mp empty.1
    have nothing : inputEntries pending ++ runEntries run = [] := by
      rw [none, runEntries, empty.2]
      rfl
    constructor
    · rw [mailbox_enter, committed, noted, nothing]
      rw [nothing, none] at moved
      simp only [List.append_nil]
      simp only [List.map_nil, List.append_nil, List.length_nil, List.drop_zero] at moved
      exact moved
    · rw [noted, nothing]
      simp only [List.append_nil]
      exact fun faithful => faithful
  · cases h
    constructor
    · rw [mailbox_enter, committed, noted]
      have log : (w.entries ++ (inputEntries pending ++ runEntries run)).map mark =
        w.entries.map mark ++ (inputEntries pending ++ runEntries run).map mark := List.map_append
      dsimp only
      rw [log]
      exact moved
    · rw [noted]
      intro faithful
      apply faithful.append
      · rw [List.map_append, message_inputEntries, message_runEntries]
      · intro entry mem
        exact (List.mem_append.mp mem).elim (inputs_inputEntries _ entry)
          (inputs_runEntries run entry)

theorem recorded_clearPending {x : Section} (h : w.session.clearPending = .ok x) :
    Recorded w .clearPending x := by
  unfold Session.clearPending at h
  split_ifs at h with busy empty
  · cases h
    apply recorded_quiet _ rfl rfl rfl rfl
    simp only [World.noted, empty, if_true]
  · cases h
    constructor
    · rw [mailbox_enter]
      simp only [World.noted, if_neg empty, taken, List.flatMap_append, List.flatMap_singleton]
      exact .take
    · intro faithful
      simp only [World.noted, if_neg empty]
      exact faithful

theorem recorded {operation : Operation} {x : Section}
    (outcome : operation.outcome w.session w.run = some (.ok x)) : Recorded w operation x := by
  cases operation with
  | enqueue kind message inputId => exact recorded_enqueue (Option.some.inj outcome)
  | commitInitialInput cancelled =>
    obtain ⟨run, waiting, h⟩ := Option.map_eq_some_iff.mp outcome
    rw [Option.filter_eq_some_iff, Bool.not_eq_true'] at waiting
    exact recorded_commitInitialInput waiting.1 waiting.2 h
  | consumePending cancelled =>
    obtain ⟨run, committed, h⟩ := Option.map_eq_some_iff.mp outcome
    rw [Option.filter_eq_some_iff] at committed
    exact recorded_consumePending committed.1 committed.2 h
  | clearPending => exact recorded_clearPending (Option.some.inj outcome)
  | commitMessage runId message =>
    have h := Option.some.inj outcome
    unfold Session.commitMessage at h
    split_ifs at h
    cases h
    exact recorded_turn [.assistant message] rfl rfl rfl rfl rfl
  | commitExchange runId assistant results =>
    have h := Option.some.inj outcome
    simp only [Session.commitExchange] at h
    split_ifs at h
    cases h
    exact recorded_turn _ rfl rfl rfl rfl rfl
  | commitCompaction runId update =>
    have h := Option.some.inj outcome
    unfold Session.commitCompaction at h
    split_ifs at h <;> cases h <;> exact recorded_quiet rfl rfl rfl rfl rfl
  | setMetadata metadata =>
    have h := Option.some.inj outcome
    unfold Session.setMetadata at h
    split_ifs at h <;> cases h <;> exact recorded_quiet rfl rfl rfl rfl rfl
  | persist =>
    have h := Option.some.inj outcome
    unfold Session.persist at h
    split_ifs at h
    cases h
    exact recorded_quiet rfl rfl rfl rfl rfl

/-- Every step of the world is a move of its mailbox. -/
theorem stepped_moves {a : Action} (stepped : Stepped w a w') :
    Moves sequence (mailbox w) (mailbox w') := by
  cases stepped with
  | perform outcome => exact (recorded outcome).move
  | start started =>
    obtain ⟨-, rfl, rfl⟩ := start_eq_ok started
    exact .openCut
  | release active => exact .dropCut
  | @cancel i dropped call found =>
    obtain same | ⟨-, same⟩ := cancelCall_eq w i dropped
    · rw [same]
      exact .stay
    · rw [same]
      exact .stay
  | _ => exact .stay

theorem stepped_faithful {a : Action} (h : Faithful w.session.messages w.entries)
    (stepped : Stepped w a w') : Faithful w'.session.messages w'.entries := by
  cases stepped with
  | @perform operation x outcome =>
    have entered := enter_spec w operation x
    have ledger := entered.ledger
    simp only [Prod.mk.injEq] at ledger
    rw [entered.session, ledger.2.1]
    exact (recorded outcome).faithful h
  | start started =>
    obtain ⟨-, rfl, rfl⟩ := start_eq_ok started
    exact h
  | @cancel i dropped call found =>
    obtain same | ⟨-, same⟩ := cancelCall_eq w i dropped
    · rw [same]
      exact h
    · rw [same]
      exact h
  | _ => exact h

/-- Nothing is admitted by a closed Session, and it stays closed. -/
theorem stepped_closed {a : Action} (closed : w.session.closed = true) (stepped : Stepped w a w') :
    w'.session.closed = true ∧ w'.admitted = w.admitted := by
  cases stepped with
  | @perform operation x outcome =>
    have entered := enter_spec w operation x
    have ledger := entered.ledger
    simp only [Prod.mk.injEq] at ledger
    rw [entered.session, (outcome_spec outcome).closed, ledger.1]
    refine ⟨closed, ?_⟩
    unfold World.noted
    split <;> try rfl
    · rename_i kind message inputId receipt reply
      have h := Option.some.inj outcome
      rw [Session.enqueue, if_pos closed] at h
      cases h
    · split <;> rfl
  | start started =>
    obtain ⟨-, rfl, rfl⟩ := start_eq_ok started
    exact ⟨closed, rfl⟩
  | @cancel i dropped call found =>
    obtain same | ⟨-, same⟩ := cancelCall_eq w i dropped
    · rw [same]
      exact ⟨closed, rfl⟩
    · rw [same]
      exact ⟨closed, rfl⟩
  | release | skipSave | beginSave | commitSave | refuseSave | load | commitDelete | refuseDelete
  | failJob | finishJob | saved | saveFailed | locatedBusy | deleted | deleteFailed | notified
  | notifiedFailure | foreignSave | foreignDelete | deleteUnknown => exact ⟨closed, rfl⟩
  | close | deleteKnown | locatedNone | located => exact ⟨rfl, rfl⟩

/-- What each clear_pending took, under the number of its call. -/
structure Cleared (promise : Nat → Option (Reply × Option Nat)) (w : World) : Prop where
  promised : Promised promise w
  once : (w.withdrawn.map Prod.fst).Pairwise (· < ·)
  receipts : ∀ id inputs, (id, inputs) ∈ w.withdrawn →
    ∃ asked, promise id = some (.receipts (inputs.map PendingInput.receipt), asked)

theorem noted_withdrawn {operation : Operation} {x : Section}
    (outcome : operation.outcome w.session w.run = some (.ok x)) :
    (w.noted operation x).withdrawn = w.withdrawn ∨
      x.reply = .receipts (w.session.pending.map PendingInput.receipt) ∧
        (w.noted operation x).withdrawn = w.withdrawn ++ [(w.nextCall, w.session.pending)] := by
  unfold World.noted
  split <;> try exact .inl rfl
  split
  · exact .inl rfl
  · rename_i empty
    have h := Option.some.inj outcome
    unfold Session.clearPending at h
    split_ifs at h
    cases h
    exact .inr ⟨rfl, rfl⟩

theorem stepped_cleared {promise : Nat → Option (Reply × Option Nat)} {a : Action}
    (h : Cleared promise w) (stepped : Stepped w a w') : ∃ promise', Cleared promise' w' := by
  obtain ⟨promise', promised, grown⟩ := stepped_promised h.promised stepped
  have receipts : ∀ id inputs, (id, inputs) ∈ w.withdrawn →
      ∃ asked, promise' id = some (.receipts (inputs.map PendingInput.receipt), asked) := by
    intro id inputs mem
    obtain ⟨asked, known⟩ := h.receipts id inputs mem
    exact ⟨asked, grown id _ known⟩
  cases stepped with
  | @perform operation x outcome =>
    have entered := enter_spec w operation x
    have ledger := entered.ledger
    simp only [Prod.mk.injEq] at ledger
    have next : Promised (Function.update promise w.nextCall (some (x.reply, x.required)))
      (w.enter operation x) := h.promised.enter
    have old : ∀ id inputs, (id, inputs) ∈ w.withdrawn → id < w.nextCall := by
      intro id inputs mem
      obtain ⟨asked, known⟩ := h.receipts id inputs mem
      by_contra above
      rw [h.promised.begun id (by omega)] at known
      cases known
    have kept : ∀ id inputs, (id, inputs) ∈ w.withdrawn → ∃ asked, Function.update promise
        w.nextCall (some (x.reply, x.required)) id =
          some (.receipts (inputs.map PendingInput.receipt), asked) := by
      intro id inputs mem
      have := old id inputs mem
      rw [Function.update_of_ne (by omega)]
      exact h.receipts id inputs mem
    obtain same | ⟨reply, took⟩ := noted_withdrawn outcome
    · refine ⟨_, next, ?_, ?_⟩
      · rw [ledger.2.2, same]
        exact h.once
      · rw [ledger.2.2, same]
        exact kept
    · refine ⟨_, next, ?_, ?_⟩
      · rw [ledger.2.2, took, List.map_append, List.pairwise_append]
        refine ⟨h.once, List.pairwise_singleton .., fun i listed last single => ?_⟩
        obtain ⟨⟨id, inputs⟩, mem, rfl⟩ := List.mem_map.mp listed
        rw [List.map_singleton, List.mem_singleton] at single
        exact single ▸ old id inputs mem
      · intro id inputs mem
        rw [ledger.2.2, took, List.mem_append, List.mem_singleton] at mem
        cases mem with
        | inl mem => exact kept id inputs mem
        | inr mem =>
          cases mem
          exact ⟨x.required, by rw [Function.update_self, reply]⟩
  | @cancel i dropped call found =>
    obtain same | ⟨-, same⟩ := cancelCall_eq w i dropped
    · exact ⟨promise', promised, by rw [same]; exact h.once, by rw [same]; exact receipts⟩
    · exact ⟨promise', promised, by rw [same]; exact h.once, by rw [same]; exact receipts⟩
  | _ => exact ⟨promise', promised, h.once, receipts⟩

theorem opened_orderly {session : Session} {record : Option SessionSnapshot}
    (fresh : Fresh session) : Orderly sequence (mailbox (opened session record)) := by
  have initial : ∀ m ∈ (mailbox (opened session record)).log, m = .other := by
    intro m logged
    obtain ⟨entry, listed, rfl⟩ := List.mem_map.mp logged
    obtain ⟨message, -, rfl⟩ := List.mem_map.mp listed
    rfl
  have sorted : (sequences session.pending).Pairwise (· < ·) ∧
      ∀ n ∈ sequences session.pending, n ≤ session.sequence := by
    cases fresh with
    | created made =>
      rw [(create_eq_ok made).2.1]
      exact ⟨.nil, fun _ mem => nomatch mem⟩
    | restored made => exact ⟨(restore_eq_ok made).2.1, (restore_eq_ok made).2.2.1⟩
  have queued : (session.pending.map Mark.item).Pairwise (Precedes sequence) := by
    have increasing := sorted.1
    rw [sequences, List.pairwise_map] at increasing
    rw [List.pairwise_map]
    exact increasing
  constructor
  · exact sorted.1
  · exact fun item mem => sorted.2 _ (List.mem_map_of_mem mem)
  · rw [items_eq_nil fun m mem => by rw [initial m mem]; rfl]
    exact List.Perm.refl _
  · rw [List.pairwise_append]
    refine ⟨?_, queued, fun m mem later _ => ?_⟩
    · exact List.pairwise_of_forall_mem_list fun m mem later _ => by
        rw [initial m mem]
        trivial
    · rw [initial m mem]
      trivial
  · intro bound mem
    cases initial _ mem
  · exact fun _ absent => nomatch absent

theorem opened_faithful (session : Session) (record : Option SessionSnapshot) :
    Faithful session.messages (opened session record).entries := by
  constructor
  · simp only [opened, List.map_map]
    exact (List.map_id _).symm
  · intro entry mem item origin
    obtain ⟨message, -, rfl⟩ := List.mem_map.mp mem
    cases origin

/-- Where admitted inputs are, and in what order the transcript holds them. -/
structure DeliveredOnce (w : World) : Prop where
  /-- Each message of the transcript has one entry, which says where it came from. -/
  transcript : Faithful w.session.messages w.entries
  /-- Each input is in the transcript, taken by a clear_pending, or queued: one of them, once. -/
  places : (items (w.entries.map mark) ++ taken w.withdrawn ++ w.session.pending).Perm w.admitted
  distinct : (w.admitted.map sequence).Pairwise (· < ·)
  /-- Inputs are in sequence order, and a Run's message between those it saw and the later ones. -/
  ordered : (w.entries.map mark ++ w.session.pending.map Mark.item).Pairwise (Precedes sequence)
  /-- A clear_pending that took inputs is in flight, has returned their receipts, or raised. -/
  cleared : (w.withdrawn.map Prod.fst).Pairwise (· < ·) ∧
    ∀ id inputs, (id, inputs) ∈ w.withdrawn → Settled w id ∧
      ∀ reply asked, (id, reply, asked) ∈ w.returned →
        reply = .receipts (inputs.map PendingInput.receipt)

theorem run_admitted {w₀ : World} {actions : List Action} (closed : w₀.session.closed = true)
    (h : run step w₀ actions = some w) : w.admitted = w₀.admitted := by
  refine (run_invariant_all (I := fun w => w.session.closed = true ∧ w.admitted = w₀.admitted)
    ?_ ⟨closed, rfl⟩ h).2
  intro v a v' ⟨closed, same⟩ h
  obtain ⟨closed', same'⟩ := stepped_closed closed (stepped h)
  exact ⟨closed', same'.trans same⟩

/-- Every admitted input is delivered once and in order, or still queued, or taken back by one
clear_pending; and nothing is admitted after close. -/
theorem pending_delivered_once {session : Session} {record : Option SessionSnapshot}
    {actions : List Action} (fresh : Fresh session)
    (h : run step (opened session record) actions = some w) :
    DeliveredOnce w ∧ ∀ earlier later w₁, actions = earlier ++ .close :: later →
      run step (opened session record) earlier = some w₁ → w.admitted = w₁.admitted := by
  have orderly : Orderly sequence (mailbox w) :=
    run_invariant_all (I := fun w => Orderly sequence (mailbox w))
      (fun _ _ _ inv h => moves_orderly inv (stepped_moves (stepped h))) (opened_orderly fresh) h
  have faithful : Faithful w.session.messages w.entries :=
    run_invariant_all (I := fun w => Faithful w.session.messages w.entries)
      (fun _ _ _ inv h => stepped_faithful inv (stepped h)) (opened_faithful session record) h
  have start : Cleared (fun _ => none) (opened session record) :=
    ⟨opened_promised session record, .nil, fun _ _ mem => nomatch mem⟩
  obtain ⟨promise, cleared⟩ : ∃ promise, Cleared promise w :=
    run_invariant_all (I := fun w => ∃ promise, Cleared promise w)
      (fun _ _ _ ⟨_, inv⟩ h => stepped_cleared inv (stepped h)) ⟨_, start⟩ h
  refine ⟨⟨faithful, orderly.kept, orderly.increasing, orderly.ordered, cleared.once, ?_⟩, ?_⟩
  · intro id inputs mem
    obtain ⟨asked, known⟩ := cleared.receipts id inputs mem
    refine ⟨cleared.promised.settled id _ known, fun reply r returned => ?_⟩
    have same := (cleared.promised.returned id reply r returned).symm.trans known
    exact congrArg Prod.fst (Option.some.inj same)
  · intro earlier later w₁ split reached
    subst split
    obtain ⟨w₁', reached', rest⟩ := run_append_eq_some.mp h
    cases reached.symm.trans reached'
    obtain ⟨w₂, first, rest⟩ := run_cons_eq_some.mp rest
    cases stepped first
    have same := run_admitted (by rfl) rest
    exact same

/-- Two inputs, a Run between them, its first commit, then the rest of the queue. -/
def steeredRun : List Action := [
  .perform (.enqueue .steer greeting "first"), .start 7 (some greeting),
  .perform (.enqueue .followUp greeting "second"), .perform (.commitInitialInput false),
  .perform (.consumePending false), .release, .close]

theorem pending_delivered_once_steered :
    ∃ w, run step (opened newSession none) steeredRun = some w ∧
      w.entries.map (fun entry => entry.origin) = [.input ⟨⟨"first", 1, "session"⟩, greeting, .steer⟩,
        .run 7 1, .input ⟨⟨"second", 2, "session"⟩, greeting, .followUp⟩] ∧ DeliveredOnce w :=
  ⟨_, rfl, by decide, (pending_delivered_once newSession_fresh
    (show run step (opened newSession none) steeredRun = some _ from rfl)).1⟩

/-- Every admitted input is queued, in the transcript, or among receipts that were returned. -/
def Accounted (w : World) : Prop :=
  ∀ item ∈ w.admitted, item ∈ w.session.pending ∨ item ∈ items (w.entries.map mark) ∨
    ∃ id receipts asked, (id, .receipts receipts, asked) ∈ w.returned ∧ item.receipt ∈ receipts

/-- A clear_pending takes an input and its save fails: it raises, and the input is nowhere. -/
theorem cleared_input_unaccounted :
    ∃ w, run step (opened newSession none) [.perform (.enqueue .steer greeting "first"),
        .beginSave 0, .commitJob 0, .finishJob 0 false, .resume 0, .notify 0 false,
        .perform .clearPending, .beginSave 1, .failJob 1 .persistence, .resume 1,
        .notify 1 false] = some w ∧ w.raised = [1] ∧ ¬Accounted w := by
  refine ⟨_, rfl, rfl, fun accounted => ?_⟩
  obtain queued | delivered | ⟨id, receipts, asked, mem, -⟩ :=
    accounted _ (List.mem_singleton_self _)
  · cases queued
  · cases delivered
  · cases List.mem_singleton.mp mem

end RoboAgent.SessionDelivery
