import RoboAgent.Runs

/-! The text-to-speech side of a SpeechSession that was started and is not closed: the queue of
fragments, the worker that speaks them one by one, and the interrupts. Any task may act at every
await of another. What is heard is left out, and so is what the agent's own Run does. -/

namespace RoboAgent.SpeechPlayback
open RoboAgent.Runs

/-- How an awaited task ended: it returned, raised an Exception, or raised CancelledError. -/
inductive Outcome
  | returned
  | raised
  | cancelled
deriving DecidableEq

structure Fragment where
  text : String
  generation : Nat
deriving DecidableEq

inductive Item
  | fragment (fragment : Fragment)
  | stop
deriving DecidableEq

/-- A task of _synthesize_to_transport. -/
inductive Synthesis
  | running (cancelling : Bool)
  | done (outcome : Outcome)
deriving DecidableEq

/-- Task.cancel does nothing to a task that is done. -/
def Synthesis.cancel : Synthesis → Synthesis
  | .running _ => .running true
  | .done outcome => .done outcome

/-- Where the worker is: at its queue, at the synthesis of a fragment, in the event that reports an
error, or in the metrics event of its finally block, with what is raised after the block. -/
inductive Worker
  | waiting
  | speaking (task generation : Nat)
  | reporting (generation : Nat)
  | measuring (raising : Option Outcome)
  | ended (outcome : Outcome)
deriving DecidableEq

/-- After the finally block: what was raised goes on, or the loop does. -/
def Worker.conclude : Option Outcome → Worker
  | none => .waiting
  | some outcome => .ended outcome

/-- A task of _consume_agent. -/
structure Consumer where
  generation : Nat
  outcome : Option Outcome
deriving DecidableEq

/-- What a call of interrupt waits for. -/
inductive Interrupter
  | agent (consumer : Nat)
  | fragment (task : Nat)
  | canceller
  | gone
deriving DecidableEq

structure SpeechSession where
  queueSize : Nat
  responseGeneration : Nat := 0
  responseCompleted : Bool := false
  metricsEmitted : List Nat := []
  ttsQueue : List Item := []
  ttsTask : Worker := .waiting
  synthesis : List Synthesis := []
  activeTtsTask : Option Nat := none
  consumers : List Consumer := []
  agentTask : Option Nat := none
  interrupters : List Interrupter := []
deriving DecidableEq

namespace SpeechSession

variable (s : SpeechSession)

/-- The tail of _start_agent; the interrupt before it is a call of its own. -/
def startAgent : SpeechSession :=
  { s with
    responseGeneration := s.responseGeneration + 1
    responseCompleted := false
    consumers := s.consumers ++ [⟨s.responseGeneration + 1, none⟩]
    agentTask := some s.consumers.length }

/-- The condition of _emit_metrics_if_complete, and the check at the start of _emit_metrics. -/
def metricsDue (generation : Nat) : Bool :=
  s.responseCompleted && s.ttsQueue.isEmpty && s.activeTtsTask.isNone &&
    !s.metricsEmitted.contains generation

/-- A segment of a response; put waits while a bounded queue is full. -/
def push (consumer : Nat) (text : String) : Option SpeechSession := do
  let task ← s.consumers[consumer]?
  if task.outcome.isSome ∨ (0 < s.queueSize ∧ s.queueSize ≤ s.ttsQueue.length) then none
  else some { s with ttsQueue := s.ttsQueue ++ [.fragment ⟨text, task.generation⟩] }

/-- The end of a response; one that ran to its end asks for the metrics. -/
def finish (consumer : Nat) (completed : Bool) (outcome : Outcome) : Option SpeechSession := do
  let task ← s.consumers[consumer]?
  if task.outcome.isSome then none
  else
    let s := { s with
      consumers := s.consumers.set consumer { task with outcome := some outcome } }
    if ¬completed then some s
    else
      let s := { s with responseCompleted := true }
      if s.metricsDue task.generation then
        some { s with metricsEmitted := task.generation :: s.metricsEmitted }
      else some s

/-- The worker takes an item; a fragment of an older response is dropped. -/
def take : Option SpeechSession :=
  match s.ttsTask, s.ttsQueue with
  | .waiting, .stop :: rest => some { s with ttsQueue := rest, ttsTask := .ended .returned }
  | .waiting, .fragment fragment :: rest =>
    if fragment.generation ≠ s.responseGeneration then some { s with ttsQueue := rest }
    else some { s with
      ttsQueue := rest
      synthesis := s.synthesis ++ [.running false]
      activeTtsTask := some s.synthesis.length
      ttsTask := .speaking s.synthesis.length fragment.generation }
  | _, _ => none

def settle (task : Nat) (outcome : Outcome) : Option SpeechSession :=
  match s.synthesis[task]? with
  | some (.running _) => some { s with synthesis := s.synthesis.set task (.done outcome) }
  | _ => none

/-- The finally block of the worker. -/
def finally_ (generation : Nat) (raising : Option Outcome) : SpeechSession :=
  let s := { s with activeTtsTask := none }
  if s.metricsDue generation then
    { s with metricsEmitted := generation :: s.metricsEmitted, ttsTask := .measuring raising }
  else { s with ttsTask := Worker.conclude raising }

/-- The worker goes on from the synthesis it awaited. -/
def wake : Option SpeechSession :=
  match s.ttsTask with
  | .speaking task generation =>
    match s.synthesis[task]? with
    | some (.done .returned) => some (s.finally_ generation none)
    | some (.done .cancelled) => some (s.finally_ generation (some .cancelled))
    | some (.done .raised) => some { s with ttsTask := .reporting generation }
    | _ => none
  | _ => none

/-- The transport took the error event, or raised. -/
def reported (accepted : Bool) : Option SpeechSession :=
  match s.ttsTask with
  | .reporting generation =>
    some (s.finally_ generation (if accepted then none else some .raised))
  | _ => none

def measured (accepted : Bool) : Option SpeechSession :=
  match s.ttsTask with
  | .measuring raising =>
    some { s with ttsTask := if accepted then Worker.conclude raising else .ended .raised }
  | _ => none

/-- The part of interrupt that cancels the fragment being spoken. -/
def cancelFragment (interrupter : Nat) : SpeechSession :=
  match s.activeTtsTask with
  | none => { s with interrupters := s.interrupters.set interrupter .canceller }
  | some task => { s with
      synthesis := s.synthesis.modify task Synthesis.cancel
      interrupters := s.interrupters.set interrupter (.fragment task) }

def interrupt : SpeechSession :=
  let number := s.interrupters.length
  let s := { s with responseGeneration := s.responseGeneration + 1 }
  match s.agentTask with
  | some consumer => { s with interrupters := s.interrupters ++ [.agent consumer] }
  | none => cancelFragment { s with interrupters := s.interrupters ++ [.canceller] } number

/-- A call of interrupt goes on from what it awaited. Only CancelledError is suppressed there. -/
def resume (interrupter : Nat) : Option SpeechSession := do
  match ← s.interrupters[interrupter]? with
  | .agent consumer =>
    let task ← s.consumers[consumer]?
    match task.outcome with
    | none => none
    | some .raised => some { s with interrupters := s.interrupters.set interrupter .gone }
    | some _ => some (cancelFragment { s with agentTask := none } interrupter)
  | .fragment task =>
    match ← s.synthesis[task]? with
    | .running _ => none
    | .done .raised => some { s with interrupters := s.interrupters.set interrupter .gone }
    | .done _ => some { s with
        activeTtsTask := none
        interrupters := s.interrupters.set interrupter .canceller }
  | .canceller =>
    some { s with ttsQueue := [], interrupters := s.interrupters.set interrupter .gone }
  | .gone => none

end SpeechSession

inductive Action
  | startAgent
  | push (consumer : Nat) (text : String)
  | finish (consumer : Nat) (completed : Bool) (outcome : Outcome)
  | take
  | settle (task : Nat) (outcome : Outcome)
  | wake
  | reported (accepted : Bool)
  | measured (accepted : Bool)
  | interrupt
  | resume (interrupter : Nat)
deriving DecidableEq

def step (s : SpeechSession) : Action → Option SpeechSession
  | .startAgent => some s.startAgent
  | .push consumer text => s.push consumer text
  | .finish consumer completed outcome => s.finish consumer completed outcome
  | .take => s.take
  | .settle task outcome => s.settle task outcome
  | .wake => s.wake
  | .reported accepted => s.reported accepted
  | .measured accepted => s.measured accepted
  | .interrupt => some s.interrupt
  | .resume interrupter => s.resume interrupter

/-- A session whose run has just started the worker. -/
def started (queueSize : Nat) : SpeechSession where
  queueSize

/-- The worker has ended, or what it awaits ends it. -/
def Doomed (s : SpeechSession) : Prop :=
  match s.ttsTask with
  | .ended _ => True
  | .measuring raising => raising.isSome = true
  | .speaking task _ => s.synthesis[task]? = some (.done .cancelled)
  | .waiting | .reporting _ => False

/-- No synthesis ends with CancelledError, and the transport takes the worker's own events. -/
def Undisturbed : SpeechSession → Action → Prop
  | _, .settle _ outcome => outcome ≠ .cancelled
  | _, .reported accepted | _, .measured accepted => accepted = true
  | _, _ => True

instance (s : SpeechSession) (a : Action) : Decidable (Undisturbed s a) := by
  cases a <;> unfold Undisturbed <;> infer_instance

/-- Nothing stops the worker from its queue, and the only synthesis that runs is the one it awaits. -/
structure Orderly (s : SpeechSession) : Prop where
  noStop : Item.stop ∉ s.ttsQueue
  awaited : ∀ task cancelling, s.synthesis[task]? = some (.running cancelling) →
    ∃ generation, s.ttsTask = .speaking task generation

/-- The worker stays where it is and no synthesis starts or ends. -/
structure Keeps (s s' : SpeechSession) : Prop where
  worker : s'.ttsTask = s.ttsTask
  done : ∀ (task : Nat) (outcome : Outcome),
    s'.synthesis[task]? = some (Synthesis.done outcome) ↔
      s.synthesis[task]? = some (Synthesis.done outcome)
  running : ∀ (task : Nat) (cancelling : Bool),
    s'.synthesis[task]? = some (Synthesis.running cancelling) →
      ∃ before, s.synthesis[task]? = some (Synthesis.running before)
  stops : Item.stop ∈ s'.ttsQueue → Item.stop ∈ s.ttsQueue

variable {s s' : SpeechSession} {a : Action}

theorem Keeps.doomed (h : Keeps s s') : Doomed s' ↔ Doomed s := by
  rw [Doomed, Doomed, h.worker]
  cases s.ttsTask with
  | speaking task generation => exact h.done task .cancelled
  | _ => exact Iff.rfl

theorem Keeps.orderly (h : Keeps s s') (orderly : Orderly s) : Orderly s' where
  noStop stop := orderly.noStop (h.stops stop)
  awaited task cancelling found := by
    obtain ⟨before, running⟩ := h.running task cancelling found
    rw [h.worker]
    exact orderly.awaited task before running

/-- A change that concerns neither the worker nor a synthesis. -/
theorem Keeps.of_eq (worker : s'.ttsTask = s.ttsTask) (synthesis : s'.synthesis = s.synthesis)
    (stops : Item.stop ∈ s'.ttsQueue → Item.stop ∈ s.ttsQueue) : Keeps s s' :=
  ⟨worker, fun _ _ => by rw [synthesis], fun _ _ found => ⟨_, synthesis ▸ found⟩, stops⟩

theorem Keeps.trans {s'' : SpeechSession} (h : Keeps s s') (later : Keeps s' s'') : Keeps s s'' where
  worker := later.worker.trans h.worker
  done task outcome := (later.done task outcome).trans (h.done task outcome)
  running task cancelling found := by
    obtain ⟨before, running⟩ := later.running task cancelling found
    exact h.running task before running
  stops stop := h.stops (later.stops stop)

theorem cancel_eq_done {synthesis : Synthesis} {outcome : Outcome} :
    synthesis.cancel = .done outcome ↔ synthesis = .done outcome := by
  cases synthesis with
  | running cancelling => exact iff_of_false nofun nofun
  | done other => exact Iff.rfl

theorem keeps_cancelFragment (s : SpeechSession) (interrupter : Nat) :
    Keeps s (s.cancelFragment interrupter) := by
  rw [SpeechSession.cancelFragment]
  cases s.activeTtsTask with
  | none => exact .of_eq rfl rfl id
  | some active =>
    refine ⟨rfl, fun task outcome => ?_, fun task cancelling found => ?_, id⟩
    · dsimp only
      by_cases here : active = task
      · subst here
        rw [List.getElem?_modify_eq]
        cases s.synthesis[active]? with
        | none => exact Iff.rfl
        | some synthesis => simpa using cancel_eq_done
      · rw [List.getElem?_modify_ne _ _ here]
    · dsimp only at found
      by_cases here : active = task
      · subst here
        rw [List.getElem?_modify_eq] at found
        obtain ⟨synthesis, present, same⟩ := Option.map_eq_some_iff.mp found
        cases synthesis with
        | running before => exact ⟨before, present⟩
        | done outcome => cases same
      · rw [List.getElem?_modify_ne _ _ here] at found
        exact ⟨cancelling, found⟩

theorem keeps_push {consumer : Nat} {text : String} (h : s.push consumer text = some s') :
    Keeps s s' := by
  obtain ⟨task, -, h⟩ := Option.bind_eq_some_iff.mp h
  split_ifs at h
  cases h
  refine .of_eq rfl rfl fun stop => ?_
  obtain old | new := List.mem_append.mp stop
  · exact old
  · cases List.mem_singleton.mp new

theorem keeps_finish {consumer : Nat} {completed : Bool} {outcome : Outcome}
    (h : s.finish consumer completed outcome = some s') : Keeps s s' := by
  obtain ⟨task, -, h⟩ := Option.bind_eq_some_iff.mp h
  dsimp only at h
  split_ifs at h <;> cases h <;> exact .of_eq rfl rfl id

theorem keeps_interrupt (s : SpeechSession) : Keeps s s.interrupt := by
  rw [SpeechSession.interrupt]
  dsimp only
  cases s.agentTask with
  | some consumer => exact .of_eq rfl rfl id
  | none =>
    refine Keeps.trans ?_ (keeps_cancelFragment _ _)
    exact .of_eq rfl rfl id

theorem keeps_resume {interrupter : Nat} (h : s.resume interrupter = some s') : Keeps s s' := by
  obtain ⟨stage, -, h⟩ := Option.bind_eq_some_iff.mp h
  cases stage with
  | agent consumer =>
    obtain ⟨task, -, h⟩ := Option.bind_eq_some_iff.mp h
    cases ended : task.outcome with
    | none => rw [ended] at h; cases h
    | some outcome =>
      rw [ended] at h
      cases outcome <;> cases h
      · refine Keeps.trans ?_ (keeps_cancelFragment _ _)
        exact .of_eq rfl rfl id
      · exact .of_eq rfl rfl id
      · refine Keeps.trans ?_ (keeps_cancelFragment _ _)
        exact .of_eq rfl rfl id
  | fragment task =>
    obtain ⟨synthesis, -, h⟩ := Option.bind_eq_some_iff.mp h
    cases synthesis with
    | running cancelling => cases h
    | done outcome => cases outcome <;> cases h <;> exact .of_eq rfl rfl id
  | canceller =>
    cases h
    exact .of_eq rfl rfl nofun
  | gone => cases h

theorem doomed_finally (s : SpeechSession) (generation : Nat) (raising : Option Outcome) :
    Doomed (s.finally_ generation raising) ↔ raising.isSome = true := by
  rw [SpeechSession.finally_]
  dsimp only
  split_ifs
  · exact Iff.rfl
  · cases raising <;> simp [Doomed, Worker.conclude]

theorem finally_frame (s : SpeechSession) (generation : Nat) (raising : Option Outcome) :
    (s.finally_ generation raising).ttsQueue = s.ttsQueue ∧
      (s.finally_ generation raising).synthesis = s.synthesis := by
  rw [SpeechSession.finally_]
  dsimp only
  split_ifs <;> exact ⟨rfl, rfl⟩

/-- While the worker is not at a synthesis none runs. -/
theorem Orderly.idle (orderly : Orderly s)
    (elsewhere : ∀ task generation, s.ttsTask = .speaking task generation →
      ∃ outcome, s.synthesis[task]? = some (Synthesis.done outcome)) (task : Nat) (cancelling : Bool) :
    s.synthesis[task]? ≠ some (Synthesis.running cancelling) := by
  intro running
  obtain ⟨generation, speaking⟩ := orderly.awaited task cancelling running
  obtain ⟨outcome, done⟩ := elsewhere task generation speaking
  cases running.symm.trans done

theorem Orderly.of_idle (noStop : Item.stop ∉ s.ttsQueue)
    (idle : ∀ (task : Nat) (cancelling : Bool),
      s.synthesis[task]? ≠ some (Synthesis.running cancelling)) : Orderly s :=
  ⟨noStop, fun task cancelling running => absurd running (idle task cancelling)⟩

theorem orderly_finally (orderly : Orderly s)
    (elsewhere : ∀ task generation, s.ttsTask = .speaking task generation →
      ∃ outcome, s.synthesis[task]? = some (Synthesis.done outcome))
    (generation : Nat) (raising : Option Outcome) : Orderly (s.finally_ generation raising) := by
  obtain ⟨queue, synthesis⟩ := finally_frame s generation raising
  refine .of_idle ?_ fun task cancelling => ?_
  · rw [queue]
    exact orderly.noStop
  · rw [synthesis]
    exact orderly.idle elsewhere task cancelling

theorem orderly_startAgent (orderly : Orderly s) : Orderly s.startAgent :=
  ⟨orderly.noStop, orderly.awaited⟩

/-- What take does: an old fragment is dropped, or a synthesis is started and awaited. -/
theorem take_cases (orderly : Orderly s) (h : s.take = some s') :
    s.ttsTask = .waiting ∧
      ((s'.ttsTask = .waiting ∧ s'.synthesis = s.synthesis) ∨
        ∃ generation, s'.ttsTask = .speaking s.synthesis.length generation ∧
          s'.synthesis = s.synthesis ++ [.running false]) ∧
      ∀ item ∈ s'.ttsQueue, item ∈ s.ttsQueue := by
  rw [SpeechSession.take] at h
  split at h
  · rename_i rest waiting queue
    exact absurd (queue ▸ List.mem_cons_self) orderly.noStop
  · rename_i fragment rest waiting queue
    have later : ∀ item ∈ rest, item ∈ s.ttsQueue :=
      fun item mem => queue ▸ List.mem_cons_of_mem _ mem
    split_ifs at h <;> cases h
    · exact ⟨waiting, .inl ⟨waiting, rfl⟩, later⟩
    · exact ⟨waiting, .inr ⟨_, rfl, rfl⟩, later⟩
  · cases h

theorem orderly_take (orderly : Orderly s) (h : s.take = some s') : Orderly s' := by
  obtain ⟨waiting, what, kept⟩ := take_cases orderly h
  have noStop : Item.stop ∉ s'.ttsQueue := fun stop => orderly.noStop (kept _ stop)
  have idle := orderly.idle fun task generation speaking => by cases waiting.symm.trans speaking
  obtain ⟨-, same⟩ | ⟨generation, speaking, grown⟩ := what
  · exact .of_idle noStop (same ▸ idle)
  · refine ⟨noStop, fun task cancelling running => ⟨generation, ?_⟩⟩
    rw [grown, List.getElem?_append] at running
    split_ifs at running with old
    · exact absurd running (idle task cancelling)
    · have here : task = s.synthesis.length := by
        have := (List.getElem?_eq_some_iff.mp running).1
        rw [List.length_singleton] at this
        omega
      rw [speaking, here]

theorem doomed_take (orderly : Orderly s) (h : s.take = some s') : ¬Doomed s ∧ ¬Doomed s' := by
  obtain ⟨waiting, what, -⟩ := take_cases orderly h
  rw [Doomed, Doomed, waiting]
  obtain ⟨idle, -⟩ | ⟨generation, speaking, grown⟩ := what
  · rw [idle]
    exact ⟨id, id⟩
  · refine ⟨id, ?_⟩
    rw [speaking, grown]
    dsimp only
    rw [List.getElem?_concat_length]
    nofun

theorem settle_cases {task : Nat} {outcome : Outcome} (h : s.settle task outcome = some s') :
    (∃ cancelling, s.synthesis[task]? = some (.running cancelling)) ∧
      s' = { s with synthesis := s.synthesis.set task (.done outcome) } := by
  rw [SpeechSession.settle] at h
  split at h
  · rename_i cancelling running
    exact ⟨⟨cancelling, running⟩, (Option.some.inj h).symm⟩
  · cases h

theorem orderly_settle {task : Nat} {outcome : Outcome} (orderly : Orderly s)
    (h : s.settle task outcome = some s') : Orderly s' := by
  obtain ⟨-, rfl⟩ := settle_cases h
  refine ⟨orderly.noStop, fun other cancelling running => ?_⟩
  dsimp only at running ⊢
  rw [List.getElem?_set] at running
  split_ifs at running with here inside
  · cases running
  · exact orderly.awaited other cancelling running

/-- A synthesis that ends is the one the worker awaits. -/
theorem doomed_settle {task : Nat} {outcome : Outcome} (orderly : Orderly s)
    (h : s.settle task outcome = some s') : Doomed s' ↔ Doomed s ∨ ¬outcome ≠ .cancelled := by
  obtain ⟨⟨cancelling, running⟩, rfl⟩ := settle_cases h
  obtain ⟨generation, speaking⟩ := orderly.awaited task cancelling running
  have inside := (List.getElem?_eq_some_iff.mp running).1
  rw [Doomed, Doomed, speaking]
  dsimp only
  rw [running, List.getElem?_set_self inside, not_ne_iff, Option.some_inj, Option.some_inj]
  exact ⟨fun same => .inr (Synthesis.done.inj same),
    fun either => congrArg _ (either.resolve_left nofun)⟩

theorem wake_cases (h : s.wake = some s') :
    ∃ task generation outcome, s.ttsTask = .speaking task generation ∧
      s.synthesis[task]? = some (.done outcome) ∧
      s' = match outcome with
        | .returned => s.finally_ generation none
        | .raised => { s with ttsTask := .reporting generation }
        | .cancelled => s.finally_ generation (some .cancelled) := by
  rw [SpeechSession.wake] at h
  split at h
  · rename_i task generation speaking
    split at h
    · rename_i done
      exact ⟨task, generation, .returned, speaking, done, (Option.some.inj h).symm⟩
    · rename_i done
      exact ⟨task, generation, .cancelled, speaking, done, (Option.some.inj h).symm⟩
    · rename_i done
      exact ⟨task, generation, .raised, speaking, done, (Option.some.inj h).symm⟩
    · cases h
  · cases h

theorem orderly_wake (orderly : Orderly s) (h : s.wake = some s') : Orderly s' := by
  obtain ⟨task, generation, outcome, speaking, done, rfl⟩ := wake_cases h
  have elsewhere : ∀ other later, s.ttsTask = .speaking other later →
      ∃ ended, s.synthesis[other]? = some (Synthesis.done ended) := by
    intro other later there
    cases speaking.symm.trans there
    exact ⟨outcome, done⟩
  cases outcome with
  | raised => exact .of_idle orderly.noStop (orderly.idle elsewhere)
  | returned | cancelled => exact orderly_finally orderly elsewhere generation _

theorem doomed_wake (h : s.wake = some s') : Doomed s' ↔ Doomed s := by
  obtain ⟨task, generation, outcome, speaking, done, rfl⟩ := wake_cases h
  have before : Doomed s ↔ outcome = .cancelled := by
    rw [Doomed, speaking]
    dsimp only
    rw [done, Option.some_inj]
    exact ⟨Synthesis.done.inj, congrArg _⟩
  rw [before]
  cases outcome with
  | returned => exact (doomed_finally s generation none).trans (iff_of_false nofun nofun)
  | raised => exact iff_of_false id nofun
  | cancelled => exact (doomed_finally s generation _).trans (iff_of_true rfl rfl)

theorem reported_cases {accepted : Bool} (h : s.reported accepted = some s') :
    ∃ generation, s.ttsTask = .reporting generation ∧
      s' = s.finally_ generation (if accepted then none else some .raised) := by
  rw [SpeechSession.reported] at h
  split at h
  · rename_i generation reporting
    exact ⟨generation, reporting, (Option.some.inj h).symm⟩
  · cases h

theorem orderly_reported {accepted : Bool} (orderly : Orderly s)
    (h : s.reported accepted = some s') : Orderly s' := by
  obtain ⟨generation, reporting, rfl⟩ := reported_cases h
  refine orderly_finally orderly (fun task later speaking => ?_) generation _
  cases reporting.symm.trans speaking

theorem doomed_reported {accepted : Bool} (h : s.reported accepted = some s') :
    Doomed s' ↔ Doomed s ∨ ¬accepted = true := by
  obtain ⟨generation, reporting, rfl⟩ := reported_cases h
  rw [doomed_finally, Doomed, reporting]
  cases accepted <;> simp

theorem measured_cases {accepted : Bool} (h : s.measured accepted = some s') :
    ∃ raising, s.ttsTask = .measuring raising ∧
      s' = { s with ttsTask := if accepted then Worker.conclude raising else .ended .raised } := by
  rw [SpeechSession.measured] at h
  split at h
  · rename_i raising measuring
    exact ⟨raising, measuring, (Option.some.inj h).symm⟩
  · cases h

theorem orderly_measured {accepted : Bool} (orderly : Orderly s)
    (h : s.measured accepted = some s') : Orderly s' := by
  obtain ⟨raising, measuring, rfl⟩ := measured_cases h
  refine .of_idle orderly.noStop (orderly.idle fun task later speaking => ?_)
  cases measuring.symm.trans speaking

theorem doomed_measured {accepted : Bool} (h : s.measured accepted = some s') :
    Doomed s' ↔ Doomed s ∨ ¬accepted = true := by
  obtain ⟨raising, measuring, rfl⟩ := measured_cases h
  rw [Doomed, Doomed, measuring]
  cases accepted <;> cases raising <;> simp [Worker.conclude]

/-- The actions that leave the worker and its synthesis alone. -/
theorem keeps_step (h : step s a = some s') :
    match a with
    | .push _ _ | .finish _ _ _ | .interrupt | .resume _ => Keeps s s'
    | _ => True := by
  cases a with
  | push consumer text => exact keeps_push h
  | finish consumer completed outcome => exact keeps_finish h
  | interrupt => exact Option.some.inj h ▸ keeps_interrupt s
  | resume interrupter => exact keeps_resume h
  | _ => trivial

theorem orderly_step (orderly : Orderly s) (h : step s a = some s') : Orderly s' := by
  cases a with
  | startAgent => exact Option.some.inj h ▸ orderly_startAgent orderly
  | take => exact orderly_take orderly h
  | settle task outcome => exact orderly_settle orderly h
  | wake => exact orderly_wake orderly h
  | reported accepted => exact orderly_reported orderly h
  | measured accepted => exact orderly_measured orderly h
  | _ => exact (keeps_step h).orderly orderly

/-- A step dooms the worker exactly when it is not an undisturbed one. -/
theorem doomed_step (orderly : Orderly s) (h : step s a = some s') :
    Doomed s' ↔ Doomed s ∨ ¬Undisturbed s a := by
  cases a with
  | settle task outcome => exact doomed_settle orderly h
  | reported accepted => exact doomed_reported h
  | measured accepted => exact doomed_measured h
  | startAgent =>
    cases h
    exact (or_iff_left (not_not.mpr trivial)).symm
  | take =>
    obtain ⟨before, after⟩ := doomed_take orderly h
    exact iff_of_false after (not_or.mpr ⟨before, not_not.mpr trivial⟩)
  | wake => exact (doomed_wake h).trans (or_iff_left (not_not.mpr trivial)).symm
  | _ => exact (keeps_step h).doomed.trans (or_iff_left (not_not.mpr trivial)).symm

theorem orderly_started (queueSize : Nat) : Orderly (started queueSize) :=
  ⟨List.not_mem_nil, nofun⟩

theorem not_doomed_started (queueSize : Nat) : ¬Doomed (started queueSize) := id

theorem Doomed.of_ended {outcome : Outcome} (h : s.ttsTask = .ended outcome) : Doomed s := by
  rw [Doomed, h]
  trivial

/-- In every run whose steps are all undisturbed the worker lives; in every other one it has ended,
or what it awaits ends it. -/
theorem worker_survives {queueSize : Nat} {actions : List Action}
    (h : run step (started queueSize) actions = some s) :
    (Along step Undisturbed (started queueSize) actions →
        ∀ outcome, s.ttsTask ≠ .ended outcome) ∧
      (¬Along step Undisturbed (started queueSize) actions → Doomed s) := by
  have broken := run_broken_iff (fun s a s' => orderly_step) (fun s a s' => doomed_step)
    (orderly_started queueSize) h
  rw [or_iff_right (not_doomed_started queueSize)] at broken
  exact ⟨fun along outcome ended => broken.mp (.of_ended ended) along, broken.mpr⟩

/-- A response spoken to its end, and an interrupt between two fragments. -/
def spokenResponse : List Action :=
  [.startAgent, .push 0 "hello", .take, .settle 0 .returned, .wake, .push 0 "world", .interrupt,
    .finish 0 false .cancelled, .resume 0, .resume 0, .startAgent, .push 1 "again"]

theorem worker_survives_spokenResponse :
    ∃ s, run step (started 100) spokenResponse = some s ∧
      ∀ outcome, s.ttsTask ≠ .ended outcome := by
  obtain ⟨s, h⟩ := Option.isSome_iff_exists.mp
    (show (run step (started 100) spokenResponse).isSome = true by decide)
  exact ⟨s, h, (worker_survives h).1 (by decide)⟩

/-- A barge-in while a fragment is spoken, then the next turn. -/
def bargeIn : List Action :=
  [.startAgent, .push 0 "hello", .take, .interrupt, .finish 0 false .cancelled, .resume 0,
    .settle 0 .cancelled, .wake, .resume 0, .resume 0, .startAgent, .push 1 "again"]

/-- The worker takes the cancellation of the fragment for its own; the fragment of the next response
stays in the queue. -/
theorem bargeIn_ends_worker :
    ∃ s, run step (started 100) bargeIn = some s ∧ s.ttsTask = .ended .cancelled ∧
      s.ttsQueue = [.fragment ⟨"again", 3⟩] :=
  ⟨_, rfl, rfl, rfl⟩

end RoboAgent.SpeechPlayback
