import RoboAgent.EventLog
import RoboAgent.Runs

/-! Delivery of the events of a Run. Each subscriber has a bounded queue with one slot more for the
end marker; a full queue gives up its oldest event that does not end the Run. No operation of the
emitter awaits, so each is one step. -/

namespace RoboAgent.EventDelivery
open RoboAgent.EventLog RoboAgent.Runs

structure EventSubscriptionConfig where
  maxQueueSize : Nat := 256
  replayLimit : Nat := 256
  positive : 1 ≤ maxQueueSize ∧ 1 ≤ replayLimit := by decide

def terminalTypes : List String := ["run.completed", "run.failed", "run.cancelled"]

def isTerminal (event : AgentEvent) : Bool := terminalTypes.contains event.type

inductive Item
  | event (value : AgentEvent)
  | finish
deriving DecidableEq

def Item.isProgress : Item → Bool
  | .event value => !isTerminal value
  | .finish => false

/-- A subscription: its queue, whether the emitter still serves it, whether it was closed, and what
its iterator has read so far. -/
structure Subscription where
  maxsize : Nat
  queue : List Item := []
  registered : Bool := false
  closed : Bool := false
  read : List AgentEvent := []
  ended : Bool := false

structure Emitter where
  config : EventSubscriptionConfig
  history : List AgentEvent := []
  subscriptions : List Subscription := []
  terminal : Bool := false
  /-- All that was ever emitted, in order. -/
  emitted : List AgentEvent := []

/-- Without the first element for which the condition holds, or else without the first. -/
def dropFirst {α : Type} (condition : α → Bool) (items : List α) : List α :=
  items.eraseIdx ((items.findIdx? condition).getD 0)

def retain (limit : Nat) (history : List AgentEvent) (event : AgentEvent) : List AgentEvent :=
  (if limit ≤ history.length then dropFirst (fun old => !isTerminal old) history else history) ++
    [event]

/-- The eviction loop; none where it would go on. -/
def evict (limit : Nat) : Nat → List Item → Option (List Item)
  | 0, _ => none
  | fuel + 1, items =>
    if limit ≤ items.length then evict limit fuel (dropFirst Item.isProgress items) else some items

def enqueue (maxsize : Nat) (queue : List Item) (event : AgentEvent) : Option (List Item) :=
  (evict (maxsize - 1) (queue.length + 1) queue).map (· ++ [.event event])

def enqueueEnd (maxsize : Nat) (queue : List Item) : List Item :=
  (if maxsize ≤ queue.length then queue.tail else queue) ++ [.finish]

/-- A registered subscription takes the event, and the end marker after the last one. -/
def Subscription.deliver (subscription : Subscription) (event : AgentEvent) :
    Option Subscription :=
  if subscription.registered then do
    let queue ← enqueue subscription.maxsize subscription.queue event
    some { subscription with
      queue := if isTerminal event then enqueueEnd subscription.maxsize queue else queue }
  else some subscription

/-- An emission that builds the event. -/
def Emitter.emit (e : Emitter) (event : AgentEvent) : Option Emitter :=
  if e.terminal then none
  else do
    let subscriptions ← e.subscriptions.mapM fun subscription => subscription.deliver event
    some { e with
      history := retain e.config.replayLimit e.history event
      subscriptions
      terminal := isTerminal event
      emitted := e.emitted ++ [event] }

def replay (maxsize : Nat) : List Item → List AgentEvent → Option (List Item)
  | queue, [] => some queue
  | queue, event :: events => do replay maxsize (← enqueue maxsize queue event) events

def Emitter.subscribe (e : Emitter) (options : EventSubscriptionConfig) : Option Emitter := do
  let maxsize := options.maxQueueSize + 1
  let queue ← replay maxsize [] (e.history.drop (e.history.length - options.replayLimit))
  let subscription : Subscription :=
    if e.terminal then { maxsize, queue := enqueueEnd maxsize queue }
    else { maxsize, queue, registered := true }
  some { e with subscriptions := e.subscriptions ++ [subscription] }

/-- A queue that the emitter still serves is emptied. -/
def Subscription.close (subscription : Subscription) : Subscription :=
  if subscription.closed then subscription
  else { subscription with
    closed := true
    registered := false
    queue := if subscription.registered then [] else subscription.queue }

/-- The iterator takes the next item; the end marker ends it and closes the subscription. -/
def Subscription.next (subscription : Subscription) : Option Subscription :=
  match subscription.ended, subscription.queue with
  | false, .event event :: queue =>
    some { subscription with queue, read := subscription.read ++ [event] }
  | false, .finish :: queue => some ({ subscription with queue, ended := true } : Subscription).close
  | _, _ => none

inductive Action
  | emit (event : AgentEvent)
  | subscribe (options : EventSubscriptionConfig)
  | read (subscription : Nat)
  | close (subscription : Nat)

/-- An emission has the next number of a source that goes up. -/
def step (e : Emitter) : Action → Option Emitter
  | .emit event =>
    if ∀ old ∈ e.emitted, old.sequence < event.sequence then e.emit event else none
  | .subscribe options => e.subscribe options
  | .read subscription => do
    let next ← (← e.subscriptions[subscription]?).next
    some { e with subscriptions := e.subscriptions.set subscription next }
  | .close subscription =>
    some { e with subscriptions := e.subscriptions.modify subscription Subscription.close }

section Queues

theorem length_dropFirst {α : Type} (condition : α → Bool) {items : List α} (some_ : items ≠ []) :
    (dropFirst condition items).length + 1 = items.length := by
  have inside : (items.findIdx? condition).getD 0 < items.length := by
    cases found : items.findIdx? condition with
    | none => exact List.length_pos_iff.mpr some_
    | some index => exact (List.findIdx?_eq_some_iff_getElem.mp found).1
  rw [dropFirst, List.length_eraseIdx_of_lt inside]
  omega

theorem dropFirst_sublist {α : Type} (condition : α → Bool) (items : List α) :
    (dropFirst condition items).Sublist items :=
  List.eraseIdx_sublist ..

/-- The oldest element is dropped, if the condition holds for it. -/
theorem dropFirst_head {α : Type} {condition : α → Bool} {item : α} (items : List α)
    (holds : condition item = true) : dropFirst condition (item :: items) = items := by
  rw [dropFirst, List.findIdx?_cons, holds]
  rfl

/-- The loop ends: each round makes the queue shorter. -/
theorem evict_ends {limit : Nat} (positive : 1 ≤ limit) {fuel : Nat} {items : List Item}
    (enough : items.length < fuel) : ∃ kept, evict limit fuel items = some kept := by
  induction fuel generalizing items with
  | zero => omega
  | succ fuel ih =>
    rw [evict]
    split_ifs with full
    · have some_ : items ≠ [] := by
        rintro rfl
        rw [List.length_nil] at full
        omega
      have := length_dropFirst Item.isProgress some_
      exact ih (by omega)
    · exact ⟨items, rfl⟩

theorem enqueue_ends {maxsize : Nat} (room : 2 ≤ maxsize) (queue : List Item)
    (event : AgentEvent) : ∃ queue', enqueue maxsize queue event = some queue' := by
  obtain ⟨kept, evicted⟩ := @evict_ends (maxsize - 1) (by omega) _ queue (Nat.lt_succ_self _)
  exact ⟨_, by rw [enqueue, evicted]; rfl⟩

def events (waiting : List AgentEvent) : List Item := waiting.map Item.event

/-- What stays of the events that wait when one more comes. -/
def kept (maxsize : Nat) (waiting : List AgentEvent) : List AgentEvent :=
  if waiting.length < maxsize - 1 then waiting else waiting.tail

theorem kept_sublist (maxsize : Nat) (waiting : List AgentEvent) :
    (kept maxsize waiting).Sublist waiting := by
  rw [kept]
  split_ifs
  · exact List.Sublist.refl _
  · exact List.tail_sublist _

theorem length_kept {maxsize : Nat} (room : 2 ≤ maxsize) {waiting : List AgentEvent}
    (bounded : waiting.length ≤ maxsize - 1) : (kept maxsize waiting).length + 1 ≤ maxsize - 1 := by
  rw [kept]
  split_ifs with free
  · omega
  · rw [List.length_tail]
    omega

/-- A queue of events that do not end the Run gives up its oldest if it is full. -/
theorem enqueue_events {maxsize : Nat} (room : 2 ≤ maxsize) {waiting : List AgentEvent}
    (bounded : waiting.length ≤ maxsize - 1)
    (progress : ∀ old ∈ waiting, isTerminal old = false) (event : AgentEvent) :
    enqueue maxsize (events waiting) event =
      some (events (kept maxsize waiting ++ [event])) := by
  have length : (events waiting).length = waiting.length := List.length_map _
  rw [enqueue, kept, evict, length]
  split_ifs with full free free
  · omega
  · cases waiting with
    | nil =>
      rw [List.length_nil] at full
      omega
    | cons old waiting =>
      have oldest : Item.isProgress (.event old) = true := by
        rw [Item.isProgress, progress old List.mem_cons_self]
        rfl
      rw [events, List.map_cons, dropFirst_head _ oldest, List.length_cons, evict, if_neg]
      · rw [List.tail_cons, events, List.map_append]
        rfl
      · rw [List.length_cons] at bounded
        rw [List.length_map]
        omega
  · rw [events, events, List.map_append]
    rfl
  · omega

theorem replay_append (maxsize : Nat) (queue : List Item) (first second : List AgentEvent) :
    replay maxsize queue (first ++ second) =
      (replay maxsize queue first).bind fun queue => replay maxsize queue second := by
  induction first generalizing queue with
  | nil => rfl
  | cons event first ih =>
    rw [List.cons_append, replay, replay]
    cases enqueue maxsize queue event with
    | none => rfl
    | some next => exact ih next

theorem replay_events {maxsize : Nat} (room : 2 ≤ maxsize) {waiting retained : List AgentEvent}
    (bounded : waiting.length ≤ maxsize - 1) (progress : ∀ old ∈ waiting, isTerminal old = false)
    (progress' : ∀ old ∈ retained, isTerminal old = false) :
    ∃ waiting', replay maxsize (events waiting) retained = some (events waiting') ∧
      waiting'.length ≤ maxsize - 1 ∧ waiting'.Sublist (waiting ++ retained) := by
  induction retained generalizing waiting with
  | nil => exact ⟨waiting, rfl, bounded, by rw [List.append_nil]⟩
  | cons event retained ih =>
    obtain ⟨first, later⟩ := List.forall_mem_cons.mp progress'
    rw [replay, enqueue_events room bounded progress]
    have progress'' : ∀ old ∈ kept maxsize waiting ++ [event], isTerminal old = false := by
      intro old mem
      obtain before | same := List.mem_append.mp mem
      · exact progress old ((kept_sublist maxsize waiting).subset before)
      · rw [List.mem_singleton.mp same]
        exact first
    have bounded'' : (kept maxsize waiting ++ [event]).length ≤ maxsize - 1 := by
      rw [List.length_append]
      exact length_kept room bounded
    obtain ⟨waiting', replayed, bounded', sublist⟩ := ih bounded'' progress'' later
    refine ⟨waiting', replayed, bounded', sublist.trans ?_⟩
    rw [List.append_assoc]
    exact (kept_sublist maxsize waiting).append_right _

theorem retain_spec (limit : Nat) (history : List AgentEvent) (event : AgentEvent) :
    ∃ older, retain limit history event = older ++ [event] ∧ older.Sublist history := by
  rw [retain]
  split_ifs
  · exact ⟨_, rfl, dropFirst_sublist ..⟩
  · exact ⟨_, rfl, List.Sublist.refl _⟩

end Queues

section Invariant
variable {e e' : Emitter} {sub sub' : Subscription}

/-- The last event ends the Run and no other does. -/
def Final (emitted : List AgentEvent) (before : List AgentEvent) (last : AgentEvent) : Prop :=
  emitted = before ++ [last] ∧ isTerminal last = true ∧ ∀ old ∈ before, isTerminal old = false

/-- Where a subscriber can be: it is served, or it was cut off by its close, or the events up to the
last wait for it with the end marker, or it has read them all. -/
inductive Served (terminal : Bool) (emitted : List AgentEvent) (sub : Subscription) : Prop
  | live (waiting : List AgentEvent) (running : terminal = false)
      (registered : sub.registered = true)
      (unclosed : sub.closed = false) (unended : sub.ended = false)
      (queue : sub.queue = events waiting) (bounded : waiting.length ≤ sub.maxsize - 1)
      (sublist : (sub.read ++ waiting).Sublist emitted)
  | cut (closed : sub.closed = true) (unregistered : sub.registered = false)
      (unended : sub.ended = false) (queue : sub.queue = []) (sublist : sub.read.Sublist emitted)
  | finishing (before : List AgentEvent) (last : AgentEvent) (waiting older : List AgentEvent)
      (finished : terminal = true) (final : Final emitted before last)
      (unended : sub.ended = false) (queue : sub.queue = events waiting ++ [.finish])
      (bounded : waiting.length ≤ sub.maxsize - 1) (reads : sub.read ++ waiting = older ++ [last])
      (sublist : older.Sublist before) (exclusive : sub.closed = true → sub.registered = false)
  | ended (before : List AgentEvent) (last : AgentEvent) (older : List AgentEvent)
      (finished : terminal = true) (final : Final emitted before last) (ended : sub.ended = true)
      (closed : sub.closed = true) (unregistered : sub.registered = false) (queue : sub.queue = [])
      (reads : sub.read = older ++ [last]) (sublist : older.Sublist before)

structure Orderly (e : Emitter) : Prop where
  increasing : e.emitted.Pairwise fun a b => a.sequence < b.sequence
  running : e.terminal = false → ∀ old ∈ e.emitted, isTerminal old = false
  finished : e.terminal = true → ∃ before last older, Final e.emitted before last ∧
    e.history = older ++ [last] ∧ older.Sublist before
  history : e.history.Sublist e.emitted
  room : ∀ sub ∈ e.subscriptions, 2 ≤ sub.maxsize
  served : ∀ sub ∈ e.subscriptions, Served e.terminal e.emitted sub

theorem mapM_some {α β : Type} {f : α → Option β} {values : List α}
    (each : ∀ a ∈ values, ∃ b, f a = some b) : ∃ results, values.mapM f = some results ∧
      (∀ b ∈ results, ∃ a ∈ values, f a = some b) ∧
      ∀ (i : Nat) (a : α), values[i]? = some a → ∃ b, f a = some b ∧ results[i]? = some b := by
  induction values with
  | nil => exact ⟨[], rfl, nofun, nofun⟩
  | cons a values ih =>
    obtain ⟨⟨b, first⟩, later⟩ := List.forall_mem_cons.mp each
    obtain ⟨results, rest, back, forth⟩ := ih later
    refine ⟨b :: results, by rw [List.mapM_cons, first, rest]; rfl, ?_, fun i => ?_⟩
    · refine List.forall_mem_cons.mpr ⟨⟨a, List.mem_cons_self, first⟩, fun c mem => ?_⟩
      obtain ⟨d, inside, made⟩ := back c mem
      exact ⟨d, List.mem_cons_of_mem _ inside, made⟩
    · cases i with
      | zero =>
        intro c found
        cases found
        exact ⟨b, first, rfl⟩
      | succ i => exact forth i

theorem deliver_ends (room : 2 ≤ sub.maxsize) (event : AgentEvent) :
    ∃ sub', sub.deliver event = some sub' ∧ sub'.maxsize = sub.maxsize := by
  rw [Subscription.deliver]
  by_cases registered : sub.registered = true
  · obtain ⟨queue, enqueued⟩ := enqueue_ends room sub.queue event
    rw [if_pos registered, enqueued]
    exact ⟨_, rfl, rfl⟩
  · rw [if_neg registered]
    exact ⟨sub, rfl, rfl⟩

/-- What an emission does to a subscription that is served. -/
theorem deliver_live (room : 2 ≤ sub.maxsize) {waiting : List AgentEvent}
    (registered : sub.registered = true) (queue : sub.queue = events waiting)
    (bounded : waiting.length ≤ sub.maxsize - 1)
    (progress : ∀ old ∈ waiting, isTerminal old = false) (event : AgentEvent) :
    sub.deliver event = some { sub with
      queue := events (kept sub.maxsize waiting ++ [event]) ++
        if isTerminal event then [.finish] else [] } := by
  have length : (events (kept sub.maxsize waiting ++ [event])).length < sub.maxsize := by
    have := length_kept room bounded
    rw [events, List.length_map, List.length_append, List.length_singleton]
    omega
  rw [Subscription.deliver, if_pos registered, queue, enqueue_events room bounded progress]
  change some _ = _
  split_ifs with ends
  · rw [enqueueEnd, if_neg (by omega)]
  · rw [List.append_nil]

theorem Served.emit (orderly : Orderly e) (room : 2 ≤ sub.maxsize) 
    (served : Served e.terminal e.emitted sub) {event : AgentEvent} (running : e.terminal = false)
    (delivered : sub.deliver event = some sub') :
    Served (isTerminal event) (e.emitted ++ [event]) sub' := by
  cases served with
  | live waiting _ registered unclosed unended queue bounded sublist =>
    have progress : ∀ old ∈ waiting, isTerminal old = false := fun old mem =>
      orderly.running running old (sublist.subset (List.mem_append_right _ mem))
    have bounded' : (kept sub.maxsize waiting ++ [event]).length ≤ sub.maxsize - 1 := by
      rw [List.length_append]
      exact length_kept room bounded
    have older : (sub.read ++ kept sub.maxsize waiting).Sublist e.emitted :=
      ((kept_sublist ..).append_left _).trans sublist
    rw [deliver_live room registered queue bounded progress] at delivered
    cases delivered
    cases ends : isTerminal event with
    | true =>
      refine .finishing e.emitted event _ (sub.read ++ kept sub.maxsize waiting)
        rfl ⟨rfl, ends, orderly.running running⟩ unended rfl bounded' ?_ older
        ?_
      · rw [List.append_assoc]
      · intro closed
        exact absurd (unclosed.symm.trans closed) Bool.false_ne_true
    | false =>
      refine .live _ rfl registered unclosed unended ?_ bounded' ?_
      · dsimp only
        rw [if_neg Bool.false_ne_true, List.append_nil]
      · rw [← List.append_assoc]
        exact older.append_right _
  | cut closed unregistered unended queue sublist =>
    rw [Subscription.deliver, if_neg (by rw [unregistered]; exact Bool.false_ne_true)] at delivered
    cases delivered
    exact .cut closed unregistered unended queue (sublist.trans (List.sublist_append_left ..))
  | finishing _ _ _ _ finished =>
    exact absurd (running.symm.trans finished) Bool.false_ne_true
  | ended _ _ _ finished =>
    exact absurd (running.symm.trans finished) Bool.false_ne_true

theorem emit_ends (orderly : Orderly e) (running : e.terminal = false) (event : AgentEvent) :
    ∃ subscriptions, e.emit event = some { e with
        history := retain e.config.replayLimit e.history event, subscriptions
        terminal := isTerminal event, emitted := e.emitted ++ [event] } ∧
      (∀ sub' ∈ subscriptions, ∃ sub ∈ e.subscriptions, sub.deliver event = some sub') ∧
      ∀ (i : Nat) (sub : Subscription), e.subscriptions[i]? = some sub →
        ∃ sub', sub.deliver event = some sub' ∧ subscriptions[i]? = some sub' := by
  obtain ⟨subscriptions, mapped, each⟩ := mapM_some fun sub mem =>
    (deliver_ends (orderly.room sub mem) event).imp fun _ => And.left
  refine ⟨subscriptions, ?_, each⟩
  rw [Emitter.emit, if_neg (by rw [running]; exact Bool.false_ne_true), mapped]
  rfl

theorem orderly_emit (orderly : Orderly e) {event : AgentEvent}
    (next : ∀ old ∈ e.emitted, old.sequence < event.sequence) (emitted : e.emit event = some e') :
    Orderly e' := by
  have running : e.terminal = false := by
    rw [Emitter.emit] at emitted
    split_ifs at emitted with finished
    exact Bool.eq_false_iff.mpr finished
  obtain ⟨subscriptions, made, each, -⟩ := emit_ends orderly running event
  cases made.symm.trans emitted
  obtain ⟨older, retained, sublist⟩ := retain_spec e.config.replayLimit e.history event
  refine ⟨?_, fun ends => ?_, fun ends => ?_, ?_, fun sub' mem => ?_, fun sub' mem => ?_⟩
  · exact List.pairwise_append.mpr ⟨orderly.increasing, List.pairwise_singleton .., fun old mem last
      same => List.mem_singleton.mp same ▸ next old mem⟩
  · intro old mem
    obtain before | same := List.mem_append.mp mem
    · exact orderly.running running old before
    · rw [List.mem_singleton.mp same]
      exact ends
  · exact ⟨e.emitted, event, older, ⟨rfl, ends, orderly.running running⟩, retained,
      sublist.trans orderly.history⟩
  · dsimp only
    rw [retained]
    exact (sublist.trans orderly.history).append_right _
  · obtain ⟨sub, old, delivered⟩ := each sub' mem
    obtain ⟨sub'', delivered', same⟩ := deliver_ends (orderly.room sub old) event
    cases delivered'.symm.trans delivered
    rw [same]
    exact orderly.room sub old
  · obtain ⟨sub, old, delivered⟩ := each sub' mem
    exact (orderly.served sub old).emit orderly (orderly.room sub old) running delivered

theorem orderly_subscribe (orderly : Orderly e) {options : EventSubscriptionConfig}
    (subscribed : e.subscribe options = some e') : Orderly e' := by
  have room : 2 ≤ options.maxQueueSize + 1 := Nat.succ_le_succ options.positive.1
  have add {sub : Subscription} (size : sub.maxsize = options.maxQueueSize + 1)
      (served : Served e.terminal e.emitted sub) :
      Orderly { e with subscriptions := e.subscriptions ++ [sub] } := by
    refine ⟨orderly.increasing, orderly.running, orderly.finished, orderly.history, ?_, ?_⟩
    · refine List.forall_mem_append.mpr ⟨orderly.room, fun other same => ?_⟩
      rw [List.mem_singleton.mp same, size]
      exact room
    · refine List.forall_mem_append.mpr ⟨orderly.served, fun other same => ?_⟩
      rw [List.mem_singleton.mp same]
      exact served
  rw [Emitter.subscribe] at subscribed
  cases finished : e.terminal with
  | false =>
    have progress : ∀ old ∈ e.history.drop (e.history.length - options.replayLimit),
        isTerminal old = false := fun old mem =>
      orderly.running finished old (orderly.history.subset (List.mem_of_mem_drop mem))
    obtain ⟨waiting, replayed, bounded, sublist⟩ :=
      @replay_events _ room [] _ (Nat.zero_le _) (List.forall_mem_nil _) progress
    have first : replay (options.maxQueueSize + 1) []
        (e.history.drop (e.history.length - options.replayLimit)) = some (events waiting) := replayed
    rw [first] at subscribed
    cases subscribed
    rw [if_neg (by rw [finished]; exact Bool.false_ne_true)]
    refine @add { maxsize := options.maxQueueSize + 1, queue := events waiting, registered := true }
      rfl (.live waiting finished rfl rfl rfl rfl bounded ?_)
    exact (sublist.trans (List.drop_sublist ..)).trans orderly.history
  | true =>
    obtain ⟨before, last, older, final, history, inside⟩ := orderly.finished finished
    have retained : e.history.drop (e.history.length - options.replayLimit) =
        older.drop (e.history.length - options.replayLimit) ++ [last] := by
      rw [history, List.drop_append_of_le_length]
      have := options.positive.2
      rw [List.length_append, List.length_singleton]
      omega
    have progress : ∀ old ∈ older.drop (e.history.length - options.replayLimit),
        isTerminal old = false := fun old mem =>
      final.2.2 old (inside.subset (List.mem_of_mem_drop mem))
    obtain ⟨waiting, replayed, bounded, sublist⟩ :=
      @replay_events _ room [] _ (Nat.zero_le _) (List.forall_mem_nil _) progress
    have older' : waiting.Sublist before := (sublist.trans (List.drop_sublist ..)).trans inside
    have size := length_kept room bounded
    have length : (events (kept (options.maxQueueSize + 1) waiting ++ [last])).length <
        options.maxQueueSize + 1 := by
      rw [events, List.length_map, List.length_append, List.length_singleton]
      omega
    have first : replay (options.maxQueueSize + 1) []
        (older.drop (e.history.length - options.replayLimit)) = some (events waiting) := replayed
    have whole : replay (options.maxQueueSize + 1) []
        (e.history.drop (e.history.length - options.replayLimit)) =
          some (events (kept (options.maxQueueSize + 1) waiting ++ [last])) := by
      rw [retained, replay_append, first, Option.bind_some, replay, enqueue_events room bounded
        fun old mem => final.2.2 old (older'.subset mem)]
      rfl
    have ending : enqueueEnd (options.maxQueueSize + 1)
        (events (kept (options.maxQueueSize + 1) waiting ++ [last])) =
          events (kept (options.maxQueueSize + 1) waiting ++ [last]) ++ [.finish] := by
      rw [enqueueEnd, if_neg (by omega)]
    have bounded' : (kept (options.maxQueueSize + 1) waiting ++ [last]).length ≤
        options.maxQueueSize + 1 - 1 := by
      rw [List.length_append]
      exact size
    rw [whole] at subscribed
    cases subscribed
    rw [if_pos finished]
    refine @add { maxsize := options.maxQueueSize + 1, queue := _ } rfl ?_
    exact .finishing before last (kept (options.maxQueueSize + 1) waiting ++ [last])
      (kept (options.maxQueueSize + 1) waiting) finished final rfl ending bounded' rfl
      ((kept_sublist ..).trans older') (fun closed => absurd closed Bool.false_ne_true)

theorem close_maxsize (sub : Subscription) : sub.close.maxsize = sub.maxsize := by
  rw [Subscription.close]
  split_ifs <;> rfl

variable {terminal : Bool} {emitted : List AgentEvent}

theorem Served.close (served : Served terminal emitted sub) : Served terminal emitted sub.close := by
  rw [Subscription.close]
  cases served with
  | live waiting running registered unclosed unended queue bounded sublist =>
    rw [if_neg (by rw [unclosed]; exact Bool.false_ne_true), registered]
    exact .cut rfl rfl unended rfl ((List.sublist_append_left ..).trans sublist)
  | cut closed unregistered unended queue sublist =>
    rw [if_pos closed]
    exact .cut closed unregistered unended queue sublist
  | finishing before last waiting older finished final unended queue bounded reads sublist exclusive =>
    split_ifs with closed registered
    · exact .finishing before last waiting older finished final unended queue bounded reads sublist
        exclusive
    · refine .cut rfl rfl unended rfl ?_
      have whole : (sub.read ++ waiting).Sublist emitted := by
        rw [reads, final.1]
        exact sublist.append_right _
      exact (List.sublist_append_left ..).trans whole
    · exact .finishing before last waiting older finished final unended queue bounded reads sublist
        fun _ => rfl
  | ended before last older finished final ended closed unregistered queue reads sublist =>
    rw [if_pos closed]
    exact .ended before last older finished final ended closed unregistered queue reads sublist

theorem next_maxsize (next : sub.next = some sub') : sub'.maxsize = sub.maxsize := by
  rw [Subscription.next] at next
  split at next
  · cases next
    rfl
  · cases next
    exact close_maxsize _
  · cases next

theorem Served.next (served : Served terminal emitted sub) (next : sub.next = some sub') :
    Served terminal emitted sub' := by
  rw [Subscription.next] at next
  cases served with
  | live waiting running registered unclosed unended queue bounded sublist =>
    rw [unended, queue] at next
    cases waiting with
    | nil => cases next
    | cons first waiting =>
      cases next
      refine .live waiting running registered unclosed rfl rfl ?_ ?_
      · rw [List.length_cons] at bounded
        exact (Nat.lt_of_succ_le bounded).le
      · rw [List.append_assoc]
        exact sublist
  | cut closed unregistered unended queue sublist =>
    rw [unended, queue] at next
    cases next
  | finishing before last waiting older finished final unended queue bounded reads sublist exclusive =>
    rw [unended, queue] at next
    cases waiting with
    | nil =>
      cases next
      rw [List.append_nil] at reads
      rw [Subscription.close]
      split_ifs with closed registered
      · exact .ended before last older finished final rfl closed (exclusive closed) rfl reads sublist
      · exact .ended before last older finished final rfl rfl rfl rfl reads sublist
      · exact .ended before last older finished final rfl rfl rfl rfl reads sublist
    | cons first waiting =>
      cases next
      refine .finishing before last waiting older finished final rfl rfl ?_ ?_ sublist exclusive
      · rw [List.length_cons] at bounded
        exact (Nat.lt_of_succ_le bounded).le
      · rw [List.append_assoc]
        exact reads
  | ended before last older finished final ended closed unregistered queue reads sublist =>
    rw [ended] at next
    cases next

theorem orderly_step (e : Emitter) (action : Action) (e' : Emitter) (orderly : Orderly e)
    (stepped : step e action = some e') : Orderly e' := by
  cases action with
  | emit event =>
    rw [step] at stepped
    split_ifs at stepped with next
    exact orderly_emit orderly next stepped
  | subscribe options => exact orderly_subscribe orderly stepped
  | read i =>
    obtain ⟨sub, found, stepped⟩ := Option.bind_eq_some_iff.mp stepped
    obtain ⟨sub', next, stepped⟩ := Option.bind_eq_some_iff.mp stepped
    cases stepped
    have mem := List.mem_of_getElem? found
    refine ⟨orderly.increasing, orderly.running, orderly.finished, orderly.history,
      fun other mem' => ?_, fun other mem' => ?_⟩
    · obtain old | rfl := List.mem_or_eq_of_mem_set mem'
      · exact orderly.room other old
      · rw [next_maxsize next]
        exact orderly.room sub mem
    · obtain old | rfl := List.mem_or_eq_of_mem_set mem'
      · exact orderly.served other old
      · exact (orderly.served sub mem).next next
  | close i =>
    cases stepped
    refine ⟨orderly.increasing, orderly.running, orderly.finished, orderly.history,
      fun other mem => ?_, fun other mem => ?_⟩
    · obtain ⟨k, found⟩ := List.getElem?_of_mem mem
      rw [List.getElem?_modify] at found
      obtain ⟨sub, stored, same⟩ := Option.map_eq_some_iff.mp found
      have room := orderly.room sub (List.mem_of_getElem? stored)
      split_ifs at same
      · rw [← same, close_maxsize]
        exact room
      · rw [← same]
        exact room
    · obtain ⟨k, found⟩ := List.getElem?_of_mem mem
      rw [List.getElem?_modify] at found
      obtain ⟨sub, stored, same⟩ := Option.map_eq_some_iff.mp found
      have served := orderly.served sub (List.mem_of_getElem? stored)
      split_ifs at same
      · rw [← same]
        exact served.close
      · rw [← same]
        exact served

theorem orderly_create (config : EventSubscriptionConfig) : Orderly { config } where
  increasing := .nil
  running := fun _ => List.forall_mem_nil _
  finished := nofun
  history := List.Sublist.refl _
  room := List.forall_mem_nil _
  served := List.forall_mem_nil _

theorem orderly_run {config : EventSubscriptionConfig} {actions : List Action}
    (ran : run step { config } actions = some e) : Orderly e :=
  run_invariant_all orderly_step (orderly_create config) ran

/-- The events end with the last one of the Run, and no other of them ends a Run. -/
def ReadsToEnd (emitted read : List AgentEvent) : Prop :=
  ∃ older last, read = older ++ [last] ∧ emitted.getLast? = some last ∧
    isTerminal last = true ∧ ∀ old ∈ older, isTerminal old = false

theorem readsToEnd {before older : List AgentEvent} {last : AgentEvent}
    (final : Final emitted before last) (sublist : older.Sublist before) :
    ReadsToEnd emitted (older ++ [last]) := by
  refine ⟨older, last, rfl, ?_, final.2.1, fun old mem => final.2.2 old (sublist.subset mem)⟩
  rw [final.1, List.getLast?_append, List.getLast?_singleton, Option.some_or]

/-- Reading on, a subscriber comes to the end of what waits for it. -/
theorem drains {i : Nat} (waiting : List AgentEvent) (found : e.subscriptions[i]? = some sub)
    (unended : sub.ended = false) (queue : sub.queue = events waiting ++ [.finish]) :
    ∃ e' sub', run step e (List.replicate (waiting.length + 1) (.read i)) = some e' ∧
      e'.subscriptions[i]? = some sub' ∧ sub'.ended = true ∧ sub'.read = sub.read ++ waiting := by
  have inside : i < e.subscriptions.length := (List.getElem?_eq_some_iff.mp found).1
  have move {sub' : Subscription} (next : sub.next = some sub') : step e (.read i) =
      some { e with subscriptions := e.subscriptions.set i sub' } := by
    rw [step, found, Option.bind_eq_bind, Option.bind_some, next]
    rfl
  induction waiting generalizing e sub with
  | nil =>
    have next : sub.next = some ({ sub with queue := [], ended := true } : Subscription).close := by
      rw [Subscription.next, unended, queue]
      rfl
    refine ⟨_, _, run_cons_eq_some.mpr ⟨_, move next, rfl⟩, List.getElem?_set_self inside, ?_, ?_⟩
    · rw [Subscription.close]
      split_ifs <;> rfl
    · rw [Subscription.close, List.append_nil]
      split_ifs <;> rfl
  | cons event waiting ih =>
    have next : sub.next = some { sub with
        queue := events waiting ++ [.finish], read := sub.read ++ [event] } := by
      rw [Subscription.next, unended, queue]
      rfl
    have inside' : i < (e.subscriptions.set i { sub with
        queue := events waiting ++ [.finish], read := sub.read ++ [event] }).length := by
      rw [List.length_set]
      exact inside
    have found' := List.getElem?_set_self (a := { sub with
      queue := events waiting ++ [.finish], read := sub.read ++ [event] }) inside
    obtain ⟨e', sub', ran, last, ended, read⟩ := @ih
      { e with subscriptions := e.subscriptions.set i { sub with
        queue := events waiting ++ [.finish], read := sub.read ++ [event] } } _ found' unended rfl
      inside' (fun {sub'} next => by
        rw [step, found', Option.bind_eq_bind, Option.bind_some, next]
        rfl)
    refine ⟨e', sub', run_cons_eq_some.mpr ⟨_, move next, ran⟩, last, ended, ?_⟩
    rw [read, List.append_assoc]
    rfl

/-- What was read is a part of what was emitted. -/
theorem Served.part (served : Served terminal emitted sub) : sub.read.Sublist emitted := by
  cases served with
  | live waiting _ _ _ _ _ _ sublist => exact (List.sublist_append_left ..).trans sublist
  | cut _ _ _ _ sublist => exact sublist
  | finishing before last waiting older _ final _ _ _ reads sublist =>
    have whole : (sub.read ++ waiting).Sublist emitted := by
      rw [reads, final.1]
      exact sublist.append_right _
    exact (List.sublist_append_left ..).trans whole
  | ended before last older _ final _ _ _ _ reads sublist =>
    rw [reads, final.1]
    exact sublist.append_right _

theorem Served.bounded (served : Served terminal emitted sub) :
    ∃ waiting, waiting.length ≤ sub.maxsize - 1 ∧
      (sub.queue = events waiting ∨ sub.queue = events waiting ++ [.finish]) := by
  cases served with
  | live waiting _ _ _ _ queue bounded => exact ⟨waiting, bounded, .inl queue⟩
  | cut _ _ _ queue => exact ⟨[], Nat.zero_le _, .inl queue⟩
  | finishing _ _ waiting _ _ _ _ queue bounded => exact ⟨waiting, bounded, .inr queue⟩
  | ended _ _ _ _ _ _ _ _ queue => exact ⟨[], Nat.zero_le _, .inl queue⟩

theorem Served.reads (served : Served terminal emitted sub) (ended : sub.ended = true) :
    ReadsToEnd emitted sub.read := by
  cases served with
  | live _ _ _ _ unended => exact absurd (unended.symm.trans ended) Bool.false_ne_true
  | cut _ _ unended => exact absurd (unended.symm.trans ended) Bool.false_ne_true
  | finishing _ _ _ _ _ _ unended => exact absurd (unended.symm.trans ended) Bool.false_ne_true
  | ended before last older _ final _ _ _ _ reads sublist =>
    rw [reads]
    exact readsToEnd final sublist

/-- While the Run goes on, only events that do not end it wait, and an emission drops the oldest. -/
theorem emits_to (orderly : Orderly e) {i : Nat} (found : e.subscriptions[i]? = some sub)
    (unclosed : sub.closed = false) {event : AgentEvent} (emitted : e.emit event = some e') :
    (∀ item ∈ sub.queue, item.isProgress = true) ∧
      e'.subscriptions[i]? = some { sub with
        queue := (if sub.queue.length < sub.maxsize - 1 then sub.queue else sub.queue.tail) ++
          .event event :: if isTerminal event then [.finish] else [] } := by
  have mem := List.mem_of_getElem? found
  have running : e.terminal = false := by
    rw [Emitter.emit] at emitted
    split_ifs at emitted with finished
    exact Bool.eq_false_iff.mpr finished
  obtain ⟨subscriptions, made, -, each⟩ := emit_ends orderly running event
  cases made.symm.trans emitted
  obtain ⟨sub', delivered, stored⟩ := each i sub found
  cases orderly.served sub mem with
  | live waiting _ registered _ _ queue bounded sublist =>
    have progress : ∀ old ∈ waiting, isTerminal old = false := fun old mem =>
      orderly.running running old (sublist.subset (List.mem_append_right _ mem))
    have left : events (kept sub.maxsize waiting) =
        if sub.queue.length < sub.maxsize - 1 then sub.queue else sub.queue.tail := by
      rw [queue, kept, show (events waiting).length = waiting.length from List.length_map _]
      split_ifs
      · rfl
      · exact List.map_tail
    rw [deliver_live (orderly.room sub mem) registered queue bounded progress] at delivered
    cases delivered
    refine ⟨fun item listed => ?_, ?_⟩
    · rw [queue] at listed
      obtain ⟨old, waits, rfl⟩ := List.mem_map.mp listed
      rw [Item.isProgress, progress old waits]
      rfl
    · rw [← left]
      refine stored.trans (congrArg some ?_)
      rw [events, List.map_append, List.append_assoc]
      rfl
  | cut closed => exact absurd (unclosed.symm.trans closed) Bool.false_ne_true
  | finishing _ _ _ _ finished => exact absurd (running.symm.trans finished) Bool.false_ne_true
  | ended _ _ _ finished => exact absurd (running.symm.trans finished) Bool.false_ne_true

theorem comes_to_end (orderly : Orderly e) {i : Nat} (found : e.subscriptions[i]? = some sub)
    (finished : e.terminal = true) (unclosed : sub.closed = false) : ∃ e' sub',
      run step e (List.replicate sub.queue.length (.read i)) = some e' ∧
        e'.subscriptions[i]? = some sub' ∧ sub'.ended = true ∧ ReadsToEnd e.emitted sub'.read := by
  cases orderly.served sub (List.mem_of_getElem? found) with
  | live _ running => exact absurd (running.symm.trans finished) Bool.false_ne_true
  | cut closed => exact absurd (unclosed.symm.trans closed) Bool.false_ne_true
  | finishing before last waiting older _ final unended queue _ reads sublist =>
    obtain ⟨e', sub', ran, last', ended, read⟩ := drains waiting found unended queue
    refine ⟨e', sub', ?_, last', ended, ?_⟩
    · rw [queue, List.length_append, events, List.length_map]
      exact ran
    · rw [read, reads]
      exact readsToEnd final sublist
  | ended _ _ _ _ _ _ closed => exact absurd (unclosed.symm.trans closed) Bool.false_ne_true

/-- For any emissions, subscriptions, readings and closings: the eviction loop ends for every queue; a
subscriber reads a strictly increasing part of what was emitted; its queue keeps its limit, with one
slot for the end marker; an emission drops the oldest event of a full queue and no other, and none that
ends the Run; and who is not closed reads the last event once, at the end, and comes to the end. -/
theorem subscriptions_lossless {config : EventSubscriptionConfig} {actions : List Action}
    (ran : run step { config } actions = some e) :
    (∀ (maxsize : Nat) (queue : List Item) (event : AgentEvent), 2 ≤ maxsize →
      ∃ queue', enqueue maxsize queue event = some queue') ∧
    ∀ (i : Nat) (sub : Subscription), e.subscriptions[i]? = some sub →
      (sub.read.Sublist e.emitted ∧ sub.read.Pairwise fun a b => a.sequence < b.sequence) ∧
      (∃ waiting, waiting.length ≤ sub.maxsize - 1 ∧
        (sub.queue = events waiting ∨ sub.queue = events waiting ++ [.finish])) ∧
      (sub.closed = false → ∀ event e', step e (.emit event) = some e' →
        (∀ item ∈ sub.queue, item.isProgress = true) ∧
          e'.subscriptions[i]? = some { sub with
            queue := (if sub.queue.length < sub.maxsize - 1 then sub.queue else sub.queue.tail) ++
              .event event :: if isTerminal event then [.finish] else [] }) ∧
      (sub.ended = true → ReadsToEnd e.emitted sub.read) ∧
      (e.terminal = true → sub.closed = false → ∃ e' sub',
        run step e (List.replicate sub.queue.length (.read i)) = some e' ∧
          e'.subscriptions[i]? = some sub' ∧ sub'.ended = true ∧
            ReadsToEnd e.emitted sub'.read) := by
  have orderly := orderly_run ran
  refine ⟨fun maxsize queue event room => enqueue_ends room queue event, fun i sub found => ?_⟩
  have served := orderly.served sub (List.mem_of_getElem? found)
  refine ⟨⟨served.part, orderly.increasing.sublist served.part⟩, served.bounded,
    fun unclosed event e' stepped => ?_, served.reads, comes_to_end orderly found⟩
  rw [step] at stepped
  split_ifs at stepped
  exact emits_to orderly found unclosed stepped

end Invariant

section Example

def told (sequence : Nat) (type : String) (typed : type ≠ "" := by decide) : AgentEvent where
  runId := "run"
  sequence
  type
  payload := ⟨[], FrozenJson.wellFormed_empty⟩
  timestamp := .float one
  lineage := none
  identity := by
    refine ⟨by decide, typed, ?_⟩
    change one.isFinite = true
    decide
  root := nofun

/-- A subscriber with room for one event, and one that comes after the end. -/
def retold : List Action := [
  .subscribe { maxQueueSize := 1 }, .emit (told 0 "run.started"), .emit (told 1 "message.completed"),
  .emit (told 2 "run.completed"), .subscribe {}]

theorem subscriptions_lossless_retold : ∃ e, run step { config := {} } retold = some e ∧
    (e.subscriptions.map fun sub => sub.queue.length) = [2, 4] ∧
    ∃ e' sub', run step e (List.replicate 2 (.read 0)) = some e' ∧
      e'.subscriptions[0]? = some sub' ∧ ReadsToEnd e.emitted sub'.read := by
  have told : (run step { config := {} } retold).isSome = true := by decide +kernel
  obtain ⟨e, ran⟩ := Option.isSome_iff_exists.mp told
  have facts : (run step { config := {} } retold).map (fun e =>
      (e.subscriptions.map fun sub => sub.queue.length, e.terminal,
        e.subscriptions.map Subscription.closed)) = some ([2, 4], true, [false, false]) := by
    decide +kernel
  rw [ran] at facts
  obtain ⟨lengths, facts⟩ := Prod.mk.inj (Option.some.inj facts)
  obtain ⟨finished, closed⟩ := Prod.mk.inj facts
  obtain ⟨sub, found⟩ : ∃ sub, e.subscriptions[0]? = some sub := by
    cases list : e.subscriptions with
    | nil =>
      rw [list] at lengths
      cases lengths
    | cons sub rest => exact ⟨sub, rfl⟩
  have first : sub.queue.length = 2 ∧ sub.closed = false := by
    have length := congrArg (fun lengths : List Nat => lengths[0]?) lengths
    have unclosed := congrArg (fun closed : List Bool => closed[0]?) closed
    rw [List.getElem?_map, found] at length unclosed
    exact ⟨Option.some.inj length, Option.some.inj unclosed⟩
  obtain ⟨-, -, -, -, drain⟩ := (subscriptions_lossless ran).2 0 sub found
  obtain ⟨e', sub', read, stored, -, reads⟩ := drain finished first.2
  exact ⟨e, ran, lengths, e', sub', first.1 ▸ read, stored, reads⟩

end Example

end RoboAgent.EventDelivery
