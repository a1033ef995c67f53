import Mathlib
import RoboAgent.StreamCollector

/-! The protocol of model events and the collector as its acceptor. What the collector keeps is a
summary of the events so far; whether it takes one more event is a property of them, and a stream it
takes to the end is one that keeps the protocol. -/

namespace RoboAgent.StreamProtocol
open RoboAgent.KeyedLists RoboAgent.Messages RoboAgent.ModelEvents RoboAgent.Dicts
open RoboAgent.StreamCollector RoboAgent.StreamCollector.Collection RoboAgent.StreamAdapter
open RoboAgent.FalliblePrograms (bind_eq_ok ok_bind)

def starts : ModelEvent → Bool
  | .responseStarted _ _ => true
  | _ => false

/-- The index, the id and the name of a call that starts. -/
def opening? : ModelEvent → Option (Int × String × Option String)
  | .toolCallStarted _ index id name => some (index, id, name)
  | _ => none

def response? : ModelEvent → Option ModelResponse
  | .responseCompleted _ response => some response
  | _ => none

def opened (events : List ModelEvent) : List (Int × String × Option String) :=
  events.filterMap opening?

def closed (events : List ModelEvent) : List (Int × ToolCall) :=
  events.filterMap ModelEvent.completedCall?

def reported (events : List ModelEvent) : List Usage := events.filterMap ModelEvent.usage?

def responses (events : List ModelEvent) : List ModelResponse := events.filterMap response?

def inIndexOrder (calls : List (Int × ToolCall)) : List ToolCall :=
  (calls.insertionSort fun entry other => entry.1 ≤ other.1).map Prod.snd

/-- The protocol of a stream that ends with a response. Calls are compared as Python compares
them. -/
structure Protocol (events : List ModelEvent) (response : ModelResponse) : Prop where
  sequences : events.map ModelEvent.sequence = List.range events.length
  first : ∃ event rest, events = event :: rest ∧ starts event = true ∧
    ∀ later ∈ rest, starts later = false
  last : ∃ before sequence, events = before ++ [.responseCompleted sequence response] ∧
    responses before = []
  startedOnce : (keys (opened events)).Nodup
  distinctIds : ((opened events).map fun start => start.2.1).Nodup
  completedOnce : (keys (closed events)).Nodup
  completedLater : ∀ before sequence index id name after,
    events = before ++ .toolCallStarted sequence index id name :: after →
      ∃ call, (index, call) ∈ closed after ∧ call.id = id ∧ ∀ given ∈ name, given = call.name
  startedBefore : ∀ before sequence index call after,
    events = before ++ .toolCallCompleted sequence index call :: after →
      index ∈ keys (opened before)
  deltas : ∀ before sequence index id delta after,
    events = before ++ .toolCallArgumentsDelta sequence index id delta :: after →
      (∃ name, (index, id, name) ∈ opened before) ∧ index ∈ keys (closed after)
  calls : callsEqual response.message.toolCalls (inIndexOrder (closed events)) = true
  usage : ∀ usage, (reported events).getLast? = some usage → response.usage = some usage

/-- What a later event asks of the events before it. -/
def Fits (seen : List ModelEvent) : ModelEvent → Prop
  | .toolCallStarted _ index id _ =>
    index ∉ keys (opened seen) ∧ id ∉ (opened seen).map fun start => start.2.1
  | .toolCallArgumentsDelta _ index id _ =>
    (∃ name, (index, id, name) ∈ opened seen) ∧ index ∉ keys (closed seen)
  | .toolCallCompleted _ index call =>
    (∃ name, (index, call.id, name) ∈ opened seen ∧ ∀ given ∈ name, given = call.name) ∧
      index ∉ keys (closed seen)
  | .responseCompleted _ response =>
    (∀ index ∈ keys (opened seen), index ∈ keys (closed seen)) ∧
      callsEqual response.message.toolCalls (inIndexOrder (closed seen)) = true ∧
      ∀ usage, (reported seen).getLast? = some usage → response.usage = some usage
  | .responseStarted _ _ | .textDelta _ _ | .usageUpdated _ _ => True

/-- What an event asks of the events before it. -/
structure Allowed (seen : List ModelEvent) (event : ModelEvent) : Prop where
  sequence : event.sequence = seen.length
  running : responses seen = []
  first : starts event = true ↔ seen = []
  fits : Fits seen event

/-- Each event is one that its predecessors allow. -/
def History (events : List ModelEvent) : Prop :=
  ∀ before event after, events = before ++ event :: after → Allowed before event

theorem history_nil : History [] := by
  intro before event after h
  cases before with
  | nil => cases h
  | cons _ _ => cases h

theorem history_concat {seen : List ModelEvent} {event : ModelEvent} :
    History (seen ++ [event]) ↔ History seen ∧ Allowed seen event := by
  constructor
  · intro h
    refine ⟨fun before earlier after split => ?_, h seen event [] rfl⟩
    refine h before earlier (after ++ [event]) ?_
    rw [split, List.append_assoc, List.cons_append]
  · rintro ⟨h, allowed⟩ before other after split
    obtain rfl | ⟨after, last, rfl⟩ := List.eq_nil_or_concat' after
    · obtain ⟨rfl, same⟩ := List.append_inj' split rfl
      cases same
      exact allowed
    · rw [← List.cons_append, ← List.append_assoc] at split
      obtain ⟨rfl, -⟩ := List.append_inj' split rfl
      exact h before other after rfl

/-- The calls that the collector knows are those opened, done where they are closed. -/
structure Tracks (opened : List (Int × String × Option String)) (closed : List (Int × ToolCall))
    (k : Collection) : Prop where
  states : ∀ index progress, k.callStates.get index = some progress ↔
    (index, progress.callId, progress.name) ∈ opened ∧
      (progress.done = true ↔ index ∈ keys closed)
  calls : k.calls.entries = closed
  ids : ∀ id, id ∈ k.callIds ↔ id ∈ opened.map fun start => start.2.1
  known : ∀ index ∈ keys closed, index ∈ keys opened

/-- The collector after some events. -/
structure Mirror (seen : List ModelEvent) (k : Collection) : Prop where
  expected : k.expectedSequence = seen.length
  started : k.started = true ↔ seen ≠ []
  completed : k.completed = (responses seen).getLast?
  usage : k.latestUsage = (reported seen).getLast?
  tracks : Tracks (opened seen) (closed seen) k

section Tracking
variable {opened : List (Int × String × Option String)} {closed : List (Int × ToolCall)}
  {k : Collection}

theorem Tracks.found (h : Tracks opened closed k) {index : Int} {id : String}
    {name : Option String} (mem : (index, id, name) ∈ opened) :
    k.callStates.get index = some ⟨id, name, decide (index ∈ keys closed)⟩ :=
  (h.states index _).mpr ⟨mem, decide_eq_true_iff⟩

theorem Tracks.get_eq_none (h : Tracks opened closed k) {index : Int} :
    k.callStates.get index = none ↔ index ∉ keys opened := by
  constructor
  · intro none mem
    obtain ⟨⟨_, id, name⟩, there, rfl⟩ := List.mem_map.mp mem
    rw [h.found there] at none
    cases none
  · intro fresh
    rw [Option.eq_none_iff_forall_ne_some]
    intro progress found
    exact fresh (List.mem_map.mpr ⟨_, ((h.states index progress).mp found).1, rfl⟩)

theorem Tracks.opens (h : Tracks opened closed k) {index : Int} (fresh : index ∉ keys opened)
    (id : String) (name : Option String) :
    Tracks (opened ++ [(index, id, name)]) closed { k with
      callIds := id :: k.callIds
      callStates := k.callStates.put index ⟨id, name, false⟩ } := by
  have unclosed : index ∉ keys closed := fun mem => fresh (h.known index mem)
  refine ⟨fun place progress => ?_, h.calls, fun other => ?_, fun place mem => ?_⟩
  · dsimp only
    rw [Dict.get_put, List.mem_append, List.mem_singleton]
    split_ifs with here
    · subst here
      constructor
      · intro found
        cases found
        exact ⟨Or.inr rfl, Bool.noConfusion, fun mem => absurd mem unclosed⟩
      · rintro ⟨old | new, done⟩
        · exact absurd (List.mem_map.mpr ⟨_, old, rfl⟩) fresh
        · obtain ⟨callId, given, finished⟩ := progress
          cases new
          cases finished with
          | false => rfl
          | true => exact absurd (done.mp rfl) unclosed
    · rw [h.states, or_iff_left]
      rintro ⟨⟩
      exact here rfl
  · dsimp only
    rw [List.mem_cons, h.ids, List.map_append, List.mem_append, List.map_singleton,
      List.mem_singleton, or_comm]
  · rw [keys, List.map_append]
    exact List.mem_append_left _ (h.known place mem)

theorem Tracks.closes (h : Tracks opened closed k) {index : Int} {progress : CallProgress}
    (found : k.callStates.get index = some progress) (unclosed : index ∉ keys closed)
    (call : ToolCall) :
    Tracks opened (closed ++ [(index, call)]) { k with
      callStates := k.callStates.put index { progress with done := true }
      calls := k.calls.put index call } := by
  have start := ((h.states index progress).mp found).1
  have keys_eq : keys (closed ++ [(index, call)]) = keys closed ++ [index] := by
    rw [keys, List.map_append]
    rfl
  have unfinished : k.calls.get index = none := by
    rw [Option.eq_none_iff_forall_ne_some]
    intro other there
    refine unclosed ?_
    rw [← h.calls]
    exact Dict.mem_keys_iff.mpr ⟨other, there⟩
  refine ⟨fun place other => ?_, ?_, h.ids, fun place mem => ?_⟩
  · dsimp only
    rw [Dict.get_put, keys_eq, List.mem_append, List.mem_singleton]
    split_ifs with here
    · subst here
      constructor
      · intro same
        cases same
        exact ⟨start, fun _ => Or.inr rfl, fun _ => rfl⟩
      · rintro ⟨mem, done⟩
        obtain ⟨callId, name, finished⟩ := other
        have same := found.symm.trans (h.found mem)
        cases same
        cases done.mpr (Or.inr rfl)
        rfl
    · rw [h.states, or_iff_left here]
  · exact (Dict.put_eq_append _ unfinished).trans (congrArg (· ++ _) h.calls)
  · rw [keys_eq] at mem
    obtain mem | mem := List.mem_append.mp mem
    · exact h.known place mem
    · rw [List.mem_singleton.mp mem]
      exact List.mem_map.mpr ⟨_, start, rfl⟩

theorem Tracks.incomplete_iff (h : Tracks opened closed k) :
    k.incomplete = true ↔ ∃ index ∈ keys opened, index ∉ keys closed := by
  rw [incomplete, List.any_eq_true]
  constructor
  · rintro ⟨⟨index, progress⟩, mem, unfinished⟩
    have state := (h.states index progress).mp (Dict.get_eq_some_iff.mpr mem)
    refine ⟨index, List.mem_map.mpr ⟨_, state.1, rfl⟩, fun ended => ?_⟩
    rw [state.2.mpr ended] at unfinished
    cases unfinished
  · rintro ⟨index, mem, unclosed⟩
    obtain ⟨⟨_, id, name⟩, there, rfl⟩ := List.mem_map.mp mem
    refine ⟨_, Dict.get_eq_some_iff.mp (h.found there), ?_⟩
    dsimp only
    rw [decide_eq_false unclosed]
    rfl

end Tracking

section Observing
variable {seen : List ModelEvent} {k next : Collection} {event : ModelEvent}

theorem filterMap_concat {A B : Type} (f : A → Option B) (list : List A) (last : A) :
    (list ++ [last]).filterMap f = list.filterMap f ++ (f last).toList := by
  rw [List.filterMap_append]
  cases given : f last with
  | none => simp [given]
  | some value => simp [given]

/-- Observing an event is a check of its place and then following it. -/
theorem observe_eq_ok (k : Collection) (event : ModelEvent) (next : Collection) :
    observe k event = .ok next ↔ event.sequence = k.expectedSequence ∧ k.completed = none ∧
      if starts event then k.started = false ∧ event.sequence = 0 ∧
        next = { k with expectedSequence := k.expectedSequence + 1, started := true }
      else k.started = true ∧
        { k with expectedSequence := k.expectedSequence + 1 }.follow event = .ok next := by
  by_cases sequence : event.sequence = k.expectedSequence
  · rw [and_iff_right sequence]
    by_cases done : k.completed = none
    · rw [and_iff_right done]
      have running : ¬ k.completed.isSome = true := by
        rw [done]
        exact Bool.false_ne_true
      by_cases first : starts event = true
      · rw [if_pos first, observe, if_neg (not_not_intro sequence)]
        dsimp only
        rw [if_neg running]
        cases event with
        | responseStarted place responseId =>
          dsimp only
          by_cases began : k.started = true
          · rw [if_pos began]
            exact ⟨by rintro ⟨⟩, fun h => absurd (began.symm.trans h.1) Bool.noConfusion⟩
          · rw [if_neg began, and_iff_right (eq_false_of_ne_true began)]
            by_cases zero : place = 0
            · rw [if_neg (not_not_intro zero), Except.ok.injEq]
              exact ⟨fun same => ⟨zero, same.symm⟩, fun h => h.2.symm⟩
            · rw [if_pos zero]
              exact ⟨by rintro ⟨⟩, fun h => absurd h.1 zero⟩
        | _ => cases first
      · rw [if_neg first]
        by_cases began : k.started = true
        · rw [observe_next began done event sequence, and_iff_right began]
          rintro place responseId rfl
          exact first rfl
        · rw [observe, if_neg (not_not_intro sequence)]
          dsimp only
          rw [if_neg running]
          cases event with
          | responseStarted => exact absurd rfl first
          | _ =>
            dsimp only
            rw [if_neg began]
            exact ⟨by rintro ⟨⟩, fun h => absurd h.1 began⟩
    · rw [observe, if_neg (not_not_intro sequence)]
      dsimp only
      rw [if_pos (Option.isSome_iff_ne_none.mpr done)]
      exact ⟨by rintro ⟨⟩, fun h => absurd h.1 done⟩
  · rw [observe, if_pos sequence]
    exact ⟨by rintro ⟨⟩, fun h => absurd h.1 sequence⟩

theorem any_not_iff {A : Type} {p : A → Prop} [DecidablePred p] {value : Option A} :
    (value.any fun a => ¬ p a) = true ↔ ¬ ∀ a, value = some a → p a := by
  cases value with
  | none => simp
  | some a => simp

/-- Following an event succeeds where it fits. -/
theorem follow_ok_iff (tracks : Tracks (opened seen) (closed seen) k)
    (usage : k.latestUsage = (reported seen).getLast?) :
    (∃ next, k.follow event = .ok next) ↔ Fits seen event := by
  cases event with
  | responseStarted | textDelta | usageUpdated => exact ⟨fun _ => trivial, fun _ => ⟨_, rfl⟩⟩
  | toolCallStarted sequence index id name =>
    have state : k.callStates.get index = none ↔ index ∉ keys (opened seen) := tracks.get_eq_none
    rw [follow, Fits, ← state, ← tracks.ids]
    cases k.callStates.get index with
    | some progress => exact ⟨by rintro ⟨_, ⟨⟩⟩, by rintro ⟨⟨⟩, -⟩⟩
    | none =>
      rw [Option.isSome_none, if_neg Bool.false_ne_true, and_iff_right rfl]
      by_cases taken : id ∈ k.callIds
      · rw [if_pos taken]
        exact ⟨by rintro ⟨_, ⟨⟩⟩, fun fresh => absurd taken fresh⟩
      · rw [if_neg taken]
        exact ⟨fun _ => taken, fun _ => ⟨_, rfl⟩⟩
  | toolCallArgumentsDelta sequence index id delta =>
    have state := tracks.states index
    rw [follow, Fits]
    cases found : k.callStates.get index with
    | none =>
      refine ⟨by rintro ⟨_, ⟨⟩⟩, ?_⟩
      rintro ⟨⟨name, mem⟩, -⟩
      exact absurd (List.mem_map.mpr ⟨_, mem, rfl⟩) (tracks.get_eq_none.mp found)
    | some progress =>
      obtain ⟨mem, done⟩ := (state progress).mp found
      have same {name : Option String} (other : (index, id, name) ∈ opened seen) :
          progress.callId = id := by
        have there := found.symm.trans (tracks.found other)
        cases there
        rfl
      rw [Option.any_some]
      by_cases fits : (!progress.done && progress.callId == id) = true
      · rw [if_pos fits]
        rw [Bool.and_eq_true, Bool.not_eq_true', beq_iff_eq] at fits
        obtain ⟨running, rfl⟩ := fits
        rw [running] at done
        have unclosed : index ∉ keys (closed seen) :=
          fun ended => Bool.false_ne_true (done.mpr ended)
        exact ⟨fun _ => ⟨⟨_, mem⟩, unclosed⟩, fun _ => ⟨_, rfl⟩⟩
      · rw [if_neg fits]
        refine ⟨by rintro ⟨_, ⟨⟩⟩, ?_⟩
        rintro ⟨⟨name, other⟩, unclosed⟩
        refine absurd ?_ fits
        rw [Bool.and_eq_true, Bool.not_eq_true', beq_iff_eq]
        exact ⟨eq_false_of_ne_true fun ended => unclosed (done.mp ended), same other⟩
  | toolCallCompleted sequence index call =>
    rw [follow, completeCall, Fits]
    cases found : k.callStates.get index with
    | none =>
      refine ⟨by rintro ⟨_, ⟨⟩⟩, ?_⟩
      rintro ⟨⟨name, mem, -⟩, -⟩
      exact absurd (List.mem_map.mpr ⟨_, mem, rfl⟩) (tracks.get_eq_none.mp found)
    | some progress =>
      obtain ⟨mem, done⟩ := (tracks.states index progress).mp found
      have ended : (progress.done ∨ (k.calls.get index).isSome) ↔ index ∈ keys (closed seen) := by
        have finished : (k.calls.get index).isSome ↔ index ∈ keys (closed seen) := by
          rw [Option.isSome_iff_exists, ← tracks.calls, Dict.mem_keys_iff]
        rw [finished, or_iff_right_of_imp done.mp]
      have same {name : Option String} (other : (index, call.id, name) ∈ opened seen) :
          progress.callId = call.id ∧ progress.name = name := by
        have there := found.symm.trans (tracks.found other)
        cases there
        exact ⟨rfl, rfl⟩
      dsimp only
      by_cases closed : index ∈ keys (closed seen)
      · rw [if_pos (ended.mpr closed)]
        exact ⟨by rintro ⟨_, ⟨⟩⟩, fun fits => absurd closed fits.2⟩
      · rw [if_neg fun h => closed (ended.mp h), and_iff_left closed]
        by_cases differs : progress.callId ≠ call.id ∨ progress.name.any (· ≠ call.name) = true
        · rw [if_pos differs]
          refine ⟨by rintro ⟨_, ⟨⟩⟩, ?_⟩
          rintro ⟨name, other, named⟩
          obtain ⟨sameId, rfl⟩ := same other
          obtain differs | differs := differs
          · exact absurd sameId differs
          · exact absurd named (any_not_iff.mp differs)
        · rw [if_neg differs]
          refine ⟨fun _ => ?_, fun _ => ⟨_, rfl⟩⟩
          rw [not_or, not_not, any_not_iff, not_not] at differs
          exact ⟨progress.name, differs.1 ▸ mem, differs.2⟩
  | responseCompleted sequence response =>
    have incomplete : (∀ index ∈ keys (opened seen), index ∈ keys (closed seen)) ↔
        ¬ k.incomplete = true := by
      simp only [tracks.incomplete_iff, not_exists, not_and, not_not]
    have calls : k.expectedCalls = inIndexOrder (closed seen) := by
      rw [expectedCalls, tracks.calls]
      rfl
    rw [follow, complete, Fits, incomplete, ← calls, ← usage]
    by_cases waiting : k.incomplete = true
    · rw [if_pos waiting]
      exact ⟨by rintro ⟨_, ⟨⟩⟩, fun fits => absurd waiting fits.1⟩
    · rw [if_neg waiting, and_iff_right waiting]
      by_cases listed : callsEqual response.message.toolCalls k.expectedCalls = true
      · rw [if_neg (not_not_intro listed), and_iff_right listed]
        by_cases differs : (k.latestUsage.any fun usage => response.usage ≠ some usage) = true
        · rw [if_pos differs]
          exact ⟨by rintro ⟨_, ⟨⟩⟩, fun same => absurd same (any_not_iff.mp differs)⟩
        · rw [if_neg differs]
          rw [any_not_iff, not_not] at differs
          exact ⟨fun _ => differs, fun _ => ⟨_, rfl⟩⟩
      · rw [if_pos listed]
        exact ⟨by rintro ⟨_, ⟨⟩⟩, fun fits => absurd fits.1 listed⟩

theorem Mirror.concat (expected : next.expectedSequence = seen.length + 1)
    (started : next.started = true)
    (completed : next.completed = (responses seen ++ (response? event).toList).getLast?)
    (usage : next.latestUsage = (reported seen ++ event.usage?.toList).getLast?)
    (tracks : Tracks (opened seen ++ (opening? event).toList)
      (closed seen ++ event.completedCall?.toList) next) : Mirror (seen ++ [event]) next where
  expected := by rw [expected, List.length_append, List.length_singleton]
  started := ⟨fun _ => List.append_ne_nil_of_right_ne_nil _ nofun, fun _ => started⟩
  completed := by rw [responses, filterMap_concat, completed, responses]
  usage := by rw [reported, filterMap_concat, usage, reported]
  tracks := by rwa [opened, closed, filterMap_concat, filterMap_concat]

theorem follow_mirror (mirror : Mirror seen k) (fits : Fits seen event)
    (later : starts event = false) (some : seen ≠ [])
    (h : { k with expectedSequence := k.expectedSequence + 1 }.follow event = .ok next) :
    Mirror (seen ++ [event]) next := by
  obtain ⟨expected, started, completed, usage, tracks⟩ := mirror
  have expected' : k.expectedSequence + 1 = seen.length + 1 := congrArg (· + 1) expected
  have started' := started.mpr some
  have completed' : k.completed = (responses seen ++ []).getLast? := by
    rw [List.append_nil, completed]
  have usage' : k.latestUsage = (reported seen ++ []).getLast? := by rw [List.append_nil, usage]
  have tracks' : Tracks (opened seen ++ []) (closed seen ++ [])
      { k with expectedSequence := k.expectedSequence + 1 } := by
    rw [List.append_nil, List.append_nil]
    exact ⟨tracks.states, tracks.calls, tracks.ids, tracks.known⟩
  cases event with
  | responseStarted => cases later
  | textDelta =>
    cases h
    exact .concat expected' started' completed' usage' tracks'
  | usageUpdated sequence usage =>
    cases h
    exact .concat expected' started' completed' (List.getLast?_concat).symm
      ⟨tracks'.states, tracks'.calls, tracks'.ids, tracks'.known⟩
  | toolCallArgumentsDelta =>
    rw [follow] at h
    split_ifs at h
    cases h
    exact .concat expected' started' completed' usage' tracks'
  | toolCallStarted sequence index id name =>
    rw [follow] at h
    split_ifs at h
    cases h
    have opens := tracks.opens fits.1 id name
    rw [← List.append_nil (closed seen)] at opens
    exact .concat expected' started' completed' usage'
      ⟨opens.states, opens.calls, opens.ids, opens.known⟩
  | toolCallCompleted sequence index call =>
    rw [follow, completeCall] at h
    dsimp only at h
    cases found : k.callStates.get index with
    | none => rw [found] at h; cases h
    | some progress =>
      rw [found] at h
      dsimp only at h
      split_ifs at h
      cases h
      have closes := tracks.closes found fits.2 call
      rw [← List.append_nil (opened seen)] at closes
      exact .concat expected' started' completed' usage'
        ⟨closes.states, closes.calls, closes.ids, closes.known⟩
  | responseCompleted sequence response =>
    rw [follow, complete] at h
    split_ifs at h
    cases h
    exact .concat expected' started' (List.getLast?_concat).symm usage'
      ⟨tracks'.states, tracks'.calls, tracks'.ids, tracks'.known⟩

/-- One step of the collector: it takes what its history allows, and mirrors it. -/
theorem mirror_observe (mirror : Mirror seen k) :
    ((∃ next, observe k event = .ok next) ↔ Allowed seen event) ∧
      ∀ next, observe k event = .ok next → Mirror (seen ++ [event]) next := by
  have follow_iff : (∃ next,
      { k with expectedSequence := k.expectedSequence + 1 }.follow event = .ok next) ↔
        Fits seen event :=
    follow_ok_iff ⟨mirror.tracks.states, mirror.tracks.calls, mirror.tracks.ids,
      mirror.tracks.known⟩ mirror.usage
  have running : k.completed = none ↔ responses seen = [] := by
    rw [mirror.completed, List.getLast?_eq_none_iff]
  have begun : k.started = false ↔ seen = [] := by
    rw [← Bool.not_eq_true, mirror.started, not_not]
  constructor
  · constructor
    · rintro ⟨next, observed⟩
      obtain ⟨sequence, completed, step⟩ := (observe_eq_ok k event next).mp observed
      rw [mirror.expected] at sequence
      by_cases first : starts event = true
      · rw [if_pos first] at step
        refine ⟨sequence, running.mp completed, ⟨fun _ => begun.mp step.1, fun _ => first⟩, ?_⟩
        cases event with
        | responseStarted => trivial
        | _ => cases first
      · rw [if_neg first] at step
        refine ⟨sequence, running.mp completed, ⟨fun h => absurd h first, fun none => ?_⟩,
          follow_iff.mp ⟨next, step.2⟩⟩
        exact absurd none (mirror.started.mp step.1)
    · rintro ⟨sequence, none, first, fits⟩
      have same := sequence.trans mirror.expected.symm
      by_cases start : starts event = true
      · have empty := first.mp start
        refine ⟨{ k with expectedSequence := k.expectedSequence + 1, started := true },
          (observe_eq_ok k event _).mpr ⟨same, running.mpr none, ?_⟩⟩
        rw [if_pos start]
        refine ⟨begun.mpr empty, ?_, rfl⟩
        rw [sequence, empty]
        rfl
      · obtain ⟨next, step⟩ := follow_iff.mpr fits
        refine ⟨next, (observe_eq_ok k event next).mpr ⟨same, running.mpr none, ?_⟩⟩
        rw [if_neg start]
        exact ⟨mirror.started.mpr fun empty => start (first.mpr empty), step⟩
  · intro next observed
    obtain ⟨sequence, completed, step⟩ := (observe_eq_ok k event next).mp observed
    by_cases first : starts event = true
    · rw [if_pos first] at step
      obtain ⟨fresh, -, rfl⟩ := step
      obtain ⟨expected, -, ended, usage, tracks⟩ := mirror
      have nothing {A : Type} (list : List A) : list ++ [] = list := List.append_nil list
      cases event with
      | responseStarted =>
        refine .concat (congrArg (· + 1) expected) rfl (ended.trans (congrArg _ (nothing _).symm))
          (usage.trans (congrArg _ (nothing _).symm)) ?_
        rw [← nothing (opened seen), ← nothing (closed seen)] at tracks
        exact ⟨tracks.states, tracks.calls, tracks.ids, tracks.known⟩
      | _ => cases first
    · rw [if_neg first] at step
      have some := mirror.started.mp step.1
      exact follow_mirror mirror (follow_iff.mp ⟨next, step.2⟩) (eq_false_of_ne_true first) some
        step.2

theorem history_run (events : List ModelEvent) :
    ((∃ k, events.foldlM observe {} = .ok k) ↔ History events) ∧
      ∀ k, events.foldlM observe {} = .ok k → Mirror events k := by
  induction events using List.reverseRecOn with
  | nil =>
    refine ⟨⟨fun _ => history_nil, fun _ => ⟨_, rfl⟩⟩, fun k h => ?_⟩
    cases h
    refine ⟨rfl, ⟨nofun, fun h => absurd rfl h⟩, rfl, rfl, fun index progress => ?_, rfl,
      fun id => ?_, nofun⟩
    · exact ⟨nofun, by rintro ⟨⟨⟩, -⟩⟩
    · exact ⟨nofun, nofun⟩
  | append_singleton seen event ih =>
    obtain ⟨reached, mirrors⟩ := ih
    have run (k : Collection) : (seen ++ [event]).foldlM observe {} = .ok k ↔
        ∃ before, seen.foldlM observe {} = .ok before ∧ observe before event = .ok k := by
      rw [List.foldlM_append]
      constructor
      · intro h
        obtain ⟨before, first, second⟩ := bind_eq_ok h
        obtain ⟨_, second, ⟨⟩⟩ := bind_eq_ok second
        exact ⟨before, first, second⟩
      · rintro ⟨before, first, second⟩
        rw [first, ok_bind, List.foldlM_cons, second]
        rfl
    rw [history_concat, ← reached]
    constructor
    · constructor
      · rintro ⟨k, h⟩
        obtain ⟨before, first, second⟩ := (run k).mp h
        exact ⟨⟨before, first⟩, (mirror_observe (mirrors before first)).1.mp ⟨k, second⟩⟩
      · rintro ⟨⟨before, first⟩, allowed⟩
        obtain ⟨k, second⟩ := (mirror_observe (mirrors before first)).1.mpr allowed
        exact ⟨k, (run k).mpr ⟨before, first, second⟩⟩
    · intro k h
      obtain ⟨before, first, second⟩ := (run k).mp h
      exact (mirror_observe (mirrors before first)).2 k second

end Observing

section Histories
variable {events seen : List ModelEvent} {response : ModelResponse}

theorem filterMap_around {A B : Type} (f : A → Option B) (before : List A) (a : A)
    (after : List A) :
    (before ++ a :: after).filterMap f =
      before.filterMap f ++ ((f a).toList ++ after.filterMap f) := by
  rw [List.filterMap_append]
  cases given : f a with
  | none => simp [given]
  | some value => simp [given]

theorem split_of_mem {A B : Type} {f : A → Option B} {list : List A} {b : B}
    (mem : b ∈ list.filterMap f) :
    ∃ before a after, list = before ++ a :: after ∧ f a = some b := by
  obtain ⟨a, mem, same⟩ := List.mem_filterMap.mp mem
  obtain ⟨before, after, split⟩ := List.append_of_mem mem
  exact ⟨before, a, after, split, same⟩

theorem opening?_eq_some {event : ModelEvent} {index : Int} {id : String} {name : Option String}
    (h : opening? event = some (index, id, name)) :
    ∃ sequence, event = .toolCallStarted sequence index id name := by
  cases event with
  | toolCallStarted sequence _ _ _ =>
    cases h
    exact ⟨sequence, rfl⟩
  | _ => cases h

theorem completedCall?_eq_some {event : ModelEvent} {index : Int} {call : ToolCall}
    (h : event.completedCall? = some (index, call)) :
    ∃ sequence, event = .toolCallCompleted sequence index call := by
  cases event with
  | toolCallCompleted sequence _ _ =>
    cases h
    exact ⟨sequence, rfl⟩
  | _ => cases h

theorem response?_eq_some {event : ModelEvent} (h : response? event = some response) :
    ∃ sequence, event = .responseCompleted sequence response := by
  cases event with
  | responseCompleted sequence _ =>
    cases h
    exact ⟨sequence, rfl⟩
  | _ => cases h

theorem opening_split {index : Int} {id : String} {name : Option String}
    (mem : (index, id, name) ∈ opened events) :
    ∃ before sequence after,
      events = before ++ .toolCallStarted sequence index id name :: after := by
  obtain ⟨before, event, after, split, same⟩ := split_of_mem mem
  obtain ⟨sequence, rfl⟩ := opening?_eq_some same
  exact ⟨before, sequence, after, split⟩

theorem closing_split {index : Int} {call : ToolCall} (mem : (index, call) ∈ closed events) :
    ∃ before sequence after,
      events = before ++ .toolCallCompleted sequence index call :: after := by
  obtain ⟨before, event, after, split, same⟩ := split_of_mem mem
  obtain ⟨sequence, rfl⟩ := completedCall?_eq_some same
  exact ⟨before, sequence, after, split⟩

theorem mem_keys {V : Type} {entries : List (Int × V)} {index : Int} :
    index ∈ keys entries ↔ ∃ value, (index, value) ∈ entries := by
  rw [keys, List.mem_map]
  constructor
  · rintro ⟨⟨_, value⟩, mem, rfl⟩
    exact ⟨value, mem⟩
  · rintro ⟨value, mem⟩
    exact ⟨_, mem, rfl⟩

theorem keys_concat {V : Type} (entries : List (Int × V)) (entry : Int × V) :
    keys (entries ++ [entry]) = (keys entries).concat entry.1 := by
  rw [keys, List.map_append, List.concat_eq_append]
  rfl

/-- Calls are opened once, under an id of their own, and closed once after that. -/
structure Paired (opened : List (Int × String × Option String)) (closed : List (Int × ToolCall)) :
    Prop where
  startedOnce : (keys opened).Nodup
  distinctIds : (opened.map fun start => start.2.1).Nodup
  completedOnce : (keys closed).Nodup
  known : ∀ index ∈ keys closed, index ∈ keys opened

theorem paired_of_history (h : History seen) : Paired (opened seen) (closed seen) := by
  induction seen using List.reverseRecOn with
  | nil => exact ⟨List.nodup_nil, List.nodup_nil, List.nodup_nil, nofun⟩
  | append_singleton seen event ih =>
    obtain ⟨before, allowed⟩ := history_concat.mp h
    have paired := ih before
    have fits := allowed.fits
    rw [opened, closed, filterMap_concat, filterMap_concat]
    cases opening : opening? event with
    | some start =>
      obtain ⟨index, id, name⟩ := start
      obtain ⟨sequence, rfl⟩ := opening?_eq_some opening
      have quiet : ModelEvent.completedCall? (.toolCallStarted sequence index id name) = none := rfl
      rw [quiet, Option.toList_none, List.append_nil, Option.toList_some]
      refine ⟨?_, ?_, paired.completedOnce, fun place mem => ?_⟩
      · rw [keys_concat]
        exact paired.startedOnce.concat fits.1
      · rw [List.map_append, List.map_singleton, ← List.concat_eq_append]
        exact paired.distinctIds.concat fits.2
      · rw [keys_concat, List.concat_eq_append]
        exact List.mem_append_left _ (paired.known place mem)
    | none =>
      rw [Option.toList_none, List.append_nil]
      cases closing : event.completedCall? with
      | none =>
        rw [Option.toList_none, List.append_nil]
        exact paired
      | some entry =>
        obtain ⟨index, call⟩ := entry
        obtain ⟨sequence, rfl⟩ := completedCall?_eq_some closing
        obtain ⟨⟨name, mem, -⟩, unclosed⟩ := fits
        rw [Option.toList_some]
        refine ⟨paired.startedOnce, paired.distinctIds, ?_, fun place there => ?_⟩
        · rw [keys_concat]
          exact paired.completedOnce.concat unclosed
        · rw [keys_concat, List.concat_eq_append] at there
          obtain there | there := List.mem_append.mp there
          · exact paired.known place there
          · rw [List.mem_singleton.mp there]
            exact List.mem_map.mpr ⟨_, mem, rfl⟩

theorem sequences_of_history (h : History seen) :
    seen.map ModelEvent.sequence = List.range seen.length := by
  induction seen using List.reverseRecOn with
  | nil => rfl
  | append_singleton seen event ih =>
    obtain ⟨before, allowed⟩ := history_concat.mp h
    rw [List.map_append, ih before, List.map_singleton, allowed.sequence, List.length_append,
      List.length_singleton, List.range_succ]

theorem History.before {before after : List ModelEvent} (h : History (before ++ after)) :
    History before := by
  intro earlier event later split
  refine h earlier event (later ++ after) ?_
  rw [split, List.append_assoc, List.cons_append]

/-- A call that is closed, and not before an event or by it, is closed after it. -/
theorem closed_after {before after : List ModelEvent} {event : ModelEvent} {index : Int}
    (split : events = before ++ event :: after) (quiet : event.completedCall? = none)
    (unclosed : index ∉ keys (closed before)) (mem : index ∈ keys (closed events)) :
    index ∈ keys (closed after) := by
  rw [split, closed, filterMap_around, quiet, keys, List.map_append] at mem
  exact (List.mem_append.mp mem).resolve_left unclosed

theorem opening_unique (once : (keys (opened events)).Nodup) {index : Int} {id other : String}
    {name given : Option String} (mem : (index, id, name) ∈ opened events)
    (there : (index, other, given) ∈ opened events) : id = other ∧ name = given := by
  have same := List.inj_on_of_nodup_map once mem there rfl
  cases same
  exact ⟨rfl, rfl⟩

/-- A history whose last event is a response keeps the protocol. -/
theorem protocol_of_history (h : History events)
    (last : (responses events).getLast? = some response) : Protocol events response := by
  obtain rfl | ⟨seen, event, rfl⟩ := List.eq_nil_or_concat' events
  · cases last
  obtain ⟨before, allowed⟩ := history_concat.mp h
  rw [responses, filterMap_concat, show seen.filterMap response? = [] from allowed.running,
    List.nil_append] at last
  have ended : response? event = some response := by
    cases given : response? event with
    | none => rw [given] at last; cases last
    | some other => rw [given] at last; exact last
  obtain ⟨sequence, rfl⟩ := response?_eq_some ended
  obtain ⟨allClosed, calls, usage⟩ := allowed.fits
  have paired := paired_of_history h
  have closes : closed (seen ++ [.responseCompleted sequence response]) = closed seen :=
    (filterMap_concat ..).trans (List.append_nil _)
  have opens : opened (seen ++ [.responseCompleted sequence response]) = opened seen :=
    (filterMap_concat ..).trans (List.append_nil _)
  have reports : reported (seen ++ [.responseCompleted sequence response]) = reported seen :=
    (filterMap_concat ..).trans (List.append_nil _)
  refine ⟨sequences_of_history h, ?_, ⟨seen, sequence, rfl, allowed.running⟩, paired.startedOnce,
    paired.distinctIds, paired.completedOnce, ?_, ?_, ?_, closes ▸ calls, reports ▸ usage⟩
  · obtain ⟨event, rest, split⟩ := List.exists_cons_of_ne_nil
      (List.append_ne_nil_of_right_ne_nil seen (List.cons_ne_nil
        (ModelEvent.responseCompleted sequence response) []))
    refine ⟨event, rest, split, (h [] event rest split).first.mpr rfl, fun later mem => ?_⟩
    obtain ⟨earlier, after, rfl⟩ := List.append_of_mem mem
    refine eq_false_of_ne_true fun again => ?_
    exact absurd ((h (event :: earlier) later after split).first.mp again) (List.cons_ne_nil _ _)
  · intro earlier place index id name after split
    have start := (h earlier _ after split).fits
    have previous := h
    rw [split] at previous
    have unclosed : index ∉ keys (closed earlier) := fun mem =>
      start.1 ((paired_of_history previous.before).known index mem)
    have opening : (index, id, name) ∈ opened (seen ++ [.responseCompleted sequence response]) := by
      rw [split, opened, filterMap_around]
      exact List.mem_append_right _ List.mem_cons_self
    have closing : index ∈ keys (closed (seen ++ [.responseCompleted sequence response])) := by
      rw [closes]
      refine allClosed index ?_
      rw [← opens]
      exact List.mem_map.mpr ⟨_, opening, rfl⟩
    obtain ⟨call, mem⟩ := mem_keys.mp (closed_after split rfl unclosed closing)
    refine ⟨call, mem, ?_⟩
    obtain ⟨middle, completion, later, rfl⟩ := closing_split mem
    rw [← List.cons_append, ← List.append_assoc] at split
    obtain ⟨⟨given, there, named⟩, -⟩ := (h _ _ later split).fits
    have there' : (index, call.id, given) ∈
        opened (seen ++ [.responseCompleted sequence response]) := by
      rw [split, opened, List.filterMap_append]
      exact List.mem_append_left _ there
    obtain ⟨rfl, rfl⟩ := opening_unique paired.startedOnce opening there'
    exact ⟨rfl, named⟩
  · intro before sequence index call after split
    obtain ⟨⟨name, mem, -⟩, -⟩ := (h before _ after split).fits
    exact List.mem_map.mpr ⟨_, mem, rfl⟩
  · intro earlier place index id delta after split
    obtain ⟨⟨name, mem⟩, unclosed⟩ := (h earlier _ after split).fits
    refine ⟨⟨name, mem⟩, closed_after split rfl unclosed ?_⟩
    rw [closes]
    refine allClosed index (List.mem_map.mpr ⟨(index, id, name), ?_, rfl⟩)
    rw [← opens, split, opened, List.filterMap_append]
    exact List.mem_append_left _ mem

/-- A stream that keeps the protocol is a history. -/
theorem history_of_protocol (h : Protocol events response) : History events := by
  obtain ⟨sequences, ⟨head, rest, begins, started, restQuiet⟩, ⟨seen, place, ends, none⟩,
    startedOnce, distinctIds, completedOnce, completedLater, startedBefore, deltas, calls,
    usage⟩ := h
  intro before event after split
  have beforeEnd : before <+: seen := by
    obtain rfl | ⟨after, last, rfl⟩ := List.eq_nil_or_concat' after
    · have same := (List.append_inj' (split.symm.trans ends) rfl).1
      exact ⟨[], (List.append_nil _).trans same⟩
    · rw [← List.cons_append, ← List.append_assoc] at split
      have same := (List.append_inj' (split.symm.trans ends) rfl).1
      exact ⟨_, same⟩
  have running : responses before = [] :=
    List.eq_nil_of_prefix_nil (none ▸ beforeEnd.filterMap response?)
  have opens : opened events = opened before ++ ((opening? event).toList ++ opened after) := by
    rw [split]
    exact filterMap_around ..
  have closes : closed events =
      closed before ++ (event.completedCall?.toList ++ closed after) := by
    rw [split]
    exact filterMap_around ..
  have unopened {index : Int} {id : String} {name : Option String}
      (opening : opening? event = some (index, id, name)) :
      index ∉ keys (opened before) ∧ id ∉ (opened before).map fun start => start.2.1 := by
    rw [opening] at opens
    rw [opens, keys, List.map_append] at startedOnce
    rw [opens, List.map_append] at distinctIds
    exact ⟨fun mem => (List.nodup_append.mp startedOnce).2.2 _ mem _ List.mem_cons_self rfl,
      fun mem => (List.nodup_append.mp distinctIds).2.2 _ mem _ List.mem_cons_self rfl⟩
  have unclosed {index : Int} (mem : index ∈ keys (event.completedCall?.toList ++ closed after)) :
      index ∉ keys (closed before) := by
    rw [closes, keys, List.map_append] at completedOnce
    exact fun there => (List.nodup_append.mp completedOnce).2.2 _ there _ mem rfl
  refine ⟨?_, running, ?_, ?_⟩
  · have place := congrArg (fun list : List Nat => list[before.length]?) sequences
    simp only [split, List.map_append, List.map_cons] at place
    rw [List.getElem?_append_right (by rw [List.length_map]), List.length_map, Nat.sub_self,
      List.getElem?_cons_zero, List.getElem?_range (by simp)] at place
    exact Option.some.inj place
  · rw [split] at begins
    cases before with
    | nil =>
      cases begins
      exact ⟨fun _ => rfl, fun _ => started⟩
    | cons first before =>
      cases begins
      have quiet := restQuiet event (List.mem_append_right _ List.mem_cons_self)
      exact ⟨fun again => absurd (again.symm.trans quiet) nofun, nofun⟩
  · cases event with
    | responseStarted | textDelta | usageUpdated => trivial
    | toolCallStarted sequence index id name => exact unopened rfl
    | toolCallArgumentsDelta sequence index id delta =>
      obtain ⟨opening, closing⟩ := deltas before sequence index id delta after split
      exact ⟨opening, unclosed closing⟩
    | toolCallCompleted sequence index call =>
      refine ⟨?_, unclosed List.mem_cons_self⟩
      obtain ⟨⟨id, name⟩, mem⟩ := mem_keys.mp (startedBefore before sequence index call after split)
      refine ⟨name, ?_⟩
      obtain ⟨earlier, start, between, rfl⟩ := opening_split mem
      rw [List.append_assoc, List.cons_append] at split
      obtain ⟨other, there, rfl, named⟩ := completedLater earlier start index id name _ split
      have closing : (index, call) ∈ closed events := by
        rw [closes]
        exact List.mem_append_right _ List.mem_cons_self
      have closing' : (index, other) ∈ closed events := by
        rw [split, closed, filterMap_around]
        exact List.mem_append_right _ there
      have same := List.inj_on_of_nodup_map completedOnce closing closing' rfl
      cases same
      exact ⟨mem, named⟩
    | responseCompleted sequence other =>
      have last : after = [] := by
        obtain empty | ⟨after, last, rfl⟩ := List.eq_nil_or_concat' after
        · exact empty
        · rw [← List.cons_append, ← List.append_assoc] at split
          have same := (List.append_inj' (split.symm.trans ends) rfl).1
          rw [← same, responses, filterMap_around] at none
          exact absurd none (List.append_ne_nil_of_right_ne_nil _ (List.cons_ne_nil _ _))
      subst last
      obtain ⟨rfl, same⟩ := List.append_inj' (split.symm.trans ends) rfl
      cases same
      have closes' : closed events = closed before := closes.trans (List.append_nil _)
      refine ⟨fun index mem => ?_, closes' ▸ calls, fun usage' there => usage usage' ?_⟩
      · obtain ⟨⟨id, name⟩, mem⟩ := mem_keys.mp mem
        obtain ⟨earlier, start, between, rfl⟩ := opening_split mem
        rw [List.append_assoc, List.cons_append] at split
        obtain ⟨call, there, -⟩ := completedLater earlier start index id name _ split
        rw [← closes', split, closed, filterMap_around]
        exact mem_keys.mpr ⟨call, List.mem_append_right _ there⟩
      · rw [split, reported, filterMap_around]
        exact (congrArg List.getLast? (List.append_nil _)).trans there

theorem Protocol.response_last (h : Protocol events response) :
    (responses events).getLast? = some response := by
  obtain ⟨before, sequence, rfl, -⟩ := h.last
  rw [responses, filterMap_concat]
  exact List.getLast?_concat

theorem Protocol.allClosed (h : Protocol events response) :
    ∀ index ∈ keys (opened events), index ∈ keys (closed events) := by
  intro index mem
  obtain ⟨⟨id, name⟩, mem⟩ := mem_keys.mp mem
  obtain ⟨before, sequence, after, split⟩ := opening_split mem
  obtain ⟨call, there, -⟩ := h.completedLater before sequence index id name after split
  rw [split, closed, filterMap_around]
  exact mem_keys.mpr ⟨call, List.mem_append_right _ there⟩

/-- A response whose message its constructor made, and whose contents the model may emit. -/
structure Presentable (capabilities : ModelCapabilities) (response : ModelResponse) : Prop where
  constructed : assistantMessage response.message.content response.message.toolCalls
    response.message.reasoningContent response.message.timestamp response.message.messageId =
      .ok response.message
  supported : ∀ part ∈ response.message.content,
    modality part ∈ capabilities.outputModalities

theorem conclude_protocol {capabilities : ModelCapabilities} {messageId : Option String}
    {k : Collection} (tools : capabilities.toolCalling = true)
    (parallel : capabilities.parallelToolCalls = true) (identified : messageId ≠ some "")
    (mirror : Mirror events k) (h : Protocol events response)
    (presentable : Presentable capabilities response) :
    k.conclude capabilities messageId = .ok (identifiedAs messageId response) := by
  have completed : k.completed = some response := mirror.completed.trans h.response_last
  have started : k.started = true := by
    obtain ⟨event, rest, rfl, -⟩ := h.first
    exact mirror.started.mpr (List.cons_ne_nil _ _)
  have complete : ¬ k.incomplete = true := by
    rw [mirror.tracks.incomplete_iff]
    rintro ⟨index, mem, unclosed⟩
    exact unclosed (h.allClosed index mem)
  have supported : ¬ response.message.content.any (modality · ∉ capabilities.outputModalities) =
      true := by
    rw [List.any_eq_true]
    rintro ⟨part, mem, outside⟩
    exact absurd (presentable.supported part mem) (of_decide_eq_true outside)
  rw [conclude, completed]
  dsimp only
  rw [if_neg (not_not_intro started), if_neg complete, if_neg supported,
    if_neg fun both => both.2 tools, if_neg fun both => both.1 parallel]
  cases messageId with
  | none => rfl
  | some messageId =>
    rw [adopt]
    split_ifs with same
    · exact same ▸ rfl
    · rw [(assistantMessage_eq_ok presentable.constructed).2 messageId
        fun empty => identified (congrArg some empty)]
      rfl

/-- For a model with tools and parallel calls the collector accepts the streams that keep the
protocol, and returns their response under the identity it was given. -/
theorem collected_iff (capabilities : ModelCapabilities) (messageId : Option String)
    (tools : capabilities.toolCalling = true) (parallel : capabilities.parallelToolCalls = true)
    (identified : messageId ≠ some "") (events : List ModelEvent)
    (presentable : ∀ sequence response,
      .responseCompleted sequence response ∈ events → Presentable capabilities response)
    (result : ModelResponse) :
    collectModelStream capabilities messageId events = .ok result ↔
      ∃ response, Protocol events response ∧ result = identifiedAs messageId response := by
  obtain ⟨accepted, mirrors⟩ := history_run events
  have presentable' {response : ModelResponse} (h : Protocol events response) :
      Presentable capabilities response := by
    obtain ⟨before, sequence, split, -⟩ := h.last
    refine presentable sequence response ?_
    rw [split]
    exact List.mem_append_right _ List.mem_cons_self
  constructor
  · intro collected
    obtain ⟨k, run, concluded⟩ := bind_eq_ok collected
    have mirror := mirrors k run
    cases completed : k.completed with
    | none =>
      rw [conclude, completed] at concluded
      cases concluded
    | some response =>
      have protocol := protocol_of_history (accepted.mp ⟨k, run⟩)
        (mirror.completed.symm.trans completed)
      rw [conclude_protocol tools parallel identified mirror protocol (presentable' protocol)]
        at concluded
      cases concluded
      exact ⟨response, protocol, rfl⟩
  · rintro ⟨response, protocol, rfl⟩
    obtain ⟨k, run⟩ := accepted.mpr (history_of_protocol protocol)
    rw [collectModelStream, run, ok_bind]
    exact conclude_protocol tools parallel identified (mirrors k run) protocol
      (presentable' protocol)

end Histories

def lookupCall : ToolCall := ⟨"a", "lookup", ⟨[], by decide⟩⟩

def lookupResponse : ModelResponse :=
  ⟨⟨[.text "look"], [lookupCall], none, ⟨0⟩, "m"⟩, .toolCall, none⟩

/-- A stream of one call, whose name comes with its completion. -/
def lookupEvents : List ModelEvent :=
  [.responseStarted 0 "r", .textDelta 1 "look", .toolCallStarted 2 0 "a" none,
    .toolCallArgumentsDelta 3 0 "a" "", .toolCallCompleted 4 0 lookupCall,
    .responseCompleted 5 lookupResponse]

theorem collected_lookup : ∃ response, Protocol lookupEvents response ∧
    identifiedAs (some "run") lookupResponse = identifiedAs (some "run") response := by
  have presentable : ∀ sequence response, .responseCompleted sequence response ∈ lookupEvents →
      Presentable ⟨[.text], true, true⟩ response := by
    intro sequence response mem
    simp only [lookupEvents, List.mem_cons, reduceCtorEq, ModelEvent.responseCompleted.injEq,
      List.not_mem_nil, false_or, or_false] at mem
    rw [mem.2]
    exact ⟨rfl, by decide⟩
  exact (collected_iff ⟨[.text], true, true⟩ (some "run") rfl rfl (by decide) lookupEvents
    presentable _).mp rfl

end RoboAgent.StreamProtocol
