import RoboAgent.SessionSteps

/-! What becomes of a call. A call keeps the reply and the revision its critical section gave it
until it ends, and once begun it is in flight, has returned exactly these, or has raised. -/

namespace RoboAgent.SessionCalls
open RoboAgent.Messages RoboAgent.FrozenJson RoboAgent.SessionState RoboAgent.SessionWorld
open RoboAgent.SessionWorld.World RoboAgent.SessionSteps RoboAgent.Runs

theorem update_forall {α : Type} {P : Nat → α → Prop} {f : Nat → Option α} {id : Nat}
    {value : Option α} (old : ∀ i a, i ≠ id → f i = some a → P i a)
    (new : ∀ a, value = some a → P id a) :
    ∀ i a, Function.update f id value i = some a → P i a := by
  intro i a found
  by_cases same : i = id
  · subst same
    rw [Function.update_self] at found
    exact new a found
  · rw [Function.update_of_ne same] at found
    exact old i a same found

/-- What a suspended call still asks for. -/
def required : Phase → Option Nat
  | .parked n | .saving n | .notifying n _ => some n
  | .locating | .deleting => none

def promised (call : Call) : Reply × Option Nat := (call.reply, required call.phase)

/-- Where a call that has begun can be. -/
def Settled (w : World) (id : Nat) : Prop :=
  (∃ call, w.calls id = some call) ∨ (∃ reply asked, (id, reply, asked) ∈ w.returned) ∨
    id ∈ w.raised

structure Promised (promise : Nat → Option (Reply × Option Nat)) (w : World) : Prop where
  begun : ∀ id, w.nextCall ≤ id → promise id = none
  waiting : ∀ id call, w.calls id = some call → promise id = some (promised call)
  returned : ∀ id reply asked, (id, reply, asked) ∈ w.returned → promise id = some (reply, asked)
  settled : ∀ id answer, promise id = some answer → Settled w id

variable {w w' : World} {id : Nat} {promise : Nat → Option (Reply × Option Nat)}

theorem Promised.frame (h : Promised promise w) (calls : w'.calls = w.calls)
    (returned : w'.returned = w.returned) (raised : w'.raised = w.raised)
    (next : w'.nextCall = w.nextCall) : Promised promise w' := by
  constructor
  · rw [next]
    exact h.begun
  · rw [calls]
    exact h.waiting
  · rw [returned]
    exact h.returned
  · intro id answer known
    rw [Settled, calls, returned, raised]
    exact h.settled id answer known

theorem Promised.moved (h : Promised promise w) {before : Call} (call : w.calls id = some before)
    (after : Call) (same : promised after = promised before) :
    Promised promise (w.setCall id (some after)) := by
  refine ⟨h.begun, update_forall (fun i c _ => h.waiting i c) ?_, h.returned, ?_⟩
  · intro c new
    cases new
    rw [same]
    exact h.waiting id before call
  · intro i answer known
    by_cases eq : i = id
    · subst eq
      exact .inl ⟨after, by simp only [World.setCall, Function.update_self]⟩
    · refine (h.settled i answer known).imp_left fun ⟨c, found⟩ => ⟨c, ?_⟩
      simp only [World.setCall, Function.update_of_ne eq]
      exact found

/-- A call ends once it is among those that returned or raised. -/
theorem Promised.ended (h : Promised promise w) {returned : List (Nat × Reply × Option Nat)}
    {raised : List Nat} (kept : w.returned ⊆ returned) (keptRaised : w.raised ⊆ raised)
    (new : ∀ entry ∈ returned, entry ∈ w.returned ∨ promise entry.1 = some entry.2)
    (out : (∃ reply asked, (id, reply, asked) ∈ returned) ∨ id ∈ raised) :
    Promised promise { w.endCall id with returned, raised } := by
  refine ⟨h.begun, update_forall (fun i c _ => h.waiting i c) fun _ absent => (nomatch absent),
    fun i reply asked mem => ?_, fun i answer known => ?_⟩
  · exact (new _ mem).elim (h.returned i reply asked) fun same => same
  · by_cases eq : i = id
    · exact .inr (eq ▸ out)
    · obtain ⟨c, found⟩ | ⟨reply, asked, mem⟩ | mem := h.settled i answer known
      · refine .inl ⟨c, ?_⟩
        simp only [World.endCall, World.setCall, Function.update_of_ne eq]
        exact found
      · exact .inr (.inl ⟨reply, asked, kept mem⟩)
      · exact .inr (.inr (keptRaised mem))

theorem Promised.raiseCall (h : Promised promise w) : Promised promise (w.raiseCall id) :=
  h.ended (fun _ mem => mem) (List.subset_append_left ..) (fun _ mem => .inl mem)
    (.inr (List.mem_append_right _ (List.mem_singleton_self _)))

theorem Promised.returnCall (h : Promised promise w) {call : Call}
    (found : w.calls id = some call) :
    Promised promise (w.returnCall id call.reply (required call.phase)) := by
  apply h.ended (List.subset_append_left ..) (fun _ mem => mem)
  · intro entry mem
    refine (List.mem_append.mp mem).imp_right fun single => ?_
    rw [List.mem_singleton.mp single]
    exact h.waiting id call found
  · exact .inl ⟨_, _, List.mem_append_right _ (List.mem_singleton_self _)⟩

/-- A call that begins takes the next number. -/
theorem Promised.next (h : Promised promise w) (answer : Reply × Option Nat)
    {calls : Nat → Option Call} {returned : List (Nat × Reply × Option Nat)}
    (waiting : ∀ id call, calls id = some call → w.calls id = some call ∨
      id = w.nextCall ∧ promised call = answer)
    (past : ∀ entry ∈ returned, entry ∈ w.returned ∨ entry = (w.nextCall, answer))
    (kept : ∀ id call, w.calls id = some call → id < w.nextCall → calls id = some call)
    (keptReturned : w.returned ⊆ returned)
    (placed : (∃ call, calls w.nextCall = some call) ∨ (w.nextCall, answer) ∈ returned) :
    Promised (Function.update promise w.nextCall (some answer))
      { w with nextCall := w.nextCall + 1, calls, returned } := by
  have begun : ∀ id known, promise id = some known → id < w.nextCall := by
    intro id known found
    by_contra above
    rw [h.begun id (by omega)] at found
    cases found
  have old : ∀ id known, promise id = some known →
      Function.update promise w.nextCall (some answer) id = some known := by
    intro id known found
    have := begun id known found
    rw [Function.update_of_ne (by omega)]
    exact found
  refine ⟨fun id above => ?_, fun id call found => ?_, fun id reply r mem => ?_,
    fun id known found => ?_⟩
  · have above : w.nextCall + 1 ≤ id := above
    rw [Function.update_of_ne (by omega)]
    exact h.begun id (by omega)
  · obtain before | ⟨rfl, same⟩ := waiting id call found
    · exact old id _ (h.waiting id call before)
    · rw [Function.update_self, same]
  · obtain before | same := past _ mem
    · exact old id (reply, r) (h.returned id reply r before)
    · cases same
      exact Function.update_self ..
  · by_cases eq : id = w.nextCall
    · subst eq
      obtain waits | back := placed
      · exact .inl waits
      · exact .inr (.inl ⟨_, _, back⟩)
    · rw [Function.update_of_ne eq] at found
      obtain ⟨c, waits⟩ | ⟨reply, asked, mem⟩ | mem := h.settled id known found
      · exact .inl ⟨c, kept id c waits (begun id known found)⟩
      · exact .inr (.inl ⟨reply, asked, keptReturned mem⟩)
      · exact .inr (.inr mem)

theorem Promised.enter (h : Promised promise w) {operation : Operation} {x : Section} :
    Promised (Function.update promise w.nextCall (some (x.reply, x.required)))
      (w.enter operation x) := by
  have entered := enter_spec w operation x
  have next : Promised (Function.update promise w.nextCall (some (x.reply, x.required))) { w with
      nextCall := w.nextCall + 1
      calls := (w.enter operation x).calls
      returned := (w.enter operation x).returned } := by
    obtain ⟨n, asked, returned, calls⟩ | ⟨-, calls, returned⟩ := entered.rest
    · rw [returned, calls]
      refine h.next _ ?_ (fun _ mem => .inl mem) ?_ (fun _ mem => mem) ?_
      · refine update_forall (fun i c _ found => .inl found) fun c new => .inr ⟨rfl, ?_⟩
        cases new
        rw [asked]
        rfl
      · intro id call found below
        rw [Function.update_of_ne (by omega)]
        exact found
      · exact .inl ⟨_, Function.update_self ..⟩
    · rw [returned, calls]
      refine h.next _ (fun _ _ found => .inl found) ?_ (fun _ _ found _ => found)
        (List.subset_append_left ..) ?_
      · exact fun entry mem => (List.mem_append.mp mem).imp_right List.mem_singleton.mp
      · exact .inr (List.mem_append_right _ (List.mem_singleton_self _))
  exact next.frame rfl rfl entered.raised entered.nextCall

theorem Promised.delete (h : Promised promise w) (call : Call) :
    Promised (Function.update promise w.nextCall (some (promised call)))
      ({ w with nextCall := w.nextCall + 1 }.setCall w.nextCall (some call)) := by
  refine h.next _ ?_ (fun _ mem => .inl mem) ?_ (fun _ mem => mem) ?_
  · refine update_forall (fun i c _ found => .inl found) fun c new => .inr ⟨rfl, ?_⟩
    cases new
    rfl
  · intro id call found below
    rw [Function.update_of_ne (by omega)]
    exact found
  · exact .inl ⟨_, Function.update_self ..⟩

theorem stepped_promised {a : Action} (h : Promised promise w) (stepped : Stepped w a w') :
    ∃ promise', Promised promise' w' ∧
      ∀ id answer, promise id = some answer → promise' id = some answer := by
  have grown : ∀ new id answer, promise id = some answer →
      Function.update promise w.nextCall new id = some answer := by
    intro new id answer known
    rw [Function.update_of_ne]
    · exact known
    · intro same
      rw [h.begun id same.ge] at known
      cases known
  cases stepped with
  | perform outcome => exact ⟨_, h.enter, grown _⟩
  | deleteKnown => exact ⟨_, (h.delete ⟨.done, .deleting⟩).frame rfl rfl rfl rfl, grown _⟩
  | deleteUnknown => exact ⟨_, (h.delete ⟨.done, .locating⟩).frame rfl rfl rfl rfl, grown _⟩
  | skipSave call free known covered => exact ⟨promise, h.returnCall call, fun _ _ => id⟩
  | @beginSave i n reply call free uncovered =>
    have moved := h.moved call ⟨reply, .saving n⟩ rfl
    exact ⟨promise, moved.frame rfl rfl rfl rfl, fun _ _ => id⟩
  | @saved i n revision reply kind call job =>
    have moved := h.moved call ⟨reply, .notifying n none⟩ rfl
    exact ⟨promise, moved.frame rfl rfl rfl rfl, fun _ _ => id⟩
  | @saveFailed i n reply kind error call job =>
    have moved := h.moved call ⟨reply, .notifying n (some error)⟩ rfl
    exact ⟨promise, moved.frame rfl rfl rfl rfl, fun _ _ => id⟩
  | locatedBusy => exact ⟨promise, h.raiseCall.frame rfl rfl rfl rfl, fun _ _ => id⟩
  | locatedNone call job idle =>
    exact ⟨promise, (h.returnCall call).frame rfl rfl rfl rfl, fun _ _ => id⟩
  | @located i revision reply kind call job idle =>
    have moved := h.moved call ⟨reply, .deleting⟩ rfl
    exact ⟨promise, moved.frame rfl rfl rfl rfl, fun _ _ => id⟩
  | deleted call job =>
    exact ⟨promise, (h.returnCall call).frame rfl rfl rfl rfl, fun _ _ => id⟩
  | deleteFailed => exact ⟨promise, h.raiseCall.frame rfl rfl rfl rfl, fun _ _ => id⟩
  | notified call => exact ⟨promise, h.returnCall call, fun _ _ => id⟩
  | notifiedFailure => exact ⟨promise, h.raiseCall, fun _ _ => id⟩
  | @cancel i dropped call found =>
    obtain same | ⟨-, same⟩ := cancelCall_eq w i dropped
    · exact ⟨promise, same ▸ h.raiseCall, fun _ _ => id⟩
    · exact ⟨promise, same ▸ h.raiseCall.frame rfl rfl rfl rfl, fun _ _ => id⟩
  | _ => exact ⟨promise, h.frame rfl rfl rfl rfl, fun _ _ => id⟩

theorem run_promised {w₀ : World} {actions : List Action} (start : Promised promise w₀)
    (h : run step w₀ actions = some w) :
    ∃ promise', Promised promise' w ∧
      ∀ id answer, promise id = some answer → promise' id = some answer := by
  refine run_invariant_all (I := fun w => ∃ promise', Promised promise' w ∧
    ∀ id answer, promise id = some answer → promise' id = some answer) ?_
    ⟨promise, start, fun _ _ => id⟩ h
  intro v a v' ⟨promise', inv, grown⟩ h
  obtain ⟨promise'', inv', grown'⟩ := stepped_promised inv (stepped h)
  exact ⟨promise'', inv', fun id answer known => grown' id answer (grown id answer known)⟩

theorem opened_promised (session : Session) (record : Option SessionSnapshot) :
    Promised (fun _ => none) (opened session record) :=
  ⟨fun _ _ => rfl, fun _ _ absent => (nomatch absent), fun _ _ _ mem => (nomatch mem),
    fun _ _ absent => nomatch absent⟩

end RoboAgent.SessionCalls
