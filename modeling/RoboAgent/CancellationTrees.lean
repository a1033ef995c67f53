import Mathlib

/-! Linked cancellation objects. An object refers to its parent, which is older; what it shows is
read from its own fields and its parents'. A cancelled object is never written again, so what it
first shows stays, and it is cancelled exactly with the objects above it. -/

namespace RoboAgent.CancellationTrees

inductive CancellationReason
  | user
  | timeout
deriving DecidableEq

inductive CancellationOrigin
  | parent
  | timeout
  | external
  | runtime
deriving DecidableEq

/-- One object; a parent is the number of an object. -/
structure RuntimeCancellation where
  event : Bool := false
  reason : Option CancellationReason := none
  origin : Option CancellationOrigin := none
  parent : Option ℕ := none
deriving DecidableEq

/-- The objects in the order of their creation. -/
structure Tokens where
  objects : List RuntimeCancellation
  older : ∀ n parent, objects[n]?.bind RuntimeCancellation.parent = some parent → parent < n
  shown : ∀ node ∈ objects, node.reason.isSome = node.event ∧ node.origin.isSome = node.event

def cancelled (objects : List RuntimeCancellation) (n : ℕ) : Bool :=
  match objects[n]? with
  | none => false
  | some node => node.event || match node.parent with
    | none => false
    | some parent => if parent < n then cancelled objects parent else false
termination_by n

def reason (objects : List RuntimeCancellation) (n : ℕ) : Option CancellationReason :=
  match objects[n]? with
  | none => none
  | some node => node.reason.or <| match node.parent with
    | none => none
    | some parent => if parent < n then reason objects parent else none
termination_by n

def origin (objects : List RuntimeCancellation) (n : ℕ) : Option CancellationOrigin :=
  match objects[n]? with
  | none => none
  | some node =>
    if node.event then node.origin
    else match node.parent with
      | none => none
      | some parent => if cancelled objects parent then some .parent else none

inductive Call
  | create (parent : Option ℕ)
  | cancel (node : ℕ) (reason : CancellationReason) (origin : CancellationOrigin)
deriving DecidableEq

/-- The fields that cancel writes. -/
def cancelNode (node : RuntimeCancellation) (reason : CancellationReason)
    (origin : CancellationOrigin) : RuntimeCancellation :=
  { node with
    reason := some reason
    origin := some (if reason = .timeout then .timeout else origin)
    event := true }

namespace Tokens
variable (s : Tokens)

def create (parent : Option ℕ) : Tokens :=
  if known : ∀ p ∈ parent, p < s.objects.length then
    { objects := s.objects ++ [{ parent }]
      older := by
        intro n p h
        obtain old | rfl | new := Nat.lt_trichotomy n s.objects.length
        · rw [List.getElem?_append_left old] at h
          exact s.older n p h
        · rw [List.getElem?_concat_length] at h
          exact known p h
        · rw [List.getElem?_eq_none (by rw [List.length_append, List.length_singleton]; omega)] at h
          cases h
      shown := by
        intro node mem
        obtain mem | mem := List.mem_append.mp mem
        · exact s.shown node mem
        · rw [List.mem_singleton.mp mem]
          exact ⟨rfl, rfl⟩ }
  else s

def cancel (n : ℕ) (reason : CancellationReason) (origin : CancellationOrigin) : Tokens :=
  if cancelled s.objects n then s
  else
    { objects := s.objects.modify n fun node => cancelNode node reason origin
      older := by
        intro m p h
        refine s.older m p ?_
        rw [List.getElem?_modify] at h
        cases node : s.objects[m]? with
        | none => rw [node] at h; cases h
        | some node =>
          rw [node] at h
          split_ifs at h
          · exact h
          · exact h
      shown := by
        intro node mem
        obtain ⟨m, h⟩ := List.mem_iff_getElem?.mp mem
        rw [List.getElem?_modify] at h
        cases old : s.objects[m]? with
        | none => rw [old] at h; cases h
        | some before =>
          rw [old] at h
          split_ifs at h
          · cases h
            exact ⟨rfl, rfl⟩
          · cases h
            exact s.shown _ (List.mem_of_getElem? old) }

def step : Call → Tokens
  | .create parent => s.create parent
  | .cancel node reason origin => s.cancel node reason origin

def own (n : ℕ) : Bool := (s.objects[n]?).any RuntimeCancellation.event

def parent (n : ℕ) : Option ℕ := s.objects[n]?.bind RuntimeCancellation.parent

/-- One object is the other or above it. -/
def Above (above n : ℕ) : Prop :=
  Relation.ReflTransGen (fun child parent => s.parent child = some parent) n above

end Tokens

def after (calls : List Call) : Tokens := calls.foldl Tokens.step ⟨[], nofun, nofun⟩

section Views
variable (s : Tokens)

theorem cancelled_eq (n : ℕ) :
    cancelled s.objects n = (s.own n || (s.parent n).any (cancelled s.objects)) := by
  have older := s.older n
  rw [cancelled, Tokens.own, Tokens.parent]
  cases found : s.objects[n]? with
  | none => rfl
  | some node =>
    rw [found] at older
    cases link : node.parent with
    | none => simp [link]
    | some parent => simp [link, older parent link]

theorem reason_eq (n : ℕ) :
    reason s.objects n = (s.objects[n]?.bind RuntimeCancellation.reason).or
      ((s.parent n).bind (reason s.objects)) := by
  have older := s.older n
  rw [reason, Tokens.parent]
  cases found : s.objects[n]? with
  | none => rfl
  | some node =>
    rw [found] at older
    cases link : node.parent with
    | none => simp [link]
    | some parent => simp [link, older parent link]

theorem origin_eq (n : ℕ) :
    origin s.objects n = if s.own n then s.objects[n]?.bind RuntimeCancellation.origin
      else if (s.parent n).any (cancelled s.objects) then some .parent else none := by
  rw [origin, Tokens.own, Tokens.parent]
  cases found : s.objects[n]? with
  | none => rfl
  | some node =>
    cases link : node.parent with
    | none => simp [link]
    | some parent => simp [link]

theorem own_cancelled {n : ℕ} (h : s.own n = true) : cancelled s.objects n = true := by
  rw [cancelled_eq, h, Bool.true_or]

/-- An object is cancelled with those above it. -/
theorem cancelled_iff (n : ℕ) :
    cancelled s.objects n = true ↔ ∃ above, s.Above above n ∧ s.own above = true := by
  induction n using Nat.strongRecOn with
  | ind n ih =>
    rw [cancelled_eq, Bool.or_eq_true]
    constructor
    · rintro (own | up)
      · exact ⟨n, .refl, own⟩
      · cases link : s.parent n with
        | none => rw [link] at up; cases up
        | some parent =>
          rw [link] at up
          obtain ⟨above, path, own⟩ := (ih parent (s.older n parent link)).mp up
          exact ⟨above, .head link path, own⟩
    · rintro ⟨above, path, own⟩
      obtain rfl | ⟨parent, link, path⟩ := path.cases_head
      · exact Or.inl own
      · rw [link]
        exact Or.inr ((ih parent (s.older n parent link)).mpr ⟨above, path, own⟩)

variable {s} in
theorem own_shown {n : ℕ} (own : s.own n = true) :
    (s.objects[n]?.bind RuntimeCancellation.reason).isSome ∧
      (s.objects[n]?.bind RuntimeCancellation.origin).isSome := by
  rw [Tokens.own] at own
  cases found : s.objects[n]? with
  | none => rw [found] at own; cases own
  | some node =>
    rw [found] at own
    have event : node.event = true := own
    rw [← event]
    exact s.shown node (List.mem_of_getElem? found)

/-- A cancelled object shows a reason and an origin. -/
theorem cancelled_shows {n : ℕ} (h : cancelled s.objects n = true) :
    (reason s.objects n).isSome ∧ (origin s.objects n).isSome := by
  induction n using Nat.strongRecOn with
  | ind n ih =>
    rw [cancelled_eq] at h
    rw [reason_eq, origin_eq]
    by_cases own : s.own n = true
    · rw [if_pos own, Option.isSome_or, (own_shown own).1]
      exact ⟨rfl, (own_shown own).2⟩
    · rw [eq_false_of_ne_true own, Bool.false_or] at h
      rw [if_neg own, if_pos h]
      refine ⟨?_, rfl⟩
      cases link : s.parent n with
      | none => rw [link] at h; cases h
      | some parent =>
        rw [link] at h
        rw [Option.isSome_or, Bool.or_eq_true]
        exact Or.inr (ih parent (s.older n parent link) h).1

end Views

/-- Objects only come to be, and a cancelled one is not written again. -/
structure Extends (s next : Tokens) : Prop where
  length : s.objects.length ≤ next.objects.length
  parent : ∀ n < s.objects.length, next.parent n = s.parent n
  kept : ∀ n, cancelled s.objects n = true → next.objects[n]? = s.objects[n]?

section Extending
variable {s next last : Tokens}

theorem lt_of_cancelled {n : ℕ} (h : cancelled s.objects n = true) : n < s.objects.length := by
  by_contra outside
  rw [cancelled, List.getElem?_eq_none (Nat.le_of_not_lt outside)] at h
  cases h

/-- What a cancelled object shows stays. -/
theorem Extends.shows (h : Extends s next) {n : ℕ} (now : cancelled s.objects n = true) :
    cancelled next.objects n = true ∧ reason next.objects n = reason s.objects n ∧
      origin next.objects n = origin s.objects n := by
  induction n using Nat.strongRecOn with
  | ind n ih =>
    have same := h.kept n now
    have own : next.own n = s.own n := by rw [Tokens.own, Tokens.own, same]
    have link := h.parent n (lt_of_cancelled now)
    rw [cancelled_eq, own, link, reason_eq, reason_eq, origin_eq, origin_eq, own, link, same]
    have above := cancelled_eq s n
    rw [now] at above
    by_cases self : s.own n = true
    · have shown : (s.objects[n]?.bind RuntimeCancellation.reason).isSome :=
        (own_shown self).1
      obtain ⟨reason, shown⟩ := Option.isSome_iff_exists.mp shown
      rw [self, shown]
      exact ⟨rfl, rfl, rfl⟩
    · rw [eq_false_of_ne_true self, Bool.false_or] at above ⊢
      cases link : s.parent n with
      | none => rw [link] at above; cases above
      | some parent =>
        rw [link] at above
        have before : cancelled s.objects parent = true := above.symm
        obtain ⟨up, reason, -⟩ := ih parent (s.older n parent link) before
        rw [Option.bind_some, Option.bind_some, Option.any_some, Option.any_some, up, reason,
          before]
        exact ⟨rfl, rfl, rfl⟩

theorem Extends.refl (s : Tokens) : Extends s s :=
  ⟨Nat.le_refl _, fun _ _ => rfl, fun _ _ => rfl⟩

theorem Extends.trans (first : Extends s next) (second : Extends next last) : Extends s last where
  length := Nat.le_trans first.length second.length
  parent n known := (second.parent n (Nat.lt_of_lt_of_le known first.length)).trans
    (first.parent n known)
  kept n now := (second.kept n (first.shows now).1).trans (first.kept n now)

theorem extends_create (s : Tokens) (parent : Option ℕ) : Extends s (s.create parent) := by
  rw [Tokens.create]
  split_ifs
  · refine ⟨?_, fun n known => ?_, fun n now => List.getElem?_append_left (lt_of_cancelled now)⟩
    · rw [List.length_append]
      exact Nat.le_add_right _ _
    · rw [Tokens.parent, Tokens.parent, List.getElem?_append_left known]
  · exact Extends.refl s

theorem parent_cancel (s : Tokens) (n : ℕ) (reason : CancellationReason)
    (origin : CancellationOrigin) (m : ℕ) : (s.cancel n reason origin).parent m = s.parent m := by
  rw [Tokens.cancel]
  split_ifs
  · rfl
  · rw [Tokens.parent, Tokens.parent, List.getElem?_modify]
    cases s.objects[m]? with
    | none => rfl
    | some node =>
      by_cases same : n = m
      · simp [same, cancelNode]
      · simp [same]

theorem extends_cancel (s : Tokens) (n : ℕ) (reason : CancellationReason)
    (origin : CancellationOrigin) : Extends s (s.cancel n reason origin) := by
  refine ⟨?_, fun m _ => parent_cancel s n reason origin m, fun m now => ?_⟩
  · rw [Tokens.cancel]
    split_ifs
    · exact Nat.le_refl _
    · exact Nat.le_of_eq (List.length_modify ..).symm
  · rw [Tokens.cancel]
    split_ifs with already
    · rfl
    · have other : n ≠ m := by
        rintro rfl
        exact already now
      exact List.getElem?_modify_ne _ _ other

theorem extends_step (s : Tokens) (call : Call) : Extends s (s.step call) := by
  cases call with
  | create parent => exact extends_create s parent
  | cancel n reason origin => exact extends_cancel s n reason origin

theorem extends_run (s : Tokens) (calls : List Call) : Extends s (calls.foldl Tokens.step s) := by
  induction calls generalizing s with
  | nil => exact Extends.refl s
  | cons call calls ih => exact (extends_step s call).trans (ih _)

/-- Cancelling an object sets its own event only. -/
theorem own_cancel (s : Tokens) (n : ℕ) (reason : CancellationReason)
    (origin : CancellationOrigin) {m : ℕ} (h : (s.cancel n reason origin).own m = true) :
    s.own m = true ∨ (m = n ∧ n < s.objects.length) := by
  rw [Tokens.cancel] at h
  split_ifs at h
  · exact Or.inl h
  · by_cases same : n = m
    · refine Or.inr ⟨same.symm, ?_⟩
      by_contra outside
      rw [Tokens.own, List.getElem?_eq_none] at h
      · cases h
      · rw [List.length_modify]
        omega
    · rw [Tokens.own, List.getElem?_modify_ne _ _ same] at h
      exact Or.inl h

theorem own_create (s : Tokens) (parent : Option ℕ) {m : ℕ}
    (h : (s.create parent).own m = true) : s.own m = true := by
  rw [Tokens.create] at h
  split_ifs at h
  · obtain old | new := Nat.lt_or_ge m s.objects.length
    · rwa [Tokens.own, List.getElem?_append_left old] at h
    · rw [Tokens.own, List.getElem?_append_right new] at h
      cases place : m - s.objects.length with
      | zero => rw [place] at h; cases h
      | succ _ => rw [place] at h; cases h
  · exact h

/-- A call of cancel leaves its object cancelled. -/
theorem cancelled_cancel (s : Tokens) {n : ℕ} (known : n < s.objects.length)
    (reason : CancellationReason) (origin : CancellationOrigin) :
    cancelled (s.cancel n reason origin).objects n = true := by
  rw [Tokens.cancel]
  split_ifs with already
  · exact already
  · rw [cancelled, List.getElem?_modify_eq, List.getElem?_eq_getElem known]
    rfl

/-- A call of cancel reaches the objects below its own and no others. -/
theorem cancelled_cancel_iff (s : Tokens) {n : ℕ} (known : n < s.objects.length)
    (reason : CancellationReason) (origin : CancellationOrigin) (m : ℕ) :
    cancelled (s.cancel n reason origin).objects m = true ↔
      cancelled s.objects m = true ∨ s.Above n m := by
  have reached := cancelled_cancel s known reason origin
  have kept := extends_cancel s n reason origin
  have links (k : ℕ) : (s.cancel n reason origin).parent k = s.parent k := parent_cancel ..
  have paths : (s.cancel n reason origin).Above = s.Above := by
    funext above k
    rw [Tokens.Above, Tokens.Above]
    simp only [links]
  constructor
  · intro h
    obtain ⟨above, path, own⟩ := (cancelled_iff _ m).mp h
    rw [paths] at path
    obtain own | ⟨rfl, -⟩ := own_cancel _ _ _ _ own
    · exact Or.inl ((cancelled_iff _ m).mpr ⟨above, path, own⟩)
    · exact Or.inr path
  · rintro (before | path)
    · exact (kept.shows before).1
    · obtain ⟨top, up, own⟩ := (cancelled_iff _ n).mp reached
      rw [← paths] at path
      exact (cancelled_iff _ m).mpr ⟨top, path.trans up, own⟩

end Extending

section Runs

theorem after_append (calls later : List Call) :
    after (calls ++ later) = later.foldl Tokens.step (after calls) := List.foldl_append ..

theorem extends_after (calls later : List Call) :
    Extends (after calls) (after (calls ++ later)) := by
  rw [after_append]
  exact extends_run _ _

/-- A call of cancel on an object that existed. -/
def CancelledDirectly (calls : List Call) (n : ℕ) : Prop :=
  ∃ before reason origin, before ++ [.cancel n reason origin] <+: calls ∧
    n < (after before).objects.length

theorem directly_of_own {calls : List Call} {n : ℕ} (own : (after calls).own n = true) :
    CancelledDirectly calls n := by
  induction calls using List.reverseRecOn with
  | nil => cases own
  | append_singleton calls call ih =>
    rw [after_append] at own
    have before (own : (after calls).own n = true) :
        CancelledDirectly (calls ++ [call]) n := by
      obtain ⟨before, reason, origin, part, known⟩ := ih own
      exact ⟨before, reason, origin, part.trans (List.prefix_append _ _), known⟩
    cases call with
    | create parent => exact before (own_create _ _ own)
    | cancel m reason origin =>
      obtain old | ⟨rfl, known⟩ := own_cancel _ _ _ _ own
      · exact before old
      · exact ⟨calls, reason, origin, List.prefix_refl _, known⟩

theorem cancelled_of_directly {calls : List Call} {n : ℕ} (h : CancelledDirectly calls n) :
    cancelled (after calls).objects n = true := by
  obtain ⟨before, reason, origin, ⟨later, rfl⟩, known⟩ := h
  refine ((extends_after _ later).shows ?_).1
  rw [after_append]
  exact cancelled_cancel _ known _ _

/-- In every run of calls a cancelled object stays so with the reason and the origin that it shows;
the cancelled objects are those on which, or above which, cancel was called; and one more call
reaches what is below its object and nothing else. -/
theorem cancellation_tree (calls : List Call) (n : ℕ) :
    (cancelled (after calls).objects n = true → (reason (after calls).objects n).isSome ∧
      (origin (after calls).objects n).isSome ∧ ∀ later,
        cancelled (after (calls ++ later)).objects n = true ∧
        reason (after (calls ++ later)).objects n = reason (after calls).objects n ∧
        origin (after (calls ++ later)).objects n = origin (after calls).objects n) ∧
    (cancelled (after calls).objects n = true ↔
      ∃ above, (after calls).Above above n ∧ CancelledDirectly calls above) ∧
    (∀ m reason origin, m < (after calls).objects.length →
      (cancelled (after (calls ++ [.cancel m reason origin])).objects n = true ↔
        cancelled (after calls).objects n = true ∨ (after calls).Above m n)) := by
  refine ⟨fun now => ?_, ?_, fun m reason origin known => ?_⟩
  · have shows := cancelled_shows _ now
    exact ⟨shows.1, shows.2, fun later => (extends_after calls later).shows now⟩
  · rw [cancelled_iff]
    constructor
    · rintro ⟨above, path, own⟩
      exact ⟨above, path, directly_of_own own⟩
    · rintro ⟨above, path, directly⟩
      obtain ⟨top, up, own⟩ := (cancelled_iff _ _).mp (cancelled_of_directly directly)
      exact ⟨top, path.trans up, own⟩
  · rw [after_append]
    exact cancelled_cancel_iff _ known _ _ n

end Runs

end RoboAgent.CancellationTrees
