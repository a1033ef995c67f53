import RoboAgent.ExchangeGrammar

/-! The window of recent messages. The groups are taken from the newest back while they fit, the
newest in any case; what is taken is the longest run of whole groups at the end that fits. -/

namespace RoboAgent.WindowSelection
open RoboAgent.Messages RoboAgent.SessionTranscript RoboAgent.ContextCompaction
open RoboAgent.ExchangeGrammar
open RoboAgent.FalliblePrograms (map_eq_ok)

section Selecting
variable {A : Type}

/-- The loop of _select_recent_groups, over the groups from the newest back. -/
def selectBack (maxMessages : ℕ) (selected : List (List A)) (count : ℕ) :
    List (List A) → List (List A)
  | [] => selected
  | group :: earlier =>
    if selected ≠ [] ∧ maxMessages < count + group.length then selected
    else
      let selected := selected ++ [group]
      let count := count + group.length
      if maxMessages ≤ count then selected else selectBack maxMessages selected count earlier

def selectRecentGroups (groups : List (List A)) (maxMessages : ℕ) : List A :=
  (selectBack maxMessages [] 0 groups.reverse).reverse.flatten

variable {maxMessages : ℕ}

/-- After the first group the loop takes groups as long as they fit, and stops at one that does
not. -/
theorem selectBack_spec {selected : List (List A)} {count : ℕ} {groups : List (List A)}
    (some : selected ≠ []) (below : count < maxMessages) (nonempty : ∀ group ∈ groups, group ≠ []) :
    ∃ taken left, groups = taken ++ left ∧
      selectBack maxMessages selected count groups = selected ++ taken ∧
      count + taken.flatten.length ≤ maxMessages ∧
      ∀ group ∈ left.head?, maxMessages < count + taken.flatten.length + group.length := by
  induction groups generalizing selected count with
  | nil => exact ⟨[], [], rfl, (List.append_nil selected).symm, below.le, nofun⟩
  | cons group earlier ih =>
    rw [selectBack]
    obtain ⟨-, nonempty'⟩ := List.forall_mem_cons.mp nonempty
    by_cases exceeds : maxMessages < count + group.length
    · refine ⟨[], group :: earlier, rfl, ?_, below.le, ?_⟩
      · rw [if_pos ⟨some, exceeds⟩, List.append_nil]
      · rintro _ ⟨⟩
        exact exceeds
    · rw [if_neg fun h => exceeds h.2]
      dsimp only
      by_cases full : maxMessages ≤ count + group.length
      · have length : [group].flatten.length = group.length := by
          rw [List.flatten_singleton]
        refine ⟨[group], earlier, rfl, if_pos full, ?_, fun next first => ?_⟩
        · rw [length]
          exact Nat.le_of_not_lt exceeds
        · have positive := List.length_pos_iff.mpr (nonempty' next (List.mem_of_mem_head? first))
          rw [length]
          omega
      · have room : count + group.length < maxMessages := Nat.lt_of_not_le full
        obtain ⟨taken, left, split, result, fits, stop⟩ :=
          ih (List.append_ne_nil_of_right_ne_nil selected (List.cons_ne_nil group [])) room
            nonempty'
        refine ⟨group :: taken, left, congrArg (group :: ·) split, ?_, ?_, fun next first => ?_⟩
        · rw [if_neg full, result, List.append_assoc]
          rfl
        · rw [List.flatten_cons, List.length_append]
          omega
        · have limit := stop next first
          rw [List.flatten_cons, List.length_append]
          omega

/-- The longest run of groups at the end that fits; the newest group in any case. -/
structure Selected (maxMessages : ℕ) (groups kept : List (List A)) : Prop where
  recent : kept <:+ groups
  newest : groups ≠ [] → kept ≠ []
  fits : kept.flatten.length ≤ maxMessages ∨ kept.length = 1
  longest : ∀ other, other <:+ groups → other.flatten.length ≤ maxMessages → other <:+ kept

theorem length_reverse_flatten (groups : List (List A)) :
    groups.reverse.flatten.length = groups.flatten.length := by
  rw [List.length_flatten, List.length_flatten, List.map_reverse, List.sum_reverse]

/-- What is taken from the newest back, up to a group that does not fit any more. -/
theorem selected_of_split {groups taken left : List (List A)} {newest : List A}
    (split : groups.reverse = (newest :: taken) ++ left)
    (fits : (newest :: taken).flatten.length ≤ maxMessages ∨ taken = [])
    (stop : ∀ group ∈ left.head?,
      maxMessages < (newest :: taken).flatten.length + group.length) :
    Selected maxMessages groups (newest :: taken).reverse := by
  refine ⟨?_, fun _ => ?_, ?_, fun other suffix small => ?_⟩
  · rw [← List.reverse_prefix, List.reverse_reverse, split]
    exact List.prefix_append _ _
  · rw [List.reverse_ne_nil_iff]
    exact List.cons_ne_nil _ _
  · rw [length_reverse_flatten]
    refine fits.imp_right fun none => ?_
    rw [none]
    rfl
  · rw [← List.reverse_prefix, split] at suffix
    rw [← List.reverse_prefix, List.reverse_reverse]
    obtain within | ⟨more, longer⟩ :=
      List.prefix_or_prefix_of_prefix suffix (List.prefix_append (newest :: taken) left)
    · exact within
    · cases more with
      | nil => exact ⟨[], by rw [List.append_nil, ← longer, List.append_nil]⟩
      | cons group more =>
        rw [← longer] at suffix
        obtain ⟨rest, same⟩ := (List.prefix_append_right_inj _).mp suffix
        have first : group ∈ left.head? := by
          rw [← same]
          rfl
        have exceeds := stop group first
        have length : (group :: more).flatten.length = group.length + more.flatten.length := by
          rw [List.flatten_cons, List.length_append]
        rw [← length_reverse_flatten, ← longer, List.flatten_append, List.length_append,
          length] at small
        omega

theorem select_selected (maxMessages : ℕ) {groups : List (List A)}
    (nonempty : ∀ group ∈ groups, group ≠ []) :
    ∃ kept, selectRecentGroups groups maxMessages = kept.flatten ∧
      Selected maxMessages groups kept := by
  cases back : groups.reverse with
  | nil =>
    rw [List.reverse_eq_nil_iff] at back
    subst back
    exact ⟨[], rfl, List.suffix_refl _, fun some => some, Or.inl (Nat.zero_le _),
      fun other suffix _ => suffix⟩
  | cons newest earlier =>
    have nonempty' : ∀ group ∈ newest :: earlier, group ≠ [] := by
      rw [← back]
      exact fun group mem => nonempty group (List.mem_reverse.mp mem)
    obtain ⟨-, later⟩ := List.forall_mem_cons.mp nonempty'
    have alone : ([newest] : List (List A)).flatten.length = newest.length := by
      rw [List.flatten_singleton]
    have start : selectBack maxMessages [] 0 (newest :: earlier) =
        if maxMessages ≤ newest.length then [newest]
        else selectBack maxMessages [newest] newest.length earlier := by
      rw [selectBack, if_neg fun h => h.1 rfl, Nat.zero_add]
      rfl
    rw [selectRecentGroups, back, start]
    by_cases full : maxMessages ≤ newest.length
    · rw [if_pos full]
      have split : groups.reverse = [newest] ++ earlier := back
      refine ⟨[newest].reverse, rfl, selected_of_split split (Or.inr rfl) fun next first => ?_⟩
      have positive := List.length_pos_iff.mpr (later next (List.mem_of_mem_head? first))
      rw [alone]
      omega
    · obtain ⟨taken, left, rfl, result, fits, stop⟩ := selectBack_spec
        (List.cons_ne_nil newest []) (Nat.lt_of_not_le full) later
      rw [if_neg full, result]
      refine ⟨(newest :: taken).reverse, rfl,
        selected_of_split back (Or.inl ?_) fun next first => ?_⟩
      · rw [List.flatten_cons, List.length_append]
        exact fits
      · rw [List.flatten_cons, List.length_append]
        exact stop next first

end Selecting

/-- The manager, with the bound its constructor admits. -/
structure WindowContextManager where
  maxMessages : ℕ
  positive : 1 ≤ maxMessages

/-- The messages of the context that prepare makes of a transcript. -/
def WindowContextManager.select (manager : WindowContextManager)
    (transcript : List AgentMessage) : Except ContextError (List AgentMessage) := do
  let groups ← messageGroups transcript
  return selectRecentGroups groups manager.maxMessages

theorem group_nonempty {transcript : List AgentMessage} {groups : List (List AgentMessage)}
    (made : messageGroups transcript = .ok groups) : ∀ group ∈ groups, group ≠ [] := by
  induction transcript using messageGroups.induct generalizing groups with
  | case1 =>
    rw [messageGroups] at made
    cases made
    exact List.forall_mem_nil _
  | case2 message rest empty ih =>
    rw [messageGroups, if_pos empty] at made
    obtain ⟨later, made', rfl⟩ := map_eq_ok made
    exact List.forall_mem_cons.mpr ⟨List.cons_ne_nil _ _, ih made'⟩
  | case3 message rest calls incomplete =>
    rw [messageGroups, if_neg calls, if_pos incomplete] at made
    cases made
  | case4 message rest calls complete mismatched =>
    rw [messageGroups, if_neg calls, if_neg complete, if_pos mismatched] at made
    cases made
  | case5 message rest calls complete matched ih =>
    rw [messageGroups, if_neg calls, if_neg complete, if_neg matched] at made
    obtain ⟨later, made', rfl⟩ := map_eq_ok made
    exact List.forall_mem_cons.mpr ⟨List.cons_ne_nil _ _, ih made'⟩
  | case6 message rest =>
    rw [messageGroups] at made
    cases made
  | case7 message rest ih =>
    rw [messageGroups] at made
    obtain ⟨later, made', rfl⟩ := map_eq_ok made
    exact List.forall_mem_cons.mpr ⟨List.cons_ne_nil _ _, ih made'⟩

/-- Of a valid transcript the manager selects the longest run of whole groups at its end that fits,
the newest group in any case; what it selects is a valid transcript. -/
theorem window_selects (manager : WindowContextManager) (limits : MediaLimits)
    (transcript : List AgentMessage) (valid : validateTranscript limits transcript = true) :
    ∃ groups kept, messageGroups transcript = .ok groups ∧
      manager.select transcript = .ok kept.flatten ∧
      Selected manager.maxMessages groups kept ∧ kept.flatten <:+ transcript ∧
      validateTranscript limits kept.flatten = true := by
  obtain ⟨admitted, grammar⟩ := validateTranscript_iff.mp valid
  obtain ⟨groups, made⟩ := (messageGroups_iff transcript).mpr grammar
  obtain ⟨flat, each⟩ := messageGroups_spec made
  obtain ⟨kept, selected, chosen⟩ := select_selected manager.maxMessages (group_nonempty made)
  have recent : kept.flatten <:+ transcript := by
    obtain ⟨dropped, split⟩ := chosen.recent
    refine ⟨dropped.flatten, ?_⟩
    rw [← List.flatten_append, split, flat]
  refine ⟨groups, kept, made, ?_, chosen, recent, validateTranscript_iff.mpr ⟨?_, ?_⟩⟩
  · rw [WindowContextManager.select, made, ← selected]
    rfl
  · exact fun message mem => admitted message (recent.subset mem)
  · exact grammar_flatten fun group mem => each group (chosen.recent.subset mem)

/-- A window of one message keeps the newest exchange whole. -/
theorem window_selects_exchange :
    ∃ kept : List (List AgentMessage), kept.length = 1 ∧ kept.flatten =
        [.assistant SessionCommits.calling, .toolResult SessionCommits.answered] ∧
      validateTranscript {} kept.flatten = true := by
  obtain ⟨groups, kept, -, selected, chosen, -, valid⟩ := window_selects ⟨1, Nat.le_refl 1⟩ {}
    [.assistant SessionCommits.calling, .toolResult SessionCommits.answered] (by decide)
  have computed : WindowContextManager.select ⟨1, Nat.le_refl 1⟩
      [.assistant SessionCommits.calling, .toolResult SessionCommits.answered] =
        .ok [.assistant SessionCommits.calling, .toolResult SessionCommits.answered] := by
    decide +kernel
  have flat := Except.ok.inj (selected.symm.trans computed)
  refine ⟨kept, chosen.fits.resolve_left fun small => ?_, flat, valid⟩
  rw [flat] at small
  exact absurd small (by decide)

end RoboAgent.WindowSelection
