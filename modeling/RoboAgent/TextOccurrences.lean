import Mathlib

/-! Where a pattern stands in a text. Occurrences may overlap; a scan that goes on after each one it
finds gives the leftmost of them that do not, and any other way to tell where an occurrence starts
and ends is scanned in the same way. -/

namespace RoboAgent.TextOccurrences

section
variable {α : Type}

/-- The pattern stands at the position. -/
def OccursAt (pattern text : List α) (p : Nat) : Prop :=
  p ≤ text.length ∧ pattern <+: text.drop p

/-- From a start on, the starts of the leftmost occurrences that do not overlap, where each
occurrence has a start and an end. -/
inductive Leftmost (Occurs : Nat → Nat → Prop) : Nat → List Nat → Prop
  | none {start : Nat} (out : ∀ p stop, start ≤ p → ¬Occurs p stop) : Leftmost Occurs start []
  | next {start p stop : Nat} {rest : List Nat} (later : start ≤ p) (here : Occurs p stop)
      (first : ∀ q stop', start ≤ q → q < p → ¬Occurs q stop')
      (others : Leftmost Occurs stop rest) : Leftmost Occurs start (p :: rest)

variable [DecidableEq α] {pattern text : List α} {start p : Nat}

/-- The first position from a start on at which the pattern stands. -/
def find (pattern text : List α) (start : Nat) : Option Nat :=
  (List.range' start (text.length + 1 - start)).find? fun p => pattern.isPrefixOf (text.drop p)

theorem find_eq_some : find pattern text start = some p ↔
    start ≤ p ∧ OccursAt pattern text p ∧ ∀ q, start ≤ q → q < p → ¬OccursAt pattern text q := by
  rw [find, List.find?_range'_eq_some, List.mem_range'_1, List.isPrefixOf_iff_prefix]
  constructor
  · rintro ⟨stands, ⟨later, short⟩, first⟩
    refine ⟨later, ⟨by omega, stands⟩, fun q from_ before occurs => ?_⟩
    have no := first q from_ before
    rw [List.isPrefixOf_iff_prefix.mpr occurs.2] at no
    cases no
  · rintro ⟨later, ⟨short, stands⟩, first⟩
    refine ⟨stands, ⟨later, by omega⟩, fun q from_ before => ?_⟩
    rw [Bool.not_eq_true', Bool.eq_false_iff]
    intro yes
    exact first q from_ before ⟨by omega, List.isPrefixOf_iff_prefix.mp yes⟩

theorem find_eq_none :
    find pattern text start = none ↔ ∀ p, start ≤ p → ¬OccursAt pattern text p := by
  rw [find, List.find?_eq_none]
  constructor
  · intro out p later occurs
    refine out p (List.mem_range'_1.mpr ⟨later, ?_⟩) (List.isPrefixOf_iff_prefix.mpr occurs.2)
    have short := occurs.1
    omega
  · intro out p inside yes
    have range := List.mem_range'_1.mp inside
    exact out p range.1 ⟨by omega, List.isPrefixOf_iff_prefix.mp yes⟩

theorem find_lt (found : find pattern text start = some p) :
    text.length + 1 - (p + max 1 pattern.length) < text.length + 1 - start := by
  obtain ⟨later, ⟨short, -⟩, -⟩ := find_eq_some.mp found
  omega

/-- The positions at which a scan finds the pattern, going on after each. -/
def occurrences (pattern text : List α) (start : Nat) : List Nat :=
  match found : find pattern text start with
  | none => []
  | some p => p :: occurrences pattern text (p + max 1 pattern.length)
termination_by text.length + 1 - start
decreasing_by exact find_lt found

theorem occurrences_none (found : find pattern text start = none) :
    occurrences pattern text start = [] := by
  rw [occurrences]
  split
  · rfl
  · rename_i other
    rw [found] at other
    cases other

theorem occurrences_some (found : find pattern text start = some p) :
    occurrences pattern text start = p :: occurrences pattern text (p + max 1 pattern.length) := by
  rw [occurrences]
  split
  · rename_i other
    rw [found] at other
    cases other
  · rename_i q other
    rw [found] at other
    cases other
    rfl

theorem leftmost_occurrences (filled : pattern ≠ []) : Leftmost
    (fun p stop => OccursAt pattern text p ∧ stop = p + pattern.length) start
    (occurrences pattern text start) := by
  have size : max 1 pattern.length = pattern.length :=
    max_eq_right (List.length_pos_of_ne_nil filled)
  induction start using occurrences.induct pattern text with
  | case1 start found =>
    rw [occurrences_none found]
    exact .none fun p stop later occurs => find_eq_none.mp found p later occurs.1
  | case2 start p found ih =>
    obtain ⟨later, occurs, first⟩ := find_eq_some.mp found
    rw [size] at ih
    rw [occurrences_some found, size]
    exact .next later ⟨occurs, rfl⟩ (fun q _ from_ before other => first q from_ before other.1) ih

/-- A scan finds one occurrence just when there is one and no two of them are apart. -/
theorem length_occurrences_eq_one (filled : pattern ≠ []) :
    (occurrences pattern text 0).length = 1 ↔ (∃ p, OccursAt pattern text p) ∧
      ∀ p q, OccursAt pattern text p → OccursAt pattern text q → q < p + pattern.length := by
  have size : max 1 pattern.length = pattern.length :=
    max_eq_right (List.length_pos_of_ne_nil filled)
  cases found : find pattern text 0 with
  | none =>
    have out := find_eq_none.mp found
    rw [occurrences_none found]
    exact iff_of_false nofun fun h => h.1.elim fun p occurs => out p (Nat.zero_le p) occurs
  | some p =>
    obtain ⟨-, occurs, first⟩ := find_eq_some.mp found
    rw [occurrences_some found, size, List.length_cons]
    cases later : find pattern text (p + pattern.length) with
    | none =>
      have out := find_eq_none.mp later
      rw [occurrences_none later]
      refine iff_of_true rfl ⟨⟨p, occurs⟩, fun p' q occurs' occursq => ?_⟩
      by_contra apart
      have ahead : p ≤ p' := by
        by_contra before
        exact first p' (Nat.zero_le p') (by omega) occurs'
      exact out q (by omega) occursq
    | some q =>
      obtain ⟨apart, occursq, -⟩ := find_eq_some.mp later
      rw [occurrences_some later, List.length_cons]
      exact iff_of_false (by omega) fun h => absurd (h.2 p q occurs occursq) (by omega)

/-- The only occurrence is the one a search finds. -/
theorem find_of_unique (occurs : OccursAt pattern text p)
    (only : ∀ q, OccursAt pattern text q → q = p) : find pattern text 0 = some p := by
  refine find_eq_some.mpr ⟨Nat.zero_le p, occurs, fun q _ before occursq => ?_⟩
  rw [only q occursq] at before
  exact Nat.lt_irrefl p before

end

section
variable {Occurs : Nat → Nat → Prop} {start : Nat} {positions : List Nat}

theorem Leftmost.occurs (h : Leftmost Occurs start positions) :
    ∀ p ∈ positions, ∃ stop, Occurs p stop := by
  induction h with
  | none _ => exact List.forall_mem_nil _
  | next _ here _ _ ih => exact List.forall_mem_cons.mpr ⟨⟨_, here⟩, ih⟩

theorem Leftmost.start_le (forward : ∀ p stop, Occurs p stop → p < stop)
    (h : Leftmost Occurs start positions) : ∀ p ∈ positions, start ≤ p := by
  induction h with
  | none _ => exact List.forall_mem_nil _
  | next later here _ _ ih =>
    refine List.forall_mem_cons.mpr ⟨later, fun p mem => ?_⟩
    have ahead := forward _ _ here
    have after := ih p mem
    omega

theorem Leftmost.increasing (forward : ∀ p stop, Occurs p stop → p < stop)
    (h : Leftmost Occurs start positions) : positions.Pairwise (· < ·) := by
  induction h with
  | none _ => exact List.Pairwise.nil
  | next later here _ others ih =>
    refine List.pairwise_cons.mpr ⟨fun q mem => ?_, ih⟩
    exact (forward _ _ here).trans_le (others.start_le forward q mem)

/-- Where each start has one end, there is only one scan. -/
theorem Leftmost.unique (single : ∀ p stop stop', Occurs p stop → Occurs p stop' → stop = stop')
    {others : List Nat} (h : Leftmost Occurs start positions)
    (h' : Leftmost Occurs start others) : positions = others := by
  induction h generalizing others with
  | none out =>
    cases h' with
    | none _ => rfl
    | next later here _ _ => exact absurd here (out _ _ later)
  | @next start p stop rest later here first _ ih =>
    cases h' with
    | none out => exact absurd here (out _ _ later)
    | @next _ q stop' rest' later' here' first' others' =>
      obtain below | rfl | above := Nat.lt_trichotomy p q
      · exact absurd here (first' _ _ later below)
      · rw [single _ _ _ here here'] at ih
        rw [ih others']
      · exact absurd here' (first _ _ later' above)

end

/-- The text with what stands between a position and so many items later replaced. -/
def splice {α : Type} (text new : List α) (p size : Nat) : List α :=
  text.take p ++ new ++ text.drop (p + size)

end RoboAgent.TextOccurrences
