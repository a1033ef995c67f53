import Mathlib
import RoboAgent.FalliblePrograms

/-! Lists that are cut down, one element at a time, until they pass a test. Some of the elements
must stay; of the others the last goes first. -/

namespace RoboAgent.PriorityTrimming
open RoboAgent.FalliblePrograms (Raises ok_bind raises_error raises_ok)

variable {α ε : Type} {keep : α → Bool} {items kept shorter : List α}

/-- The list without the last element that need not stay. -/
def removeLast (keep : α → Bool) : List α → Option (List α)
  | [] => none
  | a :: rest =>
    match removeLast keep rest with
    | some shorter => some (a :: shorter)
    | none => if keep a then none else some rest

/-- Every element that must stay is there, and a first part of the others, in the old order. -/
structure Thinned (keep : α → Bool) (items kept : List α) : Prop where
  sublist : kept.Sublist items
  staying : kept.filter keep = items.filter keep
  others : (kept.filter fun a => !keep a) <+: items.filter fun a => !keep a

namespace Thinned

theorem refl (items : List α) : Thinned keep items items :=
  ⟨List.Sublist.refl _, rfl, List.prefix_rfl⟩

theorem trans (h : Thinned keep items shorter) (h' : Thinned keep shorter kept) :
    Thinned keep items kept :=
  ⟨h'.sublist.trans h.sublist, h'.staying.trans h.staying, h'.others.trans h.others⟩

theorem mem (h : Thinned keep items kept) {a : α} (inside : a ∈ items) (stays : keep a = true) :
    a ∈ kept := by
  have staying : a ∈ items.filter keep := List.mem_filter.mpr ⟨inside, stays⟩
  rw [← h.staying] at staying
  exact (List.mem_filter.mp staying).1

theorem cons (a : α) (h : Thinned keep items kept) : Thinned keep (a :: items) (a :: kept) := by
  refine ⟨h.sublist.cons_cons a, ?_, ?_⟩
  · rw [List.filter_cons, List.filter_cons, h.staying]
  · rw [List.filter_cons, List.filter_cons]
    split_ifs
    · exact List.cons_prefix_cons.mpr ⟨rfl, h.others⟩
    · exact h.others

end Thinned

theorem removeLast_eq_none : removeLast keep items = none ↔ ∀ a ∈ items, keep a = true := by
  induction items with
  | nil => exact iff_of_true rfl nofun
  | cons a rest ih =>
    rw [removeLast, List.forall_mem_cons, ← ih]
    cases removeLast keep rest with
    | some shorter => exact iff_of_false nofun nofun
    | none =>
      cases keep a with
      | true => exact iff_of_true rfl ⟨rfl, rfl⟩
      | false => exact iff_of_false nofun nofun

theorem removeLast_thinned (h : removeLast keep items = some shorter) :
    Thinned keep items shorter ∧ shorter.length < items.length := by
  induction items generalizing shorter with
  | nil => cases h
  | cons a rest ih =>
    rw [removeLast] at h
    split at h
    · rename_i removed
      cases h
      obtain ⟨thinned, less⟩ := ih removed
      exact ⟨thinned.cons a, Nat.succ_lt_succ less⟩
    · rename_i none_left
      split_ifs at h with stays
      cases h
      have staying := removeLast_eq_none.mp none_left
      refine ⟨⟨List.sublist_cons_self .., ?_, ?_⟩, Nat.lt_succ_self _⟩
      · rw [List.filter_cons, if_neg stays]
      · rw [List.filter_eq_nil_iff.mpr fun b mem => by rw [staying b mem]; nofun]
        exact List.nil_prefix

/-- Remove elements until the list passes. Where none is left to remove, `exhausted` decides. -/
def trim (keep : α → Bool) (fits : List α → Except ε Bool)
    (exhausted : List α → Except ε (List α)) (items : List α) : Except ε (List α) := do
  if ← fits items then .ok items
  else
    match _removed : removeLast keep items with
    | none => exhausted items
    | some shorter => trim keep fits exhausted shorter
termination_by items.length
decreasing_by exact (removeLast_thinned _removed).2

/-- How a trimming ends, at a list it got to. -/
inductive Ends (keep : α → Bool) (fits : List α → Except ε Bool)
    (exhausted : List α → Except ε (List α)) (last : List α) : Except ε (List α) → Prop
  | raised {error : ε} (h : fits last = .error error) : Ends keep fits exhausted last (.error error)
  | fits (h : fits last = .ok true) : Ends keep fits exhausted last (.ok last)
  | exhausted (h : fits last = .ok false) (all : ∀ a ∈ last, keep a = true) :
    Ends keep fits exhausted last (exhausted last)

theorem trim_ends (keep : α → Bool) (fits : List α → Except ε Bool)
    (exhausted : List α → Except ε (List α)) (items : List α) :
    ∃ last, Thinned keep items last ∧ Ends keep fits exhausted last (trim keep fits exhausted items)
    := by
  induction items using trim.induct keep with
  | case1 items ih =>
    rw [trim]
    cases tested : fits items with
    | error error => exact ⟨items, .refl items, .raised tested⟩
    | ok passed =>
      rw [ok_bind]
      cases passed with
      | true => exact ⟨items, .refl items, .fits tested⟩
      | false =>
        rw [if_neg Bool.false_ne_true]
        split
        · rename_i none_left
          exact ⟨items, .refl items, .exhausted tested (removeLast_eq_none.mp none_left)⟩
        · rename_i shorter removed
          obtain ⟨last, thinned, ends⟩ := ih shorter removed
          exact ⟨last, (removeLast_thinned removed).1.trans thinned, ends⟩

theorem trim_raises {P : ε → Prop} {fits : List α → Except ε Bool}
    {exhausted : List α → Except ε (List α)} (tests : ∀ last, Thinned keep items last →
      Raises P (fits last)) (stops : ∀ last, Thinned keep items last → Raises P (exhausted last)) :
    Raises P (trim keep fits exhausted items) := by
  obtain ⟨last, thinned, ends⟩ := trim_ends keep fits exhausted items
  generalize trim keep fits exhausted items = result at ends
  cases ends with
  | raised h => exact raises_error (tests last thinned _ h)
  | fits _ => exact raises_ok last
  | exhausted _ _ => exact stops last thinned

theorem trim_eq_ok {fits : List α → Except ε Bool} {exhausted : List α → Except ε (List α)}
    (h : trim keep fits exhausted items = .ok kept) : ∃ last, Thinned keep items last ∧
      (last = kept ∧ fits last = .ok true ∨ exhausted last = .ok kept) := by
  obtain ⟨last, thinned, ends⟩ := trim_ends keep fits exhausted items
  refine ⟨last, thinned, ?_⟩
  generalize trim keep fits exhausted items = result at ends h
  cases ends with
  | raised _ => cases h
  | fits passes => exact .inl ⟨Except.ok.inj h, passes⟩
  | exhausted _ _ => exact .inr h

/-- A list that cannot be tested stops the trimming at its first round. -/
theorem trim_of_error {fits : List α → Except ε Bool} {error : ε} (h : fits items = .error error)
    (exhausted : List α → Except ε (List α)) : trim keep fits exhausted items = .error error := by
  rw [trim, h]
  rfl

/-- A trimming with its own way to end is one that stops where nothing is left to remove, and one
more look at the list. -/
theorem trim_eq (fits : List α → Except ε Bool) (exhausted : List α → Except ε (List α))
    (items : List α) : trim keep fits exhausted items = (do
      let last ← trim keep fits .ok items
      if ← fits last then .ok last else exhausted last) := by
  induction items using trim.induct keep with
  | case1 items ih =>
    rw [trim, trim]
    cases tested : fits items with
    | error error => rfl
    | ok passed =>
      rw [ok_bind, ok_bind]
      cases passed with
      | true => rw [if_pos rfl, if_pos rfl, ok_bind, tested, ok_bind, if_pos rfl]
      | false =>
        rw [if_neg Bool.false_ne_true, if_neg Bool.false_ne_true]
        split
        · rw [ok_bind, tested, ok_bind, if_neg Bool.false_ne_true]
        · rename_i shorter removed
          exact ih shorter removed

/-- How many elements were left out. -/
theorem length_diff [DecidableEq α] (h : kept.Subperm items) :
    (items.diff kept).length = items.length - kept.length := by
  have sizes := Multiset.card_sub (s := (items : Multiset α)) (Multiset.coe_le.mpr h)
  rwa [Multiset.coe_sub, Multiset.coe_card, Multiset.coe_card, Multiset.coe_card] at sizes

/-- The first elements, and of the later ones those that must stay. -/
def firstOf (n : Nat) (keep : α → Bool) (items : List α) : List α :=
  (items.zipIdx.filter fun item => decide (item.2 < n) || keep item.1).map Prod.fst

theorem firstOf_sublist (n : Nat) (items : List α) : (firstOf n keep items).Sublist items := by
  have within := (List.filter_sublist (l := items.zipIdx)
    (p := fun item => decide (item.2 < n) || keep item.1)).map Prod.fst
  rwa [List.zipIdx_map_fst] at within

theorem mem_firstOf {n : Nat} {a : α} (inside : a ∈ items) (stays : keep a = true) :
    a ∈ firstOf n keep items := by
  obtain ⟨index, bound, rfl⟩ := List.mem_iff_getElem.mp inside
  refine List.mem_map.mpr ⟨(items[index], index), List.mem_filter.mpr ⟨?_, ?_⟩, rfl⟩
  · exact List.mem_zipIdx_iff_getElem?.mpr (List.getElem?_eq_getElem bound)
  · rw [stays, Bool.or_true]

theorem filter_firstOf (n : Nat) (items : List α) :
    ((firstOf n keep items).filter fun a => !keep a) =
      (items.take n).filter fun a => !keep a := by
  suffices from_start : ∀ k, ((((items.zipIdx k).filter fun item =>
      decide (item.2 < n) || keep item.1).map Prod.fst).filter fun a => !keep a) =
      (items.take (n - k)).filter fun a => !keep a from from_start 0
  induction items with
  | nil =>
    intro k
    rw [List.take_nil]
    rfl
  | cons a rest ih =>
    intro k
    rw [List.zipIdx_cons, List.filter_cons]
    cases stays : keep a with
    | true =>
      rw [Bool.or_true, if_pos rfl, List.map_cons, List.filter_cons, stays, Bool.not_true,
        if_neg Bool.false_ne_true, ih]
      cases left : n - k with
      | zero => rw [show n - (k + 1) = 0 by omega]; rfl
      | succ m =>
        rw [show n - (k + 1) = m by omega, List.take_succ_cons, List.filter_cons, stays,
          Bool.not_true, if_neg Bool.false_ne_true]
    | false =>
      rw [Bool.or_false]
      by_cases early : k < n
      · rw [decide_eq_true early, if_pos rfl, List.map_cons, List.filter_cons, stays,
          Bool.not_false, if_pos rfl, ih, show n - k = n - (k + 1) + 1 by omega,
          List.take_succ_cons, List.filter_cons, stays, Bool.not_false, if_pos rfl]
      · rw [decide_eq_false early, if_neg Bool.false_ne_true, ih, show n - k = 0 by omega,
          show n - (k + 1) = 0 by omega]
        rfl

end RoboAgent.PriorityTrimming
