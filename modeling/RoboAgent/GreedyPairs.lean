import Mathlib

/-! A greedy assignment of one kind of things to another. Pairs are offered in order, and a pair is
taken when neither of its ends is taken yet, so no end is taken twice. A pair that is passed over
lost an end to a pair offered before it. -/

namespace RoboAgent.GreedyPairs

variable {A B : Type} [DecidableEq A] [DecidableEq B]

def offer (taken : List (A × B)) (pair : A × B) : List (A × B) :=
  if pair.1 ∈ taken.map Prod.fst ∨ pair.2 ∈ taken.map Prod.snd then taken else taken ++ [pair]

def assign (offers : List (A × B)) : List (A × B) := offers.foldl offer []

theorem assign_append_singleton (offers : List (A × B)) (pair : A × B) :
    assign (offers ++ [pair]) = offer (assign offers) pair := by
  rw [assign, List.foldl_append, ← assign]
  rfl

theorem assign_nil : assign ([] : List (A × B)) = [] := rfl

theorem assign_sublist (offers : List (A × B)) : (assign offers).Sublist offers := by
  induction offers using List.reverseRecOn with
  | nil => exact List.Sublist.refl _
  | append_singleton offers pair ih =>
    rw [assign_append_singleton, offer]
    split_ifs
    · exact ih.trans (List.sublist_append_left _ _)
    · exact ih.append (List.Sublist.refl _)

theorem nodup_concat {E : Type} {items : List E} {item : E} (distinct : items.Nodup)
    (fresh : item ∉ items) : (items ++ [item]).Nodup := by
  rw [← List.concat_eq_append]
  exact distinct.concat fresh

theorem fst_assign (offers : List (A × B)) : ((assign offers).map Prod.fst).Nodup := by
  induction offers using List.reverseRecOn with
  | nil => exact List.nodup_nil
  | append_singleton offers pair ih =>
    rw [assign_append_singleton, offer]
    split_ifs with taken
    · exact ih
    · rw [List.map_append]
      exact nodup_concat ih fun mem => taken (.inl mem)

theorem snd_assign (offers : List (A × B)) : ((assign offers).map Prod.snd).Nodup := by
  induction offers using List.reverseRecOn with
  | nil => exact List.nodup_nil
  | append_singleton offers pair ih =>
    rw [assign_append_singleton, offer]
    split_ifs with taken
    · exact ih
    · rw [List.map_append]
      exact nodup_concat ih fun mem => taken (.inr mem)

theorem assign_prefix (before after : List (A × B)) :
    ∃ later, assign (before ++ after) = assign before ++ later := by
  induction after using List.reverseRecOn with
  | nil => exact ⟨[], by rw [List.append_nil, List.append_nil]⟩
  | append_singleton after pair ih =>
    obtain ⟨later, same⟩ := ih
    rw [← List.append_assoc, assign_append_singleton, same, offer]
    split_ifs
    · exact ⟨later, rfl⟩
    · exact ⟨later ++ [pair], List.append_assoc ..⟩

theorem mem_assign_append {before after : List (A × B)} {pair : A × B}
    (taken : pair ∈ assign before) : pair ∈ assign (before ++ after) := by
  obtain ⟨later, same⟩ := assign_prefix before after
  rw [same]
  exact List.mem_append_left _ taken

theorem assign_cases (before : List (A × B)) (pair : A × B) (after : List (A × B)) :
    pair ∈ assign (before ++ pair :: after) ∨
      ∃ earlier ∈ assign before, earlier.1 = pair.1 ∨ earlier.2 = pair.2 := by
  have split : before ++ pair :: after = before ++ [pair] ++ after := by
    rw [List.append_assoc, List.singleton_append]
  by_cases taken : pair.1 ∈ (assign before).map Prod.fst ∨ pair.2 ∈ (assign before).map Prod.snd
  · refine .inr ?_
    obtain taken | taken := taken
    · obtain ⟨earlier, mem, same⟩ := List.mem_map.mp taken
      exact ⟨earlier, mem, .inl same⟩
    · obtain ⟨earlier, mem, same⟩ := List.mem_map.mp taken
      exact ⟨earlier, mem, .inr same⟩
  · refine .inl ?_
    rw [split]
    apply mem_assign_append
    rw [assign_append_singleton, offer, if_neg taken]
    exact List.mem_append_right _ (List.mem_singleton_self _)

/-- Offered in the order of a cost, a pair cheaper than the one that took its second end gave way
to a pair of its own first end, which is no dearer. -/
theorem taken_cheaper {C : Type} [LinearOrder C] {offers : List (A × B)} {cost : A × B → C}
    (sorted : offers.Pairwise fun p q => cost p ≤ cost q) {a a' : A} {b : B}
    (taken : (a, b) ∈ assign offers) (offered : (a', b) ∈ offers)
    (cheaper : cost (a', b) < cost (a, b)) :
    ∃ b', (a', b') ∈ assign offers ∧ cost (a', b') ≤ cost (a', b) := by
  obtain ⟨before, after, rfl⟩ := List.append_of_mem offered
  have earlier {pair : A × B} (mem : pair ∈ assign before) : cost pair ≤ cost (a', b) :=
    (List.pairwise_append.mp sorted).2.2 pair ((assign_sublist before).subset mem) _
      List.mem_cons_self
  have unique {pair : A × B} (mem : pair ∈ assign (before ++ (a', b) :: after))
      (same : pair.2 = b) : pair = (a, b) :=
    List.inj_on_of_nodup_map (snd_assign _) mem taken same
  obtain mem | ⟨pair, mem, same | same⟩ := assign_cases before (a', b) after
  · have equal := unique mem rfl
    rw [equal] at cheaper
    exact absurd cheaper (lt_irrefl _)
  · obtain ⟨first, b'⟩ := pair
    obtain rfl : first = a' := same
    exact ⟨b', mem_assign_append mem, earlier mem⟩
  · have equal := unique (mem_assign_append mem) same
    have bound := earlier mem
    rw [equal] at bound
    exact absurd cheaper (not_lt.mpr bound)

end RoboAgent.GreedyPairs
