import Mathlib

/-! Association lists whose keys are distinct. A reader that asks for values by key does not see
the order of the entries. -/

namespace RoboAgent.KeyedLists

variable {K V W : Type} [BEq K]

def keys (entries : List (K × V)) : List K := entries.map Prod.fst

theorem lookup_map (f : V → W) (entries : List (K × V)) (key : K) :
    (entries.map fun entry => (entry.1, f entry.2)).lookup key = (entries.lookup key).map f := by
  induction entries with
  | nil => rfl
  | cons first rest ih =>
    rw [List.map_cons, List.lookup_cons, List.lookup_cons]
    cases key == first.1 with
    | true => rfl
    | false => exact ih

variable [LawfulBEq K]

theorem lookup_of_mem {entries : List (K × V)} {key : K} {value : V}
    (distinct : (keys entries).Nodup) (mem : (key, value) ∈ entries) :
    entries.lookup key = some value := by
  induction entries with
  | nil => cases mem
  | cons first rest ih =>
    obtain ⟨firstKey, firstValue⟩ := first
    rw [keys, List.map_cons, List.nodup_cons] at distinct
    cases mem with
    | head => exact List.lookup_cons_self
    | tail _ later =>
      have other : (key == firstKey) = false := by
        rw [beq_eq_false_iff_ne]
        intro same
        exact distinct.1 (List.mem_map.mpr ⟨(key, value), later, same⟩)
      rw [List.lookup_cons, other]
      exact ih distinct.2 later

theorem mem_of_lookup {entries : List (K × V)} {key : K} {value : V}
    (found : entries.lookup key = some value) : (key, value) ∈ entries := by
  obtain ⟨before, after, split, -⟩ := List.lookup_eq_some_iff.mp found
  rw [split]
  exact List.mem_append_right _ List.mem_cons_self

theorem lookup_perm {entries others : List (K × V)} (distinct : (keys entries).Nodup)
    (perm : entries.Perm others) (key : K) : others.lookup key = entries.lookup key := by
  have distinct' : (keys others).Nodup := (perm.map Prod.fst).nodup_iff.mp distinct
  apply Option.ext
  intro value
  constructor
  · intro found
    exact lookup_of_mem distinct (perm.mem_iff.mpr (mem_of_lookup found))
  · intro found
    exact lookup_of_mem distinct' (perm.mem_iff.mp (mem_of_lookup found))

end RoboAgent.KeyedLists
