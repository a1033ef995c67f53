import Mathlib
import RoboAgent.FrozenJson
import RoboAgent.KeyedLists

/-! The value json.loads gives back for a text that json.dumps wrote with sort_keys: the same value
with the entries of every object in the order of their keys. -/

namespace RoboAgent.SortedJson
open RoboAgent.FrozenJson RoboAgent.KeyedLists

def byKey (first second : String × JsonValue) : Bool := first.1 ≤ second.1

mutual
def sortKeys : JsonValue → JsonValue
  | .null => .null
  | .bool value => .bool value
  | .int value => .int value
  | .float value => .float value
  | .str value => .str value
  | .arr items => .arr (sortItems items)
  | .obj entries => .obj ((sortEntries entries).mergeSort byKey)

def sortItems : List JsonValue → List JsonValue
  | [] => []
  | item :: items => sortKeys item :: sortItems items

def sortEntries : List (String × JsonValue) → List (String × JsonValue)
  | [] => []
  | (key, value) :: entries => (key, sortKeys value) :: sortEntries entries
end

theorem sortItems_eq_map (items : List JsonValue) : sortItems items = items.map sortKeys := by
  induction items with
  | nil => rfl
  | cons item items ih => rw [sortItems, ih, List.map_cons]

theorem sortEntries_eq_map (entries : List (String × JsonValue)) :
    sortEntries entries = entries.map fun entry => (entry.1, sortKeys entry.2) := by
  induction entries with
  | nil => rfl
  | cons entry entries ih => rw [sortEntries, ih, List.map_cons]

/-- The entries of an object, read back. -/
def sorted (entries : List (String × JsonValue)) : List (String × JsonValue) :=
  (sortEntries entries).mergeSort byKey

theorem sortKeys_obj (entries : List (String × JsonValue)) :
    sortKeys (.obj entries) = .obj (sorted entries) := by
  rw [sortKeys, sorted]

theorem sortKeys_arr (items : List JsonValue) :
    sortKeys (.arr items) = .arr (items.map sortKeys) := by
  rw [sortKeys, sortItems_eq_map]

theorem keys_sortEntries (entries : List (String × JsonValue)) :
    keys (sortEntries entries) = keys entries := by
  rw [sortEntries_eq_map, keys, List.map_map]
  rfl

theorem lookup_sorted {entries : List (String × JsonValue)} (distinct : (keys entries).Nodup)
    (key : String) : (sorted entries).lookup key = (entries.lookup key).map sortKeys := by
  rw [sorted, lookup_perm (keys_sortEntries entries ▸ distinct) (List.mergeSort_perm ..).symm,
    sortEntries_eq_map, lookup_map]

/-- Sorting neither adds nor drops a key. -/
theorem all_keys_sorted (p : String → Bool) (entries : List (String × JsonValue)) :
    (keys (sorted entries)).all p = (keys entries).all p := by
  have perm : (keys (sorted entries)).Perm (keys entries) := by
    rw [← keys_sortEntries entries]
    exact (List.mergeSort_perm ..).map Prod.fst
  rw [Bool.eq_iff_iff, List.all_eq_true, List.all_eq_true]
  constructor
  · exact fun h key mem => h key (perm.mem_iff.mpr mem)
  · exact fun h key mem => h key (perm.mem_iff.mp mem)

end RoboAgent.SortedJson
