import RoboAgent.KeyedLists

/-! Dictionaries that keep the order in which their keys were first put. Putting a key that is there
replaces its value in place; putting a new key appends it. -/

namespace RoboAgent.Dicts
open RoboAgent.KeyedLists

variable {K V : Type} [DecidableEq K]

def putEntry (key : K) (value : V) : List (K × V) → List (K × V)
  | [] => [(key, value)]
  | (k, v) :: rest => if k = key then (key, value) :: rest else (k, v) :: putEntry key value rest

theorem keys_putEntry (key : K) (value : V) (entries : List (K × V)) :
    keys (putEntry key value entries) =
      if key ∈ keys entries then keys entries else keys entries ++ [key] := by
  induction entries with
  | nil => rfl
  | cons first rest ih =>
    obtain ⟨k, v⟩ := first
    by_cases here : k = key
    · subst here
      have head : k ∈ keys ((k, v) :: rest) := List.mem_cons_self
      rw [putEntry, if_pos rfl, if_pos head]
      rfl
    · rw [putEntry, if_neg here, keys, List.map_cons, ← keys, ih]
      have cons : key ∈ keys ((k, v) :: rest) ↔ key ∈ keys rest := by
        rw [keys, List.map_cons, List.mem_cons, or_iff_right (Ne.symm here), keys]
      simp only [cons]
      split_ifs <;> rfl

structure Dict (K V : Type) where
  entries : List (K × V)
  distinct : (keys entries).Nodup

namespace Dict

def empty : Dict K V := ⟨[], List.nodup_nil⟩

def get (d : Dict K V) (key : K) : Option V := d.entries.lookup key

def put (d : Dict K V) (key : K) (value : V) : Dict K V where
  entries := putEntry key value d.entries
  distinct := by
    rw [keys_putEntry]
    split_ifs with known
    · exact d.distinct
    · rw [← List.concat_eq_append]
      exact d.distinct.concat known

/-- Put one entry after the other. -/
def update (d : Dict K V) (later : List (K × V)) : Dict K V :=
  later.foldl (fun d entry => d.put entry.1 entry.2) d

theorem get_eq_some_iff {d : Dict K V} {key : K} {value : V} :
    d.get key = some value ↔ (key, value) ∈ d.entries :=
  ⟨mem_of_lookup, lookup_of_mem d.distinct⟩

theorem mem_keys_iff {d : Dict K V} {key : K} :
    key ∈ keys d.entries ↔ ∃ value, d.get key = some value := by
  rw [keys, List.mem_map]
  constructor
  · rintro ⟨⟨k, value⟩, mem, rfl⟩
    exact ⟨value, get_eq_some_iff.mpr mem⟩
  · rintro ⟨value, found⟩
    exact ⟨(key, value), get_eq_some_iff.mp found, rfl⟩

theorem lookup_putEntry (key : K) (value : V) (entries : List (K × V)) (k : K) :
    (putEntry key value entries).lookup k = if k = key then some value else entries.lookup k := by
  induction entries with
  | nil =>
    rw [putEntry, List.lookup_cons]
    by_cases same : k = key
    · rw [if_pos same, same, beq_self_eq_true]
    · rw [if_neg same, beq_eq_false_iff_ne.mpr same]
  | cons first rest ih =>
    obtain ⟨k', v⟩ := first
    by_cases here : k' = key
    · subst here
      rw [putEntry, if_pos rfl, List.lookup_cons, List.lookup_cons]
      by_cases same : k = k'
      · rw [if_pos same, same, beq_self_eq_true]
      · rw [if_neg same, beq_eq_false_iff_ne.mpr same]
    · rw [putEntry, if_neg here, List.lookup_cons, List.lookup_cons, ih]
      by_cases same : k = key
      · rw [if_pos same, if_pos same, same, beq_eq_false_iff_ne.mpr (Ne.symm here)]
      · rw [if_neg same, if_neg same]

theorem get_put (d : Dict K V) (key : K) (value : V) (k : K) :
    (d.put key value).get k = if k = key then some value else d.get k :=
  lookup_putEntry ..

theorem get_put_self (d : Dict K V) (key : K) (value : V) :
    (d.put key value).get key = some value := by
  rw [get_put, if_pos rfl]

theorem putEntry_eq_append {key : K} {entries : List (K × V)} (value : V)
    (fresh : entries.lookup key = none) : putEntry key value entries = entries ++ [(key, value)] := by
  induction entries with
  | nil => rfl
  | cons first rest ih =>
    obtain ⟨k, v⟩ := first
    rw [List.lookup_cons] at fresh
    split at fresh
    · cases fresh
    · rename_i other
      rw [putEntry, if_neg (Ne.symm (beq_eq_false_iff_ne.mp other)), ih fresh, List.cons_append]

/-- A dictionary display with distinct keys keeps its entries. -/
theorem foldl_putEntry {entries read : List (K × V)} (distinct : (keys (read ++ entries)).Nodup) :
    entries.foldl (fun read entry => putEntry entry.1 entry.2 read) read = read ++ entries := by
  induction entries generalizing read with
  | nil => exact (List.append_nil read).symm
  | cons entry entries ih =>
    have fresh : read.lookup entry.1 = none := by
      rw [keys, List.map_append, List.nodup_append] at distinct
      rw [List.lookup_eq_none_iff]
      intro other mem
      rw [bne_iff_ne]
      exact (distinct.2.2 _ (List.mem_map_of_mem mem) _ List.mem_cons_self).symm
    rw [List.foldl_cons, putEntry_eq_append entry.2 fresh, ih, List.append_assoc]
    · rfl
    · rw [List.append_assoc]
      exact distinct

theorem map_putEntry {β : Type} {f : K × V → β} {key : K} {value old : V} {entries : List (K × V)}
    (known : entries.lookup key = some old) (same : f (key, old) = f (key, value)) :
    (putEntry key value entries).map f = entries.map f := by
  induction entries with
  | nil => cases known
  | cons first rest ih =>
    obtain ⟨k, v⟩ := first
    by_cases here : k = key
    · subst here
      rw [List.lookup_cons_self, Option.some.injEq] at known
      rw [putEntry, if_pos rfl, List.map_cons, List.map_cons, ← same, known]
    · rw [List.lookup_cons, beq_eq_false_iff_ne.mpr (Ne.symm here)] at known
      rw [putEntry, if_neg here, List.map_cons, List.map_cons, ih known]

theorem put_eq_append {d : Dict K V} {key : K} (value : V) (fresh : d.get key = none) :
    (d.put key value).entries = d.entries ++ [(key, value)] :=
  putEntry_eq_append value fresh

/-- What a replaced value has in common with the new one, the whole dictionary keeps. -/
theorem map_put {β : Type} {f : K × V → β} {d : Dict K V} {key : K} {value old : V}
    (known : d.get key = some old) (same : f (key, old) = f (key, value)) :
    (d.put key value).entries.map f = d.entries.map f :=
  map_putEntry known same

theorem get_update {d : Dict K V} {later : List (K × V)} (distinct : (keys later).Nodup) (k : K) :
    (d.update later).get k = (later.lookup k).or (d.get k) := by
  induction later generalizing d with
  | nil => rfl
  | cons first rest ih =>
    obtain ⟨key, value⟩ := first
    rw [keys, List.map_cons, List.nodup_cons, ← keys] at distinct
    rw [update, List.foldl_cons, ← update, ih distinct.2, get_put, List.lookup_cons]
    by_cases same : k = key
    · subst same
      have absent : rest.lookup k = none := by
        rw [Option.eq_none_iff_forall_ne_some]
        intro value found
        exact distinct.1 (List.mem_map.mpr ⟨_, mem_of_lookup found, rfl⟩)
      rw [absent, if_pos rfl, beq_self_eq_true]
      rfl
    · rw [if_neg same, beq_eq_false_iff_ne.mpr same]

theorem get_update_cases {d : Dict K V} {later : List (K × V)} {k : K} {value : V}
    (h : (d.update later).get k = some value) : (k, value) ∈ later ∨ d.get k = some value := by
  induction later generalizing d with
  | nil => exact .inr h
  | cons first rest ih =>
    rw [update, List.foldl_cons, ← update] at h
    obtain mem | old := ih h
    · exact .inl (List.mem_cons_of_mem _ mem)
    · rw [get_put] at old
      split_ifs at old with same
      · cases old
        exact .inl (same ▸ List.mem_cons_self)
      · exact .inr old

theorem isSome_get_update {d : Dict K V} {later : List (K × V)} {k : K} :
    ((d.update later).get k).isSome ↔ k ∈ keys later ∨ (d.get k).isSome := by
  induction later generalizing d with
  | nil => exact (or_iff_right List.not_mem_nil).symm
  | cons first rest ih =>
    have cons : keys (first :: rest) = first.1 :: keys rest := rfl
    rw [update, List.foldl_cons, ← update, ih, get_put, cons, List.mem_cons]
    by_cases same : k = first.1
    · rw [if_pos same]
      exact iff_of_true (.inr rfl) (.inl (.inl same))
    · rw [if_neg same, or_iff_right same]

/-- The entries of an update that are new. -/
def newEntries (d : Dict K V) (later : List (K × V)) : List (K × V) :=
  later.filter fun entry => (d.get entry.1).isNone

theorem map_update {β : Type} {f : K × V → β} {d : Dict K V} {later : List (K × V)}
    (distinct : (keys later).Nodup)
    (same : ∀ entry ∈ later, ∀ old, d.get entry.1 = some old → f (entry.1, old) = f entry) :
    (d.update later).entries.map f = d.entries.map f ++ (d.newEntries later).map f := by
  induction later generalizing d with
  | nil => exact (List.append_nil _).symm
  | cons first rest ih =>
    obtain ⟨key, value⟩ := first
    rw [keys, List.map_cons, List.nodup_cons, ← keys] at distinct
    have others {entry : K × V} (mem : entry ∈ rest) : entry.1 ≠ key := by
      rintro rfl
      exact distinct.1 (List.mem_map.mpr ⟨entry, mem, rfl⟩)
    have kept : (d.put key value).newEntries rest = d.newEntries rest :=
      List.filter_congr fun entry mem => by rw [get_put, if_neg (others mem)]
    rw [update, List.foldl_cons, ← update, ih distinct.2, kept]
    · cases known : d.get key with
      | none =>
        rw [put_eq_append value known, newEntries, newEntries, List.filter_cons, if_pos (by
          rw [known]; rfl), List.map_append, List.map_cons, List.append_assoc]
        rfl
      | some old =>
        rw [map_put known (same _ List.mem_cons_self old known), newEntries, newEntries,
          List.filter_cons, if_neg (by rw [known]; exact Bool.false_ne_true)]
    · intro entry mem old found
      rw [get_put, if_neg (others mem)] at found
      exact same entry (List.mem_cons_of_mem _ mem) old found

/-- A dictionary comprehension over the entries. -/
def keep (d : Dict K V) (p : K → V → Bool) : Dict K V where
  entries := d.entries.filter fun entry => p entry.1 entry.2
  distinct := (List.filter_sublist.map Prod.fst).nodup d.distinct

theorem mem_keep {d : Dict K V} {p : K → V → Bool} {key : K} {value : V} :
    (key, value) ∈ (d.keep p).entries ↔ (key, value) ∈ d.entries ∧ p key value = true :=
  List.mem_filter

/-- The del statement. -/
def remove (d : Dict K V) (key : K) : Dict K V where
  entries := d.entries.filter fun entry => entry.1 ≠ key
  distinct := (List.filter_sublist.map Prod.fst).nodup d.distinct

theorem get_remove_of_ne (d : Dict K V) {key k : K} (other : k ≠ key) :
    (d.remove key).get k = d.get k := by
  apply Option.ext
  intro value
  rw [get_eq_some_iff, get_eq_some_iff, remove, List.mem_filter, decide_eq_true_eq]
  exact and_iff_left other

end Dict

end RoboAgent.Dicts
