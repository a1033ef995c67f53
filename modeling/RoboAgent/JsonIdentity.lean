import Mathlib
import RoboAgent.SortedJson
import RoboAgent.JsonText

/-! When two JSON values are the same up to the order of the keys of their objects, with booleans,
integers and floats kept apart. Values whose keys are sorted are equal just then, and neither the
size of a text nor whether it can be written depends on that order. -/

namespace RoboAgent.JsonIdentity
open RoboAgent.FrozenJson RoboAgent.SortedJson RoboAgent.KeyedLists RoboAgent.JsonText

theorem mem_sorted {entries : List (String × JsonValue)} {entry : String × JsonValue} :
    entry ∈ sorted entries ↔ ∃ e ∈ entries, (e.1, sortKeys e.2) = entry := by
  rw [sorted, List.mem_mergeSort, sortEntries_eq_map, List.mem_map]

theorem keys_sorted_perm (entries : List (String × JsonValue)) :
    (keys (sorted entries)).Perm (keys entries) := by
  rw [← keys_sortEntries entries]
  exact (List.mergeSort_perm ..).map Prod.fst

theorem wellFormed_obj {entries : List (String × JsonValue)} :
    wellFormed (.obj entries) = true ↔
      (keys entries).Nodup ∧ ∀ entry ∈ entries, wellFormed entry.2 = true := by
  rw [wellFormed, Bool.and_eq_true, decide_eq_true_eq, wellFormedEntries_iff]
  rfl

theorem wellFormed_sortKeys {v : JsonValue} (valid : wellFormed v = true) :
    wellFormed (sortKeys v) = true := by
  induction v using JsonValue.ofParts with
  | arr items ih =>
    rw [sortKeys_arr]
    refine wellFormedItems_iff.mpr (List.forall_mem_map.mpr fun item mem => ?_)
    exact ih item mem (wellFormedItems_iff.mp valid item mem)
  | obj entries ih =>
    obtain ⟨distinct, each⟩ := wellFormed_obj.mp valid
    rw [sortKeys_obj, wellFormed_obj]
    refine ⟨(keys_sorted_perm entries).nodup_iff.mpr distinct, fun entry mem => ?_⟩
    obtain ⟨e, old, rfl⟩ := mem_sorted.mp mem
    exact ih e old (each e old)
  | null => exact valid
  | bool b => exact valid
  | int n => exact valid
  | float x => exact valid
  | str s => exact valid

/-- The length of a text in bytes. -/
def byteSize (text : List Char) : Nat := (text.map Char.utf8Size).sum

theorem byteSize_append (first second : List Char) :
    byteSize (first ++ second) = byteSize first + byteSize second := by
  rw [byteSize, List.map_append, List.sum_append]
  rfl

theorem byteSize_cons (c : Char) (text : List Char) :
    byteSize (c :: text) = c.utf8Size + byteSize text := by
  rw [byteSize, List.map_cons, List.sum_cons]
  rfl

theorem byteSize_closing (bracket : Char) (texts : List (List Char)) :
    byteSize (closing bracket texts) =
      (texts.map byteSize).sum + texts.length + bracket.utf8Size := by
  induction texts with
  | nil =>
    rw [List.map_nil, List.sum_nil, List.length_nil, Nat.zero_add]
    rfl
  | cons text texts ih =>
    have comma : ','.utf8Size = 1 := by decide
    rw [closing_cons, byteSize_cons, byteSize_append, ih, List.map_cons, List.sum_cons,
      List.length_cons, comma]
    omega

theorem byteSize_enclosed (bracket : Char) (texts : List (List Char)) :
    byteSize (enclosed bracket texts) =
      (texts.map byteSize).sum + (texts.length - 1) + bracket.utf8Size := by
  cases texts with
  | nil =>
    rw [List.map_nil, List.sum_nil, List.length_nil, Nat.zero_add]
    rfl
  | cons text texts =>
    rw [enclosed, byteSize_append, byteSize_closing, List.map_cons, List.sum_cons,
      List.length_cons]
    omega

theorem byteSize_arr (floatText : PyFloat → List Char) (items : List JsonValue) :
    byteSize (write floatText (.arr items)) =
      (items.map fun item => byteSize (write floatText item)).sum + (items.length - 1) + 2 := by
  have opening : '['.utf8Size = 1 := by decide
  have closing : ']'.utf8Size = 1 := by decide
  rw [write, byteSize_cons, byteSize_enclosed, writeItems_eq_map, List.map_map, List.length_map,
    opening, closing, Nat.add_comm 1]
  rfl

theorem byteSize_obj (floatText : PyFloat → List Char) (entries : List (String × JsonValue)) :
    byteSize (write floatText (.obj entries)) =
      (entries.map fun entry => byteSize (entryText floatText entry)).sum +
        (entries.length - 1) + 2 := by
  have opening : '\x7b'.utf8Size = 1 := by decide
  have closing : '\x7d'.utf8Size = 1 := by decide
  rw [write, byteSize_cons, byteSize_enclosed, writeEntries_eq_map, List.map_map,
    List.length_map, opening, closing, Nat.add_comm 1]
  rfl

theorem byteSize_entryText (floatText : PyFloat → List Char) (key : String) (value : JsonValue) :
    byteSize (entryText floatText (key, value)) =
      byteSize (stringText key) + (1 + byteSize (write floatText value)) := by
  have colon : ':'.utf8Size = 1 := by decide
  rw [entryText, byteSize_append, byteSize_cons, colon]

theorem byteSize_sortKeys (floatText : PyFloat → List Char) (v : JsonValue) :
    byteSize (write floatText (sortKeys v)) = byteSize (write floatText v) := by
  induction v using JsonValue.ofParts with
  | arr items ih =>
    rw [sortKeys_arr, byteSize_arr, byteSize_arr, List.map_map, List.length_map]
    congr 3
    exact List.map_congr_left ih
  | obj entries ih =>
    have perm : (sorted entries).Perm (sortEntries entries) := List.mergeSort_perm ..
    rw [sortKeys_obj, byteSize_obj, byteSize_obj, perm.length_eq, (perm.map _).sum_nat,
      sortEntries_eq_map, List.map_map, List.length_map]
    congr 3
    refine List.map_congr_left fun entry mem => ?_
    rw [Function.comp_apply, byteSize_entryText, byteSize_entryText, ih entry mem]
  | _ => rfl

mutual
/-- Whether every integer can be printed: Python refuses to print more than 4300 digits. -/
def printable : JsonValue → Bool
  | .null | .bool _ | .float _ | .str _ => true
  | .int n => (Nat.toDigits 10 n.natAbs).length ≤ 4300
  | .arr items => printableItems items
  | .obj entries => printableEntries entries

def printableItems : List JsonValue → Bool
  | [] => true
  | item :: items => printable item && printableItems items

def printableEntries : List (String × JsonValue) → Bool
  | [] => true
  | (_, value) :: entries => printable value && printableEntries entries
end

theorem printable_arr (items : List JsonValue) : printable (.arr items) = items.all printable := by
  rw [printable]
  induction items with
  | nil => rfl
  | cons item items ih => rw [printableItems, ih, List.all_cons]

theorem printable_obj (entries : List (String × JsonValue)) :
    printable (.obj entries) = entries.all fun entry => printable entry.2 := by
  rw [printable]
  induction entries with
  | nil => rfl
  | cons entry entries ih => rw [printableEntries, ih, List.all_cons]

theorem printable_sortKeys (v : JsonValue) : printable (sortKeys v) = printable v := by
  induction v using JsonValue.ofParts with
  | arr items ih =>
    rw [sortKeys_arr, printable_arr, printable_arr, List.all_map, Bool.eq_iff_iff,
      List.all_eq_true, List.all_eq_true]
    exact forall₂_congr fun item mem => by rw [Function.comp_apply, ih item mem]
  | obj entries ih =>
    have perm : (sorted entries).Perm (sortEntries entries) := List.mergeSort_perm ..
    rw [sortKeys_obj, printable_obj, printable_obj, perm.all_eq, sortEntries_eq_map, List.all_map,
      Bool.eq_iff_iff, List.all_eq_true, List.all_eq_true]
    exact forall₂_congr fun entry mem => by rw [Function.comp_apply, ih entry mem]
  | _ => rfl

mutual
/-- The same value, up to the order of the keys of its objects. -/
def same : JsonValue → JsonValue → Bool
  | .obj entries, .obj others => entries.length == others.length && sameEntries entries others
  | .arr items, .arr others => sameItems items others
  | .null, other => other == .null
  | .bool b, other => other == .bool b
  | .int n, other => other == .int n
  | .float x, other => other == .float x
  | .str s, other => other == .str s
  | .arr _, _ | .obj _, _ => false

def sameItems : List JsonValue → List JsonValue → Bool
  | [], [] => true
  | item :: items, other :: others => same item other && sameItems items others
  | [], _ :: _ | _ :: _, [] => false

def sameEntries : List (String × JsonValue) → List (String × JsonValue) → Bool
  | [], _ => true
  | (key, value) :: entries, others =>
    (match others.lookup key with
      | some other => same value other
      | none => false) && sameEntries entries others
end

theorem sameItems_iff {items others : List JsonValue} :
    sameItems items others = true ↔ List.Forall₂ (fun a b => same a b = true) items others := by
  induction items generalizing others with
  | nil => cases others <;> simp [sameItems]
  | cons item items ih => cases others <;> simp [sameItems, ih]

theorem sameEntries_iff {entries others : List (String × JsonValue)} :
    sameEntries entries others = true ↔ ∀ entry ∈ entries, ∃ other,
      others.lookup entry.1 = some other ∧ same entry.2 other = true := by
  induction entries with
  | nil => exact iff_of_true rfl (List.forall_mem_nil _)
  | cons entry entries ih =>
    obtain ⟨key, value⟩ := entry
    rw [sameEntries, Bool.and_eq_true, ih, List.forall_mem_cons]
    refine and_congr_left fun _ => ?_
    cases others.lookup key <;> simp

theorem same_arr {items others : List JsonValue} : same (.arr items) (.arr others) = true ↔
    List.Forall₂ (fun a b => same a b = true) items others := by
  rw [same, sameItems_iff]

theorem same_obj {entries others : List (String × JsonValue)} :
    same (.obj entries) (.obj others) = true ↔ entries.length = others.length ∧
      ∀ entry ∈ entries, ∃ other, others.lookup entry.1 = some other ∧
        same entry.2 other = true := by
  rw [same, Bool.and_eq_true, beq_iff_eq, sameEntries_iff]

theorem length_sorted (entries : List (String × JsonValue)) :
    (sorted entries).length = entries.length := by
  rw [sorted, List.length_mergeSort, sortEntries_eq_map, List.length_map]

theorem byKey_trans (a b c : String × JsonValue) (first : byKey a b = true)
    (second : byKey b c = true) : byKey a c = true :=
  decide_eq_true (String.le_trans (of_decide_eq_true first) (of_decide_eq_true second))

theorem byKey_total (a b : String × JsonValue) : (byKey a b || byKey b a) = true := by
  rw [Bool.or_eq_true]
  exact (String.le_total a.1 b.1).imp decide_eq_true decide_eq_true

/-- Objects whose entries were sorted are equal if the same keys have equal values. -/
theorem sorted_eq {entries others : List (String × JsonValue)} (distinct : (keys entries).Nodup)
    (length : entries.length = others.length)
    (h : ∀ entry ∈ entries, ∃ other, others.lookup entry.1 = some other ∧
      sortKeys entry.2 = sortKeys other) : sorted entries = sorted others := by
  have included : sorted entries ⊆ sorted others := by
    intro entry mem
    obtain ⟨e, old, rfl⟩ := mem_sorted.mp mem
    obtain ⟨other, found, equal⟩ := h e old
    exact mem_sorted.mpr ⟨(e.1, other), mem_of_lookup found, by rw [equal]⟩
  have nodup {entries : List (String × JsonValue)} (distinct : (keys entries).Nodup) :
      (sorted entries).Nodup :=
    List.Nodup.of_map _ ((keys_sorted_perm entries).nodup_iff.mpr distinct)
  have perm : (sorted entries).Perm (sorted others) :=
    ((nodup distinct).subperm included).perm_of_length_le
      (by rw [length_sorted, length_sorted, length])
  have ordered (entries : List (String × JsonValue)) :
      (sorted entries).Pairwise fun a b => byKey a b = true :=
    List.pairwise_mergeSort byKey_trans byKey_total _
  refine perm.eq_of_pairwise (fun a b mem mem' below above => ?_) (ordered _) (ordered _)
  have key : a.1 = b.1 := String.le_antisymm (of_decide_eq_true below) (of_decide_eq_true above)
  have first := lookup_of_mem ((keys_sorted_perm entries).nodup_iff.mpr distinct) mem
  have second := lookup_of_mem ((keys_sorted_perm entries).nodup_iff.mpr distinct)
    (perm.mem_iff.mpr mem')
  rw [key, second] at first
  exact Prod.ext key (Option.some.inj first).symm

/-- The values under a key of two objects whose sorted entries are the same. -/
theorem lookup_of_sorted_eq {entries others : List (String × JsonValue)}
    (distinct : (keys entries).Nodup) (distinct' : (keys others).Nodup)
    (h : sorted entries = sorted others) (key : String) :
    (entries.lookup key).map sortKeys = (others.lookup key).map sortKeys := by
  rw [← lookup_sorted distinct, h, lookup_sorted distinct']

theorem same_of_sortKeys_eq {v w : JsonValue} (valid : wellFormed v = true)
    (valid' : wellFormed w = true) (h : sortKeys v = sortKeys w) : same v w = true := by
  induction v using JsonValue.ofParts generalizing w with
  | arr items ih =>
    cases w with
    | arr others =>
      rw [sortKeys_arr, sortKeys_arr] at h
      refine same_arr.mpr ?_
      have each := wellFormedItems_iff.mp valid
      have each' := wellFormedItems_iff.mp valid'
      have maps := JsonValue.arr.inj h
      clear h valid valid'
      induction items generalizing others with
      | nil =>
        cases others with
        | nil => exact .nil
        | cons other others => cases maps
      | cons item items tail =>
        cases others with
        | nil => cases maps
        | cons other others =>
          rw [List.forall_mem_cons] at each each'
          rw [List.map_cons, List.map_cons, List.cons.injEq] at maps
          exact .cons (ih item List.mem_cons_self each.1 each'.1 maps.1)
            (tail (fun item mem => ih item (List.mem_cons_of_mem _ mem)) others each.2 each'.2
              maps.2)
    | obj others => rw [sortKeys_arr, sortKeys_obj] at h; cases h
    | _ => rw [sortKeys_arr] at h; cases h
  | obj entries ih =>
    cases w with
    | obj others =>
      rw [sortKeys_obj, sortKeys_obj] at h
      obtain ⟨distinct, each⟩ := wellFormed_obj.mp valid
      obtain ⟨distinct', each'⟩ := wellFormed_obj.mp valid'
      have equal := JsonValue.obj.inj h
      refine same_obj.mpr ⟨?_, fun entry mem => ?_⟩
      · rw [← length_sorted entries, equal, length_sorted]
      · have found := lookup_of_sorted_eq distinct distinct' equal entry.1
        rw [lookup_of_mem distinct mem, Option.map_some] at found
        obtain ⟨other, present, sortedEq⟩ := Option.map_eq_some_iff.mp found.symm
        exact ⟨other, present, ih entry mem (each entry mem)
          (each' _ (mem_of_lookup present)) sortedEq.symm⟩
    | arr others => rw [sortKeys_arr, sortKeys_obj] at h; cases h
    | _ => rw [sortKeys_obj] at h; cases h
  | null => cases w <;> simp_all [sortKeys, same]
  | bool b => cases w <;> simp_all [sortKeys, same]
  | int n => cases w <;> simp_all [sortKeys, same]
  | float x => cases w <;> simp_all [sortKeys, same]
  | str s => cases w <;> simp_all [sortKeys, same]

theorem sortKeys_eq_of_same {v w : JsonValue} (valid : wellFormed v = true)
    (valid' : wellFormed w = true) (h : same v w = true) : sortKeys v = sortKeys w := by
  induction v using JsonValue.ofParts generalizing w with
  | arr items ih =>
    cases w with
    | arr others =>
      rw [sortKeys_arr, sortKeys_arr]
      have each := wellFormedItems_iff.mp valid
      have each' := wellFormedItems_iff.mp valid'
      have pairs := same_arr.mp h
      clear h valid valid'
      refine congrArg _ ?_
      induction pairs with
      | nil => rfl
      | cons first later tail =>
        rw [List.forall_mem_cons] at each each'
        rw [List.map_cons, List.map_cons, ih _ List.mem_cons_self each.1 each'.1 first,
          tail (fun item mem => ih item (List.mem_cons_of_mem _ mem)) each.2 each'.2]
    | _ => cases h
  | obj entries ih =>
    cases w with
    | obj others =>
      obtain ⟨distinct, each⟩ := wellFormed_obj.mp valid
      obtain ⟨-, each'⟩ := wellFormed_obj.mp valid'
      obtain ⟨length, found⟩ := same_obj.mp h
      rw [sortKeys_obj, sortKeys_obj, sorted_eq distinct length]
      intro entry mem
      obtain ⟨other, present, equal⟩ := found entry mem
      exact ⟨other, present, ih entry mem (each entry mem)
        (each' _ (mem_of_lookup present)) equal⟩
    | _ => cases h
  | null => exact congrArg _ (beq_iff_eq.mp h).symm
  | bool b => exact congrArg _ (beq_iff_eq.mp h).symm
  | int n => exact congrArg _ (beq_iff_eq.mp h).symm
  | float x => exact congrArg _ (beq_iff_eq.mp h).symm
  | str s => exact congrArg _ (beq_iff_eq.mp h).symm

end RoboAgent.JsonIdentity
