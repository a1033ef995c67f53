import Mathlib
import RoboAgent.KeyedLists

/-! Canonical JSON values. Integers, floats and booleans are three kinds of value, and an object
keeps the order of its entries, as FrozenJsonObject does. A float is its IEEE 754 bit pattern;
no arithmetic is done on it. -/

namespace RoboAgent.FrozenJson

structure PyFloat where
  bits : UInt64
deriving DecidableEq, Repr

def PyFloat.exponent (x : PyFloat) : Nat := (x.bits >>> 52 &&& 0x7ff).toNat

def PyFloat.isFinite (x : PyFloat) : Bool := x.exponent != 0x7ff

/-- The number a finite float denotes; the two zeros denote the same one. -/
def PyFloat.value (x : PyFloat) : Rat :=
  let fraction := (x.bits &&& 0xfffffffffffff).toNat
  let magnitude : Rat :=
    if x.exponent = 0 then fraction / 2 ^ 1074
    else (2 ^ 52 + fraction) * 2 ^ x.exponent / 2 ^ 1075
  if x.bits >>> 63 = 0 then magnitude else -magnitude

inductive JsonValue
  | null
  | bool (value : Bool)
  | int (value : Int)
  | float (value : PyFloat)
  | str (value : String)
  | arr (items : List JsonValue)
  | obj (entries : List (String × JsonValue))

mutual
/-- Induction on a value, with the hypothesis for all items and for all values of entries. -/
theorem JsonValue.ofParts {P : JsonValue → Prop} (null : P .null) (bool : ∀ b, P (.bool b))
    (int : ∀ n, P (.int n)) (float : ∀ x, P (.float x)) (str : ∀ s, P (.str s))
    (arr : ∀ items, (∀ item ∈ items, P item) → P (.arr items))
    (obj : ∀ entries, (∀ entry ∈ entries, P entry.2) → P (.obj entries)) (v : JsonValue) :
    P v := by
  cases v with
  | null => exact null
  | bool b => exact bool b
  | int n => exact int n
  | float x => exact float x
  | str s => exact str s
  | arr items => exact arr items (ofItems null bool int float str arr obj items)
  | obj entries => exact obj entries (ofEntries null bool int float str arr obj entries)

theorem JsonValue.ofItems {P : JsonValue → Prop} (null : P .null) (bool : ∀ b, P (.bool b))
    (int : ∀ n, P (.int n)) (float : ∀ x, P (.float x)) (str : ∀ s, P (.str s))
    (arr : ∀ items, (∀ item ∈ items, P item) → P (.arr items))
    (obj : ∀ entries, (∀ entry ∈ entries, P entry.2) → P (.obj entries))
    (items : List JsonValue) : ∀ item ∈ items, P item := by
  cases items with
  | nil => exact nofun
  | cons item items =>
    exact List.forall_mem_cons.mpr ⟨ofParts null bool int float str arr obj item,
      ofItems null bool int float str arr obj items⟩

theorem JsonValue.ofEntries {P : JsonValue → Prop} (null : P .null) (bool : ∀ b, P (.bool b))
    (int : ∀ n, P (.int n)) (float : ∀ x, P (.float x)) (str : ∀ s, P (.str s))
    (arr : ∀ items, (∀ item ∈ items, P item) → P (.arr items))
    (obj : ∀ entries, (∀ entry ∈ entries, P entry.2) → P (.obj entries))
    (entries : List (String × JsonValue)) : ∀ entry ∈ entries, P entry.2 := by
  cases entries with
  | nil => exact nofun
  | cons entry entries =>
    obtain ⟨key, value⟩ := entry
    exact List.forall_mem_cons.mpr ⟨ofParts null bool int float str arr obj value,
      ofEntries null bool int float str arr obj entries⟩
end

mutual
def decEq : (a b : JsonValue) → Decidable (a = b)
  | .null, b => by cases b <;> first | exact isTrue rfl | exact isFalse (by simp)
  | .bool x, b => match b with
    | .bool y => decidable_of_iff (x = y) (by simp)
    | .null | .int _ | .float _ | .str _ | .arr _ | .obj _ => isFalse (by simp)
  | .int x, b => match b with
    | .int y => decidable_of_iff (x = y) (by simp)
    | .null | .bool _ | .float _ | .str _ | .arr _ | .obj _ => isFalse (by simp)
  | .float x, b => match b with
    | .float y => decidable_of_iff (x = y) (by simp)
    | .null | .bool _ | .int _ | .str _ | .arr _ | .obj _ => isFalse (by simp)
  | .str x, b => match b with
    | .str y => decidable_of_iff (x = y) (by simp)
    | .null | .bool _ | .int _ | .float _ | .arr _ | .obj _ => isFalse (by simp)
  | .arr x, b => match b with
    | .arr y => have := decEqItems x y; decidable_of_iff (x = y) (by simp)
    | .null | .bool _ | .int _ | .float _ | .str _ | .obj _ => isFalse (by simp)
  | .obj x, b => match b with
    | .obj y => have := decEqEntries x y; decidable_of_iff (x = y) (by simp)
    | .null | .bool _ | .int _ | .float _ | .str _ | .arr _ => isFalse (by simp)

def decEqItems : (a b : List JsonValue) → Decidable (a = b)
  | [], [] => isTrue rfl
  | [], _ :: _ | _ :: _, [] => isFalse (by simp)
  | x :: xs, y :: ys =>
    have := decEq x y
    have := decEqItems xs ys
    decidable_of_iff (x = y ∧ xs = ys) (by simp)

def decEqEntries : (a b : List (String × JsonValue)) → Decidable (a = b)
  | [], [] => isTrue rfl
  | [], _ :: _ | _ :: _, [] => isFalse (by simp)
  | (k, x) :: xs, (l, y) :: ys =>
    have := decEq x y
    have := decEqEntries xs ys
    decidable_of_iff ((k = l ∧ x = y) ∧ xs = ys) (by simp)
end

instance : DecidableEq JsonValue := decEq

/-- The number Python compares a scalar by: True and False are 1 and 0. -/
def numeric : JsonValue → Option Rat
  | .bool value => some (if value then 1 else 0)
  | .int value => some value
  | .float value => some value.value
  | .null | .str _ | .arr _ | .obj _ => none

def scalarEqual (left right : JsonValue) : Bool :=
  match numeric left, numeric right with
  | some x, some y => x == y
  | none, none => left == right
  | _, _ => false

mutual
/-- The equality of FrozenJsonObject and FrozenJsonArray: objects regardless of the order of their
entries, numbers by value. -/
def jsonEqual : JsonValue → JsonValue → Bool
  | .obj entries, .obj others =>
    entries.length == others.length && entriesEqual entries others
  | .arr items, .arr others => itemsEqual items others
  | .null, other => scalarEqual .null other
  | .bool value, other => scalarEqual (.bool value) other
  | .int value, other => scalarEqual (.int value) other
  | .float value, other => scalarEqual (.float value) other
  | .str value, other => scalarEqual (.str value) other
  | .arr _, _ | .obj _, _ => false

def itemsEqual : List JsonValue → List JsonValue → Bool
  | [], [] => true
  | item :: items, other :: others => jsonEqual item other && itemsEqual items others
  | [], _ :: _ | _ :: _, [] => false

def entriesEqual : List (String × JsonValue) → List (String × JsonValue) → Bool
  | [], _ => true
  | (key, value) :: entries, others =>
    (match others.lookup key with
      | some other => jsonEqual value other
      | none => false) && entriesEqual entries others
end

mutual
/-- What freeze_json admits: finite numbers, and no key twice in one object. -/
def wellFormed : JsonValue → Bool
  | .null | .bool _ | .int _ | .str _ => true
  | .float x => x.isFinite
  | .arr items => wellFormedItems items
  | .obj entries => decide ((entries.map (·.1)).Nodup) && wellFormedEntries entries

def wellFormedItems : List JsonValue → Bool
  | [] => true
  | item :: items => wellFormed item && wellFormedItems items

def wellFormedEntries : List (String × JsonValue) → Bool
  | [] => true
  | (_, value) :: entries => wellFormed value && wellFormedEntries entries
end

theorem wellFormedItems_iff {items : List JsonValue} :
    wellFormedItems items = true ↔ ∀ item ∈ items, wellFormed item = true := by
  induction items with
  | nil => exact iff_of_true rfl nofun
  | cons item items ih => rw [wellFormedItems, Bool.and_eq_true, ih, List.forall_mem_cons]

theorem wellFormedEntries_iff {entries : List (String × JsonValue)} :
    wellFormedEntries entries = true ↔ ∀ entry ∈ entries, wellFormed entry.2 = true := by
  induction entries with
  | nil => exact iff_of_true rfl nofun
  | cons entry entries ih => rw [wellFormedEntries, Bool.and_eq_true, ih, List.forall_mem_cons]

structure FrozenJsonObject where
  entries : List (String × JsonValue)
  frozen : wellFormed (.obj entries) = true
deriving DecidableEq

theorem wellFormed_empty : wellFormed (.obj []) = true := rfl

def FrozenJsonObject.equal (left right : FrozenJsonObject) : Bool :=
  jsonEqual (.obj left.entries) (.obj right.entries)

theorem scalarEqual_refl (v : JsonValue) : scalarEqual v v = true := by
  rw [scalarEqual]
  cases numeric v with
  | none => exact beq_self_eq_true v
  | some x => exact beq_self_eq_true x

theorem itemsEqual_refl {items : List JsonValue} (each : ∀ item ∈ items, jsonEqual item item = true) :
    itemsEqual items items = true := by
  induction items with
  | nil => rfl
  | cons item items ih =>
    rw [List.forall_mem_cons] at each
    rw [itemsEqual, each.1, ih each.2]
    rfl

theorem entriesEqual_of_lookup {entries others : List (String × JsonValue)}
    (each : ∀ entry ∈ entries, others.lookup entry.1 = some entry.2 ∧
      jsonEqual entry.2 entry.2 = true) : entriesEqual entries others = true := by
  induction entries with
  | nil => rfl
  | cons entry entries ih =>
    rw [List.forall_mem_cons] at each
    rw [entriesEqual, each.1.1, ih each.2, Bool.and_true]
    exact each.1.2

theorem jsonEqual_refl (v : JsonValue) : wellFormed v = true → jsonEqual v v = true := by
  induction v using JsonValue.ofParts with
  | arr items each =>
    intro formed
    rw [jsonEqual]
    exact itemsEqual_refl fun item mem => each item mem (wellFormedItems_iff.mp formed item mem)
  | obj entries each =>
    intro formed
    rw [wellFormed, Bool.and_eq_true, decide_eq_true_eq] at formed
    rw [jsonEqual, beq_self_eq_true, Bool.true_and]
    refine entriesEqual_of_lookup fun entry mem => ⟨?_, ?_⟩
    · exact KeyedLists.lookup_of_mem formed.1 mem
    · exact each entry mem (wellFormedEntries_iff.mp formed.2 entry mem)
  | null | bool _ | int _ | float _ | str _ =>
    intro _
    rw [jsonEqual]
    exact scalarEqual_refl _

theorem FrozenJsonObject.equal_refl (object : FrozenJsonObject) : object.equal object = true :=
  jsonEqual_refl _ object.frozen

end RoboAgent.FrozenJson
