import Mathlib
import RoboAgent.JsonReader
import RoboAgent.FalliblePrograms

/-! The guard that counts brackets before a model's answer is parsed. It is held against the grammar
of JSON texts: every member of an object is counted, also one that a later member of the same name
replaces. -/

namespace RoboAgent.JsonDepth
open RoboAgent.Dicts RoboAgent.KeyedLists
open RoboAgent.FalliblePrograms (ok_bind)

inductive Raised
  /-- VisionError, "semantic_output_limit_exceeded". -/
  | limitExceeded
deriving DecidableEq

structure Scanning where
  depth : Int
  quoted : Bool
  escaped : Bool
deriving DecidableEq

def step (maximum : Int) (s : Scanning) (char : Char) : Except Raised Scanning :=
  if s.quoted then
    if s.escaped then .ok { s with escaped := false }
    else if char = '\x5c' then .ok { s with escaped := true }
    else if char = '\x22' then .ok { s with quoted := false }
    else .ok s
  else if char = '\x22' then .ok { s with quoted := true }
  else if char = '[' ∨ char = '\x7b' then
    if s.depth + 1 > maximum then .error .limitExceeded
    else .ok { s with depth := s.depth + 1 }
  else if char = ']' ∨ char = '\x7d' then .ok { s with depth := s.depth - 1 }
  else .ok s

def jsonDepth (text : List Char) (maximum : Int) : Except Raised Unit :=
  (text.foldlM (step maximum) ⟨0, false, false⟩).map fun _ => ()

/-! The grammar of JSON texts -/

/-- The parts of a text: a literal or a number by its characters, a string by its code points, the
members of an object as they stand. -/
inductive Value
  | scalar (text : List Char)
  | string (codes : List Nat)
  | array (items : List Value)
  | object (members : List (List Nat × Value))

def Blank (text : List Char) : Prop := ∀ c ∈ text, c ∈ " \t\n\r".toList

def literals : List (List Char) := ["null".toList, "true".toList, "false".toList]

def Digits (text : List Char) : Prop := text ≠ [] ∧ ∀ c ∈ text, c.isDigit = true

/-- An integer part without a leading zero, then a fraction and an exponent where there are any. -/
inductive Number : List Char → Prop
  | mk {sign whole fraction exponent : List Char} (signed : sign = [] ∨ sign = ['-'])
    (digits : Digits whole) (leading : whole.head? = some '0' → whole = ['0'])
    (fractional : fraction = [] ∨ ∃ tail, fraction = '.' :: tail ∧ Digits tail)
    (scaled : exponent = [] ∨ ∃ e mark tail, exponent = e :: (mark ++ tail) ∧ (e = 'e' ∨ e = 'E') ∧
      (mark = [] ∨ mark = ['+'] ∨ mark = ['-']) ∧ Digits tail) :
    Number (sign ++ whole ++ fraction ++ exponent)

def escapes : List (Char × Char) :=
  [('\x22', '\x22'), ('\x5c', '\x5c'), ('/', '/'), ('b', '\x08'), ('f', '\x0c'), ('n', '\n'),
    ('r', '\r'), ('t', '\t')]

def hexDigits : List Char := "0123456789abcdefABCDEF".toList

def hexValue (c : Char) : Nat :=
  if hexDigits.idxOf c < 16 then hexDigits.idxOf c else hexDigits.idxOf c - 6

/-- The characters between the quotes, with the code unit or code point of each. -/
inductive Characters : List Char → List Nat → Prop
  | nil : Characters [] []
  | plain {c : Char} {rest : List Char} {units : List Nat} (quote : c ≠ '\x22')
    (backslash : c ≠ '\x5c') (printable : 0x20 ≤ c.toNat) (tail : Characters rest units) :
    Characters (c :: rest) (c.toNat :: units)
  | escape {c d : Char} {rest : List Char} {units : List Nat} (known : (c, d) ∈ escapes)
    (tail : Characters rest units) : Characters ('\x5c' :: c :: rest) (d.toNat :: units)
  | unicode {hex rest : List Char} {units : List Nat} (four : hex.length = 4)
    (digits : ∀ c ∈ hex, c ∈ hexDigits) (tail : Characters rest units) :
    Characters ('\x5c' :: 'u' :: (hex ++ rest))
      (hex.foldl (fun n c => 16 * n + hexValue c) 0 :: units)

/-- Two escaped surrogates are one code point. -/
def combine : List Nat → List Nat
  | high :: low :: rest =>
    if 0xd800 ≤ high ∧ high < 0xdc00 ∧ 0xdc00 ≤ low ∧ low < 0xe000 then
      (0x10000 + (high - 0xd800) * 0x400 + (low - 0xdc00)) :: combine rest
    else high :: combine (low :: rest)
  | units => units

def quoted (body : List Char) : List Char := '\x22' :: (body ++ ['\x22'])

inductive Part
  | value (value : Value)
  | items (items : List Value)
  | members (members : List (List Nat × Value))

/-- Items and members come with the blanks around them. -/
inductive Reads : List Char → Part → Prop
  | literal {text : List Char} (known : text ∈ literals) : Reads text (.value (.scalar text))
  | number {text : List Char} (number : Number text) : Reads text (.value (.scalar text))
  | string {body : List Char} {units : List Nat} (characters : Characters body units) :
    Reads (quoted body) (.value (.string (combine units)))
  | emptyArray {blank : List Char} (empty : Blank blank) :
    Reads ('[' :: (blank ++ [']'])) (.value (.array []))
  | array {text : List Char} {items : List Value} (inside : Reads text (.items items)) :
    Reads ('[' :: (text ++ [']'])) (.value (.array items))
  | emptyObject {blank : List Char} (empty : Blank blank) :
    Reads ('\x7b' :: (blank ++ ['\x7d'])) (.value (.object []))
  | object {text : List Char} {members : List (List Nat × Value)}
    (inside : Reads text (.members members)) :
    Reads ('\x7b' :: (text ++ ['\x7d'])) (.value (.object members))
  | item {before text after : List Char} {value : Value} (blank : Blank before)
    (blank' : Blank after) (inside : Reads text (.value value)) :
    Reads (before ++ text ++ after) (.items [value])
  | items {text rest : List Char} {value : Value} {items : List Value}
    (first : Reads text (.items [value])) (tail : Reads rest (.items items)) :
    Reads (text ++ ',' :: rest) (.items (value :: items))
  | member {before body after text : List Char} {units : List Nat} {value : Value}
    (blank : Blank before) (name : Characters body units) (blank' : Blank after)
    (inside : Reads text (.items [value])) :
    Reads (before ++ quoted body ++ after ++ ':' :: text) (.members [(combine units, value)])
  | members {text rest : List Char} {member : List Nat × Value}
    {members : List (List Nat × Value)} (first : Reads text (.members [member]))
    (tail : Reads rest (.members members)) :
    Reads (text ++ ',' :: rest) (.members (member :: members))

/-- The text is valid JSON, of these parts. -/
def Parses (text : List Char) (value : Value) : Prop := Reads text (.items [value])

mutual
def Value.depth : Value → Nat
  | .scalar _ | .string _ => 0
  | .array items => 1 + depthItems items
  | .object members => 1 + depthMembers members

def depthItems : List Value → Nat
  | [] => 0
  | item :: items => max item.depth (depthItems items)

def depthMembers : List (List Nat × Value) → Nat
  | [] => 0
  | (_, value) :: members => max value.depth (depthMembers members)
end

mutual
/-- The value a text denotes: of the members of one name the last counts. -/
def Value.denoted : Value → Value
  | .scalar text => .scalar text
  | .string codes => .string codes
  | .array items => .array (denotedItems items)
  | .object members =>
    .object ((denotedMembers members).foldl (fun kept m => putEntry m.1 m.2 kept) [])

def denotedItems : List Value → List Value
  | [] => []
  | item :: items => item.denoted :: denotedItems items

def denotedMembers : List (List Nat × Value) → List (List Nat × Value)
  | [] => []
  | (name, value) :: members => (name, value.denoted) :: denotedMembers members
end

mutual
/-- No object has two members of one name. -/
def Value.uniqueNames : Value → Bool
  | .scalar _ | .string _ => true
  | .array items => uniqueItems items
  | .object members => decide (keys members).Nodup && uniqueMembers members

def uniqueItems : List Value → Bool
  | [] => true
  | item :: items => item.uniqueNames && uniqueItems items

def uniqueMembers : List (List Nat × Value) → Bool
  | [] => true
  | (_, value) :: members => value.uniqueNames && uniqueMembers members
end

def Part.depth : Part → Nat
  | .value root => root.depth
  | .items list => depthItems list
  | .members list => depthMembers list

/-- Outside a string, the scanner goes through a text to the depth it had before, unless the text
nests too deep. -/
def Walks (maximum : Int) (text : List Char) (depth : Nat) : Prop :=
  ∀ d : Int, text.foldlM (step maximum) ⟨d, false, false⟩ =
    if depth = 0 ∨ d + depth ≤ maximum then .ok ⟨d, false, false⟩ else .error .limitExceeded

section
variable {maximum : Int}

theorem Walks.append {text later : List Char} {n m : Nat} (first : Walks maximum text n)
    (second : Walks maximum later m) : Walks maximum (text ++ later) (max n m) := by
  intro d
  rw [List.foldlM_append, first d]
  by_cases fits : n = 0 ∨ d + n ≤ maximum
  · rw [if_pos fits, ok_bind, second d]
    exact if_congr (by omega) rfl rfl
  · rw [if_neg fits, if_neg (by omega)]
    rfl

def isPlain (c : Char) : Bool :=
  !(['\x22', '[', ']', '\x7b', '\x7d'].contains c)

theorem Walks.plain {text : List Char} (plain : ∀ c ∈ text, isPlain c = true) :
    Walks maximum text 0 := by
  intro d
  rw [if_pos (Or.inl rfl)]
  induction text with
  | nil => rfl
  | cons c text ih =>
    rw [List.forall_mem_cons] at plain
    have here : step maximum ⟨d, false, false⟩ c = .ok ⟨d, false, false⟩ := by
      have other := plain.1
      simp only [isPlain, Bool.not_eq_true', List.contains_eq_mem, decide_eq_false_iff_not,
        List.mem_cons, List.not_mem_nil, or_false, not_or] at other
      simp [step, other]
    rw [List.foldlM_cons, here, ok_bind]
    exact ih plain.2

theorem Walks.enclosed {text : List Char} {n : Nat} {first last : Char}
    (opens : first = '[' ∨ first = '\x7b') (closes : last = ']' ∨ last = '\x7d')
    (inside : Walks maximum text n) : Walks maximum (first :: (text ++ [last])) (1 + n) := by
  intro d
  have opened : step maximum ⟨d, false, false⟩ first =
      if d + 1 > maximum then .error .limitExceeded else .ok ⟨d + 1, false, false⟩ := by
    obtain rfl | rfl := opens <;> rfl
  have closed : step maximum ⟨d + 1, false, false⟩ last = .ok ⟨d, false, false⟩ := by
    have back : d + 1 - 1 = d := Int.add_sub_cancel d 1
    obtain rfl | rfl := closes <;> simp [step, back]
  rw [List.foldlM_cons, opened]
  by_cases deep : d + 1 > maximum
  · rw [if_pos deep, if_neg (by omega)]
    rfl
  · rw [if_neg deep, ok_bind, List.foldlM_append, inside (d + 1)]
    by_cases fits : n = 0 ∨ d + 1 + n ≤ maximum
    · rw [if_pos fits, ok_bind, if_pos (by omega), List.foldlM_cons, closed, ok_bind]
      rfl
    · rw [if_neg fits, if_neg (by omega)]
      rfl

/-- A backslash takes the character behind it along. -/
theorem foldlM_escape (d : Int) (c : Char) (rest : List Char) :
    ('\x5c' :: c :: rest).foldlM (step maximum) ⟨d, true, false⟩ =
      rest.foldlM (step maximum) ⟨d, true, false⟩ := rfl

/-- Inside a string. -/
theorem walks_characters {body : List Char} {units : List Nat} (h : Characters body units)
    (d : Int) (later : List Char) :
    (body ++ later).foldlM (step maximum) ⟨d, true, false⟩ =
      later.foldlM (step maximum) ⟨d, true, false⟩ := by
  induction h with
  | nil => rfl
  | @plain c rest units quote backslash printable tail ih =>
    have here : step maximum ⟨d, true, false⟩ c = .ok ⟨d, true, false⟩ := by
      simp [step, quote, backslash]
    rw [List.cons_append, List.foldlM_cons, here, ok_bind, ih]
  | escape known tail ih =>
    rw [List.cons_append, List.cons_append, foldlM_escape, ih]
  | @unicode hex rest units four digits tail ih =>
    rw [List.cons_append, List.cons_append, List.append_assoc, foldlM_escape, ← ih]
    clear four
    induction hex with
    | nil => rfl
    | cons c hex again =>
      rw [List.forall_mem_cons] at digits
      have here : step maximum ⟨d, true, false⟩ c = .ok ⟨d, true, false⟩ := by
        have others : (hexDigits.all fun c => c ≠ '\x22' ∧ c ≠ '\x5c') = true := by decide
        have other := of_decide_eq_true (List.all_eq_true.mp others c digits.1)
        simp [step, other]
      rw [List.cons_append, List.foldlM_cons, here, ok_bind]
      exact again digits.2

theorem walks_quoted {body : List Char} {units : List Nat} (h : Characters body units) :
    Walks maximum (quoted body) 0 := by
  intro d
  rw [if_pos (Or.inl rfl), quoted, List.foldlM_cons]
  exact walks_characters h d ['\x22']

theorem isPlain_of_isDigit {c : Char} (digit : c.isDigit = true) : isPlain c = true := by
  rw [isPlain, Bool.not_eq_true', List.contains_eq_mem, decide_eq_false_iff_not]
  intro mem
  have none : (['\x22', '[', ']', '\x7b', '\x7d'].all fun c => !c.isDigit) = true := by decide
  have other := List.all_eq_true.mp none c mem
  rw [digit] at other
  cases other

theorem isPlain_of_blank {text : List Char} (blank : Blank text) : ∀ c ∈ text, isPlain c = true :=
  have blanks : " \t\n\r".toList.all isPlain = true := by decide
  fun c mem => List.all_eq_true.mp blanks c (blank c mem)

theorem isPlain_of_number {text : List Char} (number : Number text) :
    ∀ c ∈ text, isPlain c = true := by
  cases number with
  | @mk sign whole fraction exponent signed digits _ fractional scaled =>
    have figures {text : List Char} (h : Digits text) : ∀ c ∈ text, isPlain c = true :=
      fun c mem => isPlain_of_isDigit (h.2 c mem)
    simp only [List.forall_mem_append]
    refine ⟨⟨⟨?_, figures digits⟩, ?_⟩, ?_⟩
    · obtain rfl | rfl := signed <;> exact List.all_eq_true.mp (by decide)
    · obtain rfl | ⟨tail, rfl, more⟩ := fractional
      · exact List.forall_mem_nil _
      · exact List.forall_mem_cons.mpr ⟨by decide, figures more⟩
    · obtain rfl | ⟨e, mark, tail, rfl, letter, marked, more⟩ := scaled
      · exact List.forall_mem_nil _
      · refine List.forall_mem_cons.mpr ⟨?_, List.forall_mem_append.mpr ⟨?_, figures more⟩⟩
        · obtain rfl | rfl := letter <;> decide
        · obtain rfl | rfl | rfl := marked <;> exact List.all_eq_true.mp (by decide)

theorem Walks.of_eq {text : List Char} {n m : Nat} (h : Walks maximum text n) (same : n = m) :
    Walks maximum text m :=
  same ▸ h

theorem comma : isPlain ',' = true := by decide

theorem colon : isPlain ':' = true := by decide

theorem walks_of_reads {text : List Char} {part : Part} (h : Reads text part) :
    Walks maximum text part.depth := by
  induction h with
  | literal known =>
    have plain : (literals.all fun text => text.all isPlain) = true := by decide
    exact .plain (List.all_eq_true.mp (List.all_eq_true.mp plain _ known))
  | number number => exact .plain (isPlain_of_number number)
  | string characters => exact walks_quoted characters
  | emptyArray empty =>
    exact .enclosed (.inl rfl) (.inl rfl) (.plain (isPlain_of_blank empty))
  | emptyObject empty =>
    exact .enclosed (.inr rfl) (.inr rfl) (.plain (isPlain_of_blank empty))
  | array _ ih => exact .enclosed (.inl rfl) (.inl rfl) ih
  | object _ ih => exact .enclosed (.inr rfl) (.inr rfl) ih
  | @item before text after value blank blank' _ ih =>
    have whole := ((Walks.plain (isPlain_of_blank blank)).append ih).append
      (.plain (isPlain_of_blank blank'))
    exact whole.of_eq (by simp [Part.depth, depthItems])
  | @items text rest value items _ _ first tail =>
    have whole := first.append ((Walks.plain (List.forall_mem_singleton.mpr comma)).append tail)
    exact whole.of_eq (by simp [Part.depth, depthItems])
  | @member before body after text units value blank name blank' _ ih =>
    have head : Walks maximum _ _ := ((Walks.plain (isPlain_of_blank blank)).append
      (walks_quoted name)).append (.plain (isPlain_of_blank blank'))
    have whole := head.append ((Walks.plain (List.forall_mem_singleton.mpr colon)).append ih)
    exact whole.of_eq (by simp [Part.depth, depthItems, depthMembers])
  | @members text rest member members _ _ first tail =>
    have whole := first.append ((Walks.plain (List.forall_mem_singleton.mpr comma)).append tail)
    exact whole.of_eq (by simp [Part.depth, depthMembers])

theorem jsonDepth_eq {text : List Char} {value : Value} (h : Parses text value) :
    jsonDepth text maximum =
      if value.depth = 0 ∨ value.depth ≤ maximum then .ok () else .error .limitExceeded := by
  have walks := @walks_of_reads maximum _ _ h 0
  have depth : Part.depth (.items [value]) = value.depth := by
    simp [Part.depth, depthItems]
  rw [depth, Int.zero_add] at walks
  rw [jsonDepth, walks]
  split_ifs <;> rfl

end

theorem depthMembers_putEntry (name : List Nat) (value : Value)
    (members : List (List Nat × Value)) :
    depthMembers (putEntry name value members) ≤ max (depthMembers members) value.depth := by
  induction members with
  | nil => exact Nat.le_of_eq (Nat.max_comm ..)
  | cons member members ih =>
    obtain ⟨other, kept⟩ := member
    rw [putEntry]
    split_ifs with same
    · rw [depthMembers, depthMembers]
      omega
    · rw [depthMembers, depthMembers]
      omega

theorem depthMembers_last (members kept : List (List Nat × Value)) :
    depthMembers (members.foldl (fun kept m => putEntry m.1 m.2 kept) kept) ≤
      max (depthMembers kept) (depthMembers members) := by
  induction members generalizing kept with
  | nil => exact Nat.le_max_left ..
  | cons member members ih =>
    obtain ⟨name, value⟩ := member
    have put := depthMembers_putEntry name value kept
    refine Nat.le_trans (ih (putEntry name value kept)) ?_
    rw [depthMembers]
    omega

mutual
theorem denoted_depth_le : ∀ value : Value, value.denoted.depth ≤ value.depth
  | .scalar _ | .string _ => Nat.le_refl _
  | .array items => by
    rw [Value.denoted, Value.depth, Value.depth]
    exact Nat.add_le_add_left (denotedItems_depth_le items) 1
  | .object members => by
    rw [Value.denoted, Value.depth, Value.depth]
    refine Nat.add_le_add_left (Nat.le_trans (depthMembers_last _ []) ?_) 1
    exact Nat.max_le.mpr ⟨Nat.zero_le _, denotedMembers_depth_le members⟩

theorem denotedItems_depth_le : ∀ items, depthItems (denotedItems items) ≤ depthItems items
  | [] => Nat.le_refl _
  | item :: items => by
    have first := denoted_depth_le item
    have rest := denotedItems_depth_le items
    rw [denotedItems, depthItems, depthItems]
    omega

theorem denotedMembers_depth_le :
    ∀ members, depthMembers (denotedMembers members) ≤ depthMembers members
  | [] => Nat.le_refl _
  | (_, value) :: members => by
    have first := denoted_depth_le value
    have rest := denotedMembers_depth_le members
    rw [denotedMembers, depthMembers, depthMembers]
    omega
end

theorem keys_denotedMembers : ∀ members, keys (denotedMembers members) = keys members
  | [] => rfl
  | (name, _) :: members => by
    rw [denotedMembers, keys, List.map_cons, ← keys, keys_denotedMembers members]
    rfl

mutual
theorem denoted_eq : ∀ value : Value, value.uniqueNames = true → value.denoted = value
  | .scalar _, _ | .string _, _ => rfl
  | .array items, h => by
    rw [Value.denoted, denotedItems_eq items h]
  | .object members, h => by
    rw [Value.uniqueNames, Bool.and_eq_true, decide_eq_true_eq] at h
    have distinct : (keys ([] ++ members)).Nodup := h.1
    rw [Value.denoted, denotedMembers_eq members h.2, Dict.foldl_putEntry distinct, List.nil_append]

theorem denotedItems_eq : ∀ items, uniqueItems items = true → denotedItems items = items
  | [], _ => rfl
  | item :: items, h => by
    rw [uniqueItems, Bool.and_eq_true] at h
    rw [denotedItems, denoted_eq item h.1, denotedItems_eq items h.2]

theorem denotedMembers_eq :
    ∀ members, uniqueMembers members = true → denotedMembers members = members
  | [], _ => rfl
  | (_, value) :: members, h => by
    rw [uniqueMembers, Bool.and_eq_true] at h
    rw [denotedMembers, denoted_eq value h.1, denotedMembers_eq members h.2]
end

/-- The guard raises just when the text nests deeper than the maximum, and so whenever the value
does. Where no object repeats a name, that is the nesting of the value. -/
theorem jsonDepth_exact (text : List Char) (value : Value) (h : Parses text value) :
    (∀ maximum : Int, jsonDepth text maximum = .error .limitExceeded ↔
      0 < value.depth ∧ maximum < value.depth) ∧
    value.denoted.depth ≤ value.depth ∧
    (value.uniqueNames = true → value.denoted.depth = value.depth) := by
  refine ⟨fun maximum => ?_, denoted_depth_le value, fun unique => by rw [denoted_eq value unique]⟩
  rw [jsonDepth_eq h]
  split_ifs with fits
  · exact iff_of_false (fun raised => by cases raised) (by omega)
  · exact iff_of_true rfl (by omega)

/-- An empty array under a name that comes again: the text nests twice, the value it denotes once,
as json.loads keeps the number. -/
def repeated : Value := .object [([], .array []), ([], .scalar ['0'])]

def repeatedText : List Char := "\x7b\"\":[],\"\":0\x7d".toList

theorem repeated_parses : Parses repeatedText repeated := by
  have none : Blank [] := List.forall_mem_nil _
  have digits : ∀ c ∈ ['0'], c.isDigit = true := List.forall_mem_singleton.mpr rfl
  have zero : Number ['0'] := .mk (.inl rfl) ⟨List.cons_ne_nil _ _, digits⟩ (fun _ => rfl)
    (.inl rfl) (.inl rfl)
  have first : Reads "\"\":[]".toList (.members [([], .array [])]) :=
    .member none .nil none (.item none none (.emptyArray none))
  have second : Reads "\"\":0".toList (.members [([], .scalar ['0'])]) :=
    .member none .nil none (.item none none (.number zero))
  exact .item none none (.object (.members first second))

theorem jsonDepth_exact_repeated :
    (∀ maximum : Int, jsonDepth repeatedText maximum = .error .limitExceeded ↔
      0 < repeated.depth ∧ maximum < repeated.depth) ∧
    repeated.denoted.depth ≤ repeated.depth ∧
    (repeated.uniqueNames = true → repeated.denoted.depth = repeated.depth) :=
  jsonDepth_exact repeatedText repeated repeated_parses

/-- The guard raises at a maximum that the value does not exceed. -/
theorem repeated_rejected :
    Parses repeatedText repeated ∧
      JsonReader.loads (fun _ => none) repeatedText = some (.obj [("", .int 0)]) ∧
      jsonDepth repeatedText 1 = .error .limitExceeded ∧ ¬1 < repeated.denoted.depth :=
  ⟨repeated_parses, by decide +kernel, by decide, by decide⟩

end RoboAgent.JsonDepth
