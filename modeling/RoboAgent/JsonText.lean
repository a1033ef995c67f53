import RoboAgent.FrozenJson

/-! The compact text of a JSON value, as json.dumps writes it without ASCII escapes. The text of a
float is left to the runtime; of it only documented properties are used. No text is the text of two
values: a value is read off the front of what follows it. -/

namespace RoboAgent.JsonText
open RoboAgent.FrozenJson

def hexDigit (n : Nat) : Char := "0123456789abcdef".toList.getD n '0'

def escapeChar (c : Char) : List Char :=
  if c = '\x22' then ['\x5c', '\x22']
  else if c = '\x5c' then ['\x5c', '\x5c']
  else if c = '\n' then ['\x5c', 'n']
  else if c = '\r' then ['\x5c', 'r']
  else if c = '\t' then ['\x5c', 't']
  else if c = '\x08' then ['\x5c', 'b']
  else if c = '\x0c' then ['\x5c', 'f']
  else if c.toNat < 0x20 then
    ['\x5c', 'u', '0', '0', hexDigit (c.toNat / 16), hexDigit (c.toNat % 16)]
  else [c]

def escaped (s : String) : List Char := s.toList.flatMap escapeChar

def stringText (s : String) : List Char := '\x22' :: (escaped s ++ ['\x22'])

def intText : Int → List Char
  | .ofNat n => Nat.toDigits 10 n
  | .negSucc n => '-' :: Nat.toDigits 10 (n + 1)

/-- The texts after the first, each behind a comma, and the closing bracket. -/
def closing (bracket : Char) (texts : List (List Char)) : List Char :=
  texts.flatMap (',' :: ·) ++ [bracket]

def enclosed (bracket : Char) : List (List Char) → List Char
  | [] => [bracket]
  | text :: texts => text ++ closing bracket texts

section
variable (floatText : PyFloat → List Char)

mutual
def write : JsonValue → List Char
  | .null => "null".toList
  | .bool true => "true".toList
  | .bool false => "false".toList
  | .int n => intText n
  | .float x => floatText x
  | .str s => stringText s
  | .arr items => '[' :: enclosed ']' (writeItems items)
  | .obj entries => '\x7b' :: enclosed '\x7d' (writeEntries entries)

def writeItems : List JsonValue → List (List Char)
  | [] => []
  | item :: items => write item :: writeItems items

def writeEntries : List (String × JsonValue) → List (List Char)
  | [] => []
  | (key, value) :: entries => (stringText key ++ ':' :: write value) :: writeEntries entries
end

/-- What is used of the text of a float: it is read back, and it does not look like an integer. -/
structure FloatText : Prop where
  injective : ∀ x y, x.isFinite = true → y.isFinite = true → floatText x = floatText y → x = y
  chars : ∀ x, x.isFinite = true → ∀ c ∈ floatText x, c.isDigit = true ∨ c ∈ "-+.e".toList
  marked : ∀ x, x.isFinite = true → '.' ∈ floatText x ∨ 'e' ∈ floatText x

end

def hexValue (c : Char) : Nat := "0123456789abcdef".toList.idxOf c

theorem hexValue_hexDigit : ∀ n < 16, hexValue (hexDigit n) = n := by decide

/-- Read one character of a string back. -/
def unescape : List Char → Option (Char × List Char)
  | '\x5c' :: 'n' :: rest => some ('\n', rest)
  | '\x5c' :: 'r' :: rest => some ('\r', rest)
  | '\x5c' :: 't' :: rest => some ('\t', rest)
  | '\x5c' :: 'b' :: rest => some ('\x08', rest)
  | '\x5c' :: 'f' :: rest => some ('\x0c', rest)
  | '\x5c' :: 'u' :: _ :: _ :: high :: low :: rest =>
    some (Char.ofNat (16 * hexValue high + hexValue low), rest)
  | '\x5c' :: c :: rest => some (c, rest)
  | c :: rest => some (c, rest)
  | [] => none

theorem unescape_escapeChar (c : Char) (rest : List Char) :
    unescape (escapeChar c ++ rest) = some (c, rest) := by
  unfold escapeChar
  split_ifs with quote backslash newline carriage tab backspace feed control
  · rw [quote]; rfl
  · rw [backslash]; rfl
  · rw [newline]; rfl
  · rw [carriage]; rfl
  · rw [tab]; rfl
  · rw [backspace]; rfl
  · rw [feed]; rfl
  · have high := hexValue_hexDigit (c.toNat / 16) (by omega)
    have low := hexValue_hexDigit (c.toNat % 16) (by omega)
    have whole : 16 * (c.toNat / 16) + c.toNat % 16 = c.toNat := Nat.div_add_mod ..
    simp only [List.cons_append, List.nil_append, unescape]
    rw [high, low, whole, Char.ofNat_toNat]
  · rw [List.singleton_append, unescape.eq_def]
    split <;> simp_all

/-- The text of a character does not begin with the quote that ends a string. -/
theorem escapeChar_ne_quote (c : Char) (rest later : List Char) :
    escapeChar c ++ rest ≠ '\x22' :: later := by
  unfold escapeChar
  split_ifs with quote <;> simp [*]

theorem escapes_injective {s t : List Char} {rest rest' : List Char}
    (h : s.flatMap escapeChar ++ '\x22' :: rest = t.flatMap escapeChar ++ '\x22' :: rest') :
    s = t ∧ rest = rest' := by
  induction s generalizing t with
  | nil =>
    cases t with
    | nil => exact ⟨rfl, (List.cons.inj h).2⟩
    | cons c t =>
      rw [List.flatMap_cons, List.append_assoc] at h
      exact absurd h.symm (escapeChar_ne_quote _ _ _)
  | cons c s ih =>
    rw [List.flatMap_cons, List.append_assoc] at h
    cases t with
    | nil => exact absurd h (escapeChar_ne_quote _ _ _)
    | cons d t =>
      rw [List.flatMap_cons, List.append_assoc] at h
      have read := congrArg unescape h
      rw [unescape_escapeChar, unescape_escapeChar, Option.some.injEq, Prod.mk.injEq] at read
      obtain ⟨rfl, later⟩ := read
      obtain ⟨rfl, same⟩ := ih later
      exact ⟨rfl, same⟩

theorem stringText_injective {s t : String} {rest rest' : List Char}
    (h : stringText s ++ rest = stringText t ++ rest') : s = t ∧ rest = rest' := by
  simp only [stringText, List.cons_append, List.append_assoc, List.cons.injEq, List.nil_append,
    true_and] at h
  obtain ⟨same, later⟩ := escapes_injective h
  exact ⟨String.toList_inj.mp same, later⟩

theorem intText_chars (n : Int) : ∀ c ∈ intText n, c.isDigit = true ∨ c = '-' := by
  intro c mem
  cases n with
  | ofNat n => exact .inl (Nat.isDigit_of_mem_toDigits (by decide) (by decide) mem)
  | negSucc n =>
    obtain rfl | later := List.mem_cons.mp mem
    · exact .inr rfl
    · exact .inl (Nat.isDigit_of_mem_toDigits (by decide) (by decide) later)

theorem toDigits_injective {n m : Nat} (h : Nat.toDigits 10 n = Nat.toDigits 10 m) : n = m := by
  rw [← Nat.ofDigitChars_ten_toDigits (n := n), h, Nat.ofDigitChars_ten_toDigits]

theorem toDigits_ne_minus (n : Nat) (rest : List Char) : Nat.toDigits 10 n ≠ '-' :: rest := by
  intro h
  have digit := Nat.isDigit_of_mem_toDigits (n := n) (by decide) (by decide)
    (h ▸ List.mem_cons_self)
  cases digit

theorem intText_injective {n m : Int} (h : intText n = intText m) : n = m := by
  cases n with
  | ofNat n =>
    cases m with
    | ofNat m => exact congrArg _ (toDigits_injective h)
    | negSucc m => exact absurd h (toDigits_ne_minus n _)
  | negSucc n =>
    cases m with
    | ofNat m => exact absurd h.symm (toDigits_ne_minus m _)
    | negSucc m => exact congrArg _ (Nat.succ.inj (toDigits_injective (List.cons.inj h).2))

theorem forall_mem_of_all {p : Char → Prop} [DecidablePred p] {chars : List Char}
    (h : (chars.all fun c => decide (p c)) = true) : ∀ c ∈ chars, p c := by
  simpa using h

/-- The characters that open or close a value; no number or literal has one. -/
def special (c : Char) : Bool := "\x22[\x7b,]\x7d".toList.contains c

/-- What may follow a value: the end of the text, a comma or a closing bracket. -/
def Delimited (rest : List Char) : Prop := ∀ c ∈ rest.head?, c ∈ ",]\x7d".toList

theorem plain_injective {a b rest rest' : List Char} (plain : ∀ c ∈ a, special c = false)
    (plain' : ∀ c ∈ b, special c = false) (delimited : Delimited rest)
    (delimited' : Delimited rest') (h : a ++ rest = b ++ rest') : a = b ∧ rest = rest' := by
  have ends {rest : List Char} (delimited : Delimited rest) :
      rest.takeWhile (fun c => !special c) = [] := by
    cases rest with
    | nil => rfl
    | cons c later =>
      have closes : ∀ c ∈ ",]\x7d".toList, special c = true := forall_mem_of_all (by decide)
      rw [List.takeWhile_cons, closes c (delimited c rfl)]
      rfl
  have read {a rest : List Char} (plain : ∀ c ∈ a, special c = false)
      (delimited : Delimited rest) : (a ++ rest).takeWhile (fun c => !special c) = a := by
    rw [List.takeWhile_append_of_pos fun c mem => congrArg not (plain c mem), ends delimited,
      List.append_nil]
  have same : a = b := by rw [← read plain delimited, h, read plain' delimited']
  exact ⟨same, List.append_cancel_left (same ▸ h)⟩

def NumberText (text : List Char) : Prop :=
  ∀ c ∈ text, c.isDigit = true ∨ c ∈ "-+.e".toList

theorem intText_number (n : Int) : NumberText (intText n) := by
  intro c mem
  obtain digit | rfl := intText_chars n c mem
  · exact .inl digit
  · exact .inr (by decide)

theorem intText_ne_nil (n : Int) : intText n ≠ [] := by
  cases n with
  | ofNat n => exact Nat.toDigits_ne_nil
  | negSucc n => exact List.cons_ne_nil _ _

theorem NumberText.plain {text : List Char} (h : NumberText text) :
    ∀ c ∈ text, special c = false := by
  intro c mem
  obtain digit | sign := h c mem
  · by_contra isSpecial
    rw [Bool.not_eq_false] at isSpecial
    have never : ∀ c ∈ "\x22[\x7b,]\x7d".toList, c.isDigit = false := forall_mem_of_all (by decide)
    rw [never c (List.contains_iff_mem.mp isSpecial)] at digit
    cases digit
  · have signs : ∀ c ∈ "-+.e".toList, special c = false := forall_mem_of_all (by decide)
    exact signs c sign

/-- How an array, an object or a string begins; the other values have no opening character. -/
def opening : JsonValue → Option Char
  | .str _ => some '\x22'
  | .arr _ => some '['
  | .obj _ => some '\x7b'
  | .null | .bool _ | .int _ | .float _ => none

variable {floatText : PyFloat → List Char}

theorem FloatText.ne_nil (correct : FloatText floatText) {x : PyFloat} (h : x.isFinite = true) :
    floatText x ≠ [] := by
  intro empty
  obtain point | exponent := correct.marked x h
  · rw [empty] at point
    cases point
  · rw [empty] at exponent
    cases exponent

theorem FloatText.ne_intText (correct : FloatText floatText) {x : PyFloat}
    (h : x.isFinite = true) (n : Int) : floatText x ≠ intText n := by
  intro same
  have only : ∀ c ∈ intText n, c ≠ '.' ∧ c ≠ 'e' := by
    intro c mem
    obtain digit | rfl := intText_chars n c mem
    · constructor
      · rintro rfl
        cases digit
      · rintro rfl
        cases digit
    · decide
  rw [← same] at only
  obtain point | exponent := correct.marked x h
  · exact (only _ point).1 rfl
  · exact (only _ exponent).2 rfl

/-- The texts of the values without an opening character. -/
inductive ScalarText (floatText : PyFloat → List Char) : JsonValue → List Char → Prop
  | null : ScalarText floatText .null "null".toList
  | bool (b : Bool) : ScalarText floatText (.bool b) (if b then "true".toList else "false".toList)
  | int (n : Int) : ScalarText floatText (.int n) (intText n)
  | float {x : PyFloat} (finite : x.isFinite = true) : ScalarText floatText (.float x) (floatText x)

theorem scalarText (floatText : PyFloat → List Char) {v : JsonValue} (h : wellFormed v = true) (plain : opening v = none) :
    ScalarText floatText v (write floatText v) := by
  cases v with
  | null => exact .null
  | bool b => cases b <;> exact .bool _
  | int n => exact .int n
  | float x => exact .float h
  | str s => cases plain
  | arr items => cases plain
  | obj entries => cases plain

theorem ScalarText.plain (correct : FloatText floatText) {v : JsonValue} {text : List Char}
    (h : ScalarText floatText v text) : text ≠ [] ∧ ∀ c ∈ text, special c = false := by
  cases h with
  | null => exact ⟨by decide, forall_mem_of_all (by decide)⟩
  | bool b => cases b <;> exact ⟨by decide, forall_mem_of_all (by decide)⟩
  | int n => exact ⟨intText_ne_nil n, (intText_number n).plain⟩
  | float finite =>
    exact ⟨correct.ne_nil finite, NumberText.plain fun c mem => correct.chars _ finite c mem⟩

theorem FloatText.number (correct : FloatText floatText) {x : PyFloat}
    (finite : x.isFinite = true) : NumberText (floatText x) := fun c mem =>
  correct.chars x finite c mem

theorem not_numberText_null : ¬NumberText "null".toList := fun h =>
  absurd (h 'n' (by decide)) (by decide)

theorem not_numberText_bool (b : Bool) :
    ¬NumberText (if b then "true".toList else "false".toList) := by
  intro h
  cases b with
  | true => exact absurd (h 't' (by decide)) (by decide)
  | false => exact absurd (h 'f' (by decide)) (by decide)

theorem ScalarText.injective (correct : FloatText floatText) {v w : JsonValue}
    {text text' : List Char} (h : ScalarText floatText v text)
    (h' : ScalarText floatText w text') (same : text = text') : v = w := by
  cases h with
  | null =>
    cases h' with
    | null => rfl
    | bool b => cases b <;> exact absurd same (by decide)
    | int n => exact absurd (same ▸ intText_number n) not_numberText_null
    | float finite => exact absurd (same ▸ correct.number finite) not_numberText_null
  | bool b =>
    cases h' with
    | null => cases b <;> exact absurd same (by decide)
    | bool b' => cases b <;> cases b' <;> first | rfl | exact absurd same (by decide)
    | int n => exact absurd (same ▸ intText_number n) (not_numberText_bool b)
    | float finite => exact absurd (same ▸ correct.number finite) (not_numberText_bool b)
  | int n =>
    cases h' with
    | null => exact absurd (same ▸ intText_number n) not_numberText_null
    | bool b => exact absurd (same ▸ intText_number n) (not_numberText_bool b)
    | int m => rw [intText_injective same]
    | float finite => exact absurd same.symm (correct.ne_intText finite n)
  | float finite =>
    cases h' with
    | null => exact absurd (same ▸ correct.number finite) not_numberText_null
    | bool b => exact absurd (same ▸ correct.number finite) (not_numberText_bool b)
    | int n => exact absurd same (correct.ne_intText finite n)
    | float finite' => rw [correct.injective _ _ finite finite' same]

/-- Whatever follows, no other element begins where this one does. -/
def Readable {E : Type} (text : E → List Char) (valid : E → Prop) (a : E) : Prop :=
  ∀ b rest rest', valid b → Delimited rest → Delimited rest' →
    text a ++ rest = text b ++ rest' → a = b ∧ rest = rest'

theorem write_opening (floatText : PyFloat → List Char) {v : JsonValue} {c : Char} (h : opening v = some c) :
    c ∈ "\x22[\x7b".toList ∧ ∃ tail, write floatText v = c :: tail := by
  cases v with
  | str s =>
    cases h
    exact ⟨by decide, _, rfl⟩
  | arr items =>
    cases h
    exact ⟨by decide, _, rfl⟩
  | obj entries =>
    cases h
    exact ⟨by decide, _, rfl⟩
  | null => cases h
  | bool b => cases h
  | int n => cases h
  | float x => cases h

theorem opening_eq (correct : FloatText floatText) {v w : JsonValue} {rest rest' : List Char}
    (valid : wellFormed v = true) (valid' : wellFormed w = true)
    (h : write floatText v ++ rest = write floatText w ++ rest') : opening v = opening w := by
  have clash {v w : JsonValue} {rest rest' : List Char} {c : Char} (valid : wellFormed v = true)
      (plain : opening v = none) (opened : opening w = some c)
      (h : write floatText v ++ rest = write floatText w ++ rest') : False := by
    obtain ⟨nonempty, ordinary⟩ := (scalarText floatText valid plain).plain correct
    obtain ⟨member, tail, text⟩ := write_opening floatText opened
    have isSpecial : ∀ c ∈ "\x22[\x7b".toList, special c = true := forall_mem_of_all (by decide)
    obtain ⟨first, later, split⟩ := List.exists_cons_of_ne_nil nonempty
    rw [split, text, List.cons_append, List.cons_append] at h
    have same := (List.cons.inj h).1
    have plainFirst := ordinary first (split ▸ List.mem_cons_self)
    rw [same, isSpecial c member] at plainFirst
    cases plainFirst
  cases opens : opening v with
  | none =>
    cases opens' : opening w with
    | none => rfl
    | some c => exact (clash valid opens opens' h).elim
  | some c =>
    cases opens' : opening w with
    | none => exact (clash valid' opens' opens h.symm).elim
    | some d =>
      obtain ⟨-, tail, text⟩ := write_opening floatText opens
      obtain ⟨-, tail', text'⟩ := write_opening floatText opens'
      rw [text, text', List.cons_append, List.cons_append] at h
      rw [(List.cons.inj h).1]

theorem closing_cons (bracket : Char) (text : List Char) (texts : List (List Char)) :
    closing bracket (text :: texts) = ',' :: (text ++ closing bracket texts) := by
  rw [closing, List.flatMap_cons, List.append_assoc]
  rfl

section
variable {E : Type} {text : E → List Char} {valid : E → Prop} {bracket : Char}
  {items others : List E} {rest rest' : List Char}

theorem delimited_closing (closes : bracket ∈ "]\x7d".toList) (texts : List (List Char))
    (rest : List Char) : Delimited (closing bracket texts ++ rest) := by
  have brackets : ∀ c ∈ "]\x7d".toList, c ∈ ",]\x7d".toList := forall_mem_of_all (by decide)
  intro c mem
  cases texts with
  | nil =>
    cases mem
    exact brackets _ closes
  | cons first texts =>
    rw [closing_cons] at mem
    cases mem
    decide

theorem closing_injective (closes : bracket ∈ "]\x7d".toList)
    (readable : ∀ a ∈ items, Readable text valid a) (others_valid : ∀ b ∈ others, valid b)
    (h : closing bracket (items.map text) ++ rest = closing bracket (others.map text) ++ rest') :
    items = others ∧ rest = rest' := by
  have comma : ∀ c ∈ "]\x7d".toList, c ≠ ',' := forall_mem_of_all (by decide)
  induction items generalizing others with
  | nil =>
    cases others with
    | nil => exact ⟨rfl, (List.cons.inj h).2⟩
    | cons b others =>
      rw [List.map_cons, closing_cons] at h
      exact absurd (List.cons.inj h).1 (comma _ closes)
  | cons a items ih =>
    rw [List.map_cons, closing_cons] at h
    cases others with
    | nil => exact absurd (List.cons.inj h).1.symm (comma _ closes)
    | cons b others =>
      rw [List.map_cons, closing_cons, List.cons_append, List.cons_append, List.append_assoc,
        List.append_assoc] at h
      obtain ⟨rfl, later⟩ := readable a List.mem_cons_self b _ _
        (others_valid b List.mem_cons_self) (delimited_closing closes _ _)
        (delimited_closing closes _ _) (List.cons.inj h).2
      obtain ⟨rfl, same⟩ := ih (fun a mem => readable a (List.mem_cons_of_mem _ mem))
        (fun b mem => others_valid b (List.mem_cons_of_mem _ mem)) later
      exact ⟨rfl, same⟩

theorem enclosed_injective (closes : bracket ∈ "]\x7d".toList)
    (starts : ∀ a, valid a → ∀ rest later, text a ++ rest ≠ bracket :: later)
    (readable : ∀ a ∈ items, Readable text valid a) (items_valid : ∀ a ∈ items, valid a)
    (others_valid : ∀ b ∈ others, valid b)
    (h : enclosed bracket (items.map text) ++ rest = enclosed bracket (others.map text) ++ rest') :
    items = others ∧ rest = rest' := by
  cases items with
  | nil =>
    cases others with
    | nil => exact ⟨rfl, (List.cons.inj h).2⟩
    | cons b others =>
      rw [List.map_cons, enclosed, List.append_assoc] at h
      exact absurd h.symm (starts b (others_valid b List.mem_cons_self) _ _)
  | cons a items =>
    rw [List.map_cons, enclosed, List.append_assoc] at h
    cases others with
    | nil => exact absurd h (starts a (items_valid a List.mem_cons_self) _ _)
    | cons b others =>
      rw [List.map_cons, enclosed, List.append_assoc] at h
      obtain ⟨rfl, later⟩ := readable a List.mem_cons_self b _ _
        (others_valid b List.mem_cons_self) (delimited_closing closes _ _)
        (delimited_closing closes _ _) h
      obtain ⟨rfl, same⟩ := closing_injective closes
        (fun a mem => readable a (List.mem_cons_of_mem _ mem))
        (fun b mem => others_valid b (List.mem_cons_of_mem _ mem)) later
      exact ⟨rfl, same⟩

end

def entryText (floatText : PyFloat → List Char) (entry : String × JsonValue) : List Char :=
  stringText entry.1 ++ ':' :: write floatText entry.2

theorem writeItems_eq_map (items : List JsonValue) :
    writeItems floatText items = items.map (write floatText) := by
  induction items with
  | nil => rfl
  | cons item items ih => rw [writeItems, ih, List.map_cons]

theorem writeEntries_eq_map (entries : List (String × JsonValue)) :
    writeEntries floatText entries = entries.map (entryText floatText) := by
  induction entries with
  | nil => rfl
  | cons entry entries ih =>
    rw [writeEntries, ih, List.map_cons]
    rfl

theorem write_ne_bracket (correct : FloatText floatText) {v : JsonValue}
    (valid : wellFormed v = true) (rest later : List Char) :
    write floatText v ++ rest ≠ ']' :: later := by
  intro h
  cases opens : opening v with
  | none =>
    obtain ⟨nonempty, ordinary⟩ := (scalarText floatText valid opens).plain correct
    obtain ⟨first, tail, split⟩ := List.exists_cons_of_ne_nil nonempty
    rw [split, List.cons_append] at h
    exact absurd (ordinary first (split ▸ List.mem_cons_self)) ((List.cons.inj h).1 ▸ by decide)
  | some c =>
    obtain ⟨member, tail, text⟩ := write_opening floatText opens
    have other : ∀ c ∈ "\x22[\x7b".toList, c ≠ ']' := forall_mem_of_all (by decide)
    rw [text, List.cons_append] at h
    exact other c member (List.cons.inj h).1

theorem readable_entry {entry : String × JsonValue}
    (readable : Readable (write floatText) (wellFormed · = true) entry.2) :
    Readable (entryText floatText) (fun entry => wellFormed entry.2 = true) entry := by
  intro other rest rest' valid delimited delimited' h
  rw [entryText, entryText, List.append_assoc, List.append_assoc] at h
  obtain ⟨key, value⟩ := stringText_injective h
  obtain ⟨same, later⟩ := readable other.2 rest rest' valid delimited delimited'
    (List.cons.inj value).2
  exact ⟨Prod.ext key same, later⟩

theorem readable_scalar (correct : FloatText floatText) {v : JsonValue}
    (valid : wellFormed v = true) (plain : opening v = none) :
    Readable (write floatText) (wellFormed · = true) v := by
  intro w rest rest' valid' delimited delimited' h
  have plain' : opening w = none := (opening_eq correct valid valid' h).symm.trans plain
  have text := scalarText floatText valid plain
  have text' := scalarText floatText valid' plain'
  obtain ⟨same, later⟩ := plain_injective (text.plain correct).2 (text'.plain correct).2
    delimited delimited' h
  exact ⟨text.injective correct text' same, later⟩

theorem readable_str (correct : FloatText floatText) (s : String) :
    Readable (write floatText) (wellFormed · = true) (.str s) := by
  intro w rest rest' valid delimited delimited' h
  have opens : opening w = some '\x22' := (opening_eq correct rfl valid h).symm
  cases w with
  | str t =>
    obtain ⟨rfl, later⟩ := stringText_injective h
    exact ⟨rfl, later⟩
  | _ => cases opens

theorem readable_arr (correct : FloatText floatText) {items : List JsonValue}
    (valid : ∀ item ∈ items, wellFormed item = true)
    (readable : ∀ item ∈ items, Readable (write floatText) (wellFormed · = true) item) :
    Readable (write floatText) (wellFormed · = true) (.arr items) := by
  intro w rest rest' valid' delimited delimited' h
  have opens : opening w = some '[' :=
    (opening_eq (v := .arr items) correct (wellFormedItems_iff.mpr valid) valid' h).symm
  cases w with
  | arr others =>
    rw [write, write, writeItems_eq_map, writeItems_eq_map] at h
    obtain ⟨rfl, later⟩ := enclosed_injective (by decide)
      (fun a valid => write_ne_bracket correct valid) readable valid
      (wellFormedItems_iff.mp valid') (List.cons.inj h).2
    exact ⟨rfl, later⟩
  | _ => cases opens

theorem readable_obj (correct : FloatText floatText) {entries : List (String × JsonValue)}
    (valid : wellFormed (.obj entries) = true)
    (readable : ∀ entry ∈ entries, Readable (write floatText) (wellFormed · = true) entry.2) :
    Readable (write floatText) (wellFormed · = true) (.obj entries) := by
  intro w rest rest' valid' delimited delimited' h
  have opens : opening w = some '\x7b' := (opening_eq correct valid valid' h).symm
  cases w with
  | obj others =>
    rw [write, write, writeEntries_eq_map, writeEntries_eq_map] at h
    rw [wellFormed, Bool.and_eq_true] at valid valid'
    obtain ⟨rfl, later⟩ := enclosed_injective (by decide)
      (fun a _ rest later same => absurd (List.cons.inj same).1 (by decide))
      (fun entry mem => readable_entry (readable entry mem)) (wellFormedEntries_iff.mp valid.2)
      (wellFormedEntries_iff.mp valid'.2) (List.cons.inj h).2
    exact ⟨rfl, later⟩
  | _ => cases opens

theorem readable (correct : FloatText floatText) {v : JsonValue} (valid : wellFormed v = true) :
    Readable (write floatText) (wellFormed · = true) v := by
  induction v using JsonValue.ofParts with
  | str s => exact readable_str correct s
  | arr items ih =>
    have each := wellFormedItems_iff.mp valid
    exact readable_arr correct each fun item mem => ih item mem (each item mem)
  | obj entries ih =>
    have each := wellFormedEntries_iff.mp (Bool.and_eq_true_iff.mp valid).2
    exact readable_obj correct valid fun entry mem => ih entry mem (each entry mem)
  | null => exact readable_scalar correct valid rfl
  | bool b => exact readable_scalar correct valid rfl
  | int n => exact readable_scalar correct valid rfl
  | float x => exact readable_scalar correct valid rfl

/-- A text is the text of one value. -/
theorem write_injective (correct : FloatText floatText) {v w : JsonValue}
    (valid : wellFormed v = true) (valid' : wellFormed w = true)
    (h : write floatText v = write floatText w) : v = w :=
  (readable correct valid w [] [] valid' nofun nofun (by rw [h])).1

end RoboAgent.JsonText
