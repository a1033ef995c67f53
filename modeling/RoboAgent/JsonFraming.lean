import RoboAgent.JsonReader

/-! Where the strings of a JSON text stand. A text is scanned from character to character, outside a
string, inside one or behind a backslash; a character beyond ASCII stands inside a string only. What
is written and what is read goes from outside to outside, so a text that was cut at such a character
is not read. -/

namespace RoboAgent.JsonFraming
open RoboAgent.FrozenJson RoboAgent.JsonText RoboAgent.KeyedLists RoboAgent.JsonReader

inductive Place where
  | outside
  | inside
  | escape
  deriving DecidableEq

def isAscii (c : Char) : Bool := c.toNat < 0x80

def place : Place → Char → Option Place
  | .outside, c => if c = '\x22' then some .inside else if isAscii c then some .outside else none
  | .inside, c =>
    some (if c = '\x22' then .outside else if c = '\x5c' then .escape else .inside)
  | .escape, c => if isAscii c then some .inside else none

def Scans (before : Place) (text : List Char) (after : Place) : Prop :=
  text.foldlM place before = some after

theorem Scans.nil (p : Place) : Scans p [] p := rfl

theorem Scans.append {p q r : Place} {text later : List Char} (first : Scans p text q)
    (second : Scans q later r) : Scans p (text ++ later) r := by
  rw [Scans, List.foldlM_append, first]
  exact second

theorem Scans.cons {p q r : Place} {c : Char} {text : List Char} (first : place p c = some q)
    (second : Scans q text r) : Scans p (c :: text) r := by
  rw [Scans, List.foldlM_cons, first]
  exact second

/-- A character beyond ASCII has a string before it. -/
theorem Scans.before {p q : Place} {before after : List Char} {c : Char} (beyond : isAscii c = false)
    (scans : Scans p (before ++ c :: after) q) : Scans p before .inside := by
  rw [Scans, List.foldlM_append] at scans
  obtain ⟨r, first, second⟩ := Option.bind_eq_some_iff.mp scans
  rw [List.foldlM_cons] at second
  obtain ⟨_, next, -⟩ := Option.bind_eq_some_iff.mp second
  have quote : c ≠ '\x22' := by
    rintro rfl
    cases beyond
  cases r with
  | inside => exact first
  | outside =>
    rw [place, if_neg quote, beyond] at next
    cases next
  | escape =>
    rw [place, beyond] at next
    cases next

theorem place_outside {c : Char} (quote : c ≠ '\x22') (ascii : isAscii c = true) :
    place .outside c = some .outside := by
  rw [place, if_neg quote, if_pos ascii]

theorem scans_outside {text : List Char}
    (plain : ∀ c ∈ text, c ≠ '\x22' ∧ isAscii c = true) : Scans .outside text .outside := by
  induction text with
  | nil => exact .nil _
  | cons c text ih =>
    rw [List.forall_mem_cons] at plain
    exact .cons (place_outside plain.1.1 plain.1.2) (ih plain.2)

/-- The characters of a written value outside its strings. -/
def isPlain (c : Char) : Bool := decide (c ≠ '\x22' ∧ 0x20 ≤ c.toNat ∧ isAscii c = true)

theorem isPlain_of_isDigit {c : Char} (digit : c.isDigit = true) : isPlain c = true := by
  have quote : c ≠ '\x22' := by
    rintro rfl
    cases digit
  rw [Char.isDigit, Bool.and_eq_true, decide_eq_true_eq, decide_eq_true_eq] at digit
  have low : 48 ≤ c.toNat := digit.1
  have high : c.toNat ≤ 57 := digit.2
  exact decide_eq_true ⟨quote, by omega, decide_eq_true (by omega)⟩

theorem isPlain_of_isNumberChar {c : Char} (number : isNumberChar c = true) :
    isPlain c = true := by
  rw [isNumberChar, Bool.or_eq_true] at number
  obtain digit | sign := number
  · exact isPlain_of_isDigit digit
  · have signs : ∀ c ∈ "+-.eE".toList, isPlain c = true := forall_mem_of_all (by decide)
    exact signs c (List.contains_iff_mem.mp sign)

theorem isNumberChar_plain {c : Char} (number : isNumberChar c = true) :
    c ≠ '\x22' ∧ isAscii c = true :=
  have plain := of_decide_eq_true (isPlain_of_isNumberChar number)
  ⟨plain.1, plain.2.2⟩

section
variable {floatText : PyFloat → List Char}

theorem scans_escapeChar (c : Char) : Scans .inside (escapeChar c) .inside := by
  unfold escapeChar
  split_ifs with quote backslash newline carriage tab backspace feed control
  · rfl
  · rfl
  · rfl
  · rfl
  · rfl
  · rfl
  · rfl
  · have digits : ∀ n < 16, place .inside (hexDigit n) = some .inside := by decide
    have high := digits (c.toNat / 16) (by omega)
    have low := digits (c.toNat % 16) (by omega)
    exact .cons rfl (.cons rfl (.cons rfl (.cons rfl (.cons high (.cons low (.nil _))))))
  · rw [Scans, List.foldlM_cons, place, if_neg quote, if_neg backslash]
    rfl

theorem scans_escaped (chars : List Char) : Scans .inside (chars.flatMap escapeChar) .inside := by
  induction chars with
  | nil => exact .nil _
  | cons c chars ih =>
    rw [List.flatMap_cons]
    exact (scans_escapeChar c).append ih

theorem scans_stringText (s : String) : Scans .outside (stringText s) .outside :=
  .cons rfl ((scans_escaped s.toList).append rfl)

/-- A written value is made of plain characters and of the texts of strings. -/
theorem write_parts {P : List Char → Prop} (append : ∀ {a b}, P a → P b → P (a ++ b))
    (plain : ∀ {text : List Char}, (∀ c ∈ text, isPlain c = true) → P text)
    (string : ∀ s, P (stringText s)) (correct : FloatText floatText) (v : JsonValue) :
    wellFormed v = true → P (write floatText v) := by
  have mark {c : Char} (isPlain : isPlain c = true) {text : List Char} (rest : P text) :
      P (c :: text) := append (plain (List.forall_mem_singleton.mpr isPlain)) rest
  have number {text : List Char} (number : NumberText text) : P text :=
    plain fun c mem => isPlain_of_isNumberChar (isNumberChar_of_text number c mem)
  have several {bracket : Char} (isPlain : isPlain bracket = true) {texts : List (List Char)}
      (each : ∀ text ∈ texts, P text) : P (enclosed bracket texts) := by
    have closes : ∀ {texts : List (List Char)}, (∀ text ∈ texts, P text) →
        P (closing bracket texts) := by
      intro texts each
      induction texts with
      | nil => exact plain (List.forall_mem_singleton.mpr isPlain)
      | cons text texts ih =>
        rw [List.forall_mem_cons] at each
        rw [closing_cons]
        exact mark rfl (append each.1 (ih each.2))
    cases texts with
    | nil => exact closes each
    | cons text texts =>
      rw [List.forall_mem_cons] at each
      exact append each.1 (closes each.2)
  induction v using JsonValue.ofParts with
  | null => exact fun _ => plain (List.all_eq_true.mp rfl)
  | bool b =>
    intro _
    cases b with
    | true => exact plain (List.all_eq_true.mp rfl)
    | false => exact plain (List.all_eq_true.mp rfl)
  | int n => exact fun _ => number (intText_number n)
  | float x => exact fun finite => number (correct.number finite)
  | str s => exact fun _ => string s
  | arr items ih =>
    intro formed
    rw [wellFormed, wellFormedItems_iff] at formed
    rw [write, writeItems_eq_map]
    refine mark rfl (several rfl ?_)
    rw [List.forall_mem_map]
    exact fun item mem => ih item mem (formed item mem)
  | obj entries ih =>
    intro formed
    rw [wellFormed, Bool.and_eq_true, wellFormedEntries_iff] at formed
    rw [write, writeEntries_eq_map]
    refine mark rfl (several rfl ?_)
    rw [List.forall_mem_map]
    intro entry mem
    exact append (string entry.1) (mark rfl (ih entry mem (formed.2 entry mem)))

/-- What is written has its strings closed. -/
theorem scans_write (correct : FloatText floatText) {v : JsonValue} (formed : wellFormed v = true) :
    Scans .outside (write floatText v) .outside := by
  refine @write_parts _ (Scans .outside · .outside) .append
    (fun plain => scans_outside fun c mem => ?_) scans_stringText correct v formed
  have isPlain := of_decide_eq_true (plain c mem)
  exact ⟨isPlain.1, isPlain.2.2⟩

theorem printable_escapeChar (c : Char) : ∀ d ∈ escapeChar c, 0x20 ≤ d.toNat := by
  unfold escapeChar
  split_ifs with quote backslash newline carriage tab backspace feed control
  · exact forall_mem_of_all (by decide)
  · exact forall_mem_of_all (by decide)
  · exact forall_mem_of_all (by decide)
  · exact forall_mem_of_all (by decide)
  · exact forall_mem_of_all (by decide)
  · exact forall_mem_of_all (by decide)
  · exact forall_mem_of_all (by decide)
  · have digits : ∀ n < 16, 0x20 ≤ (hexDigit n).toNat := by decide
    have high := digits (c.toNat / 16) (by omega)
    have low := digits (c.toNat % 16) (by omega)
    simp only [List.forall_mem_cons]
    exact ⟨by decide, by decide, by decide, by decide, high, low, nofun⟩
  · rw [List.forall_mem_singleton]
    omega

/-- No control character is written. -/
theorem printable_write (correct : FloatText floatText) {v : JsonValue}
    (formed : wellFormed v = true) : ∀ c ∈ write floatText v, 0x20 ≤ c.toNat := by
  refine @write_parts _ (fun text => ∀ c ∈ text, 0x20 ≤ c.toNat) ?_ ?_ ?_ correct v formed
  · exact fun first second => List.forall_mem_append.mpr ⟨first, second⟩
  · exact fun plain c mem => (of_decide_eq_true (plain c mem)).2.1
  · intro s c mem
    obtain rfl | inner := List.mem_cons.mp mem
    · decide
    · obtain escape | last := List.mem_append.mp inner
      · obtain ⟨d, -, part⟩ := List.mem_flatMap.mp escape
        exact printable_escapeChar d c part
      · rw [List.mem_singleton.mp last]
        decide

end

/-- What is read off the front of a text. -/
def Consumes (before : Place) (text rest : List Char) (after : Place) : Prop :=
  ∃ read, text = read ++ rest ∧ Scans before read after

theorem Consumes.refl (p : Place) (text : List Char) : Consumes p text text p :=
  ⟨[], rfl, .nil p⟩

theorem Consumes.trans {p q r : Place} {text middle rest : List Char}
    (first : Consumes p text middle q) (second : Consumes q middle rest r) :
    Consumes p text rest r := by
  obtain ⟨read, rfl, scans⟩ := first
  obtain ⟨later, rfl, more⟩ := second
  exact ⟨read ++ later, (List.append_assoc ..).symm, scans.append more⟩

theorem Consumes.cons {p q r : Place} {c : Char} {text rest : List Char}
    (first : place p c = some q) (second : Consumes q text rest r) :
    Consumes p (c :: text) rest r := by
  obtain ⟨read, rfl, scans⟩ := second
  exact ⟨c :: read, rfl, .cons first scans⟩

theorem Consumes.of_takeWhile {plain : Char → Bool}
    (each : ∀ c, plain c = true → c ≠ '\x22' ∧ isAscii c = true) (text : List Char) :
    Consumes .outside text (text.dropWhile plain) .outside :=
  ⟨text.takeWhile plain, List.takeWhile_append_dropWhile.symm,
    scans_outside fun c mem => each c (List.all_eq_true.mp List.all_takeWhile c mem)⟩

theorem consumes_skip (text : List Char) : Consumes .outside text (skip text) .outside :=
  .of_takeWhile (fun c space => by
    have spaces : ∀ c ∈ " \t\n\r".toList, c ≠ '\x22' ∧ isAscii c = true :=
      forall_mem_of_all (by decide)
    exact spaces c (List.contains_iff_mem.mp space)) text

theorem place_hexValue? {c : Char} {n : Nat} (hex : hexValue? c = some n) :
    place .inside c = some .inside := by
  have never : ∀ d ∈ "\x22\x5c".toList, hexValue? d = none := forall_mem_of_all (by decide)
  have apart : ∀ d ∈ "\x22\x5c".toList, c ≠ d := by
    rintro d mem rfl
    cases (never c mem).symm.trans hex
  rw [place, if_neg (apart '\x22' (by decide)), if_neg (apart '\x5c' (by decide))]

theorem consumes_readEscape {text rest : List Char} {c : Char}
    (read : readEscape text = some (c, rest)) : Consumes .escape text rest .inside := by
  unfold readEscape at read
  split at read
  · next a b c d rest =>
    obtain ⟨n, digits, read⟩ := Option.bind_eq_some_iff.mp read
    split_ifs at read
    · cases read
      simp only [List.foldlM_cons, List.foldlM_nil, Option.bind_eq_bind, Option.bind_eq_some_iff,
        Option.map_eq_some_iff] at digits
      obtain ⟨_, ⟨_, first, -⟩, _, ⟨_, second, -⟩, _, ⟨_, third, -⟩, _, ⟨_, fourth, -⟩, -⟩ := digits
      exact .cons rfl (.cons (place_hexValue? first) (.cons (place_hexValue? second)
        (.cons (place_hexValue? third) (.cons (place_hexValue? fourth) (.refl ..)))))
  · next d rest _ =>
    obtain ⟨e, known, same⟩ := Option.map_eq_some_iff.mp read
    cases same
    have ascii : ∀ escape ∈ escapes, isAscii escape.1 = true := by decide
    refine .cons ?_ (.refl ..)
    rw [place, if_pos (ascii _ (mem_of_lookup known))]
  · cases read

theorem consumes_readString {fuel : Nat} {text chars rest : List Char}
    (read : readString fuel text = some (chars, rest)) : Consumes .inside text rest .outside := by
  fun_induction readString fuel text generalizing chars rest with
  | case1 => cases read
  | case2 => cases read
  | case3 =>
    cases read
    exact .cons rfl (.refl ..)
  | case4 fuel text ih =>
    obtain ⟨⟨c, middle⟩, escape, read⟩ := Option.bind_eq_some_iff.mp read
    obtain ⟨⟨later, rest⟩, string, read⟩ := Option.bind_eq_some_iff.mp read
    cases read
    exact .cons rfl ((consumes_readEscape escape).trans (ih _ string))
  | case5 => cases read
  | case6 fuel c text quote backslash control ih =>
    obtain ⟨⟨later, rest⟩, string, read⟩ := Option.bind_eq_some_iff.mp read
    cases read
    have inside : place .inside c = some .inside := by
      rw [place, if_neg quote, if_neg backslash]
    exact .cons inside (ih string)

section
variable {readFloat : List Char → Option PyFloat}

theorem consumes_readScalar {text rest : List Char} {v : JsonValue}
    (read : readScalar readFloat text = some (v, rest)) : Consumes .outside text rest .outside := by
  unfold readScalar at read
  split at read
  · next name value found =>
    cases read
    have plain : ∀ literal ∈ literals,
        (literal.1.all fun c => decide (c ≠ '\x22' ∧ isAscii c = true)) = true := by decide
    have start := List.find?_some found
    obtain ⟨more, rfl⟩ := List.isPrefixOf_iff_prefix.mp start
    rw [List.drop_left]
    exact ⟨name, rfl, scans_outside (forall_mem_of_all (plain _ (List.mem_of_find?_eq_some found)))⟩
  · obtain ⟨_, -, same⟩ := Option.map_eq_some_iff.mp read
    cases same
    exact .of_takeWhile (fun c => isNumberChar_plain) text

/-- What a reader leaves of a text is behind a part whose strings are closed. -/
def Closed {A : Type} (reader : List Char → Option (A × List Char)) : Prop :=
  ∀ text a rest, reader text = some (a, rest) → Consumes .outside text rest .outside

theorem closed_value {fuel : Nat} (items : Closed (readItems readFloat fuel))
    (entries : Closed (readEntries readFloat fuel)) :
    Closed (readValue readFloat (fuel + 1)) := by
  intro text v rest read
  unfold readValue at read
  split at read
  · cases read
  · obtain ⟨⟨chars, later⟩, string, same⟩ := Option.bind_eq_some_iff.mp read
    cases same
    exact .cons rfl (consumes_readString string)
  · next fuels =>
    cases fuels
    refine .cons rfl ((consumes_skip _).trans ?_)
    split at read
    · next same =>
      cases read
      rw [same]
      exact .cons rfl (.refl ..)
    · obtain ⟨⟨read, later⟩, found, same⟩ := Option.bind_eq_some_iff.mp read
      cases same
      exact items _ _ _ found
  · next fuels =>
    cases fuels
    refine .cons rfl ((consumes_skip _).trans ?_)
    split at read
    · next same =>
      cases read
      rw [same]
      exact .cons rfl (.refl ..)
    · obtain ⟨⟨read, later⟩, found, same⟩ := Option.bind_eq_some_iff.mp read
      cases same
      exact entries _ _ _ found
  · exact consumes_readScalar read

theorem closed_items {fuel : Nat} (value : Closed (readValue readFloat fuel))
    (items : Closed (readItems readFloat fuel)) : Closed (readItems readFloat (fuel + 1)) := by
  intro text read rest found
  rw [readItems] at found
  obtain ⟨⟨item, middle⟩, first, found⟩ := Option.bind_eq_some_iff.mp found
  refine (value _ _ _ first).trans ((consumes_skip middle).trans ?_)
  dsimp only at found
  split at found
  · next same =>
    cases found
    rw [same]
    exact .cons rfl (.refl ..)
  · next later same =>
    obtain ⟨⟨more, left⟩, others, last⟩ := Option.bind_eq_some_iff.mp found
    cases last
    rw [same]
    exact .cons rfl ((consumes_skip later).trans (items _ _ _ others))
  · cases found

theorem closed_entries {fuel : Nat} (value : Closed (readValue readFloat fuel))
    (entries : Closed (readEntries readFloat fuel)) :
    Closed (readEntries readFloat (fuel + 1)) := by
  intro text read rest found
  cases text with
  | nil => cases found
  | cons quote text =>
    rw [readEntries] at found
    split_ifs at found with quoted
    rw [not_not.mp quoted]
    obtain ⟨⟨key, middle⟩, string, found⟩ := Option.bind_eq_some_iff.mp found
    refine .cons rfl ((consumes_readString string).trans ((consumes_skip middle).trans ?_))
    dsimp only at found
    split at found
    · next middle same =>
      rw [same]
      obtain ⟨⟨item, middle⟩, first, found⟩ := Option.bind_eq_some_iff.mp found
      refine .cons rfl ((consumes_skip _).trans ((value _ _ _ first).trans
        ((consumes_skip middle).trans ?_)))
      dsimp only at found
      split at found
      · next same =>
        cases found
        rw [same]
        exact .cons rfl (.refl ..)
      · next later same =>
        obtain ⟨⟨more, left⟩, others, last⟩ := Option.bind_eq_some_iff.mp found
        cases last
        rw [same]
        exact .cons rfl ((consumes_skip later).trans (entries _ _ _ others))
      · cases found
    · cases found

theorem closed_readers (fuel : Nat) : Closed (readValue readFloat fuel) ∧
    Closed (readItems readFloat fuel) ∧ Closed (readEntries readFloat fuel) := by
  induction fuel with
  | zero => exact ⟨nofun, nofun, nofun⟩
  | succ fuel ih =>
    obtain ⟨value, items, entries⟩ := ih
    exact ⟨closed_value items entries, closed_items value items, closed_entries value entries⟩

/-- A text that is read has its strings closed. -/
theorem scans_of_loads {text : List Char} {v : JsonValue} (read : loads readFloat text = some v) :
    Scans .outside text .outside := by
  obtain ⟨⟨value, rest⟩, found, ends⟩ := Option.bind_eq_some_iff.mp read
  dsimp only at ends
  split_ifs at ends with spaces
  have empty : skip rest = [] := List.isEmpty_iff.mp spaces
  obtain ⟨consumed, whole, scans⟩ := ((consumes_skip text).trans
    ((closed_readers _).1 _ _ _ found)).trans (consumes_skip rest)
  rw [empty, List.append_nil] at whole
  exact whole ▸ scans

end

/-- What is written is not read when it is cut at a character beyond ASCII. -/
theorem loads_cut {floatText : PyFloat → List Char} (correct : FloatText floatText)
    (readFloat : List Char → Option PyFloat) {v : JsonValue} (formed : wellFormed v = true)
    {before after : List Char} {c : Char} (text : write floatText v = before ++ c :: after)
    (beyond : isAscii c = false) : loads readFloat before = none := by
  have scans := scans_write correct formed
  rw [text] at scans
  have inside := scans.before beyond
  refine Option.eq_none_iff_forall_ne_some.mpr fun v read => ?_
  cases (scans_of_loads read).symm.trans inside

mutual
/-- The keys and the strings of a value. -/
def texts : JsonValue → List String
  | .null | .bool _ | .int _ | .float _ => []
  | .str s => [s]
  | .arr items => textsOfItems items
  | .obj entries => textsOfEntries entries

def textsOfItems : List JsonValue → List String
  | [] => []
  | item :: items => texts item ++ textsOfItems items

def textsOfEntries : List (String × JsonValue) → List String
  | [] => []
  | (key, value) :: entries => key :: texts value ++ textsOfEntries entries
end

theorem mem_textsOfItems {text : String} {items : List JsonValue} :
    text ∈ textsOfItems items ↔ ∃ item ∈ items, text ∈ texts item := by
  induction items with
  | nil => exact iff_of_false nofun nofun
  | cons item items ih => rw [textsOfItems, List.mem_append, ih, List.exists_mem_cons_iff]

theorem mem_textsOfEntries {text : String} {entries : List (String × JsonValue)} :
    text ∈ textsOfEntries entries ↔
      ∃ entry ∈ entries, text = entry.1 ∨ text ∈ texts entry.2 := by
  induction entries with
  | nil => exact iff_of_false nofun nofun
  | cons entry entries ih =>
    rw [textsOfEntries, List.mem_append, List.mem_cons, ih, List.exists_mem_cons_iff]

section
variable {floatText : PyFloat → List Char} {c : Char}

theorem ne_of_isAscii (beyond : isAscii c = false) {d : Char} (ascii : isAscii d = true) :
    c ≠ d := by
  rintro rfl
  cases beyond.symm.trans ascii

theorem not_mem_of_isAscii (beyond : isAscii c = false) {chars : List Char}
    (each : ∀ d ∈ chars, isAscii d = true) : c ∉ chars :=
  fun mem => ne_of_isAscii beyond (each c mem) rfl

theorem isAscii_escapeChar {d : Char} (ascii : isAscii d = true) :
    ∀ e ∈ escapeChar d, isAscii e = true := by
  unfold escapeChar
  split_ifs with quote backslash newline carriage tab backspace feed control
  · exact forall_mem_of_all (by decide)
  · exact forall_mem_of_all (by decide)
  · exact forall_mem_of_all (by decide)
  · exact forall_mem_of_all (by decide)
  · exact forall_mem_of_all (by decide)
  · exact forall_mem_of_all (by decide)
  · exact forall_mem_of_all (by decide)
  · have digits : ∀ n < 16, isAscii (hexDigit n) = true := by decide
    have high := digits (d.toNat / 16) (by omega)
    have low := digits (d.toNat % 16) (by omega)
    simp only [List.forall_mem_cons]
    exact ⟨rfl, rfl, rfl, rfl, high, low, nofun⟩
  · rw [List.forall_mem_singleton]
    exact ascii

theorem escapeChar_beyond {d : Char} (beyond : isAscii d = false) : escapeChar d = [d] := by
  have control : ¬d.toNat < 0x20 := by
    intro less
    rw [isAscii, decide_eq_false_iff_not] at beyond
    omega
  rw [escapeChar, if_neg (ne_of_isAscii beyond rfl), if_neg (ne_of_isAscii beyond rfl),
    if_neg (ne_of_isAscii beyond rfl), if_neg (ne_of_isAscii beyond rfl),
    if_neg (ne_of_isAscii beyond rfl), if_neg (ne_of_isAscii beyond rfl),
    if_neg (ne_of_isAscii beyond rfl), if_neg control]

theorem mem_escapeChar (beyond : isAscii c = false) (d : Char) : c ∈ escapeChar d ↔ c = d := by
  cases ascii : isAscii d with
  | true =>
    exact iff_of_false (not_mem_of_isAscii beyond (isAscii_escapeChar ascii))
      (ne_of_isAscii beyond ascii)
  | false => rw [escapeChar_beyond ascii, List.mem_singleton]

theorem mem_stringText (beyond : isAscii c = false) (s : String) :
    c ∈ stringText s ↔ c ∈ s.toList := by
  have quote : c ≠ '\x22' := ne_of_isAscii beyond rfl
  simp only [stringText, escaped, List.mem_cons, List.mem_append, List.mem_flatMap,
    mem_escapeChar beyond, quote, List.not_mem_nil, false_or, or_false, exists_eq_right']

theorem mem_enclosed (beyond : isAscii c = false) {bracket : Char}
    (closes : bracket ∈ "]\x7d".toList) (texts : List (List Char)) :
    c ∈ enclosed bracket texts ↔ ∃ text ∈ texts, c ∈ text := by
  have brackets : ∀ d ∈ "]\x7d".toList, isAscii d = true := forall_mem_of_all (by decide)
  have bracket : c ≠ bracket := ne_of_isAscii beyond (brackets bracket closes)
  have comma : c ≠ ',' := ne_of_isAscii beyond rfl
  cases texts with
  | nil => simp only [enclosed, List.mem_singleton, bracket, List.not_mem_nil, false_and,
      exists_false]
  | cons text texts =>
    simp only [enclosed, closing, List.mem_append, List.mem_flatMap, List.mem_cons, comma,
      List.not_mem_nil, bracket, false_or, or_false, exists_eq_or_imp]

theorem not_mem_number (beyond : isAscii c = false) {text : List Char} (number : NumberText text) :
    c ∉ text :=
  not_mem_of_isAscii beyond fun d mem =>
    (isNumberChar_plain (isNumberChar_of_text number d mem)).2

/-- A character beyond ASCII is written where a key or a string has it. -/
theorem mem_write (correct : FloatText floatText) (beyond : isAscii c = false) (v : JsonValue) :
    wellFormed v = true → (c ∈ write floatText v ↔ ∃ text ∈ texts v, c ∈ text.toList) := by
  have without {v : JsonValue} (texts : texts v = []) (other : c ∉ write floatText v) :
      c ∈ write floatText v ↔ ∃ text ∈ JsonFraming.texts v, c ∈ text.toList := by
    rw [texts]
    exact iff_of_false other nofun
  induction v using JsonValue.ofParts with
  | null => exact fun _ => without rfl (not_mem_of_isAscii beyond (List.all_eq_true.mp rfl))
  | bool b =>
    intro _
    cases b with
    | true => exact without rfl (not_mem_of_isAscii beyond (List.all_eq_true.mp rfl))
    | false => exact without rfl (not_mem_of_isAscii beyond (List.all_eq_true.mp rfl))
  | int n => exact fun _ => without rfl (not_mem_number beyond (intText_number n))
  | float x => exact fun finite => without rfl (not_mem_number beyond (correct.number finite))
  | str s =>
    intro _
    rw [write, texts, mem_stringText beyond]
    simp only [List.mem_singleton, exists_eq_left]
  | arr items ih =>
    intro formed
    rw [wellFormed, wellFormedItems_iff] at formed
    have bracket : c ≠ '[' := ne_of_isAscii beyond rfl
    rw [write, writeItems_eq_map, List.mem_cons, mem_enclosed beyond (by decide)]
    simp only [bracket, false_or, texts, mem_textsOfItems, List.mem_map]
    constructor
    · rintro ⟨_, ⟨item, mem, rfl⟩, written⟩
      obtain ⟨text, part, has⟩ := (ih item mem (formed item mem)).mp written
      exact ⟨text, ⟨item, mem, part⟩, has⟩
    · rintro ⟨text, ⟨item, mem, part⟩, has⟩
      exact ⟨_, ⟨item, mem, rfl⟩, (ih item mem (formed item mem)).mpr ⟨text, part, has⟩⟩
  | obj entries ih =>
    intro formed
    rw [wellFormed, Bool.and_eq_true, wellFormedEntries_iff] at formed
    have bracket : c ≠ '\x7b' := ne_of_isAscii beyond rfl
    have colon : c ≠ ':' := ne_of_isAscii beyond rfl
    rw [write, writeEntries_eq_map, List.mem_cons, mem_enclosed beyond (by decide)]
    simp only [bracket, false_or, texts, mem_textsOfEntries, List.mem_map]
    constructor
    · rintro ⟨_, ⟨entry, mem, rfl⟩, written⟩
      rw [entryText, List.mem_append, List.mem_cons, mem_stringText beyond] at written
      obtain key | rfl | value := written
      · exact ⟨entry.1, ⟨entry, mem, .inl rfl⟩, key⟩
      · exact absurd rfl colon
      · obtain ⟨text, part, has⟩ := (ih entry mem (formed.2 entry mem)).mp value
        exact ⟨text, ⟨entry, mem, .inr part⟩, has⟩
    · rintro ⟨text, ⟨entry, mem, rfl | part⟩, has⟩
      · refine ⟨_, ⟨entry, mem, rfl⟩, List.mem_append_left _ ?_⟩
        exact (mem_stringText beyond _).mpr has
      · refine ⟨_, ⟨entry, mem, rfl⟩, List.mem_append_right _ (List.mem_cons_of_mem _ ?_)⟩
        exact (ih entry mem (formed.2 entry mem)).mpr ⟨text, part, has⟩

/-- Keys of ASCII characters only have no other character. -/
theorem mem_textsOfEntries_of_keys (beyond : isAscii c = false)
    {entries : List (String × JsonValue)}
    (ascii : ∀ key ∈ keys entries, (key.toList.all isAscii) = true) :
    (∃ text ∈ textsOfEntries entries, c ∈ text.toList) ↔
      ∃ entry ∈ entries, ∃ text ∈ texts entry.2, c ∈ text.toList := by
  constructor
  · rintro ⟨text, mem, has⟩
    obtain ⟨entry, part, rfl | value⟩ := mem_textsOfEntries.mp mem
    · have each := List.all_eq_true.mp (ascii entry.1 (List.mem_map_of_mem part))
      exact absurd has (not_mem_of_isAscii beyond each)
    · exact ⟨entry, part, text, value, has⟩
  · rintro ⟨entry, part, text, value, has⟩
    exact ⟨text, mem_textsOfEntries.mpr ⟨entry, part, .inr value⟩, has⟩

end

end RoboAgent.JsonFraming
