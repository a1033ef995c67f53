import RoboAgent.JsonText
import RoboAgent.Dicts

/-! A reader of JSON texts, as json.loads reads them: whitespace between the tokens, the last of two
equal keys, NaN and the infinities, integers of at most 4300 digits. A surrogate escape is refused,
and no limit is put on the depth. What `write` writes is read back, and no text is read whose last
string is open. -/

namespace RoboAgent.JsonReader
open RoboAgent.FrozenJson RoboAgent.JsonText RoboAgent.KeyedLists RoboAgent.Dicts

def isSpace (c : Char) : Bool := " \t\n\r".toList.contains c

def skip (text : List Char) : List Char := text.dropWhile isSpace

def hexValue? (c : Char) : Option Nat :=
  if c.isDigit then some (c.toNat - '0'.toNat)
  else if 'a' ≤ c ∧ c ≤ 'f' then some (c.toNat - 'a'.toNat + 10)
  else if 'A' ≤ c ∧ c ≤ 'F' then some (c.toNat - 'A'.toNat + 10)
  else none

def escapes : List (Char × Char) :=
  [('\x22', '\x22'), ('\x5c', '\x5c'), ('/', '/'), ('b', '\x08'), ('f', '\x0c'), ('n', '\n'),
    ('r', '\r'), ('t', '\t')]

/-- What follows a backslash. -/
def readEscape : List Char → Option (Char × List Char)
  | 'u' :: a :: b :: c :: d :: rest => do
    let n ← [a, b, c, d].foldlM (fun n c => (hexValue? c).map (16 * n + ·)) 0
    if n.isValidChar then some (Char.ofNat n, rest) else none
  | c :: rest => (escapes.lookup c).map (·, rest)
  | [] => none

/-- The rest of a string, after its opening quote. -/
def readString : Nat → List Char → Option (List Char × List Char)
  | 0, _ | _ + 1, [] => none
  | _ + 1, '\x22' :: rest => some ([], rest)
  | fuel + 1, '\x5c' :: rest => do
    let (c, rest) ← readEscape rest
    let (chars, rest) ← readString fuel rest
    some (c :: chars, rest)
  | fuel + 1, c :: rest =>
    if c.toNat < 0x20 then none
    else do
      let (chars, rest) ← readString fuel rest
      some (c :: chars, rest)

def isNumberChar (c : Char) : Bool := c.isDigit || "+-.eE".toList.contains c

/-- The limit of int() and of str() on the length of a number. -/
def maxStrDigits : Nat := 4300

/-- An integer part has no leading zero. -/
def natOf (digits : List Char) : Option Nat :=
  if digits = [] ∨ ¬digits.all Char.isDigit ∨ maxStrDigits < digits.length ∨
      (digits.head? = some '0' ∧ digits ≠ ['0']) then none
  else some (Nat.ofDigitChars 10 digits 0)

def intOf : List Char → Option Int
  | '-' :: digits => (natOf digits).map fun n : Nat => -(n : Int)
  | digits => (natOf digits).map fun n : Nat => (n : Int)

def literals : List (List Char × JsonValue) :=
  [("null".toList, .null), ("true".toList, .bool true), ("false".toList, .bool false),
    ("NaN".toList, .float ⟨0x7ff8000000000000⟩), ("Infinity".toList, .float ⟨0x7ff0000000000000⟩),
    ("-Infinity".toList, .float ⟨0xfff0000000000000⟩)]

section
variable (readFloat : List Char → Option PyFloat)

/-- The number of a text with or without a fraction or an exponent. -/
def numberOf (text : List Char) : Option JsonValue :=
  if text.any ".eE".toList.contains then (readFloat text).map .float else (intOf text).map .int

/-- A literal or a number. -/
def readScalar (text : List Char) : Option (JsonValue × List Char) :=
  match literals.find? fun literal => literal.1.isPrefixOf text with
  | some (name, value) => some (value, text.drop name.length)
  | none => (numberOf readFloat (text.takeWhile isNumberChar)).map
      (·, text.dropWhile isNumberChar)

mutual
def readValue : Nat → List Char → Option (JsonValue × List Char)
  | 0, _ => none
  | _ + 1, '\x22' :: rest => do
    let (chars, rest) ← readString (rest.length + 1) rest
    some (.str (String.ofList chars), rest)
  | fuel + 1, '[' :: rest =>
    match skip rest with
    | ']' :: rest => some (.arr [], rest)
    | rest => do
      let (items, rest) ← readItems fuel rest
      some (.arr items, rest)
  | fuel + 1, '\x7b' :: rest =>
    match skip rest with
    | '\x7d' :: rest => some (.obj [], rest)
    | rest => do
      let (entries, rest) ← readEntries fuel rest
      some (.obj (entries.foldl (fun read entry => putEntry entry.1 entry.2 read) []), rest)
  | _ + 1, text => readScalar readFloat text

/-- The items of an array from one on, and the closing bracket. -/
def readItems : Nat → List Char → Option (List JsonValue × List Char)
  | 0, _ => none
  | fuel + 1, text => do
    let (item, rest) ← readValue fuel text
    match skip rest with
    | ']' :: rest => some ([item], rest)
    | ',' :: rest => do
      let (items, rest) ← readItems fuel (skip rest)
      some (item :: items, rest)
    | _ => none

def readEntries : Nat → List Char → Option (List (String × JsonValue) × List Char)
  | 0, _ | _ + 1, [] => none
  | fuel + 1, quote :: rest =>
    if quote ≠ '\x22' then none
    else do
      let (key, rest) ← readString (rest.length + 1) rest
      match skip rest with
      | ':' :: rest => do
        let (value, rest) ← readValue fuel (skip rest)
        match skip rest with
        | '\x7d' :: rest => some ([(String.ofList key, value)], rest)
        | ',' :: rest => do
          let (entries, rest) ← readEntries fuel (skip rest)
          some ((String.ofList key, value) :: entries, rest)
        | _ => none
      | _ => none
end

/-- json.loads; none where it raises. -/
def loads (text : List Char) : Option JsonValue := do
  let (value, rest) ← readValue readFloat (2 * text.length + 2) (skip text)
  if (skip rest).isEmpty then some value else none

end

theorem hexValue?_hexDigit : ∀ n < 16, hexValue? (hexDigit n) = some n := by decide

theorem readEscape_control {c : Char} (control : c.toNat < 0x20) (rest : List Char) :
    readEscape ('u' :: '0' :: '0' :: hexDigit (c.toNat / 16) :: hexDigit (c.toNat % 16) :: rest) =
      some (c, rest) := by
  have high := hexValue?_hexDigit (c.toNat / 16) (by omega)
  have low := hexValue?_hexDigit (c.toNat % 16) (by omega)
  have zero : hexValue? '0' = some 0 := by decide
  have whole : 16 * (c.toNat / 16) + c.toNat % 16 = c.toNat := Nat.div_add_mod ..
  have valid : c.toNat.isValidChar := c.valid
  simp only [readEscape, List.foldlM_cons, List.foldlM_nil, zero, high, low, Option.map_some,
    Option.bind_eq_bind, Option.bind_some, Option.pure_def]
  rw [Nat.mul_zero, Nat.zero_add, whole, if_pos valid, Char.ofNat_toNat]

/-- One character of a string, in whatever form it was written. -/
theorem readString_escapeChar (c : Char) (fuel : Nat) (text : List Char) :
    readString (fuel + 1) (escapeChar c ++ text) =
      (readString fuel text).map fun read => (c :: read.1, read.2) := by
  have escape {e : List Char} (read : readEscape (e ++ text) = some (c, text)) :
      readString (fuel + 1) (('\x5c' :: e) ++ text) =
        (readString fuel text).map fun read => (c :: read.1, read.2) := by
    rw [List.cons_append, readString, read]
    change (readString fuel text >>= _) = _
    cases readString fuel text <;> rfl
  unfold escapeChar
  split_ifs with quote backslash newline carriage tab backspace feed control
  · exact escape (by rw [quote]; rfl)
  · exact escape (by rw [backslash]; rfl)
  · exact escape (by rw [newline]; rfl)
  · exact escape (by rw [carriage]; rfl)
  · exact escape (by rw [tab]; rfl)
  · exact escape (by rw [backspace]; rfl)
  · exact escape (by rw [feed]; rfl)
  · exact escape (readEscape_control control text)
  · rw [List.singleton_append, readString, if_neg control]
    · cases readString fuel text <;> rfl
    · exact quote
    · exact backslash

theorem readString_escaped (chars rest : List Char) {fuel : Nat} (enough : chars.length < fuel) :
    readString fuel (chars.flatMap escapeChar ++ '\x22' :: rest) = some (chars, rest) := by
  induction chars generalizing fuel with
  | nil =>
    obtain ⟨fuel, rfl⟩ := Nat.exists_eq_succ_of_ne_zero (Nat.ne_of_gt enough)
    rfl
  | cons c chars ih =>
    obtain ⟨fuel, rfl⟩ := Nat.exists_eq_succ_of_ne_zero (Nat.ne_of_gt (Nat.zero_lt_of_lt enough))
    rw [List.flatMap_cons, List.append_assoc, readString_escapeChar,
      ih (Nat.lt_of_succ_lt_succ enough)]
    rfl

theorem length_escaped (s : String) : s.toList.length ≤ (escaped s).length := by
  rw [escaped]
  induction s.toList with
  | nil => exact Nat.le_refl _
  | cons c chars ih =>
    have one : 1 ≤ (escapeChar c).length := by
      unfold escapeChar
      split_ifs <;> simp
    rw [List.flatMap_cons, List.length_append, List.length_cons]
    omega

theorem readString_stringText (s : String) (rest : List Char) :
    ∃ text, stringText s ++ rest = '\x22' :: text ∧
      readString (text.length + 1) text = some (s.toList, rest) := by
  refine ⟨escaped s ++ '\x22' :: rest, ?_, ?_⟩
  · rw [stringText, List.cons_append, List.append_assoc]
    rfl
  · refine readString_escaped s.toList rest ?_
    have := length_escaped s
    rw [List.length_append]
    omega

/-- No number is written with a leading zero. -/
theorem head_toDigits {n : Nat} (positive : 0 < n) : (Nat.toDigits 10 n).head? ≠ some '0' := by
  induction n using Nat.strongRecOn with
  | _ n ih =>
    by_cases small : n < 10
    · rw [Nat.toDigits_of_lt_base small]
      have digits : ∀ d < 10, 0 < d → d.digitChar ≠ '0' := by decide
      intro zero
      exact digits n small positive (Option.some.inj zero)
    · rw [Nat.toDigits_of_base_le (by decide) (by omega), List.head?_append_of_ne_nil]
      · exact ih (n / 10) (by omega) (by omega)
      · exact Nat.toDigits_ne_nil

theorem natOf_toDigits {n : Nat} (short : (Nat.toDigits 10 n).length ≤ maxStrDigits) :
    natOf (Nat.toDigits 10 n) = some n := by
  have digits : ((Nat.toDigits 10 n).all Char.isDigit) = true :=
    List.all_eq_true.mpr fun c mem => Nat.isDigit_of_mem_toDigits (by decide) (by decide) mem
  have leading : ¬((Nat.toDigits 10 n).head? = some '0' ∧ Nat.toDigits 10 n ≠ ['0']) := by
    rintro ⟨zero, more⟩
    obtain rfl | positive := Nat.eq_zero_or_pos n
    · exact more (Nat.toDigits_zero 10)
    · exact head_toDigits positive zero
  rw [natOf, if_neg, Nat.ofDigitChars_ten_toDigits]
  rintro (empty | other | long | zero)
  · exact Nat.toDigits_ne_nil empty
  · exact other digits
  · omega
  · exact leading zero

/-- An integer that str() writes. -/
def ShortInt (n : Int) : Prop := (Nat.toDigits 10 n.natAbs).length ≤ maxStrDigits

instance (n : Int) : Decidable (ShortInt n) := by
  unfold ShortInt
  infer_instance

theorem intOf_intText {n : Int} (short : ShortInt n) : intOf (intText n) = some n := by
  cases n with
  | ofNat n =>
    have read : natOf (Nat.toDigits 10 n) = some n := natOf_toDigits short
    rw [intText, intOf, read]
    · rfl
    · exact fun digits => toDigits_ne_minus n digits
  | negSucc n =>
    have read : natOf (Nat.toDigits 10 (n + 1)) = some (n + 1) := natOf_toDigits short
    rw [intText, intOf, read]
    rfl

/-- What is used of the text of a float: it is a number with a fraction or an exponent, and it is
read back. -/
structure FloatReader (floatText : PyFloat → List Char) (readFloat : List Char → Option PyFloat) :
    Prop where
  text : FloatText floatText
  reads : ∀ x, x.isFinite = true → readFloat (floatText x) = some x

mutual
/-- Every integer in the value is one that str() writes. -/
def shortInts : JsonValue → Bool
  | .int n => decide (ShortInt n)
  | .arr items => shortItems items
  | .obj entries => shortEntries entries
  | .null | .bool _ | .float _ | .str _ => true

def shortItems : List JsonValue → Bool
  | [] => true
  | item :: items => shortInts item && shortItems items

def shortEntries : List (String × JsonValue) → Bool
  | [] => true
  | (_, value) :: entries => shortInts value && shortEntries entries
end

theorem shortItems_iff {items : List JsonValue} :
    shortItems items = true ↔ ∀ item ∈ items, shortInts item = true := by
  induction items with
  | nil => exact iff_of_true rfl (List.forall_mem_nil _)
  | cons item items ih => rw [shortItems, Bool.and_eq_true, ih, List.forall_mem_cons]

theorem shortEntries_iff {entries : List (String × JsonValue)} :
    shortEntries entries = true ↔ ∀ entry ∈ entries, shortInts entry.2 = true := by
  induction entries with
  | nil => exact iff_of_true rfl (List.forall_mem_nil _)
  | cons entry entries ih => rw [shortEntries, Bool.and_eq_true, ih, List.forall_mem_cons]

variable {floatText : PyFloat → List Char} {readFloat : List Char → Option PyFloat}

theorem isNumberChar_of_text {text : List Char} (number : NumberText text) :
    ∀ c ∈ text, isNumberChar c = true := by
  intro c mem
  obtain digit | sign := number c mem
  · rw [isNumberChar, digit]
    rfl
  · have signs : ∀ c ∈ "-+.e".toList, isNumberChar c = true := forall_mem_of_all (by decide)
    exact signs c sign

/-- What may follow a value ends a number. -/
theorem span_number {text rest : List Char} (number : ∀ c ∈ text, isNumberChar c = true)
    (delimited : Delimited rest) :
    (text ++ rest).takeWhile isNumberChar = text ∧
      (text ++ rest).dropWhile isNumberChar = rest := by
  have ends : rest.takeWhile isNumberChar = [] ∧ rest.dropWhile isNumberChar = rest := by
    cases rest with
    | nil => exact ⟨rfl, rfl⟩
    | cons c rest =>
      have closes : ∀ c ∈ ",]\x7d".toList, isNumberChar c = false := forall_mem_of_all (by decide)
      have other := closes c (delimited c rfl)
      rw [List.takeWhile_cons, List.dropWhile_cons, other]
      exact ⟨rfl, rfl⟩
  rw [List.takeWhile_append_of_pos number, List.dropWhile_append_of_pos number, ends.1, ends.2,
    List.append_nil]
  exact ⟨rfl, rfl⟩

/-- A literal goes on with a character that neither a number has nor a value is followed by. -/
theorem literal_other : ∀ literal ∈ literals, ∀ more : List Char, ∃ c tail,
    (literal.1 ++ more).dropWhile isNumberChar = c :: tail ∧ c ∉ ",]\x7d".toList := by
  intro literal mem more
  simp only [literals, List.mem_cons, List.not_mem_nil, or_false] at mem
  obtain rfl | rfl | rfl | rfl | rfl | rfl := mem <;> exact ⟨_, _, rfl, by decide⟩

theorem no_literal {text rest : List Char} (number : ∀ c ∈ text, isNumberChar c = true)
    (delimited : Delimited rest) :
    (literals.find? fun literal => literal.1.isPrefixOf (text ++ rest)) = none := by
  rw [List.find?_eq_none]
  intro literal mem isPrefix
  obtain ⟨more, same⟩ := List.isPrefixOf_iff_prefix.mp isPrefix
  obtain ⟨c, tail, dropped, other⟩ := literal_other literal mem more
  rw [same, (span_number number delimited).2] at dropped
  exact other (delimited c (dropped ▸ rfl))

theorem readScalar_number {text rest : List Char} {v : JsonValue} (number : NumberText text)
    (delimited : Delimited rest) (read : numberOf readFloat text = some v) :
    readScalar readFloat (text ++ rest) = some (v, rest) := by
  have chars := isNumberChar_of_text number
  rw [readScalar, no_literal chars delimited]
  dsimp only
  rw [(span_number chars delimited).1, (span_number chars delimited).2, read]
  rfl

theorem numberOf_intText {n : Int} (short : ShortInt n) :
    numberOf readFloat (intText n) = some (.int n) := by
  have whole : ¬(intText n).any ".eE".toList.contains = true := by
    rw [List.any_eq_true]
    rintro ⟨c, mem, mark⟩
    have marks : ∀ c ∈ ".eE".toList, c.isDigit = false ∧ c ≠ '-' := forall_mem_of_all (by decide)
    obtain ⟨other, unsigned⟩ := marks c (List.contains_iff_mem.mp mark)
    obtain digit | sign := intText_chars n c mem
    · cases other.symm.trans digit
    · exact unsigned sign
  rw [numberOf, if_neg whole, intOf_intText short]
  rfl

theorem numberOf_floatText (correct : FloatReader floatText readFloat) {x : PyFloat}
    (finite : x.isFinite = true) : numberOf readFloat (floatText x) = some (.float x) := by
  have marked : (floatText x).any ".eE".toList.contains = true := by
    rw [List.any_eq_true]
    obtain point | exponent := correct.text.marked x finite
    · exact ⟨'.', point, by decide⟩
    · exact ⟨'e', exponent, by decide⟩
  rw [numberOf, if_pos marked, correct.reads x finite]
  rfl

/-- Values without an opening character. -/
theorem readScalar_write (correct : FloatReader floatText readFloat) {v : JsonValue}
    (formed : wellFormed v = true) (short : shortInts v = true) (plain : opening v = none)
    {rest : List Char} (delimited : Delimited rest) :
    readScalar readFloat (write floatText v ++ rest) = some (v, rest) := by
  cases v with
  | null => rfl
  | bool b => cases b <;> rfl
  | int n =>
    rw [write]
    exact readScalar_number (intText_number n) delimited
      (numberOf_intText (of_decide_eq_true short))
  | float x =>
    rw [write]
    exact readScalar_number (correct.text.number formed) delimited (numberOf_floatText correct formed)
  | str _ | arr _ | obj _ => cases plain

theorem isSpace_of_number {text : List Char} (number : NumberText text) :
    ∀ c ∈ text, isSpace c = false := by
  intro c mem
  by_contra space
  rw [Bool.not_eq_false] at space
  have spaces : ∀ c ∈ " \t\n\r".toList, isNumberChar c = false := forall_mem_of_all (by decide)
  have never := spaces c (List.contains_iff_mem.mp space)
  rw [isNumberChar_of_text number c mem] at never
  cases never

/-- The text of a value begins neither with a space nor with a closing bracket. -/
theorem write_head (correct : FloatText floatText) {v : JsonValue} (formed : wellFormed v = true) :
    ∃ c tail, write floatText v = c :: tail ∧ isSpace c = false ∧ c ≠ ']' ∧ c ≠ '\x7d' ∧
      (opening v = none → c ≠ '\x22' ∧ c ≠ '[' ∧ c ≠ '\x7b') := by
  cases opens : opening v with
  | some c =>
    obtain ⟨member, tail, text⟩ := write_opening floatText opens
    have brackets : ∀ c ∈ "\x22[\x7b".toList, isSpace c = false ∧ c ≠ ']' ∧ c ≠ '\x7d' :=
      forall_mem_of_all (by decide)
    obtain ⟨space, bracket, brace⟩ := brackets c member
    exact ⟨c, tail, text, space, bracket, brace, nofun⟩
  | none =>
    have scalar := scalarText floatText formed opens
    obtain ⟨nonempty, ordinary⟩ := scalar.plain correct
    obtain ⟨c, tail, text⟩ := List.exists_cons_of_ne_nil nonempty
    have spaces : ∀ c ∈ write floatText v, isSpace c = false := by
      cases v with
      | null =>
        have each : ∀ c ∈ "null".toList, isSpace c = false := forall_mem_of_all (by decide)
        exact each
      | bool b =>
        have each : ∀ c ∈ "true".toList ++ "false".toList, isSpace c = false :=
          forall_mem_of_all (by decide)
        cases b with
        | true => exact fun c mem => each c (List.mem_append_left _ mem)
        | false => exact fun c mem => each c (List.mem_append_right _ mem)
      | int n => exact isSpace_of_number (intText_number n)
      | float x => exact isSpace_of_number (correct.number formed)
      | str _ | arr _ | obj _ => cases opens
    have other : ∀ d ∈ "\x22[\x7b]\x7d".toList, special d = true := forall_mem_of_all (by decide)
    have apart : ∀ d ∈ "\x22[\x7b]\x7d".toList, c ≠ d := by
      rintro d mem rfl
      cases (other c mem).symm.trans (ordinary c (text ▸ List.mem_cons_self))
    refine ⟨c, tail, text, spaces c (text ▸ List.mem_cons_self), apart _ (by decide),
      apart _ (by decide), fun _ => ⟨apart _ (by decide), apart _ (by decide), apart _ (by decide)⟩⟩

theorem skip_of_head {c : Char} {tail : List Char} (space : isSpace c = false) :
    skip (c :: tail) = c :: tail := by
  rw [skip, List.dropWhile_cons, space]
  rfl

theorem skip_write (correct : FloatText floatText) {v : JsonValue} (formed : wellFormed v = true)
    (rest : List Char) : skip (write floatText v ++ rest) = write floatText v ++ rest := by
  obtain ⟨c, tail, text, space, -⟩ := write_head correct formed
  rw [text, List.cons_append, skip_of_head space]

theorem readValue_scalar {c : Char} {tail : List Char} (fuel : Nat) (quote : c ≠ '\x22')
    (bracket : c ≠ '[') (brace : c ≠ '\x7b') :
    readValue readFloat (fuel + 1) (c :: tail) = readScalar readFloat (c :: tail) := by
  rw [readValue]
  · rintro rest same
    exact quote (List.cons.inj same).1
  · rintro rest same
    exact bracket (List.cons.inj same).1
  · rintro rest same
    exact brace (List.cons.inj same).1

/-- What is read back of a value, whatever follows it, with fuel for the text. -/
def Reads (floatText : PyFloat → List Char) (readFloat : List Char → Option PyFloat)
    (v : JsonValue) : Prop :=
  ∀ fuel rest, Delimited rest → 2 * (write floatText v ++ rest).length + 1 ≤ fuel →
    readValue readFloat fuel (write floatText v ++ rest) = some (v, rest)

theorem reads_scalar (correct : FloatReader floatText readFloat) {v : JsonValue}
    (formed : wellFormed v = true) (short : shortInts v = true) (plain : opening v = none) :
    Reads floatText readFloat v := by
  intro fuel rest delimited enough
  obtain ⟨fuel, rfl⟩ : ∃ n, fuel = n + 1 := ⟨fuel - 1, by omega⟩
  have scalar := readScalar_write correct formed short plain delimited
  obtain ⟨c, tail, text, -, -, -, apart⟩ := write_head correct.text formed
  obtain ⟨quote, bracket, brace⟩ := apart plain
  rw [text, List.cons_append] at scalar ⊢
  rw [readValue_scalar fuel quote bracket brace, scalar]

theorem reads_str (s : String) : Reads floatText readFloat (.str s) := by
  intro fuel rest delimited enough
  obtain ⟨fuel, rfl⟩ : ∃ n, fuel = n + 1 := ⟨fuel - 1, by omega⟩
  obtain ⟨text, same, read⟩ := readString_stringText s rest
  rw [write, same, readValue, read]
  exact congrArg (fun s => some (JsonValue.str s, rest)) (String.ofList_toList ..)

theorem length_write_pos (correct : FloatText floatText) {v : JsonValue}
    (formed : wellFormed v = true) : 1 ≤ (write floatText v).length := by
  obtain ⟨c, tail, text, -⟩ := write_head correct formed
  rw [text, List.length_cons]
  omega

theorem skip_comma (text : List Char) : skip (',' :: text) = ',' :: text :=
  skip_of_head (by decide)

/-- The items of an array from one on, whatever follows the array. -/
theorem readItems_closing (correct : FloatText floatText) {items : List JsonValue} :
    ∀ {first : JsonValue}, (∀ item ∈ first :: items, wellFormed item = true) →
      (∀ item ∈ first :: items, Reads floatText readFloat item) → ∀ (fuel : Nat) (rest : List Char),
      2 * (write floatText first ++ (closing ']' (items.map (write floatText)) ++ rest)).length + 2 ≤
        fuel →
      readItems readFloat fuel (write floatText first ++
        (closing ']' (items.map (write floatText)) ++ rest)) = some (first :: items, rest) := by
  induction items with
  | nil =>
    intro first formed reads fuel rest enough
    obtain ⟨fuel, rfl⟩ : ∃ n, fuel = n + 1 := ⟨fuel - 1, by omega⟩
    have delimited : Delimited (closing ']' ([].map (write floatText)) ++ rest) :=
      delimited_closing (by decide) _ rest
    rw [readItems, reads first List.mem_cons_self fuel _ delimited (by omega)]
    rfl
  | cons item items ih =>
    intro first formed reads fuel rest enough
    obtain ⟨fuel, rfl⟩ : ∃ n, fuel = n + 1 := ⟨fuel - 1, by omega⟩
    rw [List.forall_mem_cons] at formed reads
    have delimited : Delimited (closing ']' ((item :: items).map (write floatText)) ++ rest) :=
      delimited_closing (by decide) _ rest
    have positive := length_write_pos correct formed.1
    rw [readItems, reads.1 fuel _ delimited (by omega)]
    rw [List.map_cons, closing_cons, List.cons_append, List.append_assoc] at enough ⊢
    rw [List.length_append, List.length_cons] at enough
    have later := ih formed.2 reads.2 fuel rest (by omega)
    rw [Option.bind_eq_bind, Option.bind_some]
    dsimp only
    rw [skip_comma]
    change (readItems readFloat fuel (skip _) >>= _) = _
    rw [skip_write correct (formed.2 item List.mem_cons_self), later]
    rfl

theorem readEntries_entry (correct : FloatText floatText) {entry : String × JsonValue}
    (formed : wellFormed entry.2 = true) (reads : Reads floatText readFloat entry.2) {fuel : Nat}
    {text : List Char} (delimited : Delimited text)
    (enough : 2 * (entryText floatText entry ++ text).length ≤ fuel) :
    readEntries readFloat (fuel + 1) (entryText floatText entry ++ text) =
      match skip text with
      | '\x7d' :: rest => some ([entry], rest)
      | ',' :: rest => do
        let (entries, rest) ← readEntries readFloat fuel (skip rest)
        some (entry :: entries, rest)
      | _ => none := by
  rw [entryText, List.append_assoc, List.cons_append] at enough ⊢
  obtain ⟨tail, same, read⟩ := readString_stringText entry.1 (':' ::
    (write floatText entry.2 ++ text))
  rw [List.length_append, List.length_cons] at enough
  have value := reads fuel _ delimited (by omega)
  rw [same, readEntries, if_neg (not_not.mpr rfl), read]
  rw [Option.bind_eq_bind, Option.bind_some]
  dsimp only
  rw [skip_of_head (by decide)]
  change (readValue readFloat fuel (skip _) >>= _) = _
  rw [skip_write correct formed, value]
  rw [Option.bind_eq_bind, Option.bind_some, String.ofList_toList]

theorem readEntries_closing (correct : FloatText floatText) {entries : List (String × JsonValue)} :
    ∀ {first : String × JsonValue}, (∀ entry ∈ first :: entries, wellFormed entry.2 = true) →
      (∀ entry ∈ first :: entries, Reads floatText readFloat entry.2) →
      ∀ (fuel : Nat) (rest : List Char), 2 * (entryText floatText first ++
        (closing '\x7d' (entries.map (entryText floatText)) ++ rest)).length + 2 ≤ fuel →
      readEntries readFloat fuel (entryText floatText first ++
        (closing '\x7d' (entries.map (entryText floatText)) ++ rest)) =
          some (first :: entries, rest) := by
  induction entries with
  | nil =>
    intro first formed reads fuel rest enough
    obtain ⟨fuel, rfl⟩ : ∃ n, fuel = n + 1 := ⟨fuel - 1, by omega⟩
    have delimited : Delimited (closing '\x7d' ([].map (entryText floatText)) ++ rest) :=
      delimited_closing (by decide) _ rest
    rw [readEntries_entry correct (formed first List.mem_cons_self)
      (reads first List.mem_cons_self) delimited (by omega)]
    rfl
  | cons entry entries ih =>
    intro first formed reads fuel rest enough
    obtain ⟨fuel, rfl⟩ : ∃ n, fuel = n + 1 := ⟨fuel - 1, by omega⟩
    rw [List.forall_mem_cons] at formed reads
    have delimited : Delimited (closing '\x7d' ((entry :: entries).map (entryText floatText)) ++
      rest) := delimited_closing (by decide) _ rest
    rw [readEntries_entry correct formed.1 reads.1 delimited (by omega)]
    rw [List.map_cons, closing_cons, List.cons_append, List.append_assoc] at enough ⊢
    have positive : 1 ≤ (entryText floatText first).length := by
      rw [entryText, stringText, List.cons_append, List.length_cons]
      omega
    rw [List.length_append, List.length_cons] at enough
    have later := ih formed.2 reads.2 fuel rest (by omega)
    have quoted : skip (entryText floatText entry ++ (closing '\x7d'
        (entries.map (entryText floatText)) ++ rest)) = entryText floatText entry ++
          (closing '\x7d' (entries.map (entryText floatText)) ++ rest) :=
      skip_of_head (by decide)
    rw [skip_comma]
    change (readEntries readFloat fuel (skip _) >>= _) = _
    rw [quoted, later]
    rfl

theorem reads_arr (correct : FloatText floatText) {items : List JsonValue}
    (formed : ∀ item ∈ items, wellFormed item = true)
    (reads : ∀ item ∈ items, Reads floatText readFloat item) :
    Reads floatText readFloat (.arr items) := by
  intro fuel rest delimited enough
  obtain ⟨fuel, rfl⟩ : ∃ n, fuel = n + 1 := ⟨fuel - 1, by omega⟩
  rw [write, writeItems_eq_map] at enough ⊢
  cases items with
  | nil => rfl
  | cons item items =>
    rw [List.map_cons, enclosed, List.cons_append, List.append_assoc] at enough ⊢
    rw [List.length_cons] at enough
    obtain ⟨c, tail, text, -, bracket, -⟩ := write_head correct (formed item List.mem_cons_self)
    have read := readItems_closing correct formed reads fuel rest (by omega)
    rw [readValue, skip_write correct (formed item List.mem_cons_self)]
    split
    · next same =>
      rw [text] at same
      exact absurd (List.cons.inj same).1 bracket
    · rw [read]
      rfl

theorem reads_obj (correct : FloatText floatText) {entries : List (String × JsonValue)}
    (distinct : (keys entries).Nodup) (formed : ∀ entry ∈ entries, wellFormed entry.2 = true)
    (reads : ∀ entry ∈ entries, Reads floatText readFloat entry.2) :
    Reads floatText readFloat (.obj entries) := by
  intro fuel rest delimited enough
  obtain ⟨fuel, rfl⟩ : ∃ n, fuel = n + 1 := ⟨fuel - 1, by omega⟩
  rw [write, writeEntries_eq_map] at enough ⊢
  cases entries with
  | nil => rfl
  | cons entry entries =>
    rw [List.map_cons, enclosed, List.cons_append, List.append_assoc] at enough ⊢
    rw [List.length_cons] at enough
    have read := readEntries_closing correct formed reads fuel rest (by omega)
    have quoted : ∀ text, skip (entryText floatText entry ++ text) =
        entryText floatText entry ++ text := fun text => skip_of_head (by decide)
    rw [readValue, quoted]
    split
    · next same => cases (List.cons.inj same).1
    · have unread : (keys ([] ++ entry :: entries)).Nodup := distinct
      have kept := Dict.foldl_putEntry unread
      rw [read, Option.bind_eq_bind, Option.bind_some]
      dsimp only
      rw [kept]
      rfl

theorem reads_write (correct : FloatReader floatText readFloat) (v : JsonValue) :
    wellFormed v = true → shortInts v = true → Reads floatText readFloat v := by
  induction v using JsonValue.ofParts with
  | null => exact fun formed short => reads_scalar correct formed short rfl
  | bool b => exact fun formed short => reads_scalar correct formed short rfl
  | int n => exact fun formed short => reads_scalar correct formed short rfl
  | float x => exact fun formed short => reads_scalar correct formed short rfl
  | str s => exact fun _ _ => reads_str s
  | arr items ih =>
    intro formed short
    rw [wellFormed, wellFormedItems_iff] at formed
    rw [shortInts, shortItems_iff] at short
    exact reads_arr correct.text formed fun item mem => ih item mem (formed item mem)
      (short item mem)
  | obj entries ih =>
    intro formed short
    rw [wellFormed, Bool.and_eq_true, wellFormedEntries_iff] at formed
    rw [shortInts, shortEntries_iff] at short
    exact reads_obj correct.text (of_decide_eq_true formed.1) formed.2 fun entry mem =>
      ih entry mem (formed.2 entry mem) (short entry mem)

/-- What was written is read back. -/
theorem loads_write (correct : FloatReader floatText readFloat) {v : JsonValue}
    (formed : wellFormed v = true) (short : shortInts v = true) :
    loads readFloat (write floatText v) = some v := by
  have read := reads_write correct v formed short (2 * (write floatText v).length + 2) [] nofun
    (by rw [List.append_nil]; omega)
  have spaced := skip_write correct.text formed []
  rw [List.append_nil] at read spaced
  rw [loads, spaced, read]
  rfl

end RoboAgent.JsonReader
