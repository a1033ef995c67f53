import Mathlib

/-! Texts as lines with their line ends. A line feed and a carriage return before a line feed end
a line; every other character, a lone carriage return included, belongs to one. A list of lines
is written and read back exactly where no line but the last one lacks its end. -/

namespace RoboAgent.LineEnds

abbrev Text := List Char

/-- The characters of a line and its end, which is empty where the text stops first. -/
abbrev Line := Text × Text

def lf : Text := ['\n']

def crlf : Text := ['\r', '\n']

def unlines (lines : List Line) : Text := lines.flatMap fun line => line.1 ++ line.2

/-- The character before the rest of a text whose lines are known. -/
def push (c : Char) : List Line → List Line
  | [] => [([c], [])]
  | line :: lines => (c :: line.1, line.2) :: lines

def delimited : Text → List Line
  | '\n' :: text => ([], lf) :: delimited text
  | '\r' :: '\n' :: text => ([], crlf) :: delimited text
  | c :: text => push c (delimited text)
  | [] => []

/-- The text with a pair of a carriage return and a line feed replaced wherever it stands. -/
def replaceCrlf (new : Text) : Text → Text
  | '\r' :: '\n' :: text => new ++ replaceCrlf new text
  | c :: text => c :: replaceCrlf new text
  | [] => []

example : delimited ['a', '\r', '\n', '\r', 'b'] = [(['a'], crlf), (['\r', 'b'], [])] := by
  simp [delimited, push]

example : replaceCrlf lf ['a', '\r', '\n', '\r', 'b'] = ['a', '\n', '\r', 'b'] := by
  simp [replaceCrlf, lf]

/-- What a line of a text looks like: no line feed inside it, and its end is as long as it can
be. -/
def Whole (line : Line) : Prop :=
  '\n' ∉ line.1 ∧ (line.2 = [] ∨ (line.2 = lf ∧ line.1.getLast? ≠ some '\r') ∨ line.2 = crlf)

/-- A line without a line end is the last one and not empty. -/
def OnlyLastOpen : List Line → Prop
  | [] => True
  | line :: lines => (line.2 = [] → lines = [] ∧ line.1 ≠ []) ∧ OnlyLastOpen lines

theorem onlyLastOpen_iff {lines : List Line} :
    OnlyLastOpen lines ↔ (∀ line ∈ lines.dropLast, line.2 ≠ []) ∧
      ∀ line ∈ lines.getLast?, line.2 = [] → line.1 ≠ [] := by
  induction lines with
  | nil => exact ⟨fun _ => ⟨List.forall_mem_nil _, nofun⟩, fun _ => trivial⟩
  | cons line lines ih =>
    cases lines with
    | nil =>
      refine ⟨fun h => ⟨List.forall_mem_nil _, ?_⟩, fun h => ⟨fun open_ => ?_, trivial⟩⟩
      · rintro _ ⟨⟩ open_
        exact (h.1 open_).2
      · exact ⟨rfl, h.2 line rfl open_⟩
    | cons next lines =>
      rw [List.dropLast_cons_cons, List.forall_mem_cons, List.getLast?_cons_cons, and_assoc, ← ih]
      refine ⟨fun h => ⟨fun open_ => ?_, h.2⟩, fun h => ⟨fun open_ => absurd open_ h.1, h.2⟩⟩
      cases (h.1 open_).1

theorem OnlyLastOpen.map {lines : List Line} {f : Line → Line} (text : ∀ line, (f line).1 = line.1)
    (ending : ∀ line, (f line).2 = [] ↔ line.2 = []) (h : OnlyLastOpen lines) :
    OnlyLastOpen (lines.map f) := by
  induction lines with
  | nil => trivial
  | cons line lines ih =>
    refine ⟨fun open_ => ?_, ih h.2⟩
    obtain ⟨rfl, filled⟩ := h.1 ((ending line).mp open_)
    exact ⟨rfl, by rwa [text]⟩

theorem unlines_cons (line : Line) (lines : List Line) :
    unlines (line :: lines) = line.1 ++ (line.2 ++ unlines lines) := by
  rw [unlines, List.flatMap_cons, List.append_assoc]
  rfl

theorem unlines_append (before after : List Line) :
    unlines (before ++ after) = unlines before ++ unlines after :=
  List.flatMap_append

theorem unlines_push (c : Char) (lines : List Line) :
    unlines (push c lines) = c :: unlines lines := by
  cases lines with
  | nil => rfl
  | cons line lines => rfl

theorem delimited_push {c : Char} {text : Text} (feed : c ≠ '\n')
    (pair : ∀ rest, c = '\r' → text ≠ '\n' :: rest) :
    delimited (c :: text) = push c (delimited text) := by
  rw [delimited]
  · rintro rfl
    exact feed rfl
  · rintro rest rfl rfl
    exact pair rest rfl rfl

theorem unlines_delimited (text : Text) : unlines (delimited text) = text := by
  induction text using delimited.induct with
  | case1 text ih =>
    rw [delimited, unlines_cons, ih]
    rfl
  | case2 text ih =>
    rw [delimited, unlines_cons, ih]
    rfl
  | case3 c text feed pair ih => rw [delimited_push feed pair, unlines_push, ih]
  | case4 => rfl

theorem whole_push {c : Char} {lines : List Line} (feed : c ≠ '\n')
    (pair : ∀ line ∈ lines.head?, c = '\r' → line ≠ ([], lf))
    (whole : ∀ line ∈ lines, Whole line) : ∀ line ∈ push c lines, Whole line := by
  cases lines with
  | nil =>
    refine List.forall_mem_singleton.mpr ⟨?_, Or.inl rfl⟩
    exact fun inside => feed (List.mem_singleton.mp inside).symm
  | cons line lines =>
    obtain ⟨⟨free, ending⟩, rest⟩ := List.forall_mem_cons.mp whole
    refine List.forall_mem_cons.mpr ⟨⟨?_, ?_⟩, rest⟩
    · rw [List.mem_cons, not_or]
      exact ⟨Ne.symm feed, free⟩
    · obtain ⟨text, ending'⟩ := line
      rcases ending with open_ | ⟨closed, tail⟩ | closed
      · exact Or.inl open_
      · refine Or.inr (Or.inl ⟨closed, fun last => ?_⟩)
        cases text with
        | nil => exact pair _ rfl (Option.some.inj last) (Prod.ext rfl closed)
        | cons d text => exact tail ((List.getLast?_cons_cons).symm.trans last)
      · exact Or.inr (Or.inr closed)

theorem whole_delimited (text : Text) : ∀ line ∈ delimited text, Whole line := by
  induction text using delimited.induct with
  | case1 text ih =>
    rw [delimited]
    exact List.forall_mem_cons.mpr ⟨⟨List.not_mem_nil, Or.inr (Or.inl ⟨rfl, nofun⟩)⟩, ih⟩
  | case2 text ih =>
    rw [delimited]
    exact List.forall_mem_cons.mpr ⟨⟨List.not_mem_nil, Or.inr (Or.inr rfl)⟩, ih⟩
  | case3 c text feed pair ih =>
    rw [delimited_push feed pair]
    refine whole_push feed ?_ ih
    rintro _ first rfl rfl
    obtain ⟨lines, split⟩ := List.head?_eq_some_iff.mp first
    have back := unlines_delimited text
    rw [split] at back
    exact pair _ rfl back.symm
  | case4 => exact List.forall_mem_nil _

theorem onlyLastOpen_push {c : Char} {lines : List Line} (shaped : OnlyLastOpen lines) :
    OnlyLastOpen (push c lines) := by
  cases lines with
  | nil => exact ⟨fun _ => ⟨rfl, List.cons_ne_nil _ _⟩, trivial⟩
  | cons line lines => exact ⟨fun open_ => ⟨(shaped.1 open_).1, List.cons_ne_nil _ _⟩, shaped.2⟩

theorem onlyLastOpen_delimited (text : Text) : OnlyLastOpen (delimited text) := by
  induction text using delimited.induct with
  | case1 text ih =>
    rw [delimited]
    exact ⟨nofun, ih⟩
  | case2 text ih =>
    rw [delimited]
    exact ⟨nofun, ih⟩
  | case3 c text feed pair ih =>
    rw [delimited_push feed pair]
    exact onlyLastOpen_push ih
  | case4 => trivial

/-- A whole line that is ended is the first line of the text it begins. -/
theorem delimited_line {line : Line} (whole : Whole line) (ended : line.2 ≠ []) (rest : Text) :
    delimited (line.1 ++ (line.2 ++ rest)) = line :: delimited rest := by
  obtain ⟨text, ending⟩ := line
  obtain ⟨free, kind⟩ := whole
  dsimp only at free kind ended ⊢
  induction text with
  | nil =>
    obtain open_ | ⟨rfl, -⟩ | rfl := kind
    · exact absurd open_ ended
    · rfl
    · rfl
  | cons c text ih =>
    rw [List.mem_cons, not_or] at free
    have kind' : ending = [] ∨ (ending = lf ∧ text.getLast? ≠ some '\r') ∨ ending = crlf := by
      refine kind.imp_right (Or.imp_left fun h => ⟨h.1, fun last => h.2 ?_⟩)
      cases text with
      | nil => cases last
      | cons d text => exact List.getLast?_cons_cons.trans last
    rw [List.cons_append, delimited_push (Ne.symm free.1), ih free.2 kind']
    · rfl
    · rintro after rfl begins
      cases text with
      | cons d text =>
        cases begins
        exact free.2 List.mem_cons_self
      | nil =>
        obtain open_ | ⟨rfl, tail⟩ | rfl := kind
        · exact ended open_
        · exact tail rfl
        · cases begins

theorem delimited_open {text : Text} (free : '\n' ∉ text) (filled : text ≠ []) :
    delimited text = [(text, [])] := by
  induction text with
  | nil => exact absurd rfl filled
  | cons c text ih =>
    rw [List.mem_cons, not_or] at free
    rw [delimited_push (Ne.symm free.1)]
    · cases text with
      | nil => rfl
      | cons d text =>
        rw [ih free.2 (List.cons_ne_nil _ _)]
        rfl
    · rintro rest - rfl
      exact free.2 List.mem_cons_self

theorem delimited_unlines {lines : List Line} (whole : ∀ line ∈ lines, Whole line)
    (shaped : OnlyLastOpen lines) : delimited (unlines lines) = lines := by
  induction lines with
  | nil => rfl
  | cons line lines ih =>
    obtain ⟨first, rest⟩ := List.forall_mem_cons.mp whole
    rw [unlines_cons]
    by_cases ended : line.2 = []
    · obtain ⟨rfl, filled⟩ := shaped.1 ended
      rw [ended, List.nil_append, unlines, List.flatMap_nil, List.append_nil,
        delimited_open first.1 filled]
      exact congrArg (fun ending => [(line.1, ending)]) ended.symm
    · rw [delimited_line first ended, ih rest shaped.2]

/-- Characters before a text do not add a line to it, or only the first one. -/
theorem length_delimited_append {before : Text} (free : '\n' ∉ before) (text : Text) :
    (delimited (before ++ text)).length ≤ max 1 (delimited text).length := by
  induction before with
  | nil => exact Nat.le_max_right _ _
  | cons c before ih =>
    rw [List.mem_cons, not_or] at free
    refine Nat.le_trans ?_ (Nat.max_le.mpr ⟨Nat.le_max_left _ _, ih free.2⟩)
    rw [List.cons_append]
    generalize before ++ text = after
    by_cases pair : ∃ rest, c = '\r' ∧ after = '\n' :: rest
    · obtain ⟨rest, rfl, rfl⟩ := pair
      exact Nat.le_max_right _ _
    · rw [delimited_push (Ne.symm free.1) fun rest hc hr => pair ⟨rest, hc, hr⟩]
      cases delimited after with
      | nil => exact Nat.le_max_left _ _
      | cons line lines => exact Nat.le_max_right _ _

theorem length_delimited_unlines {lines : List Line} (whole : ∀ line ∈ lines, Whole line) :
    (delimited (unlines lines)).length ≤ lines.length := by
  induction lines with
  | nil => exact Nat.le_refl _
  | cons line lines ih =>
    obtain ⟨first, rest⟩ := List.forall_mem_cons.mp whole
    rw [unlines_cons]
    by_cases ended : line.2 = []
    · rw [ended, List.nil_append]
      refine Nat.le_trans (length_delimited_append first.1 _) (Nat.max_le.mpr ⟨?_, ?_⟩)
      · exact Nat.succ_pos _
      · exact Nat.le_trans (ih rest) (Nat.le_succ _)
    · rw [delimited_line first ended]
      exact Nat.succ_le_succ (ih rest)

/-- Whole lines are read back, if only as texts, exactly where no line but the last lacks its
end. -/
theorem texts_delimited_unlines_iff {lines : List Line} (whole : ∀ line ∈ lines, Whole line) :
    (delimited (unlines lines)).map Prod.fst = lines.map Prod.fst ↔ OnlyLastOpen lines := by
  refine ⟨fun same => ?_, fun shaped => by rw [delimited_unlines whole shaped]⟩
  induction lines with
  | nil => trivial
  | cons line lines ih =>
    obtain ⟨first, rest⟩ := List.forall_mem_cons.mp whole
    rw [unlines_cons] at same
    by_cases ended : line.2 = []
    · have count := congrArg List.length same
      rw [ended, List.nil_append, List.length_map, List.length_map, List.length_cons] at count
      have bound := length_delimited_append first.1 (unlines lines)
      have later := length_delimited_unlines rest
      cases lines with
      | cons next lines =>
        rw [List.length_cons] at count later
        omega
      | nil =>
        refine ⟨fun _ => ⟨rfl, fun empty => ?_⟩, trivial⟩
        rw [empty] at count
        cases count
    · rw [delimited_line first ended] at same
      exact ⟨fun open_ => absurd open_ ended, ih rest (List.cons.inj same).2⟩

theorem replaceCrlf_eq (new text : Text) :
    replaceCrlf new text = unlines ((delimited text).map fun line =>
      (line.1, if line.2 = crlf then new else line.2)) := by
  induction text using delimited.induct with
  | case1 text ih =>
    rw [delimited, List.map_cons, unlines_cons, ← ih, replaceCrlf]
    · rfl
    · intro rest first
      cases first
  | case2 text ih =>
    rw [delimited, List.map_cons, unlines_cons, ← ih, replaceCrlf]
    rfl
  | case3 c text feed pair ih =>
    rw [delimited_push feed pair, replaceCrlf, ih]
    · cases delimited text with
      | nil => rfl
      | cons line lines => rfl
    · exact pair
  | case4 => rfl

/-- Splitting at line feeds gives the lines, and one empty text more after a last line feed. -/
theorem splitOn_unlines {lines : List Line} (filled : lines ≠ [])
    (plain : ∀ line ∈ lines, '\n' ∉ line.1 ∧ (line.2 = [] ∨ line.2 = lf))
    (shaped : OnlyLastOpen lines) :
    ∃ text, text.splitOn '\n' = lines.map Prod.fst ∧
      ∃ last ∈ lines.getLast?, last.1 <:+ text ∧ unlines lines = text ++ last.2 := by
  induction lines with
  | nil => exact absurd rfl filled
  | cons line lines ih =>
    obtain ⟨⟨free, ending⟩, rest⟩ := List.forall_mem_cons.mp plain
    cases lines with
    | nil =>
      refine ⟨line.1, List.splitOn_eq_singleton free, line, rfl, List.suffix_rfl, ?_⟩
      rw [unlines_cons, unlines, List.flatMap_nil, List.append_nil]
    | cons next lines =>
      obtain ⟨text, split, last, found, tail, whole⟩ := ih (List.cons_ne_nil _ _) rest shaped.2
      have ended : line.2 = lf := by
        refine ending.resolve_left fun open_ => ?_
        cases (shaped.1 open_).1
      refine ⟨line.1 ++ '\n' :: text, ?_, last, List.getLast?_cons_cons.trans found,
        (tail.trans (List.suffix_cons _ _)).trans (List.suffix_append _ _), ?_⟩
      · rw [List.splitOn_append_cons_self, List.splitOn_eq_singleton free, split]
        rfl
      · rw [unlines_cons, whole, ended, List.append_assoc]
        rfl

end RoboAgent.LineEnds
