import RoboAgent.PatchBodies

/-! The parser accepts the texts that write a structured patch, and reads that patch from them.
Sections are found among the lines by their headers, and no line of a body looks like one. -/

namespace RoboAgent.PatchRoundTrip
open RoboAgent.FalliblePrograms RoboAgent.LineEnds RoboAgent.PatchGrammar RoboAgent.PatchBodies

/-- A section that the loop over the lines can return. -/
def Separated (part : Section) : Prop :=
  strictRelative part.path = true ∧ ∀ line ∈ part.body, isHeader line = false

theorem find_header (operation : Operation) (path : Text) :
    (headers.find? fun other => other.header.isPrefixOf (operation.header ++ path)) =
      some operation := by
  cases operation <;> rfl

theorem isHeader_header (operation : Operation) (path : Text) :
    isHeader (operation.header ++ path) = true := by
  cases operation <;> rfl

theorem validatePath_eq_ok {path read : Text} (h : validatePath path = .ok read) :
    read = path ∧ strictRelative path = true := by
  rw [validatePath] at h
  split at h
  · cases h
    exact ⟨rfl, by assumption⟩
  · cases h

theorem lines_of_sections {lines : List Text} {parts : List Section}
    (h : sections lines = .ok parts) :
    lines = parts.flatMap Section.lines ∧ ∀ part ∈ parts, Separated part := by
  induction lines using sections.induct generalizing parts with
  | case1 =>
    rw [sections] at h
    cases h
    exact ⟨rfl, List.forall_mem_nil _⟩
  | case2 header lines unknown =>
    rw [sections, unknown] at h
    cases h
  | case3 header lines operation found ih =>
    rw [sections, found] at h
    obtain ⟨path, valid, h⟩ := bind_eq_ok h
    obtain ⟨rest, later, h⟩ := bind_eq_ok h
    cases h
    obtain ⟨rfl, strict⟩ := validatePath_eq_ok valid
    obtain ⟨written, separated⟩ := ih later
    have starts := List.find?_some found
    obtain ⟨path, rfl⟩ := List.isPrefixOf_iff_prefix.mp starts
    rw [List.drop_left] at strict ⊢
    refine ⟨?_, List.forall_mem_cons.mpr ⟨⟨strict, fun line inside => ?_⟩, separated⟩⟩
    · rw [List.flatMap_cons, ← written, Section.lines, List.cons_append,
        List.takeWhile_append_dropWhile]
    · simpa using List.mem_takeWhile_imp inside

theorem takeWhile_body {body rest : List Text} (free : ∀ line ∈ body, isHeader line = false)
    (next : ∀ line ∈ rest.head?, isHeader line = true) :
    (body ++ rest).takeWhile (fun line => !isHeader line) = body ∧
      (body ++ rest).dropWhile (fun line => !isHeader line) = rest := by
  have inside : ∀ line ∈ body, (!isHeader line) = true := by
    intro line inside
    rw [free line inside]
    rfl
  rw [List.takeWhile_append_of_pos inside, List.dropWhile_append_of_pos inside]
  cases rest with
  | nil => exact ⟨List.append_nil _, rfl⟩
  | cons line rest =>
    rw [List.takeWhile_cons, List.dropWhile_cons, next line rfl]
    exact ⟨List.append_nil _, rfl⟩

theorem sections_lines {parts : List Section} (separated : ∀ part ∈ parts, Separated part) :
    sections (parts.flatMap Section.lines) = .ok parts := by
  induction parts with
  | nil =>
    rw [List.flatMap_nil, sections]
  | cons part parts ih =>
    obtain ⟨⟨strict, free⟩, rest⟩ := List.forall_mem_cons.mp separated
    have next : ∀ line ∈ (parts.flatMap Section.lines).head?, isHeader line = true := by
      cases parts with
      | nil => rintro line ⟨⟩
      | cons other parts =>
        rintro line ⟨⟩
        exact isHeader_header _ _
    obtain ⟨taken, dropped⟩ := takeWhile_body free next
    rw [List.flatMap_cons, Section.lines, List.cons_append, sections, find_header]
    dsimp only
    rw [List.drop_left, validatePath, if_pos strict, ok_bind, taken, dropped, ih rest]
    rfl

theorem head_of_isHeader {line : Text} (h : isHeader line = true) : line.head? = some '*' := by
  obtain ⟨operation, -, starts⟩ := List.any_eq_true.mp h
  obtain ⟨path, rfl⟩ := List.isPrefixOf_iff_prefix.mp starts
  cases operation <;> rfl

/-- No line of a body begins like a header or the end marker. -/
theorem head_body (change : Change) : ∀ line ∈ change.body, line.head? ≠ some '*' := by
  intro line inside
  cases change with
  | add values =>
    obtain first | first := head_addedLines line inside <;> rw [first] <;> decide
  | update hunks =>
    obtain ⟨hunk, -, inside⟩ := List.mem_flatMap.mp inside
    obtain rfl | inside := List.mem_cons.mp inside
    · decide
    · obtain ⟨written, -, inside⟩ := List.mem_flatMap.mp inside
      obtain rfl | inside := List.mem_cons.mp inside
      · cases written.kind <;> exact nofun
      · rw [head_marker line inside]
        decide
  | delete => cases inside

/-- A section that is read writes the file it is read as. -/
theorem lines_of_readSection {part : Section} {file : FilePatch}
    (h : readSection part = .ok file) : part.lines.map unblank = file.lines := by
  obtain ⟨kind, path, body, -⟩ := readSection_iff.mp h
  rw [Section.lines, List.map_cons, body, kind, path, unblank_self, FilePatch.lines]
  rw [head_of_isHeader (isHeader_header _ _)]
  decide

theorem files_of_sections {parts : List Section} {patch : List FilePatch}
    (h : List.Forall₂ (fun part file => readSection part = .ok file) parts patch) :
    (parts.flatMap Section.lines).map unblank = patch.flatMap FilePatch.lines ∧
      parts.map Section.path = patch.map FilePatch.path ∧
      ∀ file ∈ patch, file.change.WellFormed := by
  induction h with
  | nil => exact ⟨rfl, rfl, List.forall_mem_nil _⟩
  | cons first _ ih =>
    obtain ⟨written, paths, formed⟩ := ih
    obtain ⟨-, path, -, formed'⟩ := readSection_iff.mp first
    refine ⟨?_, ?_, List.forall_mem_cons.mpr ⟨formed', formed⟩⟩
    · rw [List.flatMap_cons, List.map_append, written, lines_of_readSection first,
        List.flatMap_cons]
    · rw [List.map_cons, List.map_cons, path, paths]

/-- Lines that write files divide into the sections of these files. -/
theorem sections_of_files {lines : List Text} {patch : List FilePatch}
    (paths : ∀ file ∈ patch, strictRelative file.path = true)
    (formed : ∀ file ∈ patch, file.change.WellFormed)
    (h : lines.map unblank = patch.flatMap FilePatch.lines) :
    ∃ parts : List Section, lines = parts.flatMap Section.lines ∧
      (∀ part ∈ parts, Separated part) ∧
      List.Forall₂ (fun part file => readSection part = .ok file) parts patch := by
  induction patch generalizing lines with
  | nil => exact ⟨[], List.map_eq_nil_iff.mp h, List.forall_mem_nil _, .nil⟩
  | cons file patch ih =>
    obtain ⟨path, paths⟩ := List.forall_mem_cons.mp paths
    obtain ⟨form, formed⟩ := List.forall_mem_cons.mp formed
    obtain ⟨own, others, rfl, first, rest⟩ := List.map_eq_append_iff.mp h
    obtain ⟨header, body, rfl, head, tail⟩ := List.map_eq_cons_iff.mp first
    obtain ⟨parts, rfl, separated, read⟩ := ih paths formed rest
    have title : header = file.change.operation.header ++ file.path := by
      have plain : (unblank header).head? ≠ some '@' := by
        rw [head, head_of_isHeader (isHeader_header _ _)]
        decide
      rw [eq_of_unblank plain, head]
    refine ⟨⟨file.change.operation, file.path, body⟩ :: parts, ?_,
      List.forall_mem_cons.mpr ⟨⟨path, fun line inside => ?_⟩, separated⟩,
      .cons (readSection_iff.mpr ⟨rfl, rfl, tail, form⟩) read⟩
    · rw [List.flatMap_cons, Section.lines, title]
    · refine Bool.eq_false_iff.mpr fun starts => ?_
      have first := head_of_isHeader starts
      have same : unblank line = line := by
        refine unblank_self ?_
        rw [first]
        decide
      refine head_body file.change line ?_ first
      rw [← tail, ← same]
      exact List.mem_map_of_mem inside

theorem checkBody_iff {part : Section} :
    (∃ checked, checkBody part = .ok checked) ↔ ∃ file, readSection part = .ok file := by
  obtain ⟨operation, path, body⟩ := part
  cases operation with
  | added =>
    constructor
    · rintro ⟨_, h⟩
      obtain ⟨_, read, -⟩ := map_eq_ok h
      obtain ⟨values, read, -⟩ := map_eq_ok read
      exact ⟨_, congrArg (Except.map _) read⟩
    · rintro ⟨_, h⟩
      obtain ⟨values, read, -⟩ := map_eq_ok h
      exact ⟨(), congrArg (fun read => (read.map fun values =>
        utf8 (addedText values)).map fun _ => ()) read⟩
  | modified =>
    constructor
    · rintro ⟨_, h⟩
      obtain ⟨_, read, -⟩ := map_eq_ok h
      exact ⟨_, congrArg (Except.map _) read⟩
    · rintro ⟨_, h⟩
      obtain ⟨_, read, -⟩ := map_eq_ok h
      exact ⟨(), congrArg (Except.map _) read⟩
  | deleted =>
    rw [checkBody, readSection]
    dsimp only
    split
    · exact ⟨fun _ => ⟨_, rfl⟩, fun _ => ⟨_, rfl⟩⟩
    · exact ⟨by rintro ⟨_, ⟨⟩⟩, by rintro ⟨_, ⟨⟩⟩⟩

theorem checkSections_iff {parts read : List Section} :
    checkSections parts = .ok read ↔ read = parts ∧ parts ≠ [] ∧
      (parts.map Section.path).Nodup ∧ ∃ patch, parts.mapM readSection = .ok patch := by
  rw [checkSections]
  by_cases filled : parts = []
  · rw [if_pos filled]
    exact ⟨nofun, fun h => absurd filled h.2.1⟩
  · rw [if_neg filled]
    by_cases distinct : (parts.map Section.path).Nodup
    · rw [if_neg (not_not.mpr distinct)]
      refine ⟨fun h => ?_, ?_⟩
      · obtain ⟨_, checked, h⟩ := bind_eq_ok h
        cases h
        exact ⟨rfl, filled, distinct,
          exists_mapM fun part inside => checkBody_iff.mp (ok_of_mapM checked part inside)⟩
      · rintro ⟨rfl, -, -, patch, reads⟩
        obtain ⟨_, checked⟩ :=
          exists_mapM fun part inside => checkBody_iff.mpr (ok_of_mapM reads part inside)
        rw [checked]
        rfl
    · rw [if_pos distinct]
      exact ⟨nofun, fun h => absurd h.2.2.1 distinct⟩

section Texts
variable {text : Text}

theorem plain_iff : '\x00' ∉ text ∧ '\r' ∉ replaceCrlf [] text ↔
    ∀ line ∈ delimited text, Plain line.1 := by
  have ends : ∀ line ∈ delimited text,
      '\x00' ∉ line.2 ∧ '\r' ∉ if line.2 = crlf then [] else line.2 := by
    intro line inside
    obtain ⟨-, kind⟩ := whole_delimited text line inside
    obtain kind | ⟨kind, -⟩ | kind := kind <;> rw [kind] <;> decide
  have nul : '\x00' ∈ text ↔ ∃ line ∈ delimited text, '\x00' ∈ line.1 := by
    conv_lhs => rw [← unlines_delimited text, unlines]
    rw [List.mem_flatMap]
    refine exists_congr fun line => and_congr_right fun inside => ?_
    rw [List.mem_append, or_iff_left (ends line inside).1]
  have carriage : '\r' ∈ replaceCrlf [] text ↔ ∃ line ∈ delimited text, '\r' ∈ line.1 := by
    rw [replaceCrlf_eq, unlines, List.flatMap_map, List.mem_flatMap]
    refine exists_congr fun line => and_congr_right fun inside => ?_
    rw [List.mem_append, or_iff_left (ends line inside).2]
  rw [nul, carriage]
  refine ⟨fun h line inside => ⟨(whole_delimited text line inside).1, ?_, ?_⟩, fun h => ⟨?_, ?_⟩⟩
  · exact fun mem => h.2 ⟨line, inside, mem⟩
  · exact fun mem => h.1 ⟨line, inside, mem⟩
  · rintro ⟨line, inside, mem⟩
    exact (h line inside).2.2 mem
  · rintro ⟨line, inside, mem⟩
    exact (h line inside).2.1 mem

/-- The text without carriage returns is its lines but for the last line end. -/
theorem normalized_lines (filled : text ≠ []) :
    ∃ body, body.splitOn '\n' = (delimited text).map Prod.fst ∧
      ∃ last ending, ((delimited text).map Prod.fst).getLast? = some last ∧ last <:+ body ∧
        replaceCrlf lf text = body ++ ending ∧ (ending = lf ∨ ending = [] ∧ last ≠ []) := by
  have some_ : (delimited text).map (fun line =>
      (line.1, if line.2 = crlf then lf else line.2)) ≠ [] := by
    intro none_
    rw [← unlines_delimited text, List.map_eq_nil_iff.mp none_] at filled
    exact filled rfl
  have shaped : OnlyLastOpen ((delimited text).map fun line =>
      (line.1, if line.2 = crlf then lf else line.2)) := by
    refine (onlyLastOpen_delimited text).map (fun _ => rfl) fun line => ?_
    dsimp only
    split
    · rename_i pair
      rw [pair]
      exact ⟨nofun, nofun⟩
    · rfl
  have plain : ∀ line ∈ (delimited text).map fun line =>
      (line.1, if line.2 = crlf then lf else line.2), '\n' ∉ line.1 ∧
        (line.2 = [] ∨ line.2 = lf) := by
    rw [List.forall_mem_map]
    intro line inside
    obtain ⟨free, kind⟩ := whole_delimited text line inside
    refine ⟨free, ?_⟩
    obtain kind | ⟨kind, -⟩ | kind := kind <;> dsimp only <;> rw [kind]
    · exact Or.inl rfl
    · exact Or.inr rfl
    · exact Or.inr rfl
  obtain ⟨body, split, last, final, tail, whole⟩ := splitOn_unlines some_ plain shaped
  refine ⟨body, split.trans List.map_map, last.1, last.2, ?_, tail, ?_, ?_⟩
  · have final := congrArg (Option.map Prod.fst) final
    rw [← List.getLast?_map, List.map_map] at final
    exact final
  · rw [replaceCrlf_eq, whole]
  · obtain ⟨-, ending⟩ := plain last (List.mem_of_getLast? final)
    obtain open_ | closed := ending
    · exact Or.inr ⟨open_, (onlyLastOpen_iff.mp shaped).2 last final open_⟩
    · exact Or.inl closed

/-- A text that ends like a patch is trimmed to its lines without a last line end. -/
theorem trimmed_eq {body last ending : Text} (final : (body.splitOn '\n').getLast? = some last)
    (kind : ending = lf ∨ ending = [] ∧ last ≠ [])
    (ends : endPatch <:+ body ++ ending ∨ endPatch ++ lf <:+ body ++ ending) :
    trimmed (body ++ ending) = body := by
  rw [trimmed]
  obtain rfl | ⟨rfl, filled⟩ := kind
  · split
    · exact List.dropLast_concat
    · rename_i other
      obtain ⟨before, same⟩ := ends.resolve_right other
      have character := congrArg List.getLast? same
      rw [lf, List.getLast?_concat, List.getLast?_append] at character
      cases character
  · rw [List.append_nil] at ends ⊢
    refine if_neg ?_
    rintro ⟨before, rfl⟩
    rw [lf, ← List.append_assoc, List.splitOn_append_cons_self, List.splitOn_nil,
      List.getLast?_concat] at final
    exact filled (Option.some.inj final).symm

/-- The container markers are looked for in the lines of the text. -/
theorem container_iff {lines : List Text} (final : lines.getLast? = some endPatch) :
    (endPatch <:+ replaceCrlf lf text ∨ endPatch ++ lf <:+ replaceCrlf lf text) ∧
      (trimmed (replaceCrlf lf text)).splitOn '\n' = lines ↔
      (delimited text).map Prod.fst = lines := by
  by_cases filled : text = []
  · rw [filled]
    refine ⟨fun h => ?_, ?_⟩
    · obtain ⟨before, same⟩ | ⟨before, same⟩ := h.1
      · cases (List.append_eq_nil_iff.mp same).2
      · cases (List.append_eq_nil_iff.mp same).2
    · rintro rfl
      cases final
  · obtain ⟨body, split, last, ending, lastly, tail, whole, kind⟩ := normalized_lines filled
    rw [whole]
    rw [← split] at lastly
    refine ⟨fun ⟨ends, same⟩ => ?_, ?_⟩
    · rw [← same, trimmed_eq lastly kind ends, split]
    · rintro rfl
      rw [split, final] at lastly
      cases lastly
      have ends : endPatch <:+ body ++ ending ∨ endPatch ++ lf <:+ body ++ ending := by
        obtain rfl | ⟨rfl, -⟩ := kind
        · exact Or.inr (List.suffix_append_self_iff.mpr tail)
        · rw [List.append_nil]
          exact Or.inl tail
      have lastly : (body.splitOn '\n').getLast? = some endPatch := by rw [split, final]
      exact ⟨ends, by rw [trimmed_eq lastly kind ends, split]⟩

theorem bracketed {lines : List Text} (first : lines.head? = some beginPatch)
    (final : lines.getLast? = some endPatch) :
    lines = beginPatch :: lines.tail.dropLast ++ [endPatch] := by
  obtain ⟨rest, rfl⟩ := List.head?_eq_some_iff.mp first
  cases rest with
  | nil => cases final
  | cons line rest =>
    rw [List.getLast?_cons_cons] at final
    obtain ⟨inner, split⟩ := List.getLast?_eq_some_iff.mp final
    rw [List.tail_cons, split, List.dropLast_concat]
    rfl

theorem parsePatch_iff {parts : List Section} :
    parsePatch text = .ok parts ↔ (∀ line ∈ delimited text, Plain line.1) ∧
      ∃ inner, (delimited text).map Prod.fst = beginPatch :: inner ++ [endPatch] ∧
        (sections inner >>= checkSections) = .ok parts := by
  rw [← plain_iff, parsePatch]
  refine ⟨fun h => ?_, ?_⟩
  · split at h
    · cases h
    · rename_i nul
      split at h
      · cases h
      · rename_i carriage
        dsimp only at h
        split at h
        · cases h
        · rename_i ends
          split at h
          · cases h
          · rename_i markers
            rw [not_or, not_not, not_not] at markers
            have same := (container_iff markers.2).mp ⟨not_not.mp ends, rfl⟩
            exact ⟨⟨nul, carriage⟩, _, same.trans (bracketed markers.1 markers.2), h⟩
  · rintro ⟨⟨nul, carriage⟩, inner, lines, h⟩
    obtain ⟨ends, trimmed⟩ := (container_iff List.getLast?_concat).mpr lines
    have markers : ¬ ((beginPatch :: inner ++ [endPatch]).head? ≠ some beginPatch ∨
        (beginPatch :: inner ++ [endPatch]).getLast? ≠ some endPatch) := by
      rw [not_or, not_not, not_not]
      exact ⟨rfl, List.getLast?_concat⟩
    rw [if_neg nul, if_neg carriage]
    dsimp only
    rw [if_neg (not_not.mpr ends), trimmed, if_neg markers, List.cons_append, List.tail_cons,
      List.dropLast_concat]
    exact h

theorem ending_of_mem {lines : List Line}
    (ended : ∀ line ∈ lines.dropLast, line.2 = lf ∨ line.2 = crlf)
    (final : ∀ line ∈ lines.getLast?, line.2 = [] ∨ line.2 = lf ∨ line.2 = crlf) :
    ∀ line ∈ lines, line.2 = [] ∨ line.2 = lf ∨ line.2 = crlf := by
  obtain rfl | ⟨before, last, rfl⟩ := List.eq_nil_or_concat' lines
  · exact List.forall_mem_nil _
  · rw [List.dropLast_concat] at ended
    rw [List.getLast?_concat] at final
    refine List.forall_mem_append.mpr ⟨fun line inside => Or.inr (ended line inside), ?_⟩
    exact List.forall_mem_singleton.mpr (final last rfl)

theorem rendered_iff {patch : List FilePatch} :
    Rendered patch text ↔ (∀ line ∈ delimited text, Plain line.1) ∧
      ((delimited text).map Prod.fst).map unblank = patchLines patch := by
  refine ⟨?_, fun ⟨plain, written⟩ => ?_⟩
  · rintro ⟨lines, rfl, written, plain, ended, final⟩
    have whole : ∀ line ∈ lines, Whole line := by
      intro line inside
      obtain ⟨feed, carriage, -⟩ := plain line inside
      refine ⟨feed, (ending_of_mem ended final line inside).imp_right
        (Or.imp_left fun closed => ⟨closed, fun last => ?_⟩)⟩
      exact carriage (List.mem_of_getLast? last)
    have shaped : OnlyLastOpen lines := by
      refine onlyLastOpen_iff.mpr ⟨fun line inside open_ => ?_, fun line last _ empty => ?_⟩
      · obtain closed | closed := ended line inside <;> rw [closed] at open_ <;> cases open_
      · have marks : (lines.map fun line => unblank line.1).getLast? = some endPatch := by
          rw [written]
          exact List.getLast?_concat
        rw [List.getLast?_map, last, Option.map_some, empty] at marks
        revert marks
        decide
    rw [delimited_unlines whole shaped, List.map_map]
    exact ⟨plain, written⟩
  · rw [List.map_map] at written
    have whole := whole_delimited text
    obtain ⟨closed, -⟩ := onlyLastOpen_iff.mp (onlyLastOpen_delimited text)
    refine ⟨delimited text, (unlines_delimited text).symm, written, plain, ?_, ?_⟩
    · intro line inside
      obtain open_ | ⟨ending, -⟩ | ending := (whole line (List.mem_of_mem_dropLast inside)).2
      · exact absurd open_ (closed line inside)
      · exact Or.inl ending
      · exact Or.inr ending
    · intro line last
      exact (whole line (List.mem_of_getLast? last)).2.imp_right (Or.imp_left And.left)

/-- The texts that are read as a patch are those that write it. -/
theorem parse_iff {patch : List FilePatch} :
    parse text = .ok patch ↔ Structured patch ∧ Rendered patch text := by
  rw [rendered_iff]
  refine ⟨fun h => ?_, ?_⟩
  · obtain ⟨parts, found, read⟩ := bind_eq_ok h
    obtain ⟨plain, inner, lines, found⟩ := parsePatch_iff.mp found
    obtain ⟨split, cut, checked⟩ := bind_eq_ok found
    obtain ⟨rfl, filled, distinct, -⟩ := checkSections_iff.mp checked
    obtain ⟨rfl, separated⟩ := lines_of_sections cut
    have files := mapM_eq_ok_iff.mp read
    obtain ⟨written, paths, formed⟩ := files_of_sections files
    refine ⟨⟨?_, paths ▸ distinct, ?_, formed⟩, plain, ?_⟩
    · rintro rfl
      exact filled (List.forall₂_nil_right_iff.mp files)
    · intro file inside
      have target : file.path ∈ patch.map FilePatch.path := List.mem_map_of_mem inside
      rw [← paths] at target
      obtain ⟨part, among, same⟩ := List.mem_map.mp target
      exact same ▸ (separated part among).1
    · rw [lines, List.map_append, List.map_cons, written]
      rfl
  · rintro ⟨structured, plain, written⟩
    obtain ⟨before, last, lines, split, final⟩ := List.map_eq_append_iff.mp written
    obtain ⟨first, inner, rfl, start, split⟩ := List.map_eq_cons_iff.mp split
    obtain ⟨final', none_, rfl, last_eq, empty⟩ := List.map_eq_cons_iff.mp final
    cases List.map_eq_nil_iff.mp empty
    have marker (line : Text) (marks : unblank line = beginPatch ∨ unblank line = endPatch) :
        line = unblank line := by
      refine eq_of_unblank ?_
      obtain marks | marks := marks <;> rw [marks] <;> decide
    rw [← marker first (Or.inl start)] at start
    rw [← marker final' (Or.inr last_eq)] at last_eq
    obtain ⟨parts, rfl, separated, files⟩ :=
      sections_of_files structured.paths structured.changes split
    have reads := mapM_eq_ok_iff.mpr files
    have checked : checkSections parts = .ok parts := by
      refine checkSections_iff.mpr ⟨rfl, ?_, ?_, patch, reads⟩
      · rintro rfl
        exact structured.filled (List.forall₂_nil_left_iff.mp files)
      · rw [(files_of_sections files).2.1]
        exact structured.distinct
    have found : parsePatch text = .ok parts := by
      refine parsePatch_iff.mpr ⟨plain, parts.flatMap Section.lines, ?_, ?_⟩
      · rw [lines, start, last_eq]
      · rw [sections_lines separated, ok_bind, checked]
    rw [parse, found, ok_bind, reads]

end Texts

section Rendering
variable {patch : List FilePatch}

/-- The paths and the contents of a patch, free of line ends and NUL. -/
def PlainPatch (patch : List FilePatch) : Prop :=
  ∀ file ∈ patch, Plain file.path ∧ ∀ text ∈ file.change.texts, Plain text

theorem plain_append {line rest : Text} (first : Plain line) (later : Plain rest) :
    Plain (line ++ rest) := by
  refine ⟨?_, ?_, ?_⟩ <;> rw [List.mem_append, not_or]
  · exact ⟨first.1, later.1⟩
  · exact ⟨first.2.1, later.2.1⟩
  · exact ⟨first.2.2, later.2.2⟩

theorem plain_header (operation : Operation) : Plain operation.header := by
  rw [Plain]
  cases operation <;> decide

theorem plain_mark (c : Char) (h : c = '+' ∨ c = '-' ∨ c = ' ') : Plain [c] := by
  rw [Plain]
  obtain rfl | rfl | rfl := h <;> decide

theorem plain_marker (noNewline : Bool) : ∀ line ∈ marker noNewline, Plain line := by
  cases noNewline with
  | false => exact List.forall_mem_nil _
  | true =>
    refine List.forall_mem_singleton.mpr ?_
    rw [Plain]
    decide

theorem plain_body {change : Change} (h : ∀ text ∈ change.texts, Plain text) :
    ∀ line ∈ change.body, Plain line := by
  intro line inside
  cases change with
  | add values =>
    obtain ⟨value, among, inside⟩ := List.mem_flatMap.mp inside
    obtain rfl | inside := List.mem_cons.mp inside
    · exact plain_append (plain_mark '+' (Or.inl rfl)) (h _ (List.mem_map_of_mem among))
    · exact plain_marker _ line inside
  | update hunks =>
    obtain ⟨hunk, among, inside⟩ := List.mem_flatMap.mp inside
    obtain rfl | inside := List.mem_cons.mp inside
    · rw [Plain]
      decide
    · obtain ⟨written, own, inside⟩ := List.mem_flatMap.mp inside
      obtain rfl | inside := List.mem_cons.mp inside
      · refine plain_append (plain_mark _ ?_)
          (h _ (List.mem_map_of_mem (List.mem_flatten_of_mem among own)))
        cases written.kind
        · exact Or.inr (Or.inr rfl)
        · exact Or.inl rfl
        · exact Or.inr (Or.inl rfl)
      · exact plain_marker _ line inside
  | delete => cases inside

theorem plain_patchLines (h : PlainPatch patch) : ∀ line ∈ patchLines patch, Plain line := by
  rw [patchLines, List.forall_mem_append, List.forall_mem_cons, List.forall_mem_singleton]
  refine ⟨⟨?_, fun line inside => ?_⟩, ?_⟩
  · rw [Plain]
    decide
  · obtain ⟨file, among, inside⟩ := List.mem_flatMap.mp inside
    obtain ⟨path, texts⟩ := h file among
    obtain rfl | inside := List.mem_cons.mp inside
    · exact plain_append (plain_header _) path
    · exact plain_body texts line inside
  · rw [Plain]
    decide

theorem unblank_body (change : Change) : change.body.map unblank = change.body := by
  cases change with
  | add values => exact map_unblank_self addedLines_head
  | update hunks => exact map_unblank_hunkLines hunks
  | delete => rfl

theorem unblank_patchLines (patch : List FilePatch) :
    (patchLines patch).map unblank = patchLines patch := by
  have files : (patch.flatMap FilePatch.lines).map unblank = patch.flatMap FilePatch.lines := by
    induction patch with
    | nil => rfl
    | cons file patch ih =>
      have title : unblank (file.change.operation.header ++ file.path) =
          file.change.operation.header ++ file.path := by
        refine unblank_self ?_
        rw [head_of_isHeader (isHeader_header _ _)]
        decide
      rw [List.flatMap_cons, List.map_append, ih, FilePatch.lines, List.map_cons, title,
        unblank_body]
  rw [patchLines, List.map_append, List.map_cons, files]
  rfl

/-- The lines a section's body is made of. -/
theorem plain_of_parsePatch {text : Text} {parts : List Section}
    (h : parsePatch text = .ok parts) : ∀ part ∈ parts, ∀ line ∈ part.body, Plain line := by
  intro part among line inside
  obtain ⟨plain, inner, lines, sectioned⟩ := parsePatch_iff.mp h
  obtain ⟨split, cut, checked⟩ := bind_eq_ok sectioned
  obtain ⟨rfl, -⟩ := checkSections_iff.mp checked
  obtain ⟨rfl, -⟩ := lines_of_sections cut
  have own : line ∈ (delimited text).map Prod.fst := by
    rw [lines, List.cons_append]
    refine List.mem_cons_of_mem _ (List.mem_append_left _ ?_)
    exact List.mem_flatMap.mpr ⟨part, among, List.mem_cons_of_mem _ inside⟩
  obtain ⟨whole, found, rfl⟩ := List.mem_map.mp own
  exact plain whole found

theorem rendered_render (h : PlainPatch patch) {newline : Text}
    (kind : newline = lf ∨ newline = crlf) : Rendered patch (render newline patch) := by
  refine ⟨_, rfl, ?_, ?_, ?_, ?_⟩
  · rw [List.map_map]
    exact unblank_patchLines patch
  · rw [List.forall_mem_map]
    exact plain_patchLines h
  · intro line inside
    obtain ⟨_, -, rfl⟩ := List.mem_map.mp (List.mem_of_mem_dropLast inside)
    exact kind
  · intro line last
    obtain ⟨_, -, rfl⟩ := List.mem_map.mp (List.mem_of_getLast? last)
    exact Or.inr kind

/-- The parser reads every structured patch back from every text that writes it, accepts no other
text, and takes no line of a body for a header or for the end of the patch. -/
theorem parser_exact :
    (∀ patch, Structured patch → PlainPatch patch → ∀ newline, newline = lf ∨ newline = crlf →
      parse (render newline patch) = .ok patch) ∧
    (∀ patch text, Structured patch → Rendered patch text → parse text = .ok patch) ∧
    (∀ text parts, parsePatch text = .ok parts → ∃ patch, Structured patch ∧
      Rendered patch text ∧ parts.mapM readSection = .ok patch) ∧
    ∀ change : Change, ∀ line ∈ change.body, isHeader line = false ∧ line ≠ endPatch := by
  refine ⟨fun patch structured plain newline kind => ?_, fun patch text structured written => ?_,
    fun text parts found => ?_, fun change line inside => ⟨?_, ?_⟩⟩
  · exact parse_iff.mpr ⟨structured, rendered_render plain kind⟩
  · exact parse_iff.mpr ⟨structured, written⟩
  · obtain ⟨-, inner, -, sectioned⟩ := parsePatch_iff.mp found
    obtain ⟨split, -, checked⟩ := bind_eq_ok sectioned
    obtain ⟨rfl, -, -, patch, reads⟩ := checkSections_iff.mp checked
    have parsed : parse text = .ok patch := by rw [parse, found, ok_bind, reads]
    obtain ⟨structured, written⟩ := parse_iff.mp parsed
    exact ⟨patch, structured, written, reads⟩
  · exact Bool.eq_false_iff.mpr fun starts =>
      head_body change line inside (head_of_isHeader starts)
  · rintro rfl
    exact head_body change _ inside rfl

/-- A structured patch whose added line is a NUL character is refused. -/
theorem nul_line_refused :
    Structured [⟨['a'], .add [(['\x00'], false)]⟩] ∧
      (∀ line ∈ patchLines [⟨['a'], .add [(['\x00'], false)]⟩], '\n' ∉ line ∧ '\r' ∉ line) ∧
      parse (render lf [⟨['a'], .add [(['\x00'], false)]⟩]) =
        .error ⟨"unsupported_binary_content", "Patch contains NUL."⟩ := by
  refine ⟨⟨List.cons_ne_nil _ _, by decide, by decide, ?_⟩, by decide, by decide +kernel⟩
  exact List.forall_mem_singleton.mpr (List.forall_mem_nil _)

end Rendering

end RoboAgent.PatchRoundTrip
