import RoboAgent.PatchUpdate

/-! Updates and the line structure of a file. An update keeps the lines of the edit exactly where
no line but the last one is left without its newline, and matches hunks against the lines that
line feeds delimit exactly where the text has no other line boundary of str.splitlines before its
last character. -/

namespace RoboAgent.PatchLines
open RoboAgent.FalliblePrograms RoboAgent.LineEnds RoboAgent.PatchGrammar RoboAgent.PatchBodies
open RoboAgent.PatchUpdate

/-- Line boundaries other than LF and CRLF stand at the very end of the text only. -/
def ordinary : Text → Bool
  | '\r' :: '\n' :: text => ordinary text
  | c :: text => (text.isEmpty || c == '\n' || !lineBoundaries.contains c) && ordinary text
  | [] => true

example : ordinary ['a', '\x0c', 'b'] = false ∧ ordinary ['a', '\x0c'] = true := by
  simp [ordinary, lineBoundaries]

section FileLines
variable {c : Char} {text : Text}

theorem ordinary_push (pair : ∀ rest, c = '\r' → text ≠ '\n' :: rest) :
    ordinary (c :: text) =
      ((text.isEmpty || c == '\n' || !lineBoundaries.contains c) && ordinary text) := by
  rw [ordinary]
  exact pair

theorem splitlines_push (pair : ∀ rest, c = '\r' → text ≠ '\n' :: rest) :
    splitlines (c :: text) =
      if c ∈ lineBoundaries then [c] :: splitlines text
      else match splitlines text with
        | [] => [[c]]
        | line :: lines => (c :: line) :: lines :=
  splitlines.eq_2 c text pair

theorem splitlines_filled (text : Text) : ∀ line ∈ splitlines text, line ≠ [] := by
  induction text using delimited.induct with
  | case1 text ih =>
    rw [splitlines_push (c := '\n') fun _ same => absurd same (by decide), if_pos (by decide)]
    exact List.forall_mem_cons.mpr ⟨List.cons_ne_nil _ _, ih⟩
  | case2 text ih =>
    rw [splitlines]
    exact List.forall_mem_cons.mpr ⟨List.cons_ne_nil _ _, ih⟩
  | case3 c text feed pair ih =>
    rw [splitlines_push pair]
    split
    · exact List.forall_mem_cons.mpr ⟨List.cons_ne_nil _ _, ih⟩
    · split
      · exact List.forall_mem_singleton.mpr (List.cons_ne_nil _ _)
      · rename_i line lines split
        rw [split] at ih
        exact List.forall_mem_cons.mpr ⟨List.cons_ne_nil _ _, (List.forall_mem_cons.mp ih).2⟩
  | case4 => exact List.forall_mem_nil _

theorem fileLine_single (feed : c ≠ '\n') : fileLine [c] = ([c], []) := by
  rw [fileLine, if_neg, if_neg]
  · intro ends
    exact feed (List.cons.inj (ends.eq_of_length rfl)).1.symm
  · intro ends
    exact absurd ends.length_le (Nat.not_succ_le_self 1)

theorem dropLast_crlf (before : Text) : (before ++ crlf).dropLast.dropLast = before := by
  change (before ++ (['\r'] ++ ['\n'])).dropLast.dropLast = before
  rw [← List.append_assoc, List.dropLast_concat, List.dropLast_concat]

theorem fileLine_push {line : Text} (other : c ∉ lineBoundaries) (filled : line ≠ []) :
    fileLine (c :: line) = (c :: (fileLine line).1, (fileLine line).2) := by
  have feed : c ≠ '\n' := by
    rintro rfl
    exact other (by decide)
  have return_ : c ≠ '\r' := by
    rintro rfl
    exact other (by decide)
  have pair : crlf <:+ c :: line ↔ crlf <:+ line := by
    rw [List.suffix_cons_iff, or_iff_right]
    intro same
    exact return_ (List.cons.inj same).1.symm
  have single : lf <:+ c :: line ↔ lf <:+ line := by
    rw [List.suffix_cons_iff, or_iff_right]
    intro same
    exact feed (List.cons.inj same).1.symm
  rw [fileLine, fileLine]
  simp only [pair, single]
  split
  · rename_i ends
    obtain ⟨before, rfl⟩ := ends
    rw [← List.cons_append, dropLast_crlf, dropLast_crlf]
  · split
    · rw [List.dropLast_cons_of_ne_nil filled]
    · rfl

theorem fileLines_pair (text : Text) :
    fileLines ('\r' :: '\n' :: text) = ([], crlf) :: fileLines text := by
  rw [fileLines, splitlines]
  rfl

theorem fileLines_feed (text : Text) : fileLines ('\n' :: text) = ([], lf) :: fileLines text := by
  rw [fileLines, splitlines_push (c := '\n') nofun, if_pos (by decide)]
  rfl

theorem fileLines_boundary (boundary : c ∈ lineBoundaries) (feed : c ≠ '\n')
    (pair : ∀ rest, c = '\r' → text ≠ '\n' :: rest) :
    fileLines (c :: text) = ([c], []) :: fileLines text := by
  rw [fileLines, splitlines_push pair, if_pos boundary, List.map_cons, fileLine_single feed]
  rfl

theorem fileLines_push (other : c ∉ lineBoundaries) :
    fileLines (c :: text) = push c (fileLines text) := by
  have pair : ∀ rest, c = '\r' → text ≠ '\n' :: rest := by
    rintro rest rfl
    exact absurd (by decide) other
  have filled := splitlines_filled text
  rw [fileLines, fileLines, splitlines_push pair, if_neg other]
  generalize splitlines text = lines at filled ⊢
  cases lines with
  | nil =>
    refine congrArg (fun line => [line]) (fileLine_single ?_)
    rintro rfl
    exact other (by decide)
  | cons line lines =>
    dsimp only
    rw [List.map_cons, List.map_cons, fileLine_push other (filled line List.mem_cons_self)]
    rfl

/-- The lines of a text, read character by character. -/
theorem fileLines_cases (pair : ∀ rest, c = '\r' → text ≠ '\n' :: rest) (feed : c ≠ '\n') :
    fileLines (c :: text) =
      if c ∈ lineBoundaries then ([c], []) :: fileLines text else push c (fileLines text) := by
  split
  · exact fileLines_boundary (by assumption) feed pair
  · exact fileLines_push (by assumption)

theorem fileLines_filled (text : Text) : ∀ line ∈ fileLines text, line ≠ ([], []) := by
  rw [fileLines, List.forall_mem_map]
  intro line inside empty
  rw [fileLine] at empty
  split at empty
  · cases (Prod.ext_iff.mp empty).2
  · split at empty
    · cases (Prod.ext_iff.mp empty).2
    · exact splitlines_filled text line inside (Prod.ext_iff.mp empty).1

theorem fileLines_eq {text : Text} (h : ordinary text = true) :
    fileLines text = delimited text := by
  induction text using delimited.induct with
  | case1 text ih =>
    rw [ordinary_push (c := '\n') fun _ same => absurd same (by decide), Bool.and_eq_true] at h
    rw [fileLines_feed, delimited, ih h.2]
  | case2 text ih =>
    rw [ordinary] at h
    rw [fileLines_pair, delimited, ih h]
  | case3 c text feed pair ih =>
    rw [ordinary_push pair, Bool.and_eq_true] at h
    rw [fileLines_cases pair feed, delimited_push feed pair, ih h.2]
    split
    · rename_i boundary
      obtain h := h.1
      rw [Bool.or_eq_true, Bool.or_eq_true] at h
      obtain (last | single) | other := h
      · rw [List.isEmpty_iff.mp last]
        rfl
      · exact absurd (beq_iff_eq.mp single) feed
      · simp [boundary] at other
    · rfl
  | case4 => rfl

/-- The texts of the lines, and how many have a line end, do not depend on the other line
boundaries. -/
theorem fileLines_measure (text : Text) :
    (fileLines text).flatMap Prod.fst = (delimited text).flatMap Prod.fst ∧
      (fileLines text).countP (fun line => line.2 ≠ []) =
        (delimited text).countP fun line => line.2 ≠ [] := by
  induction text using delimited.induct with
  | case1 text ih =>
    rw [fileLines_feed, delimited, List.flatMap_cons, List.flatMap_cons, ih.1, List.countP_cons,
      List.countP_cons, ih.2]
    exact ⟨rfl, rfl⟩
  | case2 text ih =>
    rw [fileLines_pair, delimited, List.flatMap_cons, List.flatMap_cons, ih.1, List.countP_cons,
      List.countP_cons, ih.2]
    exact ⟨rfl, rfl⟩
  | case3 c text feed pair ih =>
    have pushed (lines : List Line) : (push c lines).flatMap Prod.fst = c :: lines.flatMap Prod.fst ∧
        (push c lines).countP (fun line => line.2 ≠ []) =
          lines.countP fun line => line.2 ≠ [] := by
      cases lines <;> exact ⟨rfl, rfl⟩
    rw [fileLines_cases pair feed, delimited_push feed pair, (pushed _).1, (pushed _).2, ← ih.1,
      ← ih.2]
    split
    · exact ⟨rfl, rfl⟩
    · exact pushed _
  | case4 => exact ⟨rfl, rfl⟩

/-- Every line but the last has its end. -/
def Closed (lines : List Line) : Prop := ∀ line ∈ lines.dropLast, line.2 ≠ []

theorem Closed.tail {first : Line} {lines : List Line} (h : Closed (first :: lines)) :
    Closed lines := by
  cases lines with
  | nil => exact List.forall_mem_nil _
  | cons line lines => exact (List.forall_mem_cons.mp h).2

theorem Closed.head {first : Line} {lines : List Line} (h : Closed (first :: lines)) :
    lines = [] ∨ first.2 ≠ [] := by
  cases lines with
  | nil => exact Or.inl rfl
  | cons line lines => exact Or.inr (List.forall_mem_cons.mp h).1

theorem Closed.of_push {lines : List Line} (h : Closed (push c lines)) : Closed lines := by
  obtain _ | ⟨line, _ | ⟨next, lines⟩⟩ := lines
  · exact List.forall_mem_nil _
  · exact List.forall_mem_nil _
  · exact List.forall_mem_cons.mpr (List.forall_mem_cons.mp h)

theorem eq_nil_of_fileLines {text : Text} (h : fileLines text = []) : text = [] := by
  cases text with
  | nil => rfl
  | cons c text =>
    by_cases feed : c = '\n'
    · rw [feed, fileLines_feed] at h
      cases h
    · by_cases pair : ∃ rest, c = '\r' ∧ text = '\n' :: rest
      · obtain ⟨rest, rfl, rfl⟩ := pair
        rw [fileLines_pair] at h
        cases h
      · rw [fileLines_cases (fun rest hc ht => pair ⟨rest, hc, ht⟩) feed] at h
        split at h
        · cases h
        · cases lines : fileLines text <;> rw [lines] at h <;> cases h

theorem ordinary_of_closed {text : Text} (h : Closed (fileLines text)) :
    ordinary text = true := by
  induction text using delimited.induct with
  | case1 text ih =>
    rw [fileLines_feed] at h
    rw [ordinary_push (c := '\n') fun _ same => absurd same (by decide), Bool.and_eq_true]
    exact ⟨by simp, ih h.tail⟩
  | case2 text ih =>
    rw [fileLines_pair] at h
    rw [ordinary]
    exact ih h.tail
  | case3 c text feed pair ih =>
    rw [fileLines_cases pair feed] at h
    rw [ordinary_push pair, Bool.and_eq_true]
    split at h
    · refine ⟨?_, ih h.tail⟩
      rw [eq_nil_of_fileLines (h.head.resolve_right fun ended => ended rfl)]
      rfl
    · rename_i other
      exact ⟨by simp [other], ih h.of_push⟩
  | case4 => rfl

end FileLines

section Updates
variable {newline text : Text} {body : List Text}

theorem updateText_iff {after : Text} :
    updateText text body = .ok after ↔ ∃ hunks, parseHunks body = .ok hunks ∧ ∃ edited,
      Edited (dominantNewline (fileLines text)) (fileLines text) hunks edited ∧
        after = unlines edited := by
  rw [updateText]
  refine ⟨fun h => ?_, ?_⟩
  · obtain ⟨hunks, read, h⟩ := bind_eq_ok h
    obtain ⟨edited, loop, h⟩ := bind_eq_ok h
    cases h
    exact ⟨hunks, read, edited, foldlM_applyHunk_iff.mp loop, rfl⟩
  · rintro ⟨hunks, read, edited, steps, rfl⟩
    rw [read, ok_bind, foldlM_applyHunk_iff.mpr steps]
    rfl

theorem applyUpdate_utf8 (text : Text) (body : List Text) :
    applyUpdate (utf8 text) body = some ((updateText text body).map utf8) := by
  rw [applyUpdate, utf8, String.toUTF8_eq_toByteArray, String.toByteArray_ofList,
    List.utf8Decode?_utf8Encode]
  rfl

theorem applyUpdate_iff {after : ByteArray} :
    applyUpdate (utf8 text) body = some (.ok after) ↔
      ∃ edited, updateText text body = .ok edited ∧ after = utf8 edited := by
  rw [applyUpdate_utf8, Option.some_inj]
  refine ⟨fun h => ?_, ?_⟩
  · obtain ⟨edited, done, rfl⟩ := map_eq_ok h
    exact ⟨edited, done, rfl⟩
  · rintro ⟨edited, done, rfl⟩
    rw [done, map_ok]

theorem utf8_injective {other : Text} (h : utf8 text = utf8 other) : text = other := by
  have decoded := congrArg ByteArray.utf8Decode? h
  rw [utf8, utf8, String.toUTF8_eq_toByteArray, String.toUTF8_eq_toByteArray,
    String.toByteArray_ofList, String.toByteArray_ofList, List.utf8Decode?_utf8Encode,
    List.utf8Decode?_utf8Encode] at decoded
  exact congrArg Array.toList (Option.some.inj decoded)

theorem dominantNewline_kind {lines : List Line} (whole : ∀ line ∈ lines, Whole line) :
    dominantNewline lines = lf ∨ dominantNewline lines = crlf := by
  have first : ∀ ending ∈ ((lines.map Prod.snd).filter (· ≠ [])).head?,
      ending = lf ∨ ending = crlf := by
    intro ending head
    obtain ⟨inside, filled⟩ := List.mem_filter.mp (List.mem_of_head? head)
    obtain ⟨line, among, rfl⟩ := List.mem_map.mp inside
    obtain open_ | ⟨closed, -⟩ | closed := (whole line among).2
    · exact absurd open_ (of_decide_eq_true filled)
    · exact Or.inl closed
    · exact Or.inr closed
  rw [dominantNewline]
  split
  · exact Or.inl rfl
  · split
    · exact Or.inr rfl
    · cases head : ((lines.map Prod.snd).filter (· ≠ [])).head? with
      | none => exact Or.inl rfl
      | some ending => exact first ending head

/-- No line end inside a line. -/
def Single (line : Text) : Prop := '\n' ∉ line ∧ '\r' ∉ line

theorem whole_replaces {hunk : Hunk} {block new : List Line} (kind : newline = lf ∨ newline = crlf)
    (single : ∀ line ∈ hunk, Single line.text) (h : Replaces newline hunk block new)
    (whole : ∀ line ∈ block, Whole line) : ∀ line ∈ new, Whole line := by
  induction h with
  | nil => exact List.forall_mem_nil _
  | context _ _ ih =>
    obtain ⟨first, rest⟩ := List.forall_mem_cons.mp whole
    exact List.forall_mem_cons.mpr ⟨first, ih (List.forall_mem_cons.mp single).2 rest⟩
  | removed _ _ ih =>
    exact ih (List.forall_mem_cons.mp single).2 (List.forall_mem_cons.mp whole).2
  | @added hunk block new added noNewline _ ih =>
    obtain ⟨⟨feed, return_⟩, later⟩ := List.forall_mem_cons.mp single
    refine List.forall_mem_cons.mpr ⟨⟨feed, ?_⟩, ih later whole⟩
    cases noNewline with
    | true => exact Or.inl rfl
    | false =>
      refine Or.inr (kind.imp_left fun closed => ⟨closed, fun last => ?_⟩)
      exact return_ (List.mem_of_getLast? last)

theorem whole_edited {hunks : List Hunk} {lines edited : List Line}
    (kind : newline = lf ∨ newline = crlf)
    (single : ∀ hunk ∈ hunks, ∀ line ∈ hunk, Single line.text)
    (h : Edited newline lines hunks edited) (whole : ∀ line ∈ lines, Whole line) :
    ∀ line ∈ edited, Whole line := by
  induction hunks generalizing lines with
  | nil =>
    cases h
    exact whole
  | cons hunk hunks ih =>
    obtain ⟨_, ⟨before, block, after, new, rfl, replaced, rfl, -⟩, later⟩ := h
    obtain ⟨own, others⟩ := List.forall_mem_cons.mp single
    rw [List.forall_mem_append, List.forall_mem_append] at whole
    refine ih others later ?_
    rw [List.forall_mem_append, List.forall_mem_append]
    exact ⟨whole.1, whole_replaces kind own replaced whole.2.1, whole.2.2⟩

/-- The lines of the hunks are lines of the body. -/
theorem single_of_parseHunks {hunks : List Hunk} (h : parseHunks body = .ok hunks)
    (single : ∀ line ∈ body, Single line) : ∀ hunk ∈ hunks, ∀ line ∈ hunk, Single line.text := by
  intro hunk among line inside
  obtain ⟨written, -⟩ := parseHunks_iff.mp h
  have own : line.kind.mark :: line.text ∈ body.map unblank := by
    rw [written]
    refine List.mem_flatMap.mpr ⟨hunk, among, List.mem_cons_of_mem _ ?_⟩
    exact List.mem_flatMap.mpr ⟨line, inside, List.mem_cons_self⟩
  obtain ⟨source, found, same⟩ := List.mem_map.mp own
  have plain : (unblank source).head? ≠ some '@' := by
    rw [same]
    cases line.kind <;> exact nofun
  rw [← eq_of_unblank plain] at same
  obtain ⟨feed, return_⟩ := single source found
  rw [same] at feed return_
  exact ⟨fun mem => feed (List.mem_cons_of_mem _ mem),
    fun mem => return_ (List.mem_cons_of_mem _ mem)⟩

/-- An update that is accepted keeps the lines of the edit exactly where the edit leaves no line
but a last, not empty one without its newline. -/
theorem lines_kept_iff {before : Text} {after : ByteArray} (ends : ordinary before = true)
    (single : ∀ line ∈ body, Single line)
    (h : applyUpdate (utf8 before) body = some (.ok after)) :
    ∃ hunks edited text, parseHunks body = .ok hunks ∧
      Edited (dominantNewline (delimited before)) (delimited before) hunks edited ∧
      after = utf8 text ∧
      ((delimited text).map Prod.fst = edited.map Prod.fst ↔ OnlyLastOpen edited) ∧
      (OnlyLastOpen edited → delimited text = edited) := by
  obtain ⟨text, done, rfl⟩ := applyUpdate_iff.mp h
  obtain ⟨hunks, read, edited, steps, rfl⟩ := updateText_iff.mp done
  rw [fileLines_eq ends] at steps
  have whole := whole_edited (dominantNewline_kind (whole_delimited before))
    (single_of_parseHunks read single) steps (whole_delimited before)
  exact ⟨hunks, edited, unlines edited, read, steps, rfl, texts_delimited_unlines_iff whole,
    delimited_unlines whole⟩

theorem lines_kept_replaced : ∃ hunks edited text,
    parseHunks [['@', '@'], ['-', 'b'], ['+', 'c']] = .ok hunks ∧
      Edited (dominantNewline (delimited ['a', '\n', 'b', '\n']))
        (delimited ['a', '\n', 'b', '\n']) hunks edited ∧
      utf8 ['a', '\n', 'c', '\n'] = utf8 text ∧
      ((delimited text).map Prod.fst = edited.map Prod.fst ↔ OnlyLastOpen edited) ∧
      (OnlyLastOpen edited → delimited text = edited) := by
  have done : updateText ['a', '\n', 'b', '\n'] [['@', '@'], ['-', 'b'], ['+', 'c']] =
      .ok ['a', '\n', 'c', '\n'] := by
    decide
  refine lines_kept_iff (by decide) ?_ (applyUpdate_iff.mpr ⟨_, done, rfl⟩)
  simp only [Single]
  decide

/-- A marked line in the middle of a file swallows the next one. -/
theorem marked_line_merges :
    ordinary ['a', '\n', 'b', '\n'] = true ∧
      (∀ line ∈ [hunkHeader, ['-', 'a'], ['+', 'x'], noNewlineMarker], Single line) ∧
      applyUpdate (utf8 ['a', '\n', 'b', '\n'])
        [hunkHeader, ['-', 'a'], ['+', 'x'], noNewlineMarker] =
          some (.ok (utf8 ['x', 'b', '\n'])) ∧
      parseHunks [hunkHeader, ['-', 'a'], ['+', 'x'], noNewlineMarker] =
        .ok [[⟨.removed, ['a'], false⟩, ⟨.added, ['x'], true⟩]] ∧
      Edited lf [(['a'], lf), (['b'], lf)] [[⟨.removed, ['a'], false⟩, ⟨.added, ['x'], true⟩]]
        [(['x'], []), (['b'], lf)] ∧
      delimited ['x', 'b', '\n'] = [(['x', 'b'], lf)] := by
  have done : updateText ['a', '\n', 'b', '\n']
      [hunkHeader, ['-', 'a'], ['+', 'x'], noNewlineMarker] = .ok ['x', 'b', '\n'] := by
    decide
  refine ⟨by decide, ?_, applyUpdate_iff.mpr ⟨_, done, rfl⟩, by decide,
    foldlM_applyHunk_iff.mp (by decide), by decide⟩
  simp only [Single]
  decide

end Updates

section Matching

/-- No hunk but the last breaks the line structure of the text it leaves. -/
def KeepsLines (newline : Text) : Text → List Hunk → Prop
  | _, [] => True
  | text, hunk :: hunks => ∀ next, Step newline hunk (delimited text) next →
    (hunks = [] ∨ delimited (unlines next) = next) ∧ KeepsLines newline (unlines next) hunks

theorem editedText_iff {newline text after : Text} {hunks : List Hunk}
    (keeps : KeepsLines newline text hunks) :
    (∃ edited, Edited newline (delimited text) hunks edited ∧ after = unlines edited) ↔
      EditedText newline text hunks after := by
  induction hunks generalizing text with
  | nil =>
    refine ⟨?_, fun h => ⟨_, rfl, h.trans (unlines_delimited text).symm⟩⟩
    rintro ⟨edited, rfl, rfl⟩
    exact unlines_delimited text
  | cons hunk hunks ih =>
    rw [EditedText]
    refine ⟨?_, ?_⟩
    · rintro ⟨edited, ⟨next, step, later⟩, rfl⟩
      obtain ⟨structure_, keeps⟩ := keeps next step
      refine ⟨next, step, ?_⟩
      obtain rfl | same := structure_
      · cases later
        rfl
      · exact (ih keeps).mp ⟨edited, by rwa [same], rfl⟩
    · rintro ⟨next, step, later⟩
      obtain ⟨structure_, keeps⟩ := keeps next step
      obtain rfl | same := structure_
      · exact ⟨next, ⟨next, step, rfl⟩, later⟩
      · obtain ⟨edited, steps, rfl⟩ := (ih keeps).mpr later
        rw [same] at steps
        exact ⟨edited, ⟨next, step, steps⟩, rfl⟩

/-- The hunk that keeps every line. -/
def whole (lines : List Line) : Hunk :=
  lines.map fun line => ⟨.context, line.1, line.2 == []⟩

theorem replaces_whole (newline : Text) (lines : List Line) :
    Replaces newline (whole lines) lines lines := by
  induction lines with
  | nil => exact .nil
  | cons line lines ih => exact .context beq_iff_eq.symm ih

theorem step_whole (newline : Text) (lines : List Line) :
    Step newline (whole lines) lines lines := by
  refine ⟨[], lines, [], lines, (List.append_nil _).symm, replaces_whole newline lines,
    (List.append_nil _).symm, ?_⟩
  intro before block after new split replaced
  have size := ((replaces_iff []).mp replaced).1.length
  have total := ((replaces_iff []).mp (replaces_whole newline lines)).1.length
  have count := congrArg List.length split
  rw [List.length_append, List.length_append] at count
  exact List.eq_nil_of_length_eq_zero (by omega)

/-- The lines the whole hunk is found in. -/
theorem eq_of_fits_whole {lines block : List Line} (h : Fits (whole lines) block) :
    block.map Prod.fst = lines.map Prod.fst ∧
      block.map (fun line => decide (line.2 = [])) = lines.map fun line => decide (line.2 = []) := by
  induction lines generalizing block with
  | nil =>
    cases h
    exact ⟨rfl, rfl⟩
  | cons line lines ih =>
    obtain ⟨found, block, taken, later, rfl⟩ := List.forall₂_cons_right_iff.mp h
    obtain ⟨text, ending⟩ := accepts_iff.mp taken
    obtain ⟨texts, endings⟩ := ih later
    rw [List.map_cons, List.map_cons, List.map_cons, List.map_cons, texts, endings]
    exact ⟨congrArg (· :: _) text, congrArg (· :: _) (decide_eq_decide.mpr
      (ending.trans beq_iff_eq))⟩

theorem closed_of_endings {lines others : List Line}
    (same : lines.map (fun line => decide (line.2 = [])) =
      others.map fun line => decide (line.2 = [])) (h : Closed others) : Closed lines := by
  intro line inside open_
  have mem := List.mem_map_of_mem (f := fun line : Line => decide (line.2 = [])) inside
  rw [List.map_dropLast, same, ← List.map_dropLast] at mem
  obtain ⟨other, among, ending⟩ := List.mem_map.mp mem
  exact h other among (of_decide_eq_true (ending.trans (decide_eq_true open_)))

theorem countP_of_endings {lines others : List Line}
    (same : lines.map (fun line => decide (line.2 = [])) =
      others.map fun line => decide (line.2 = [])) :
    lines.countP (fun line => line.2 ≠ []) = others.countP fun line => line.2 ≠ [] := by
  have count := congrArg (List.countP fun open_ => !open_) same
  rw [List.countP_map, List.countP_map] at count
  simpa [Function.comp_def] using count

/-- Where the lines of str.splitlines hold the whole text as the lines that line feeds delimit,
the two are the same lines. -/
theorem ordinary_of_fits {text : Text} {before block after : List Line}
    (split : fileLines text = before ++ (block ++ after))
    (h : Fits (whole (delimited text)) block) : ordinary text = true := by
  obtain ⟨texts, endings⟩ := eq_of_fits_whole h
  obtain ⟨joined, count⟩ := fileLines_measure text
  have filled := fileLines_filled text
  have same : block.flatMap Prod.fst = (delimited text).flatMap Prod.fst := by
    rw [List.flatMap_def, texts, ← List.flatMap_def]
  rw [split, List.flatMap_append, List.flatMap_append, same] at joined
  rw [split, List.countP_append, List.countP_append, countP_of_endings endings] at count
  have length := congrArg List.length joined
  rw [List.length_append, List.length_append] at length
  have empty (lines : List Line) (inside : ∀ line ∈ lines, line ∈ fileLines text)
      (none_ : (lines.flatMap Prod.fst).length = 0)
      (open_ : lines.countP (fun line => line.2 ≠ []) = 0) : lines = [] := by
    cases lines with
    | nil => rfl
    | cons line lines =>
      refine absurd ?_ (filled line (inside line List.mem_cons_self))
      rw [List.flatMap_cons, List.length_append] at none_
      refine Prod.ext (List.eq_nil_of_length_eq_zero (by omega)) ?_
      exact not_not.mp fun ended => List.countP_eq_zero.mp open_ line List.mem_cons_self
        (decide_eq_true ended)
  have first : before = [] := by
    refine empty before (fun line inside => ?_) (by omega) (by omega)
    rw [split]
    exact List.mem_append_left _ inside
  have last : after = [] := by
    refine empty after (fun line inside => ?_) (by omega) (by omega)
    rw [split]
    exact List.mem_append_right _ (List.mem_append_right _ inside)
  refine ordinary_of_closed ?_
  rw [split, first, last, List.nil_append, List.append_nil]
  exact closed_of_endings endings (onlyLastOpen_iff.mp (onlyLastOpen_delimited text)).1

/-- Hunks that keep the line structure are matched against the lines that line feeds delimit,
whatever they are, exactly where the text before has no other line boundary before its last
character. -/
theorem matching_exact_iff (before : Text) :
    (∀ body hunks, parseHunks body = .ok hunks →
      KeepsLines (dominantNewline (delimited before)) before hunks →
      ∀ after, applyUpdate (utf8 before) body = some (.ok after) ↔ ∃ text, after = utf8 text ∧
        EditedText (dominantNewline (delimited before)) before hunks text) ↔
      ordinary before = true := by
  refine ⟨fun exact_ => ?_, fun ends body hunks read keeps after => ?_⟩
  · by_cases empty : delimited before = []
    · rw [← unlines_delimited before, empty]
      rfl
    · have read : parseHunks (hunkLines (whole (delimited before))) =
          .ok [whole (delimited before)] := by
        have body := map_unblank_hunkLines [whole (delimited before)]
        rw [List.flatMap_singleton] at body
        refine parseHunks_iff.mpr ⟨?_, List.cons_ne_nil _ _, ?_⟩
        · rw [List.flatMap_singleton, body]
        · rw [List.mem_singleton]
          exact fun none_ => empty (List.map_eq_nil_iff.mp none_.symm)
      have edit : EditedText (dominantNewline (delimited before)) before
          [whole (delimited before)] before :=
        ⟨_, step_whole _ _, (unlines_delimited before).symm⟩
      have done := (exact_ _ _ read (fun _ _ => ⟨Or.inl rfl, trivial⟩) _).mpr ⟨_, rfl, edit⟩
      obtain ⟨text, done, -⟩ := applyUpdate_iff.mp done
      obtain ⟨hunks, read', edited, steps, -⟩ := updateText_iff.mp done
      rw [read] at read'
      cases read'
      obtain ⟨_, ⟨_, _, _, _, split, replaced, -⟩, -⟩ := steps
      exact ordinary_of_fits split ((replaces_iff []).mp replaced).1
  · rw [applyUpdate_iff]
    refine ⟨?_, ?_⟩
    · rintro ⟨text, done, rfl⟩
      obtain ⟨hunks', read', edited, steps, rfl⟩ := updateText_iff.mp done
      rw [read] at read'
      cases read'
      rw [fileLines_eq ends] at steps
      exact ⟨_, rfl, (editedText_iff keeps).mp ⟨edited, steps, rfl⟩⟩
    · rintro ⟨text, rfl, edit⟩
      obtain ⟨edited, steps, rfl⟩ := (editedText_iff keeps).mpr edit
      refine ⟨_, updateText_iff.mpr ⟨hunks, read, edited, ?_, rfl⟩, rfl⟩
      rw [fileLines_eq ends]
      exact steps

/-- A line with a form feed is not found, although it is the only line of the file. -/
theorem form_feed_conflicts :
    applyUpdate (utf8 ['a', '\x0c', 'b', '\n'])
        [hunkHeader, ['-', 'a', '\x0c', 'b'], ['+', 'c']] =
      some (.error ⟨"patch_conflict", "Patch hunk does not match uniquely."⟩) ∧
    parseHunks [hunkHeader, ['-', 'a', '\x0c', 'b'], ['+', 'c']] =
      .ok [[⟨.removed, ['a', '\x0c', 'b'], false⟩, ⟨.added, ['c'], false⟩]] ∧
    EditedText lf ['a', '\x0c', 'b', '\n']
      [[⟨.removed, ['a', '\x0c', 'b'], false⟩, ⟨.added, ['c'], false⟩]] ['c', '\n'] := by
  have step : Step lf [⟨.removed, ['a', '\x0c', 'b'], false⟩, ⟨.added, ['c'], false⟩]
      [(['a', '\x0c', 'b'], lf)] [(['c'], lf)] := applyHunk_iff.mp (by decide)
  refine ⟨?_, by decide, _, step, rfl⟩
  · rw [applyUpdate_utf8]
    have refused : updateText ['a', '\x0c', 'b', '\n']
        [hunkHeader, ['-', 'a', '\x0c', 'b'], ['+', 'c']] =
        .error ⟨"patch_conflict", "Patch hunk does not match uniquely."⟩ := by
      decide
    rw [refused]
    rfl

end Matching

end RoboAgent.PatchLines
