import RoboAgent.PatchGrammar

/-! The bodies of sections. Each loop over a body reads back exactly the lines that write what it
returns, so a section is read as a change if and only if its body writes that change, hunk headers
taken without the whitespace after them. -/

namespace RoboAgent.PatchBodies
open RoboAgent.FalliblePrograms RoboAgent.LineEnds RoboAgent.PatchGrammar

theorem unblank_blanks {blanks : Text} (h : ∀ c ∈ blanks, c ∈ whitespace) :
    unblank (hunkHeader ++ blanks) = hunkHeader := by
  refine if_pos ⟨?_, List.prefix_append _ _⟩
  induction blanks using List.reverseRecOn with
  | nil => decide
  | append_singleton blanks c ih =>
    obtain ⟨before, last⟩ := List.forall_mem_append.mp h
    rw [rstrip, ← List.append_assoc, List.rdropWhile_concat_pos]
    · exact ih before
    · exact List.contains_iff_mem.mpr (last c (List.mem_singleton.mpr rfl))

theorem eq_of_unblank {line : Text} (other : (unblank line).head? ≠ some '@') :
    line = unblank line := by
  rw [unblank] at other ⊢
  split at other
  · exact absurd rfl other
  · rw [if_neg (by assumption)]

theorem unblank_self {line : Text} (other : line.head? ≠ some '@') : unblank line = line := by
  refine if_neg ?_
  rintro ⟨-, rest, rfl⟩
  exact other rfl

theorem map_unblank_self {lines : List Text} (other : ∀ line ∈ lines, line.head? ≠ some '@') :
    lines.map unblank = lines := by
  induction lines with
  | nil => rfl
  | cons line lines ih =>
    obtain ⟨first, rest⟩ := List.forall_mem_cons.mp other
    rw [List.map_cons, unblank_self first, ih rest]

theorem eq_of_map_unblank {lines : List Text}
    (other : ∀ line ∈ lines.map unblank, line.head? ≠ some '@') : lines = lines.map unblank := by
  induction lines with
  | nil => rfl
  | cons line lines ih =>
    rw [List.map_cons, List.forall_mem_cons] at other
    rw [List.map_cons, ← eq_of_unblank other.1, ← ih other.2]

section Added

theorem head_marker {noNewline : Bool} : ∀ line ∈ marker noNewline, line.head? = some '\x5c' := by
  cases noNewline with
  | false => exact List.forall_mem_nil _
  | true => exact List.forall_mem_singleton.mpr rfl

theorem head_addedLines {values : List (Text × Bool)} :
    ∀ line ∈ values.flatMap addedLines, line.head? = some '+' ∨ line.head? = some '\x5c' := by
  intro line inside
  obtain ⟨value, -, inside⟩ := List.mem_flatMap.mp inside
  obtain rfl | inside := List.mem_cons.mp inside
  · exact Or.inl rfl
  · exact Or.inr (head_marker line inside)

theorem addedLines_head {values : List (Text × Bool)} :
    ∀ line ∈ values.flatMap addedLines, line.head? ≠ some '@' := by
  intro line inside
  obtain first | first := head_addedLines line inside <;> rw [first] <;> decide

theorem flatMap_addedLines_snoc (values : List (Text × Bool)) (value : Text × Bool) :
    (values ++ [value]).flatMap addedLines = values.flatMap addedLines ++ addedLines value := by
  rw [List.flatMap_append, List.flatMap_singleton]

theorem addLine_lines {values after : List (Text × Bool)} {line : Text}
    (h : addLine values line = .ok after) :
    after.flatMap addedLines = values.flatMap addedLines ++ [line] := by
  unfold addLine at h
  split at h
  · rename_i mark
    split at h
    · rename_i text last
      cases h
      obtain ⟨before, rfl⟩ := List.getLast?_eq_some_iff.mp last
      rw [List.dropLast_concat, flatMap_addedLines_snoc, flatMap_addedLines_snoc, mark,
        List.append_assoc]
      rfl
    · cases h
  · split at h
    · cases h
      exact flatMap_addedLines_snoc _ _
    · cases h

theorem foldlM_addLine_lines {body : List Text} {values after : List (Text × Bool)}
    (h : body.foldlM addLine values = .ok after) :
    after.flatMap addedLines = values.flatMap addedLines ++ body := by
  induction body generalizing values with
  | nil =>
    cases h
    rw [List.append_nil]
  | cons line body ih =>
    rw [List.foldlM_cons] at h
    obtain ⟨next, first, rest⟩ := bind_eq_ok h
    rw [ih rest, addLine_lines first, List.append_assoc]
    rfl

theorem addLine_text (values : List (Text × Bool)) (text : Text) :
    addLine values ('+' :: text) = .ok (values ++ [(text, false)]) := by
  refine if_neg ?_
  intro same
  cases same

theorem addLine_marker (values : List (Text × Bool)) (text : Text) :
    addLine (values ++ [(text, false)]) noNewlineMarker = .ok (values ++ [(text, true)]) := by
  unfold addLine
  rw [if_pos rfl, List.getLast?_concat, List.dropLast_concat]

theorem foldlM_addLine (values later : List (Text × Bool)) :
    (later.flatMap addedLines).foldlM addLine values = .ok (values ++ later) := by
  induction later generalizing values with
  | nil =>
    rw [List.append_nil]
    rfl
  | cons value later ih =>
    obtain ⟨text, noNewline⟩ := value
    rw [List.flatMap_cons, List.foldlM_append, addedLines, List.foldlM_cons, addLine_text, ok_bind]
    have marked : (marker noNewline).foldlM addLine (values ++ [(text, false)]) =
        .ok (values ++ [(text, noNewline)]) := by
      cases noNewline with
      | false => rfl
      | true =>
        rw [marker, if_pos rfl, List.foldlM_cons, addLine_marker]
        rfl
    rw [marked, ok_bind, ih, List.append_assoc]
    rfl

theorem addValues_iff {body : List Text} {values : List (Text × Bool)} :
    addValues body = .ok values ↔
      body = values.flatMap addedLines ∧ ∀ value ∈ values.dropLast, value.2 = false := by
  refine ⟨fun h => ?_, ?_⟩
  · obtain ⟨read, loop, h⟩ := bind_eq_ok h
    split at h
    · cases h
    · rename_i unmarked
      cases h
      refine ⟨(foldlM_addLine_lines loop).symm, fun value inside => ?_⟩
      refine Bool.eq_false_iff.mpr fun marked => unmarked ?_
      exact List.any_eq_true.mpr ⟨value, inside, marked⟩
  · rintro ⟨rfl, unmarked⟩
    rw [addValues, foldlM_addLine, ok_bind, List.nil_append, if_neg]
    intro marked
    obtain ⟨value, inside, marked⟩ := List.any_eq_true.mp marked
    rw [unmarked value inside] at marked
    cases marked

end Added

section Hunks

theorem flatMap_hunkLines_snoc (hunks : List Hunk) (hunk : Hunk) :
    (hunks ++ [hunk]).flatMap hunkLines = hunks.flatMap hunkLines ++ hunkLines hunk := by
  rw [List.flatMap_append, List.flatMap_singleton]

theorem hunkLines_snoc (hunk : Hunk) (line : PatchLine) :
    hunkLines (hunk ++ [line]) = hunkLines hunk ++ line.lines := by
  rw [hunkLines, List.flatMap_append, List.flatMap_singleton]
  rfl

theorem mark_kindOf {c : Char} {kind : Kind} (h : kindOf c = some kind) : kind.mark = c := by
  rw [kindOf] at h
  have marks := List.find?_some h
  exact beq_iff_eq.mp marks

theorem kindOf_mark (kind : Kind) : kindOf kind.mark = some kind := by
  cases kind <;> rfl

theorem hunkLine_lines {hunks after : List Hunk} {line : Text}
    (h : hunkLine hunks line = .ok after) :
    after.flatMap hunkLines = hunks.flatMap hunkLines ++ [unblank line] := by
  rw [hunkLine] at h
  split at h
  · rename_i header
    cases h
    rw [flatMap_hunkLines_snoc, unblank, if_pos header]
    rfl
  · rename_i other
    rw [unblank, if_neg other]
    split at h
    · rename_i mark
      split at h
      · rename_i marked found
        cases h
        obtain ⟨hunk, last, marks⟩ := Option.bind_eq_some_iff.mp found
        obtain ⟨before, rfl⟩ := List.getLast?_eq_some_iff.mp last
        rw [markLast] at marks
        split at marks
        · rename_i kind text final
          cases marks
          obtain ⟨lines, rfl⟩ := List.getLast?_eq_some_iff.mp final
          rw [List.dropLast_concat, List.dropLast_concat, flatMap_hunkLines_snoc,
            flatMap_hunkLines_snoc, hunkLines_snoc, hunkLines_snoc, mark, List.append_assoc,
            List.append_assoc]
          rfl
        · cases marks
      · cases h
    · split at h
      · rename_i hunk kind last found
        cases h
        obtain ⟨before, rfl⟩ := List.getLast?_eq_some_iff.mp last
        obtain ⟨c, first, kinds⟩ := Option.bind_eq_some_iff.mp found
        obtain ⟨text, rfl⟩ := List.head?_eq_some_iff.mp first
        rw [List.dropLast_concat, flatMap_hunkLines_snoc, flatMap_hunkLines_snoc, hunkLines_snoc,
          List.append_assoc, ← mark_kindOf kinds]
        rfl
      · cases h

theorem foldlM_hunkLine_lines {body : List Text} {hunks after : List Hunk}
    (h : body.foldlM hunkLine hunks = .ok after) :
    after.flatMap hunkLines = hunks.flatMap hunkLines ++ body.map unblank := by
  induction body generalizing hunks with
  | nil =>
    cases h
    rw [List.map_nil, List.append_nil]
  | cons line body ih =>
    rw [List.foldlM_cons] at h
    obtain ⟨next, first, rest⟩ := bind_eq_ok h
    rw [ih rest, hunkLine_lines first, List.append_assoc]
    rfl

/-- A line is read as it is without the whitespace after a hunk header. -/
theorem hunkLine_unblank (hunks : List Hunk) (line : Text) :
    hunkLine hunks (unblank line) = hunkLine hunks line := by
  rw [unblank]
  split
  · rename_i header
    rw [hunkLine, hunkLine, if_pos header, if_pos ⟨by decide, List.prefix_rfl⟩]
  · rfl

theorem foldlM_hunkLine_unblank (hunks : List Hunk) (body : List Text) :
    (body.map unblank).foldlM hunkLine hunks = body.foldlM hunkLine hunks := by
  rw [List.foldlM_map]
  exact congrArg (fun round => body.foldlM round hunks)
    (funext fun hunks => funext fun line => hunkLine_unblank hunks line)

theorem hunkLine_header (hunks : List Hunk) :
    hunkLine hunks hunkHeader = .ok (hunks ++ [[]]) :=
  if_pos ⟨by decide, List.prefix_rfl⟩

theorem hunkLine_text (hunks : List Hunk) (hunk : Hunk) (kind : Kind) (text : Text) :
    hunkLine (hunks ++ [hunk]) (kind.mark :: text) =
      .ok (hunks ++ [hunk ++ [⟨kind, text, false⟩]]) := by
  have header : ¬ (rstrip (kind.mark :: text) = hunkHeader ∧
      hunkHeader <+: kind.mark :: text) := by
    rintro ⟨-, rest, same⟩
    cases kind <;> cases same
  have mark : kind.mark :: text ≠ noNewlineMarker := by
    intro same
    cases kind <;> cases same
  rw [hunkLine, if_neg header, if_neg mark, List.getLast?_concat, List.dropLast_concat,
    List.head?_cons, Option.bind_some, kindOf_mark]
  rfl

theorem hunkLine_marker (hunks : List Hunk) (hunk : Hunk) (kind : Kind) (text : Text) :
    hunkLine (hunks ++ [hunk ++ [⟨kind, text, false⟩]]) noNewlineMarker =
      .ok (hunks ++ [hunk ++ [⟨kind, text, true⟩]]) := by
  have header : ¬ (rstrip noNewlineMarker = hunkHeader ∧ hunkHeader <+: noNewlineMarker) := by
    decide
  have marks : markLast (hunk ++ [⟨kind, text, false⟩]) = some (hunk ++ [⟨kind, text, true⟩]) := by
    rw [markLast, List.getLast?_concat, List.dropLast_concat]
  rw [hunkLine, if_neg header, if_pos rfl, List.getLast?_concat, Option.bind_some, marks,
    List.dropLast_concat]

theorem foldlM_hunkLine_line (hunks : List Hunk) (hunk : Hunk) (line : PatchLine) :
    line.lines.foldlM hunkLine (hunks ++ [hunk]) = .ok (hunks ++ [hunk ++ [line]]) := by
  obtain ⟨kind, text, noNewline⟩ := line
  rw [PatchLine.lines, List.foldlM_cons, hunkLine_text, ok_bind]
  cases noNewline with
  | false => rfl
  | true =>
    rw [marker, if_pos rfl, List.foldlM_cons, hunkLine_marker]
    rfl

theorem foldlM_hunkLine_hunk (hunks : List Hunk) (hunk later : Hunk) :
    (later.flatMap PatchLine.lines).foldlM hunkLine (hunks ++ [hunk]) =
      .ok (hunks ++ [hunk ++ later]) := by
  induction later generalizing hunk with
  | nil =>
    rw [List.append_nil]
    rfl
  | cons line later ih =>
    rw [List.flatMap_cons, List.foldlM_append, foldlM_hunkLine_line, ok_bind, ih,
      List.append_assoc]
    rfl

theorem foldlM_hunkLine (hunks later : List Hunk) :
    (later.flatMap hunkLines).foldlM hunkLine hunks = .ok (hunks ++ later) := by
  induction later generalizing hunks with
  | nil =>
    rw [List.append_nil]
    rfl
  | cons hunk later ih =>
    rw [List.flatMap_cons, List.foldlM_append, hunkLines, List.foldlM_cons, hunkLine_header,
      ok_bind, foldlM_hunkLine_hunk, ok_bind, ih, List.append_assoc]
    rfl

theorem map_unblank_hunkLines (hunks : List Hunk) :
    (hunks.flatMap hunkLines).map unblank = hunks.flatMap hunkLines := by
  have back := foldlM_hunkLine [] hunks
  rw [List.nil_append] at back
  have lines := foldlM_hunkLine_lines back
  rw [List.flatMap_nil, List.nil_append] at lines
  exact lines.symm

theorem parseHunks_iff {body : List Text} {hunks : List Hunk} :
    parseHunks body = .ok hunks ↔ body.map unblank = hunks.flatMap hunkLines ∧ Hunked hunks := by
  refine ⟨fun h => ?_, ?_⟩
  · obtain ⟨read, loop, h⟩ := bind_eq_ok h
    split at h
    · cases h
    · rename_i filled
      cases h
      exact ⟨(foldlM_hunkLine_lines loop).symm, not_or.mp filled⟩
  · rintro ⟨written, filled⟩
    rw [parseHunks, ← foldlM_hunkLine_unblank, written, foldlM_hunkLine, ok_bind,
      List.nil_append, if_neg (not_or.mpr filled)]

end Hunks

theorem readSection_iff {part : Section} {file : FilePatch} :
    readSection part = .ok file ↔ part.operation = file.change.operation ∧
      part.path = file.path ∧ part.body.map unblank = file.change.body ∧
      file.change.WellFormed := by
  obtain ⟨operation, path, body⟩ := part
  obtain ⟨target, change⟩ := file
  refine ⟨fun h => ?_, ?_⟩
  · cases operation with
    | added =>
      obtain ⟨values, read, same⟩ := map_eq_ok h
      cases same
      obtain ⟨rfl, unmarked⟩ := addValues_iff.mp read
      exact ⟨rfl, rfl, map_unblank_self addedLines_head, unmarked⟩
    | modified =>
      obtain ⟨hunks, read, same⟩ := map_eq_ok h
      cases same
      obtain ⟨written, filled⟩ := parseHunks_iff.mp read
      exact ⟨rfl, rfl, written, filled⟩
    | deleted =>
      rw [readSection] at h
      dsimp only at h
      split at h
      · rename_i empty
        cases h
        exact ⟨rfl, rfl, congrArg (List.map unblank) empty, trivial⟩
      · cases h
  · rintro ⟨kind, rfl, written, formed⟩
    dsimp only at kind written formed ⊢
    cases kind
    cases change with
    | add values =>
      have unblanked : body = body.map unblank := by
        refine eq_of_map_unblank ?_
        rw [written]
        exact addedLines_head
      exact congrArg (Except.map _) (addValues_iff.mpr ⟨unblanked.trans written, formed⟩)
    | update hunks => exact congrArg (Except.map _) (parseHunks_iff.mpr ⟨written, formed⟩)
    | delete => exact if_pos (List.map_eq_nil_iff.mp written)

end RoboAgent.PatchBodies
