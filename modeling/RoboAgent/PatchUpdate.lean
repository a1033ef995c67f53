import Mathlib
import RoboAgent.PatchBodies

/-! Hunks applied to a text. A hunk's old block is looked for among the lines that str.splitlines
gives and replaced by its new lines. The edit itself is stated on lines as line feeds delimit
them; one round of the code's loop is a step of it. -/

namespace RoboAgent.PatchUpdate
open RoboAgent.FalliblePrograms RoboAgent.LineEnds RoboAgent.PatchGrammar RoboAgent.PatchBodies

/-- The line boundaries of str.splitlines. -/
def lineBoundaries : List Char :=
  ['\n', '\r', '\x0b', '\x0c', '\x1c', '\x1d', '\x1e', '\u0085', '\u2028', '\u2029']

/-- The lines of str.splitlines, each with its boundary. -/
def splitlines : Text → List Text
  | '\r' :: '\n' :: text => ['\r', '\n'] :: splitlines text
  | c :: text =>
    if c ∈ lineBoundaries then [c] :: splitlines text
    else match splitlines text with
      | [] => [[c]]
      | line :: lines => (c :: line) :: lines
  | [] => []

example : splitlines ['a', '\x0c', 'b', '\r', '\n', 'c'] = [['a', '\x0c'], ['b', '\r', '\n'], ['c']] := by
  simp [splitlines, lineBoundaries]

def fileLine (line : Text) : Line :=
  if crlf <:+ line then (line.dropLast.dropLast, crlf)
  else if lf <:+ line then (line.dropLast, lf)
  else (line, [])

def fileLines (text : Text) : List Line := (splitlines text).map fileLine

def dominantNewline (lines : List Line) : Text :=
  let endings := (lines.map Prod.snd).filter (· ≠ [])
  if endings.count crlf < endings.count lf then lf
  else if endings.count lf < endings.count crlf then crlf
  else endings.head?.getD lf

/-- The context and removed lines of a hunk. -/
def old (hunk : Hunk) : List PatchLine := hunk.filter fun line => line.kind ≠ .added

def accepts (line : Line) (expected : PatchLine) : Bool :=
  line.1 == expected.text && if expected.noNewline then line.2 == [] else line.2 != []

def matchesAt (lines : List Line) (block : List PatchLine) (start : Nat) : Bool :=
  (((lines.drop start).take block.length).zip block).all fun pair => accepts pair.1 pair.2

/-- The new lines of a hunk whose old block is at the head of the lines. The block is never
longer than the lines, so a line that is not there is never kept. -/
def replacement (newline : Text) : Hunk → List Line → List Line
  | ⟨.context, _, _⟩ :: hunk, lines => lines.take 1 ++ replacement newline hunk lines.tail
  | ⟨.removed, _, _⟩ :: hunk, lines => replacement newline hunk lines.tail
  | ⟨.added, text, noNewline⟩ :: hunk, lines =>
    (text, if noNewline then [] else newline) :: replacement newline hunk lines
  | [], _ => []

def applyHunk (newline : Text) (lines : List Line) (hunk : Hunk) : Parsed (List Line) :=
  let size := (old hunk).length
  match (List.range (lines.length + 1 - size)).filter (matchesAt lines (old hunk)) with
  | [start] =>
    .ok (lines.take start ++
      (replacement newline hunk (lines.drop start) ++ lines.drop (start + size)))
  | _ => fail "patch_conflict" "Patch hunk does not match uniquely."

def updateText (text : Text) (body : List Text) : Parsed Text := do
  let lines := fileLines text
  let newline := dominantNewline lines
  let hunks ← parseHunks body
  let edited ← hunks.foldlM (applyHunk newline) lines
  pure (unlines edited)

/-- The update of a file's bytes; none where they are not UTF-8. -/
def applyUpdate (before : ByteArray) (body : List Text) : Option (Parsed ByteArray) :=
  before.utf8Decode?.map fun text => (updateText text.toList body).map utf8

/-- A hunk whose context and removed lines are a block, in text and in having a line end, and the
lines that replace the block: the context lines as they stand there, and the added lines. -/
inductive Replaces (newline : Text) : Hunk → List Line → List Line → Prop
  | nil : Replaces newline [] [] []
  | context {hunk block new line noNewline} : (line.2 = [] ↔ noNewline = true) →
      Replaces newline hunk block new →
      Replaces newline (⟨.context, line.1, noNewline⟩ :: hunk) (line :: block) (line :: new)
  | removed {hunk block new line noNewline} : (line.2 = [] ↔ noNewline = true) →
      Replaces newline hunk block new →
      Replaces newline (⟨.removed, line.1, noNewline⟩ :: hunk) (line :: block) new
  | added {hunk block new text noNewline} : Replaces newline hunk block new →
      Replaces newline (⟨.added, text, noNewline⟩ :: hunk) block
        ((text, if noNewline then [] else newline) :: new)

/-- The lines after a hunk, whose old block is exactly one block of the lines before it. -/
def Step (newline : Text) (hunk : Hunk) (lines edited : List Line) : Prop :=
  ∃ before block after new, lines = before ++ (block ++ after) ∧
    Replaces newline hunk block new ∧ edited = before ++ (new ++ after) ∧
    ∀ before' block' after' new', lines = before' ++ (block' ++ after') →
      Replaces newline hunk block' new' → before' = before

/-- The lines after the hunks, in order. -/
def Edited (newline : Text) : List Line → List Hunk → List Line → Prop
  | lines, [], edited => edited = lines
  | lines, hunk :: hunks, edited =>
    ∃ next, Step newline hunk lines next ∧ Edited newline next hunks edited

/-- The text after the hunks, each matched against the lines of the text edited so far. -/
def EditedText (newline : Text) : Text → List Hunk → Text → Prop
  | text, [], edited => edited = text
  | text, hunk :: hunks, edited =>
    ∃ next, Step newline hunk (delimited text) next ∧
      EditedText newline (unlines next) hunks edited

section Matching
variable {newline : Text} {lines : List Line}

theorem accepts_iff {line : Line} {expected : PatchLine} :
    accepts line expected = true ↔
      line.1 = expected.text ∧ (line.2 = [] ↔ expected.noNewline = true) := by
  rw [accepts, Bool.and_eq_true, beq_iff_eq]
  refine and_congr_right fun _ => ?_
  cases expected.noNewline <;> simp

/-- A block fits the old lines of a hunk. -/
def Fits (hunk : Hunk) (block : List Line) : Prop :=
  List.Forall₂ (fun line expected => accepts line expected = true) block (old hunk)

theorem Fits.length {hunk : Hunk} {block : List Line} (h : Fits hunk block) :
    block.length = (old hunk).length := List.Forall₂.length_eq h

theorem replaces_iff {hunk : Hunk} {block new : List Line} (rest : List Line) :
    Replaces newline hunk block new ↔
      Fits hunk block ∧ new = replacement newline hunk (block ++ rest) := by
  refine ⟨fun h => ?_, ?_⟩
  · induction h with
    | nil => exact ⟨.nil, rfl⟩
    | context ending _ ih => exact ⟨.cons (accepts_iff.mpr ⟨rfl, ending⟩) ih.1, by rw [ih.2]; rfl⟩
    | removed ending _ ih => exact ⟨.cons (accepts_iff.mpr ⟨rfl, ending⟩) ih.1, ih.2⟩
    | added _ ih => exact ⟨ih.1, by rw [ih.2]; rfl⟩
  · rintro ⟨fits, rfl⟩
    induction hunk generalizing block with
    | nil =>
      cases fits
      exact .nil
    | cons expected hunk ih =>
      obtain ⟨kind, text, noNewline⟩ := expected
      cases kind with
      | context =>
        obtain ⟨line, block, taken, later, rfl⟩ := List.forall₂_cons_right_iff.mp fits
        obtain ⟨rfl, ending⟩ := accepts_iff.mp taken
        exact .context ending (ih later)
      | removed =>
        obtain ⟨line, block, taken, later, rfl⟩ := List.forall₂_cons_right_iff.mp fits
        obtain ⟨rfl, ending⟩ := accepts_iff.mp taken
        exact .removed ending (ih later)
      | added => exact .added (ih fits)

theorem matchesAt_iff {before block after : List Line} {hunk : Hunk}
    (size : block.length = (old hunk).length) :
    matchesAt (before ++ (block ++ after)) (old hunk) before.length = true ↔ Fits hunk block := by
  rw [matchesAt, List.drop_left, ← size, List.take_left, List.all_eq_true, Fits,
    List.forall₂_iff_zip]
  exact ⟨fun h => ⟨size, fun inside => h _ inside⟩, fun h pair inside => h.2 inside⟩

/-- The positions the loop of _apply_update collects. -/
theorem mem_matches {hunk : Hunk} {start : Nat} :
    start ∈ (List.range (lines.length + 1 - (old hunk).length)).filter
        (matchesAt lines (old hunk)) ↔
      ∃ before block after, lines = before ++ (block ++ after) ∧ before.length = start ∧
        Fits hunk block := by
  rw [List.mem_filter, List.mem_range]
  refine ⟨fun ⟨bound, found⟩ => ?_, ?_⟩
  · have split : lines = lines.take start ++
        ((lines.drop start).take (old hunk).length ++
          (lines.drop start).drop (old hunk).length) := by
      rw [List.take_append_drop, List.take_append_drop]
    have place : (lines.take start).length = start := by
      rw [List.length_take]
      omega
    have size : ((lines.drop start).take (old hunk).length).length = (old hunk).length := by
      rw [List.length_take, List.length_drop]
      omega
    refine ⟨lines.take start, _, (lines.drop start).drop (old hunk).length, split, place, ?_⟩
    have same : matchesAt (lines.take start ++ ((lines.drop start).take (old hunk).length ++
        (lines.drop start).drop (old hunk).length)) (old hunk) (lines.take start).length = true := by
      rw [← split, place]
      exact found
    exact (matchesAt_iff size).mp same
  · rintro ⟨before, block, after, rfl, rfl, fits⟩
    refine ⟨?_, (matchesAt_iff fits.length).mpr fits⟩
    rw [← fits.length, List.length_append, List.length_append]
    omega

theorem eq_singleton_iff {values : List Nat} (distinct : values.Nodup) {n : Nat} :
    values = [n] ↔ ∀ m, m ∈ values ↔ m = n := by
  refine ⟨?_, fun h => ?_⟩
  · rintro rfl m
    exact List.mem_singleton
  · refine List.perm_singleton.mp ((List.perm_ext_iff_of_nodup distinct
      (List.nodup_singleton n)).mpr fun m => ?_)
    rw [h, List.mem_singleton]

/-- One round of the loop is one step of the edit. -/
theorem applyHunk_iff {hunk : Hunk} {edited : List Line} :
    applyHunk newline lines hunk = .ok edited ↔ Step newline hunk lines edited := by
  have distinct := (List.nodup_range (n := lines.length + 1 - (old hunk).length)).filter
    (matchesAt lines (old hunk))
  rw [applyHunk]
  refine ⟨fun h => ?_, ?_⟩
  · split at h
    · rename_i start single
      cases h
      have only := (eq_singleton_iff distinct).mp single
      obtain ⟨before, block, after, rfl, rfl, fits⟩ := mem_matches.mp ((only start).mpr rfl)
      refine ⟨before, block, after, _, rfl, (replaces_iff after).mpr ⟨fits, rfl⟩, ?_, ?_⟩
      · rw [List.take_left, List.drop_left, ← fits.length, ← List.drop_drop, List.drop_left,
        List.drop_left]
      · intro before' block' after' new' split other
        have found := (only before'.length).mp
          (mem_matches.mpr ⟨before', block', after', split, rfl,
            ((replaces_iff after').mp other).1⟩)
        exact (List.append_inj_left split found.symm).symm
    · cases h
  · rintro ⟨before, block, after, new, rfl, replaced, rfl, unique⟩
    obtain ⟨fits, rfl⟩ := (replaces_iff after).mp replaced
    have single : (List.range ((before ++ (block ++ after)).length + 1 - (old hunk).length)).filter
        (matchesAt (before ++ (block ++ after)) (old hunk)) = [before.length] := by
      refine (eq_singleton_iff distinct).mpr fun start => ?_
      rw [mem_matches]
      refine ⟨?_, ?_⟩
      · rintro ⟨before', block', after', split, rfl, fits'⟩
        rw [unique before' block' after' _ split ((replaces_iff after').mpr ⟨fits', rfl⟩)]
      · rintro rfl
        exact ⟨before, block, after, rfl, rfl, fits⟩
    rw [single]
    dsimp only
    rw [List.take_left, List.drop_left, ← fits.length, ← List.drop_drop, List.drop_left,
        List.drop_left]

theorem foldlM_applyHunk_iff {hunks : List Hunk} {edited : List Line} :
    hunks.foldlM (applyHunk newline) lines = .ok edited ↔ Edited newline lines hunks edited := by
  induction hunks generalizing lines with
  | nil => exact ⟨fun h => (Except.ok.inj h).symm, fun h => congrArg _ h.symm⟩
  | cons hunk hunks ih =>
    rw [List.foldlM_cons, Edited]
    refine ⟨fun h => ?_, ?_⟩
    · obtain ⟨next, first, later⟩ := bind_eq_ok h
      exact ⟨next, applyHunk_iff.mp first, ih.mp later⟩
    · rintro ⟨next, first, later⟩
      rw [applyHunk_iff.mpr first, ok_bind, ih.mpr later]

end Matching

end RoboAgent.PatchUpdate
