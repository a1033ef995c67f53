import Mathlib
import RoboAgent.ToolErrors

/-! The segmenter between the deltas of a response and speech synthesis. Flushing leaves the mark
that a first chunk was sent, so that a later response is cut like the rest of the one before. A
response whose first cut is made by a sentence end is not touched by that. -/

namespace RoboAgent.TextSegmentation
open ToolErrors

/-- The limits that the constructor admits. -/
structure TextSegmenter where
  maxChars : ℕ
  firstChunkChars : ℕ
  positive : 1 ≤ firstChunkChars
  ordered : firstChunkChars ≤ maxChars

structure Segmenting where
  buffer : List Char := []
  sentFirstChunk : Bool := false
deriving DecidableEq

def sentenceMarks : List Char := "。！？!?".toList

def softMarks : List Char := "，、；：,;:".toList

def strip (text : List Char) : List Char :=
  ((text.dropWhile isSpace).reverse.dropWhile isSpace).reverse

/-- str.rfind with its answer one higher, 0 where there is none. -/
def afterLast (mark : Char) (text : List Char) : ℕ :=
  (text.reverse.findIdx? (· == mark)).elim 0 fun i => text.length - i

/-- Behind the first sentence mark, 0 where there is none. -/
def sentenceEnd (text : List Char) : ℕ :=
  ((sentenceMarks.filterMap fun mark => text.findIdx? (· == mark)).min?).elim 0 (· + 1)

section Pushing
variable (segmenter : TextSegmenter)

def target (sentFirstChunk : Bool) : ℕ :=
  if sentFirstChunk then segmenter.maxChars else segmenter.firstChunkChars

/-- Where the buffer is cut; nowhere while more text is awaited. -/
def cut (sentFirstChunk : Bool) (buffer : List Char) : Option ℕ :=
  let target := target segmenter sentFirstChunk
  if sentenceEnd buffer = 0 ∧ buffer.length < target then none
  else if sentenceEnd buffer = 0 then
    let softBreak :=
      ((softMarks.map fun mark => afterLast mark (buffer.take (target + 1))).max?).getD 0
    some (if 0 < softBreak then softBreak else target)
  else some (sentenceEnd buffer)

theorem target_pos (sentFirstChunk : Bool) : 0 < target segmenter sentFirstChunk := by
  have first : 0 < segmenter.firstChunkChars := segmenter.positive
  cases sentFirstChunk with
  | false => exact first
  | true => exact Nat.lt_of_lt_of_le first segmenter.ordered

theorem cut_pos {sentFirstChunk : Bool} {buffer : List Char} {n : ℕ}
    (h : cut segmenter sentFirstChunk buffer = some n) : 0 < n := by
  have positive := target_pos segmenter sentFirstChunk
  unfold cut at h
  dsimp only at h
  split_ifs at h with _ _ soft
  · cases h
    exact soft
  · cases h
    exact positive
  · cases h
    omega

/-- The loop of push: the segments cut off, and the state it leaves. -/
def cutAll (sentFirstChunk : Bool) (buffer : List Char) : List (List Char) × Segmenting :=
  if empty : buffer = [] then ([], ⟨buffer, sentFirstChunk⟩)
  else match h : cut segmenter sentFirstChunk buffer with
    | none => ([], ⟨buffer, sentFirstChunk⟩)
    | some stop =>
      let rest := cutAll true (buffer.drop stop)
      (strip (buffer.take stop) :: rest.1, rest.2)
termination_by buffer.length
decreasing_by
  have shorter := cut_pos segmenter h
  have some := List.length_pos_iff.mpr empty
  rw [List.length_drop]
  omega

def push (s : Segmenting) (text : List Char) : List (List Char) × Segmenting :=
  let result := cutAll segmenter s.sentFirstChunk (s.buffer ++ text)
  (result.1.filter fun item => !item.isEmpty, result.2)

def flush (s : Segmenting) : Option (List Char) × Segmenting :=
  let result := strip s.buffer
  (if result = [] then none else some result, { s with buffer := [] })

/-- The deltas of one response pushed in order, then the flush. -/
def respond (s : Segmenting) : List (List Char) → List (List Char) × Segmenting
  | [] => ((flush s).1.toList, (flush s).2)
  | delta :: deltas =>
    let pushed := push segmenter s delta
    let rest := respond pushed.2 deltas
    (pushed.1 ++ rest.1, rest.2)

/-- The segmenter after some responses. -/
def after (responses : List (List (List Char))) : Segmenting :=
  responses.foldl (fun s deltas => (respond segmenter s deltas).2) {}

/-- Each response gives the segments that a fresh segmenter gives for it. -/
def Independent (responses : List (List (List Char))) : Prop :=
  ∀ done deltas, done ++ [deltas] <+: responses →
    (respond segmenter (after segmenter done) deltas).1 = (respond segmenter {} deltas).1

end Pushing

variable {segmenter : TextSegmenter} {buffer : List Char}

theorem cutAll_none {sent : Bool} (h : cut segmenter sent buffer = none) :
    cutAll segmenter sent buffer = ([], ⟨buffer, sent⟩) := by
  rw [cutAll]
  split_ifs
  · rfl
  · split
    · rfl
    · simp_all

theorem cut_nil (sent : Bool) : cut segmenter sent [] = none :=
  if_pos ⟨rfl, target_pos segmenter sent⟩

theorem cutAll_some {sent : Bool} {stop : ℕ} (h : cut segmenter sent buffer = some stop) :
    cutAll segmenter sent buffer =
      (strip (buffer.take stop) :: (cutAll segmenter true (buffer.drop stop)).1,
        (cutAll segmenter true (buffer.drop stop)).2) := by
  have nonempty : buffer ≠ [] := by
    rintro rfl
    rw [cut_nil] at h
    cases h
  rw [cutAll, dif_neg nonempty]
  split
  · simp_all
  · simp_all

/-- A cut at the same place in both phases: either there is none, or the states are one from
then on. -/
theorem push_same (text : List Char)
    (h : cut segmenter true (buffer ++ text) = cut segmenter false (buffer ++ text)) :
    (push segmenter ⟨buffer, true⟩ text).1 = (push segmenter ⟨buffer, false⟩ text).1 ∧
      ((push segmenter ⟨buffer, true⟩ text).2 = (push segmenter ⟨buffer, false⟩ text).2 ∨
        ∀ sent, (push segmenter ⟨buffer, sent⟩ text).2 = ⟨buffer ++ text, sent⟩) := by
  cases place : cut segmenter false (buffer ++ text) with
  | none =>
    have none : ∀ sent, cutAll segmenter sent (buffer ++ text) = ([], ⟨buffer ++ text, sent⟩) := by
      intro sent
      cases sent with
      | false => exact cutAll_none place
      | true => exact cutAll_none (h.trans place)
    refine ⟨?_, Or.inr fun sent => ?_⟩
    · rw [push, push, none, none]
    · rw [push, none]
  | some stop =>
    have same : cutAll segmenter true (buffer ++ text) = cutAll segmenter false (buffer ++ text) :=
      (cutAll_some (h.trans place)).trans (cutAll_some place).symm
    refine ⟨?_, Or.inl ?_⟩
    · rw [push, push, same]
    · rw [push, push, same]

theorem respond_same (deltas : List (List Char))
    (h : ∀ part, part <+: deltas → cut segmenter true (buffer ++ part.flatten) =
      cut segmenter false (buffer ++ part.flatten)) :
    (respond segmenter ⟨buffer, true⟩ deltas).1 = (respond segmenter ⟨buffer, false⟩ deltas).1 := by
  induction deltas generalizing buffer with
  | nil => rfl
  | cons delta deltas ih =>
    have first : cut segmenter true (buffer ++ delta) = cut segmenter false (buffer ++ delta) := by
      simpa using h [delta] ⟨deltas, rfl⟩
    obtain ⟨segments, same | kept⟩ := push_same delta first
    · rw [respond, respond, segments, same]
    · have rest : (respond segmenter ⟨buffer ++ delta, true⟩ deltas).1 =
          (respond segmenter ⟨buffer ++ delta, false⟩ deltas).1 := ih fun part before => by
        simpa using h (delta :: part) (List.cons_prefix_cons.mpr ⟨rfl, before⟩)
      rw [respond, respond, segments, kept true, kept false, rest]

theorem flush_buffer (s : Segmenting) : (flush s).2.buffer = [] := rfl

theorem respond_buffer (s : Segmenting) (deltas : List (List Char)) :
    (respond segmenter s deltas).2.buffer = [] := by
  induction deltas generalizing s with
  | nil => rfl
  | cons delta deltas ih => exact ih _

theorem after_buffer (responses : List (List (List Char))) :
    (after segmenter responses).buffer = [] := by
  obtain rfl | ⟨responses, deltas, rfl⟩ := List.eq_nil_or_concat' responses
  · rfl
  · rw [after, List.foldl_concat]
    exact respond_buffer _ _

theorem cut_ending (sent : Bool) (ending : sentenceEnd buffer ≠ 0) :
    cut segmenter sent buffer = some (sentenceEnd buffer) := by
  rw [cut, if_neg fun h => ending h.1, if_neg ending]

/-- The phases cut alike at a sentence end, and below the smaller target. -/
theorem cut_same (h : segmenter.firstChunkChars = segmenter.maxChars ∨ sentenceEnd buffer ≠ 0 ∨
    buffer.length < segmenter.firstChunkChars) :
    cut segmenter true buffer = cut segmenter false buffer := by
  obtain limits | ending | short := h
  · have same : target segmenter true = target segmenter false := limits.symm
    rw [cut, cut, same]
  · rw [cut_ending true ending, cut_ending false ending]
  · by_cases ending : sentenceEnd buffer = 0
    · have waits (sent : Bool) (below : buffer.length < target segmenter sent) :
          cut segmenter sent buffer = none := if_pos ⟨ending, below⟩
      rw [waits true (Nat.lt_of_lt_of_le short segmenter.ordered), waits false short]
    · rw [cut_ending true ending, cut_ending false ending]

/-- In a run of responses each is segmented as by a fresh segmenter, if no chunk was cut before it,
or the two limits are one, or each text its deltas build up holds a sentence end or is shorter than
a first chunk. -/
theorem segments_independent (segmenter : TextSegmenter) (responses : List (List (List Char)))
    (h : ∀ done deltas, done ++ [deltas] <+: responses →
      (after segmenter done).sentFirstChunk = false ∨
      segmenter.firstChunkChars = segmenter.maxChars ∨
      ∀ part, part <+: deltas →
        sentenceEnd part.flatten ≠ 0 ∨ part.flatten.length < segmenter.firstChunkChars) :
    Independent segmenter responses := by
  intro done deltas now
  have buffer : (after segmenter done).buffer = [] := after_buffer done
  have condition := h done deltas now
  generalize after segmenter done = s at buffer condition ⊢
  obtain ⟨_, sent⟩ := s
  cases buffer
  cases sent with
  | false => rfl
  | true =>
    refine respond_same deltas fun part before => cut_same ?_
    obtain fresh | limits | texts := condition
    · cases fresh
    · exact Or.inl limits
    · exact Or.inr (texts part before)

/-- Two responses that begin with a short sentence. -/
theorem segments_sentences :
    Independent ⟨8, 4, by decide, by decide⟩
      [["ab!".toList, "cdef".toList], ["ab!".toList, "cdef".toList]] := by
  refine segments_independent _ _ fun done deltas now => Or.inr (Or.inr fun part before => ?_)
  have deltas_eq : deltas = ["ab!".toList, "cdef".toList] := by
    have mem := now.subset (List.mem_append_right done List.mem_cons_self)
    simpa using mem
  have mem : part ∈ ["ab!".toList, "cdef".toList].inits := by
    rw [List.mem_inits, ← deltas_eq]
    exact before
  have each : ∀ part ∈ ["ab!".toList, "cdef".toList].inits,
      sentenceEnd part.flatten ≠ 0 ∨ part.flatten.length < 4 := by
    decide +kernel
  exact each part mem

/-- The second of two responses of the same six characters has no short first chunk. -/
theorem short_chunk_lost : ¬ Independent ⟨8, 4, by decide, by decide⟩
    [["abcdef".toList], ["abcdef".toList]] := by
  intro h
  have same := h [["abcdef".toList]] ["abcdef".toList] (List.prefix_refl _)
  exact absurd same (by decide +kernel)

/-! What the segments are of the text: pieces cut one after the other, each stripped, the blank ones
left out -/

def notEmpty (item : List Char) : Bool := !item.isEmpty

def visible (text : List Char) : List Char := text.filter fun c => !isSpace c

/-- The text in one row of pieces, and the segments given for it. -/
def PiecesOf (text : List Char) (segments : List (List Char)) : Prop :=
  ∃ pieces : List (List Char), pieces.flatten = text ∧ segments = (pieces.map strip).filter notEmpty

theorem PiecesOf.append {text text' : List Char} {segments segments' : List (List Char)}
    (h : PiecesOf text segments) (h' : PiecesOf text' segments') :
    PiecesOf (text ++ text') (segments ++ segments') := by
  obtain ⟨pieces, rfl, rfl⟩ := h
  obtain ⟨pieces', rfl, rfl⟩ := h'
  exact ⟨pieces ++ pieces', List.flatten_append,
    by rw [List.map_append, List.filter_append]⟩

/-- The rounds of push cut pieces off the front, and what they leave is in the buffer. -/
theorem cutAll_pieces (sent : Bool) (buffer : List Char) :
    ∃ pieces : List (List Char),
      pieces.flatten ++ (cutAll segmenter sent buffer).2.buffer = buffer ∧
      (cutAll segmenter sent buffer).1 = pieces.map strip := by
  induction length : buffer.length using Nat.strongRecOn generalizing sent buffer with
  | ind n ih =>
    cases place : cut segmenter sent buffer with
    | none =>
      rw [cutAll_none place]
      exact ⟨[], rfl, rfl⟩
    | some stop =>
      have positive := cut_pos segmenter place
      have nonempty : buffer ≠ [] := by
        rintro rfl
        rw [cut_nil] at place
        cases place
      have shorter : (buffer.drop stop).length < n := by
        have some := List.length_pos_iff.mpr nonempty
        rw [List.length_drop]
        omega
      obtain ⟨pieces, whole, segments⟩ := ih _ shorter true (buffer.drop stop) rfl
      rw [cutAll_some place]
      refine ⟨buffer.take stop :: pieces, ?_, ?_⟩
      · rw [List.flatten_cons, List.append_assoc, whole, List.take_append_drop]
      · rw [segments, List.map_cons]

theorem push_pieces (s : Segmenting) (text : List Char) :
    ∃ before, before ++ (push segmenter s text).2.buffer = s.buffer ++ text ∧
      PiecesOf before (push segmenter s text).1 := by
  obtain ⟨pieces, whole, segments⟩ := @cutAll_pieces segmenter s.sentFirstChunk (s.buffer ++ text)
  refine ⟨pieces.flatten, whole, pieces, rfl, ?_⟩
  rw [push, segments]
  rfl

theorem flush_pieces (s : Segmenting) : PiecesOf s.buffer (flush s).1.toList := by
  refine ⟨[s.buffer], List.append_nil _, ?_⟩
  rw [flush, List.map_singleton]
  dsimp only
  split_ifs with empty
  · rw [empty]
    rfl
  · rw [List.filter_singleton, notEmpty, List.isEmpty_eq_false_iff.mpr empty]
    rfl

theorem respond_pieces (s : Segmenting) (deltas : List (List Char)) :
    PiecesOf (s.buffer ++ deltas.flatten) (respond segmenter s deltas).1 := by
  induction deltas generalizing s with
  | nil =>
    rw [List.flatten_nil, List.append_nil]
    exact flush_pieces s
  | cons delta deltas ih =>
    obtain ⟨before, whole, pieces⟩ := @push_pieces segmenter s delta
    rw [List.flatten_cons, ← List.append_assoc, ← whole, List.append_assoc]
    exact pieces.append (ih _)

theorem visible_dropWhile (text : List Char) : visible (text.dropWhile isSpace) = visible text := by
  induction text with
  | nil => rfl
  | cons c text ih =>
    rw [List.dropWhile_cons]
    split_ifs with space
    · rw [ih, visible, visible, List.filter_cons_of_neg (by rw [space]; decide)]
    · rfl

theorem visible_append (text text' : List Char) :
    visible (text ++ text') = visible text ++ visible text' :=
  List.filter_append ..

theorem visible_reverse (text : List Char) : visible text.reverse = (visible text).reverse :=
  List.filter_reverse ..

theorem visible_strip (text : List Char) : visible (strip text) = visible text := by
  rw [strip, visible_reverse, visible_dropWhile, visible_reverse, List.reverse_reverse,
    visible_dropWhile]

theorem PiecesOf.visible {text : List Char} {segments : List (List Char)}
    (h : PiecesOf text segments) : visible segments.flatten = visible text := by
  obtain ⟨pieces, rfl, rfl⟩ := h
  induction pieces with
  | nil => rfl
  | cons piece pieces ih =>
    rw [List.map_cons, List.filter_cons, List.flatten_cons, visible_append, ← ih]
    split_ifs with shown
    · rw [List.flatten_cons, visible_append, visible_strip]
    · rw [notEmpty, Bool.not_eq_true, Bool.not_eq_false', List.isEmpty_iff] at shown
      rw [← visible_strip piece, shown]
      rfl

/-- Text pushed in any deltas and flushed comes out whole but for the white space around the
pieces. -/
theorem segments_lossless (segmenter : TextSegmenter) (s : Segmenting)
    (deltas : List (List Char)) :
    (∀ segment ∈ (respond segmenter s deltas).1, segment ≠ []) ∧
    (∃ pieces : List (List Char), pieces.flatten = s.buffer ++ deltas.flatten ∧
      (respond segmenter s deltas).1 = (pieces.map strip).filter notEmpty) ∧
    visible (respond segmenter s deltas).1.flatten = visible (s.buffer ++ deltas.flatten) ∧
    (respond segmenter s deltas).2.buffer = [] := by
  have pieces := @respond_pieces segmenter s deltas
  refine ⟨fun segment mem => ?_, pieces, pieces.visible, respond_buffer s deltas⟩
  obtain ⟨_, -, segments⟩ := pieces
  rw [segments, List.mem_filter, notEmpty, Bool.not_eq_true', List.isEmpty_eq_false_iff] at mem
  exact mem.2

end RoboAgent.TextSegmentation
