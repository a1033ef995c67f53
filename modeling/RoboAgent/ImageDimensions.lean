import RoboAgent.FalliblePrograms

/-! The dimensions of an encoded image. Of a PNG they stand at a fixed place. In a JPEG they are
found behind a chain of markers, each after fill bytes and with a length where it has a body; the
chain is a grammar, and the two loops of the source follow it. -/

namespace RoboAgent.ImageDimensions
open RoboAgent.FalliblePrograms (ok_bind)

abbrev Bytes := List UInt8

inductive Raised
  /-- VisionError. -/
  | imageInvalid
  /-- IndexError. -/
  | index
  /-- struct.error. -/
  | struct
deriving DecidableEq

def byteAt (data : Bytes) (index : Nat) : Except Raised UInt8 :=
  match data[index]? with
  | some byte => .ok byte
  | none => .error .index

def slice (data : Bytes) (start stop : Nat) : Bytes := (data.drop start).take (stop - start)

/-- int.from_bytes with the high byte first. -/
def fromBytes (bytes : Bytes) : Nat := bytes.foldl (fun n byte => n * 256 + byte.toNat) 0

/-- struct.unpack of two numbers of four bytes. -/
def unpackTwo (bytes : Bytes) : Except Raised (Nat × Nat) :=
  if bytes.length = 8 then .ok (fromBytes (bytes.take 4), fromBytes (bytes.drop 4))
  else .error .struct

/-- The inner loop: the first index from here on that is outside or holds no fill byte. -/
def skipFill (data : Bytes) (index : Nat) : Except Raised {stop // index ≤ stop} :=
  if inside : index < data.length then do
    let byte ← byteAt data index
    if byte = 255 then do
      let ⟨stop, later⟩ ← skipFill data (index + 1)
      .ok ⟨stop, Nat.le_of_succ_le later⟩
    else .ok ⟨index, Nat.le_refl _⟩
  else .ok ⟨index, Nat.le_refl _⟩
termination_by data.length - index

/-- The end of the image and the start of a scan. -/
def stops (marker : UInt8) : Bool := marker == 0xd9 || marker == 0xda

def isStandalone (marker : UInt8) : Bool := marker == 1 || (0xd0 ≤ marker && marker ≤ 0xd8)

def isFrame (marker : UInt8) : Bool :=
  [0xc0, 0xc1, 0xc2, 0xc3, 0xc5, 0xc6, 0xc7, 0xc9, 0xca, 0xcb, 0xcd, 0xce, 0xcf].contains marker

/-- The outer loop, from an index on. -/
def scan (data : Bytes) (index : Nat) : Except Raised (Nat × Nat) :=
  if inside : index < data.length then do
    let byte ← byteAt data index
    if byte ≠ 255 then .error .imageInvalid
    else
      let ⟨start, later⟩ ← skipFill data index
      if data.length ≤ start then .error .imageInvalid
      else
        let marker ← byteAt data start
        if stops marker then .error .imageInvalid
        else if isStandalone marker then scan data (start + 1)
        else if data.length < start + 1 + 2 then .error .imageInvalid
        else
          let size := fromBytes (slice data (start + 1) (start + 1 + 2))
          if size < 2 ∨ data.length < start + 1 + size then .error .imageInvalid
          else if isFrame marker = true ∧ 8 ≤ size then
            .ok (fromBytes (slice data (start + 1 + 5) (start + 1 + 7)),
              fromBytes (slice data (start + 1 + 3) (start + 1 + 5)))
          else scan data (start + 1 + size)
  else .error .imageInvalid
termination_by data.length - index

def pngSignature : Bytes := [0x89, 0x50, 0x4e, 0x47, 0x0d, 0x0a, 0x1a, 0x0a]

def pngHeader : Bytes := [0x49, 0x48, 0x44, 0x52]

def imageDimensions (data : Bytes) (mime : String) : Except Raised (Nat × Nat) :=
  if mime = "image/png" ∧ pngSignature <+: data ∧ 24 ≤ data.length ∧
      slice data 12 16 = pngHeader then
    unpackTwo (slice data 16 24)
  else if mime = "image/jpeg" ∧ [0xff, 0xd8] <+: data then scan data 2
  else .error .imageInvalid

/-- What follows the start marker of a JPEG, up to the first frame header long enough: markers
without a body, and segments in which two bytes give the length of body and length. -/
inductive Frames : Bytes → Nat × Nat → Prop
  | standalone {fill : Nat} {marker : UInt8} {rest : Bytes} {dims : Nat × Nat}
    (alone : isStandalone marker = true) (tail : Frames rest dims) :
    Frames (List.replicate (fill + 1) 255 ++ marker :: rest) dims
  | segment {fill : Nat} {marker high low : UInt8} {body rest : Bytes} {dims : Nat × Nat}
    (proper : marker ≠ 255 ∧ stops marker = false ∧ isStandalone marker = false)
    (size : high.toNat * 256 + low.toNat = body.length + 2)
    (other : ¬(isFrame marker = true ∧ 8 ≤ body.length + 2)) (tail : Frames rest dims) :
    Frames (List.replicate (fill + 1) 255 ++ marker :: high :: low :: (body ++ rest)) dims
  | frame {fill : Nat} {marker high low precision h₁ h₀ w₁ w₀ : UInt8} {body rest : Bytes}
    (frame : isFrame marker = true) (size : high.toNat * 256 + low.toNat = body.length + 7)
    (long : body ≠ []) :
    Frames (List.replicate (fill + 1) 255 ++ marker :: high :: low :: precision :: h₁ :: h₀ :: w₁ ::
      w₀ :: (body ++ rest)) (w₁.toNat * 256 + w₀.toNat, h₁.toNat * 256 + h₀.toNat)

theorem lt_of_drop {data rest : Bytes} {index : Nat} {byte : UInt8}
    (h : data.drop index = byte :: rest) : index < data.length := by
  have length := congrArg List.length h
  rw [List.length_drop, List.length_cons] at length
  omega

theorem byteAt_of_drop {data rest : Bytes} {index : Nat} {byte : UInt8}
    (h : data.drop index = byte :: rest) : byteAt data index = .ok byte := by
  have here : data[index]? = some byte := by
    rw [← List.head?_drop, h, List.head?_cons]
  rw [byteAt, here]

theorem drop_add {data rest : Bytes} {index : Nat} (before : Bytes)
    (h : data.drop index = before ++ rest) : data.drop (index + before.length) = rest := by
  rw [← List.drop_drop, h, List.drop_left]

theorem slice_of_drop {data part rest : Bytes} {index stop : Nat}
    (h : data.drop index = part ++ rest) (long : stop = index + part.length) :
    slice data index stop = part := by
  rw [slice, h, long, Nat.add_sub_cancel_left, List.take_left]

/-- Every list is some fill bytes and a rest that does not begin with one. -/
theorem exists_fill (bytes : Bytes) : ∃ fill rest, bytes = List.replicate fill 255 ++ rest ∧
    ∀ tail, rest ≠ 255 :: tail := by
  induction bytes with
  | nil => exact ⟨0, [], rfl, fun _ same => List.cons_ne_nil _ _ same.symm⟩
  | cons byte bytes ih =>
    by_cases filler : byte = 255
    · obtain ⟨fill, rest, same, other⟩ := ih
      exact ⟨fill + 1, rest, by rw [filler, same]; rfl, other⟩
    · exact ⟨0, byte :: bytes, rfl, fun tail same => filler (List.cons.inj same).1⟩

theorem skipFill_eq {data rest : Bytes} {fill index : Nat}
    (h : data.drop index = List.replicate fill 255 ++ rest) (other : ∀ tail, rest ≠ 255 :: tail) :
    skipFill data index = .ok ⟨index + fill, Nat.le_add_right ..⟩ := by
  induction fill generalizing index with
  | zero =>
    rw [skipFill]
    split_ifs with inside
    · cases rest with
      | nil =>
        rw [List.replicate_zero, List.nil_append, List.drop_eq_nil_iff] at h
        omega
      | cons byte rest =>
        have filler : byte ≠ 255 := fun same => other rest (by rw [same])
        rw [byteAt_of_drop h]
        exact if_neg filler
    · rfl
  | succ fill ih =>
    have here : data.drop index = 255 :: (List.replicate fill 255 ++ rest) := h
    have next : data.drop (index + 1) = List.replicate fill 255 ++ rest := drop_add [255] here
    rw [skipFill, dif_pos (lt_of_drop here), byteAt_of_drop here, ok_bind, if_pos rfl, ih next,
      ok_bind]
    exact congrArg Except.ok (Subtype.ext (Nat.add_right_comm ..))

/-- One round of the outer loop, at fill bytes and a marker. -/
theorem scan_marker {data rest : Bytes} {fill index : Nat} {marker : UInt8}
    (h : data.drop index = List.replicate (fill + 1) 255 ++ marker :: rest)
    (proper : marker ≠ 255) :
    scan data index =
      if stops marker then .error .imageInvalid
      else if isStandalone marker then scan data (index + fill + 1 + 1)
      else if data.length < index + fill + 1 + 1 + 2 then .error .imageInvalid
      else
        let start := index + fill + 1 + 1
        let size := fromBytes (slice data start (start + 2))
        if size < 2 ∨ data.length < start + size then .error .imageInvalid
        else if isFrame marker = true ∧ 8 ≤ size then
          .ok (fromBytes (slice data (start + 5) (start + 7)),
            fromBytes (slice data (start + 3) (start + 5)))
        else scan data (start + size) := by
  have here : data.drop index = 255 :: (List.replicate fill 255 ++ marker :: rest) := h
  have after : data.drop (index + (fill + 1)) = marker :: rest := by
    have dropped := drop_add _ h
    rwa [List.length_replicate] at dropped
  have skipped := skipFill_eq h fun tail same => proper (List.cons.inj same).1
  have inside : ¬data.length ≤ index + (fill + 1) := Nat.not_le_of_lt (lt_of_drop after)
  rw [scan, dif_pos (lt_of_drop here), byteAt_of_drop here, ok_bind, if_neg (not_not.mpr rfl),
    skipped, ok_bind]
  dsimp only
  rw [if_neg inside, byteAt_of_drop after, ok_bind]
  rfl

theorem fromBytes_pair (high low : UInt8) :
    fromBytes [high, low] = high.toNat * 256 + low.toNat := by
  rw [fromBytes, List.foldl_cons, List.foldl_cons, List.foldl_nil, Nat.zero_mul, Nat.zero_add]

/-- A round at a marker that has a length. -/
theorem scan_segment {data rest : Bytes} {fill index : Nat} {marker high low : UInt8}
    (h : data.drop index = List.replicate (fill + 1) 255 ++ marker :: high :: low :: rest)
    (proper : marker ≠ 255 ∧ stops marker = false ∧ isStandalone marker = false) :
    scan data index =
      if high.toNat * 256 + low.toNat < 2 ∨ rest.length + 2 < high.toNat * 256 + low.toNat then
        .error .imageInvalid
      else if isFrame marker = true ∧ 8 ≤ high.toNat * 256 + low.toNat then
        .ok (fromBytes ((rest.drop 3).take 2), fromBytes ((rest.drop 1).take 2))
      else scan data (index + fill + 2 + (high.toNat * 256 + low.toNat)) := by
  obtain ⟨filler, running, sized⟩ := proper
  have after : data.drop (index + fill + 1 + 1) = high :: low :: rest := by
    have dropped : data.drop (index + (List.replicate (fill + 1) 255 ++ [marker]).length) =
        high :: low :: rest := drop_add _ (by rw [h, List.append_assoc]; rfl)
    rwa [List.length_append, List.length_replicate] at dropped
  have length : data.length = index + fill + 1 + 1 + (rest.length + 2) := by
    have dropped := congrArg List.length after
    have inside := lt_of_drop after
    rw [List.length_drop, List.length_cons, List.length_cons] at dropped
    omega
  have size : slice data (index + fill + 1 + 1) (index + fill + 1 + 1 + 2) = [high, low] :=
    slice_of_drop (show data.drop _ = [high, low] ++ rest from after) rfl
  have later (n m : Nat) : slice data (index + fill + 1 + 1 + (n + 2))
      (index + fill + 1 + 1 + (n + 2 + m)) = (rest.drop n).take m := by
    have dropped : data.drop (index + fill + 1 + 1 + (n + 2)) = rest.drop n := by
      rw [← List.drop_drop, after, List.drop_succ_cons, List.drop_succ_cons]
    rw [slice, dropped]
    congr 1
    omega
  rw [scan_marker h filler, running, sized, if_neg Bool.false_ne_true, if_neg Bool.false_ne_true,
    if_neg (by omega)]
  dsimp only
  rw [size, fromBytes_pair, later 3 2, later 1 2, length]
  simp only [Nat.add_lt_add_iff_left]

theorem isFrame_proper {marker : UInt8} (h : isFrame marker = true) :
    marker ≠ 255 ∧ stops marker = false ∧ isStandalone marker = false := by
  rw [isFrame, List.contains_iff_mem] at h
  revert marker
  decide +kernel

theorem isStandalone_proper {marker : UInt8} (h : isStandalone marker = true) :
    marker ≠ 255 ∧ stops marker = false := by
  refine ⟨fun same => ?_, Bool.eq_false_iff.mpr fun stop => ?_⟩
  · rw [same] at h
    exact absurd h (by decide)
  · rw [stops, Bool.or_eq_true, beq_iff_eq, beq_iff_eq] at stop
    obtain same | same := stop <;> rw [same] at h <;> exact absurd h (by decide)

theorem scan_standalone {data rest : Bytes} {fill index : Nat} {marker : UInt8}
    (h : data.drop index = List.replicate (fill + 1) 255 ++ marker :: rest)
    (alone : isStandalone marker = true) :
    scan data index = scan data (index + fill + 2) ∧ data.drop (index + fill + 2) = rest := by
  obtain ⟨filler, running⟩ := isStandalone_proper alone
  constructor
  · rw [scan_marker h filler, running, alone, if_neg Bool.false_ne_true, if_pos rfl]
  · have dropped : data.drop (index + (List.replicate (fill + 1) 255 ++ [marker]).length) = rest :=
      drop_add _ (by rw [h, List.append_assoc]; rfl)
    rwa [List.length_append, List.length_replicate] at dropped

theorem drop_segment {data body rest : Bytes} {fill index size : Nat} {marker high low : UInt8}
    (h : data.drop index = List.replicate (fill + 1) 255 ++ marker :: high :: low :: (body ++ rest))
    (long : size = body.length + 2) : data.drop (index + fill + 2 + size) = rest := by
  have dropped : data.drop
      (index + (List.replicate (fill + 1) 255 ++ marker :: high :: low :: body).length) = rest :=
    drop_add _ (by rw [h, List.append_assoc]; rfl)
  rw [List.length_append, List.length_replicate, List.length_cons, List.length_cons,
    List.length_cons] at dropped
  rw [← dropped]
  congr 1
  omega

theorem scan_complete {data bytes : Bytes} {dims : Nat × Nat} (h : Frames bytes dims) :
    ∀ index, data.drop index = bytes → scan data index = .ok dims := by
  induction h with
  | @standalone fill marker rest dims alone tail ih =>
    intro index here
    obtain ⟨next, dropped⟩ := scan_standalone here alone
    rw [next]
    exact ih _ dropped
  | @segment fill marker high low body rest dims proper size other tail ih =>
    intro index here
    have small : ¬(high.toNat * 256 + low.toNat < 2 ∨
        (body ++ rest).length + 2 < high.toNat * 256 + low.toNat) := by
      rw [List.length_append]
      omega
    rw [scan_segment here proper, if_neg small, if_neg (size ▸ other)]
    exact ih _ (drop_segment here size)
  | @frame fill marker high low precision h₁ h₀ w₁ w₀ body rest frame size long =>
    intro index here
    have positive := List.length_pos_iff.mpr long
    rw [scan_segment here (isFrame_proper frame), if_neg, if_pos ⟨frame, by omega⟩]
    · exact congrArg Except.ok (Prod.ext (fromBytes_pair w₁ w₀) (fromBytes_pair h₁ h₀))
    · simp only [List.length_cons, List.length_append]
      omega

/-- The scan from an index on ends, reads nothing outside, and finds a frame header or rejects. -/
def Settled (data : Bytes) (index : Nat) : Prop :=
  scan data index = .error .imageInvalid ∨
    ∃ dims, scan data index = .ok dims ∧ Frames (data.drop index) dims

theorem settled_segment {data rest : Bytes} {fill index : Nat} {marker high low : UInt8}
    (h : data.drop index = List.replicate (fill + 1) 255 ++ marker :: high :: low :: rest)
    (proper : marker ≠ 255 ∧ stops marker = false ∧ isStandalone marker = false)
    (later : ∀ next, index < next → Settled data next) : Settled data index := by
  rw [Settled, scan_segment h proper]
  split_ifs with outside header
  · exact .inl rfl
  · right
    rw [not_or, Nat.not_lt, Nat.not_lt] at outside
    obtain ⟨frame, long⟩ := header
    match rest, outside, h with
    | precision :: h₁ :: h₀ :: w₁ :: w₀ :: rest, outside, h =>
      simp only [List.length_cons] at outside
      refine ⟨(w₁.toNat * 256 + w₀.toNat, h₁.toNat * 256 + h₀.toNat),
        congrArg Except.ok (Prod.ext (fromBytes_pair w₁ w₀) (fromBytes_pair h₁ h₀)), ?_⟩
      rw [h, ← List.take_append_drop (high.toNat * 256 + low.toNat - 7) rest]
      refine .frame frame ?_ ?_
      · rw [List.length_take]
        omega
      · refine List.length_pos_iff.mp ?_
        rw [List.length_take]
        omega
    | [], outside, _ | [_], outside, _ | [_, _], outside, _ | [_, _, _], outside, _
    | [_, _, _, _], outside, _ =>
      simp only [List.length_cons, List.length_nil] at outside
      omega
  · rw [not_or, Nat.not_lt, Nat.not_lt] at outside
    have size : high.toNat * 256 + low.toNat =
        (rest.take (high.toNat * 256 + low.toNat - 2)).length + 2 := by
      rw [List.length_take]
      omega
    rw [← List.take_append_drop (high.toNat * 256 + low.toNat - 2) rest] at h
    obtain rejected | ⟨dims, found, frames⟩ :=
      later (index + fill + 2 + (high.toNat * 256 + low.toNat)) (by omega)
    · exact .inl rejected
    · rw [drop_segment h size] at frames
      exact .inr ⟨dims, found, h ▸ .segment proper size (size ▸ header) frames⟩

theorem settled_marker {data rest : Bytes} {fill index : Nat} {marker : UInt8}
    (h : data.drop index = List.replicate (fill + 1) 255 ++ marker :: rest) (filler : marker ≠ 255)
    (later : ∀ next, index < next → Settled data next) : Settled data index := by
  by_cases stop : stops marker = true
  · left
    rw [scan_marker h filler, if_pos stop]
  by_cases alone : isStandalone marker = true
  · obtain ⟨next, dropped⟩ := scan_standalone h alone
    rw [Settled, next]
    refine (later (index + fill + 2) (by omega)).imp_right fun ⟨dims, found, frames⟩ => ?_
    rw [dropped] at frames
    exact ⟨dims, found, h ▸ .standalone alone frames⟩
  rw [Bool.not_eq_true] at stop alone
  match rest, h with
  | high :: low :: rest, h => exact settled_segment h ⟨filler, stop, alone⟩ later
  | [], h | [_], h =>
    left
    have length := congrArg List.length h
    rw [List.length_drop, List.length_append, List.length_replicate] at length
    simp only [List.length_cons, List.length_nil] at length
    rw [scan_marker h filler, stop, alone, if_neg Bool.false_ne_true, if_neg Bool.false_ne_true,
      if_pos (by omega)]

theorem settled (data : Bytes) (index : Nat) : Settled data index := by
  induction left : data.length - index using Nat.strongRecOn generalizing index with
  | ind n ih =>
    obtain ⟨fill, rest, here, other⟩ := exists_fill (data.drop index)
    cases fill with
    | zero =>
      left
      cases rest with
      | nil =>
        have outside : ¬index < data.length := by
          rw [List.replicate_zero, List.nil_append, List.drop_eq_nil_iff] at here
          omega
        rw [scan, dif_neg outside]
      | cons byte rest =>
        have filler : byte ≠ 255 := fun same => other rest (by rw [same])
        rw [scan, dif_pos (lt_of_drop here), byteAt_of_drop here, ok_bind, if_pos filler]
    | succ fill =>
      have first : data.drop index = 255 :: (List.replicate fill 255 ++ rest) := here
      cases rest with
      | nil =>
        left
        have outside : data.length ≤ index + (fill + 1) := by
          have length := congrArg List.length here
          rw [List.append_nil, List.length_replicate, List.length_drop] at length
          omega
        rw [scan, dif_pos (lt_of_drop first), byteAt_of_drop first, ok_bind,
          if_neg (not_not.mpr rfl), skipFill_eq here other, ok_bind]
        exact if_pos outside
      | cons marker rest =>
        have inside := lt_of_drop first
        exact settled_marker here (fun same => other rest (by rw [same])) fun next after =>
          ih _ (by omega) next rfl

theorem unpackTwo_slice {data : Bytes} (long : 24 ≤ data.length) :
    ∃ dims, unpackTwo (slice data 16 24) = .ok dims := by
  have length : (slice data 16 24).length = 8 := by
    rw [slice, List.length_take, List.length_drop]
    omega
  exact ⟨_, if_pos length⟩

/-- On every input the dimensions are found or the image is rejected; those of a JPEG are found just
where the grammar has them. -/
theorem imageDimensions_exact (data : Bytes) (mime : String) :
    (imageDimensions data mime = .error .imageInvalid ∨
      ∃ dims, imageDimensions data mime = .ok dims) ∧
    ∀ dims, imageDimensions data "image/jpeg" = .ok dims ↔
      ∃ rest, data = 0xff :: 0xd8 :: rest ∧ Frames rest dims := by
  constructor
  · rw [imageDimensions]
    split_ifs with png jpeg
    · exact .inr (unpackTwo_slice png.2.2.1)
    · exact (settled data 2).imp_right fun ⟨dims, found, _⟩ => ⟨dims, found⟩
    · exact .inl rfl
  · intro dims
    have other : ¬("image/jpeg" = "image/png" ∧ pngSignature <+: data ∧ 24 ≤ data.length ∧
        slice data 12 16 = pngHeader) := fun h => absurd h.1 (by decide)
    rw [imageDimensions, if_neg other]
    constructor
    · intro h
      split_ifs at h with jpeg
      obtain ⟨rest, rfl⟩ := jpeg.2
      obtain rejected | ⟨dims', found, frames⟩ := settled ([0xff, 0xd8] ++ rest) 2
      · rw [rejected] at h
        cases h
      · rw [found] at h
        cases h
        exact ⟨rest, rfl, frames⟩
    · rintro ⟨rest, rfl, frames⟩
      rw [if_pos ⟨rfl, rest, rfl⟩]
      exact scan_complete frames 2 rfl

end RoboAgent.ImageDimensions
