import Mathlib

/-! The assembler of audio frames. The frame size is a whole division of the bytes of a second; for
some formats and durations it is 0, and then push does not end, or no whole number of samples. For
all others the frames are a function of the joined input and the first timestamp. -/

namespace RoboAgent.AudioFraming

structure AudioFormat where
  sampleRate : ℕ
  channels : ℕ
  sampleWidth : ℕ
  positive : 0 < sampleRate ∧ 0 < channels ∧ 0 < sampleWidth
deriving DecidableEq

/-- A chunk with a timestamp of any kind. -/
structure AudioChunk (T : Type) where
  data : List UInt8
  format : AudioFormat
  timestamp : T
deriving DecidableEq

structure AudioFrameAssembler (T : Type) where
  format : AudioFormat
  frameBytes : ℕ
  data : List UInt8 := []
  timestamp : Option T := none
deriving DecidableEq

def frameBytes (format : AudioFormat) (frameMs : ℕ) : ℕ :=
  format.sampleRate * format.channels * format.sampleWidth * frameMs / 1000

def assembler (T : Type) (format : AudioFormat) (frameMs : ℕ) : AudioFrameAssembler T :=
  { format, frameBytes := frameBytes format frameMs }

inductive Failure
  | notCanonical
  | outOfFuel
deriving DecidableEq

section Assembling
variable {T : Type} (later : T → T)

/-- The loop of push; `later` adds the duration of a frame to a timestamp. -/
def cutFrames (given : T) : ℕ → AudioFrameAssembler T →
    Except Failure (List (AudioChunk T) × AudioFrameAssembler T)
  | 0, _ => .error .outOfFuel
  | fuel + 1, a =>
    if a.frameBytes ≤ a.data.length then do
      let timestamp := a.timestamp.getD given
      let rest ← cutFrames given fuel
        { a with data := a.data.drop a.frameBytes, timestamp := some (later timestamp) }
      return (⟨a.data.take a.frameBytes, a.format, timestamp⟩ :: rest.1, rest.2)
    else return ([], a)

def push (fuel : ℕ) (a : AudioFrameAssembler T) (audio : AudioChunk T) :
    Except Failure (List (AudioChunk T) × AudioFrameAssembler T) :=
  if audio.format ≠ a.format then .error .notCanonical
  else cutFrames later audio.timestamp fuel
    { a with timestamp := some (a.timestamp.getD audio.timestamp), data := a.data ++ audio.data }

/-- bytes.ljust with zeros. -/
def ljust (data : List UInt8) (size : ℕ) : List UInt8 :=
  data ++ List.replicate (size - data.length) 0

def flush (zero : T) (a : AudioFrameAssembler T) : List (AudioChunk T) × AudioFrameAssembler T :=
  if a.data = [] then ([], a)
  else ([⟨ljust a.data a.frameBytes, a.format, a.timestamp.getD zero⟩],
    { a with data := [], timestamp := none })

/-- All frames of a capture: each chunk pushed, then the flush. -/
def assemble (zero : T) (fuel : ℕ) (a : AudioFrameAssembler T) :
    List (AudioChunk T) → Except Failure (List (AudioChunk T))
  | [] => return (flush zero a).1
  | chunk :: chunks => do
    let pushed ← push later fuel a chunk
    let rest ← assemble zero fuel pushed.2 chunks
    return pushed.1 ++ rest

end Assembling

variable {T : Type}

def joined (chunks : List (AudioChunk T)) : List UInt8 := (chunks.map AudioChunk.data).flatten

section Framing
variable (later : T → T) (zero : T) (format : AudioFormat) (frameMs : ℕ)

/-- What is asked of the frames of some chunks. -/
structure Framed (chunks frames : List (AudioChunk T)) : Prop where
  size : ∃ size, 0 < size ∧ format.channels * format.sampleWidth ∣ size ∧
    ∀ frame ∈ frames, frame.data.length = size
  lossless : ∃ padding, (∀ frame ∈ frames.getLast?, padding < frame.data.length) ∧
    (frames = [] → padding = 0) ∧ joined frames = joined chunks ++ List.replicate padding 0

/-- Chunks with the same bytes give the same frames; with the same first timestamp also at the same
times. -/
def CutFree (chunks frames : List (AudioChunk T)) : Prop :=
  ∀ fuel others cut, (∀ chunk ∈ others, chunk.format = format) → joined others = joined chunks →
    assemble later zero fuel (assembler T format frameMs) others = .ok cut →
    cut.map AudioChunk.data = frames.map AudioChunk.data ∧
      (others.head?.map AudioChunk.timestamp = chunks.head?.map AudioChunk.timestamp →
        cut = frames)

/-- Framing of some chunks ends, with the frames that are asked for. -/
def Frames (chunks : List (AudioChunk T)) : Prop :=
  ∃ fuel frames, assemble later zero fuel (assembler T format frameMs) chunks = .ok frames ∧
    Framed format chunks frames ∧ CutFree later zero format frameMs chunks frames

end Framing

section Wholes
variable (later : T → T) (format : AudioFormat) (size : ℕ)

/-- The first frames of some data. -/
def wholes : ℕ → List UInt8 → T → List (AudioChunk T)
  | 0, _, _ => []
  | n + 1, data, timestamp =>
    ⟨data.take size, format, timestamp⟩ :: wholes n (data.drop size) (later timestamp)

variable {later format size}

theorem wholes_add (m n : ℕ) (data : List UInt8) (timestamp : T) :
    wholes later format size (m + n) data timestamp =
      wholes later format size m data timestamp ++
        wholes later format size n (data.drop (size * m)) (later^[m] timestamp) := by
  induction m generalizing data timestamp with
  | zero => rw [Nat.zero_add, Nat.mul_zero, List.drop_zero]; rfl
  | succ m ih =>
    rw [Nat.succ_add, wholes, wholes, ih, List.drop_drop, List.cons_append, Nat.mul_succ,
      Nat.add_comm size, Function.iterate_succ_apply]

theorem wholes_append {n : ℕ} {data : List UInt8} (more : List UInt8) (timestamp : T)
    (fits : size * n ≤ data.length) :
    wholes later format size n (data ++ more) timestamp =
      wholes later format size n data timestamp := by
  induction n generalizing data timestamp with
  | zero => rfl
  | succ n ih =>
    rw [Nat.mul_succ] at fits
    have short : size ≤ data.length := by omega
    have rest : size * n ≤ (data.drop size).length := by
      rw [List.length_drop]
      omega
    rw [wholes, wholes, List.take_append_of_le_length short, List.drop_append_of_le_length short,
      ih _ rest]

theorem wholes_length {n : ℕ} {data : List UInt8} {timestamp : T}
    (fits : size * n ≤ data.length) :
    ∀ frame ∈ wholes later format size n data timestamp, frame.data.length = size := by
  induction n generalizing data timestamp with
  | zero => exact List.forall_mem_nil _
  | succ n ih =>
    rw [Nat.mul_succ] at fits
    refine List.forall_mem_cons.mpr ⟨?_, ih ?_⟩
    · exact List.length_take_of_le (by omega)
    · rw [List.length_drop]
      omega

theorem joined_wholes (n : ℕ) (data : List UInt8) (timestamp : T) :
    joined (wholes later format size n data timestamp) = data.take (size * n) := by
  induction n generalizing data timestamp with
  | zero => rfl
  | succ n ih =>
    have rest := ih (data.drop size) (later timestamp)
    rw [joined] at rest ⊢
    rw [wholes, List.map_cons, List.flatten_cons, rest, Nat.mul_succ, Nat.add_comm, List.take_add]

/-- The data of the frames does not depend on their times. -/
theorem wholes_data (n : ℕ) (data : List UInt8) (timestamp other : T) :
    (wholes later format size n data timestamp).map AudioChunk.data =
      (wholes later format size n data other).map AudioChunk.data := by
  induction n generalizing data timestamp other with
  | zero => rfl
  | succ n ih => rw [wholes, wholes, List.map_cons, List.map_cons, ih]

end Wholes

section Loops
variable {later : T → T} {zero : T}

/-- With no positive frame size the loop of push does not end. -/
theorem cutFrames_zero {a : AudioFrameAssembler T} (none : a.frameBytes = 0) (given : T)
    (fuel : ℕ) : cutFrames later given fuel a = .error .outOfFuel := by
  induction fuel generalizing a with
  | zero => rfl
  | succ fuel ih =>
    have stays : a.frameBytes ≤ a.data.length := by omega
    have rest := ih (a := ⟨a.format, a.frameBytes, a.data.drop a.frameBytes,
      some (later (a.timestamp.getD given))⟩) none
    rw [cutFrames, if_pos stays]
    dsimp only
    rw [rest]
    rfl

/-- With a positive frame size the loop takes one round for each whole frame, and one more. -/
theorem cutFrames_eq {a : AudioFrameAssembler T} {t : T} (positive : 0 < a.frameBytes)
    (timestamp : a.timestamp = some t) (given : T) (fuel : ℕ) :
    cutFrames later given fuel a =
      if a.data.length / a.frameBytes < fuel then
        .ok (wholes later a.format a.frameBytes (a.data.length / a.frameBytes) a.data t,
          { a with
            data := a.data.drop (a.frameBytes * (a.data.length / a.frameBytes))
            timestamp := some (later^[a.data.length / a.frameBytes] t) })
      else .error .outOfFuel := by
  induction fuel generalizing a t with
  | zero => rfl
  | succ fuel ih =>
    obtain ⟨format, size, data, _⟩ := a
    cases timestamp
    dsimp only at positive ih ⊢
    rw [cutFrames]
    by_cases fits : size ≤ data.length
    · have count : data.length / size = (data.drop size).length / size + 1 := by
        rw [List.length_drop, Nat.div_eq_sub_div positive fits]
      have rest := ih (a := ⟨format, size, data.drop size, some (later t)⟩) positive rfl
      dsimp only at rest
      rw [if_pos fits, Option.getD_some]
      dsimp only
      rw [rest, count]
      by_cases enough : (data.drop size).length / size < fuel
      · rw [if_pos enough, if_pos (Nat.succ_lt_succ enough), wholes, List.drop_drop, Nat.mul_succ,
          Nat.add_comm (size * _), Function.iterate_succ_apply]
        rfl
      · rw [if_neg enough, if_neg fun h => enough (Nat.lt_of_succ_lt_succ h)]
        rfl
    · rw [if_neg fits, Nat.div_eq_of_lt (Nat.lt_of_not_le fits), if_pos (Nat.succ_pos fuel),
        Nat.mul_zero, List.drop_zero]
      rfl

end Loops

section Captures
variable (later : T → T) (zero : T) (format : AudioFormat) (frameMs : ℕ)

/-- How many whole frames some data holds. -/
def count (data : List UInt8) : ℕ := data.length / frameBytes format frameMs

/-- The data that no whole frame takes. -/
def left (data : List UInt8) : List UInt8 :=
  data.drop (frameBytes format frameMs * count format frameMs data)

/-- The assembler after some data with the first timestamp. -/
def captured (data : List UInt8) (t : T) : AudioFrameAssembler T where
  format := format
  frameBytes := frameBytes format frameMs
  data := left format frameMs data
  timestamp := some (later^[count format frameMs data] t)

def emitted (data : List UInt8) (t : T) : List (AudioChunk T) :=
  wholes later format (frameBytes format frameMs) (count format frameMs data) data t

/-- All frames of a capture, by its data and first timestamp. -/
def complete (data : List UInt8) (t : T) : List (AudioChunk T) :=
  emitted later format frameMs data t ++ (flush zero (captured later format frameMs data t)).1

variable {later zero format frameMs}

theorem count_mul (format : AudioFormat) (frameMs : ℕ) (data : List UInt8) :
    frameBytes format frameMs * count format frameMs data ≤ data.length :=
  Nat.mul_div_le data.length _

theorem count_append (positive : 0 < frameBytes format frameMs) (data more : List UInt8) :
    count format frameMs (data ++ more) = count format frameMs data +
      count format frameMs (left format frameMs data ++ more) := by
  have fits := count_mul format frameMs data
  have length : (data ++ more).length = (left format frameMs data ++ more).length +
      frameBytes format frameMs * count format frameMs data := by
    rw [left, List.length_append, List.length_append, List.length_drop]
    omega
  rw [count, length, Nat.add_mul_div_left _ _ positive, Nat.add_comm]
  rfl

theorem left_append (positive : 0 < frameBytes format frameMs) (data more : List UInt8) :
    left format frameMs (data ++ more) =
      left format frameMs (left format frameMs data ++ more) := by
  have fits := count_mul format frameMs data
  rw [left, count_append positive, Nat.mul_add, ← List.drop_drop,
    List.drop_append_of_le_length fits]
  rfl

theorem emitted_append (positive : 0 < frameBytes format frameMs) (data more : List UInt8) (t : T) :
    emitted later format frameMs (data ++ more) t = emitted later format frameMs data t ++
      emitted later format frameMs (left format frameMs data ++ more)
        (later^[count format frameMs data] t) := by
  have fits := count_mul format frameMs data
  rw [emitted, count_append positive, wholes_add, wholes_append _ _ fits,
    List.drop_append_of_le_length fits]
  rfl

/-- A push adds its data to the capture, and gives the frames that come with it. -/
theorem push_captured (later : T → T) (positive : 0 < frameBytes format frameMs)
    (data more : List UInt8)
    (t given : T) (fuel : ℕ) :
    (push later fuel (captured later format frameMs data t) ⟨more, format, given⟩ =
        .error .outOfFuel ∧ fuel ≤ (data ++ more).length) ∨
      ∃ frames, push later fuel (captured later format frameMs data t) ⟨more, format, given⟩ =
          .ok (frames, captured later format frameMs (data ++ more) t) ∧
        emitted later format frameMs data t ++ frames =
          emitted later format frameMs (data ++ more) t := by
  have pushed : push later fuel (captured later format frameMs data t) ⟨more, format, given⟩ =
      cutFrames later given fuel ⟨format, frameBytes format frameMs,
        left format frameMs data ++ more, some (later^[count format frameMs data] t)⟩ :=
    if_neg (not_not_intro rfl)
  rw [pushed, cutFrames_eq positive rfl]
  by_cases enough : count format frameMs (left format frameMs data ++ more) < fuel
  · refine Or.inr ⟨_, (if_pos enough).trans ?_, (emitted_append positive data more t).symm⟩
    rw [captured, left_append positive, count_append positive, Nat.add_comm,
      Function.iterate_add_apply]
    rfl
  · have few : count format frameMs (left format frameMs data ++ more) ≤
        (left format frameMs data ++ more).length := Nat.div_le_self ..
    have shorter : (left format frameMs data).length ≤ data.length :=
      (List.drop_sublist _ data).length_le
    refine Or.inl ⟨if_neg enough, Nat.le_trans (Nat.le_of_not_lt enough) (Nat.le_trans few ?_)⟩
    rw [List.length_append, List.length_append]
    exact Nat.add_le_add_right shorter _

theorem assemble_captured (later : T → T) (zero : T)
    (positive : 0 < frameBytes format frameMs) (data : List UInt8)
    {chunks : List (AudioChunk T)} (canonical : ∀ chunk ∈ chunks, chunk.format = format) (t : T)
    (fuel : ℕ) :
    (assemble later zero fuel (captured later format frameMs data t) chunks =
        .error .outOfFuel ∧ fuel ≤ (data ++ joined chunks).length) ∨
      ∃ frames, assemble later zero fuel (captured later format frameMs data t) chunks =
          .ok frames ∧
        emitted later format frameMs data t ++ frames =
          complete later zero format frameMs (data ++ joined chunks) t := by
  induction chunks generalizing data with
  | nil =>
    refine Or.inr ⟨_, rfl, ?_⟩
    rw [joined, List.map_nil, List.flatten_nil, List.append_nil]
    rfl
  | cons chunk chunks ih =>
    obtain ⟨more, own, given⟩ := chunk
    obtain ⟨rfl, canonical⟩ := List.forall_mem_cons.mp canonical
    have all : data ++ joined (⟨more, own, given⟩ :: chunks) = (data ++ more) ++ joined chunks :=
      (List.append_assoc ..).symm
    rw [all, assemble]
    obtain ⟨stuck, few⟩ | ⟨frames, pushed, same⟩ := push_captured later positive data
      more t given fuel
    · rw [stuck]
      refine Or.inl ⟨rfl, ?_⟩
      rw [List.length_append]
      omega
    · rw [pushed]
      obtain ⟨stuck, few⟩ | ⟨rest, ends, whole⟩ := ih (data ++ more) canonical
      · refine Or.inl ⟨?_, few⟩
        dsimp only [bind, Except.bind]
        rw [stuck]
      · refine Or.inr ⟨frames ++ rest, ?_, ?_⟩
        · dsimp only [bind, Except.bind]
          rw [ends]
          rfl
        · rw [← List.append_assoc, same, whole]

theorem count_nil : count format frameMs [] = 0 := Nat.zero_div _

theorem captured_nil (t : T) :
    captured later format frameMs [] t = ⟨format, frameBytes format frameMs, [], some t⟩ := by
  rw [captured, count_nil, left, List.drop_nil]
  rfl

theorem emitted_nil (t : T) : emitted later format frameMs [] t = [] := by
  rw [emitted, count_nil]
  rfl

theorem complete_nil (t : T) : complete later zero format frameMs [] t = [] := by
  rw [complete, emitted_nil, captured_nil]
  rfl

/-- The timestamp of the first chunk. -/
def firstTime (zero : T) (chunks : List (AudioChunk T)) : T :=
  (chunks.head?.map AudioChunk.timestamp).getD zero

/-- Framing fails for a lack of fuel only, and else gives the frames of the joined data. -/
theorem assemble_eq (later : T → T) (zero : T) (positive : 0 < frameBytes format frameMs)
    {chunks : List (AudioChunk T)}
    (canonical : ∀ chunk ∈ chunks, chunk.format = format) (fuel : ℕ) :
    (assemble later zero fuel (assembler T format frameMs) chunks = .error .outOfFuel ∧
        fuel ≤ (joined chunks).length) ∨
      assemble later zero fuel (assembler T format frameMs) chunks =
        .ok (complete later zero format frameMs (joined chunks) (firstTime zero chunks)) := by
  cases chunks with
  | nil =>
    refine Or.inr ?_
    rw [show joined ([] : List (AudioChunk T)) = [] from rfl, complete_nil]
    rfl
  | cons chunk chunks =>
    have start : assemble later zero fuel (assembler T format frameMs) (chunk :: chunks) =
        assemble later zero fuel (captured later format frameMs [] chunk.timestamp)
          (chunk :: chunks) := by
      rw [captured_nil]
      rfl
    have whole := assemble_captured later zero positive [] canonical
      chunk.timestamp fuel
    rw [start]
    rw [List.nil_append] at whole
    obtain stuck | ⟨frames, ends, same⟩ := whole
    · exact Or.inl stuck
    · rw [emitted_nil, List.nil_append] at same
      rw [ends, same]
      exact Or.inr rfl

theorem complete_data (data : List UInt8) (t other : T) :
    (complete later zero format frameMs data t).map AudioChunk.data =
      (complete later zero format frameMs data other).map AudioChunk.data := by
  have flushed (t : T) : (flush zero (captured later format frameMs data t)).1.map
      AudioChunk.data = if left format frameMs data = [] then []
        else [ljust (left format frameMs data) (frameBytes format frameMs)] := by
    rw [flush, captured]
    dsimp only
    split_ifs
    · rfl
    · rfl
  rw [complete, complete, List.map_append, List.map_append, flushed, flushed, emitted, emitted,
    wholes_data]

theorem left_length (positive : 0 < frameBytes format frameMs) (data : List UInt8) :
    (left format frameMs data).length < frameBytes format frameMs := by
  have rest := Nat.mod_lt data.length positive
  have split := Nat.div_add_mod data.length (frameBytes format frameMs)
  rw [left, List.length_drop, count]
  omega

theorem complete_length (later : T → T) (zero : T) (positive : 0 < frameBytes format frameMs)
    (data : List UInt8) (t : T) :
    ∀ frame ∈ complete later zero format frameMs data t,
      frame.data.length = frameBytes format frameMs := by
  have short := left_length positive data
  intro frame mem
  obtain mem | mem := List.mem_append.mp mem
  · exact wholes_length (count_mul _ _ data) frame mem
  · rw [flush, captured] at mem
    dsimp only at mem
    split_ifs at mem with empty
    · cases mem
    · rw [List.mem_singleton.mp mem, ljust, List.length_append, List.length_replicate]
      omega

theorem complete_framed (positive : 0 < frameBytes format frameMs)
    (aligned : format.channels * format.sampleWidth ∣ frameBytes format frameMs)
    (chunks : List (AudioChunk T)) (t : T) :
    Framed format chunks (complete later zero format frameMs (joined chunks) t) := by
  have lengths := complete_length later zero positive (joined chunks) t
  refine ⟨⟨_, positive, aligned, lengths⟩, ?_⟩
  generalize joined chunks = data at lengths ⊢
  have whole : joined (emitted later format frameMs data t) ++ left format frameMs data = data := by
    rw [emitted, joined_wholes]
    exact List.take_append_drop ..
  by_cases empty : left format frameMs data = []
  · have flushed : (flush zero (captured later format frameMs data t)).1 = [] := by
      rw [flush, captured, if_pos empty]
    have all : complete later zero format frameMs data t = emitted later format frameMs data t := by
      rw [complete, flushed, List.append_nil]
    rw [empty, List.append_nil] at whole
    refine ⟨0, fun frame last => ?_, fun _ => rfl, ?_⟩
    · rw [lengths frame (List.mem_of_mem_getLast? last)]
      exact positive
    · rw [all, whole]
      exact (List.append_nil _).symm
  · have flushed : (flush zero (captured later format frameMs data t)).1 =
        [⟨ljust (left format frameMs data) (frameBytes format frameMs), format,
          later^[count format frameMs data] t⟩] := by
      rw [flush, captured, if_neg empty]
      rfl
    have some := List.length_pos_iff.mpr empty
    refine ⟨frameBytes format frameMs - (left format frameMs data).length, fun frame last => ?_,
      fun none => ?_, ?_⟩
    · rw [lengths frame (List.mem_of_mem_getLast? last)]
      omega
    · rw [complete, flushed] at none
      simp at none
    · have split : joined (complete later zero format frameMs data t) =
          joined (emitted later format frameMs data t) ++
            ljust (left format frameMs data) (frameBytes format frameMs) := by
        rw [complete, flushed, joined, List.map_append, List.flatten_append, List.map_singleton,
          List.flatten_singleton]
        rfl
      rw [split, ljust, ← List.append_assoc, whole]

theorem complete_cutFree (positive : 0 < frameBytes format frameMs) {chunks : List (AudioChunk T)} :
    CutFree later zero format frameMs chunks
      (complete later zero format frameMs (joined chunks) (firstTime zero chunks)) := by
  intro fuel others cut canonical same ends
  obtain ⟨stuck, -⟩ | all := assemble_eq later zero positive canonical fuel
  · rw [stuck] at ends
    cases ends
  · rw [all] at ends
    cases ends
    rw [same]
    refine ⟨complete_data _ _ _, fun first => ?_⟩
    rw [firstTime, first]
    rfl

/-- With no positive frame size only a capture without a chunk ends. -/
theorem assemble_zero (none : frameBytes format frameMs = 0) {chunks frames : List (AudioChunk T)}
    (canonical : ∀ chunk ∈ chunks, chunk.format = format) {fuel : ℕ}
    (ends : assemble later zero fuel (assembler T format frameMs) chunks = .ok frames) :
    chunks = [] ∧ frames = [] := by
  cases chunks with
  | nil =>
    cases ends
    exact ⟨rfl, rfl⟩
  | cons chunk chunks =>
    have own := canonical chunk List.mem_cons_self
    have pushed : push later fuel (assembler T format frameMs) chunk = .error .outOfFuel :=
      (if_neg (not_not_intro own)).trans (cutFrames_zero none _ _)
    rw [assemble, pushed] at ends
    cases ends

/-- Frames of some data that are whole samples make the frame size whole samples. -/
theorem aligned_of_framed (positive : 0 < frameBytes format frameMs)
    {chunks frames : List (AudioChunk T)} (canonical : ∀ chunk ∈ chunks, chunk.format = format)
    {fuel : ℕ} (ends : assemble later zero fuel (assembler T format frameMs) chunks = .ok frames)
    (framed : Framed format chunks frames) (some : joined chunks ≠ []) :
    format.channels * format.sampleWidth ∣ frameBytes format frameMs := by
  obtain ⟨⟨size, -, aligned, lengths⟩, padding, -, -, whole⟩ := framed
  obtain ⟨stuck, -⟩ | all := assemble_eq later zero positive canonical fuel
  · rw [stuck] at ends
    cases ends
  · rw [all] at ends
    cases ends
    have lengths' := complete_length later zero positive
      (joined chunks) (firstTime zero chunks)
    cases first : complete later zero format frameMs (joined chunks) (firstTime zero chunks) with
    | nil =>
      rw [first] at whole
      exact absurd (List.append_eq_nil_iff.mp whole.symm).1 some
    | cons frame _ =>
      have mem : frame ∈ complete later zero format frameMs (joined chunks)
          (firstTime zero chunks) := by
        rw [first]
        exact List.mem_cons_self
      rwa [← lengths frame mem, lengths' frame mem] at aligned

/-- Framing meets all that is asked of it where a frame is a positive number of whole samples, and
on no data. -/
theorem frames_iff (later : T → T) (zero : T) (format : AudioFormat) (frameMs : ℕ)
    (chunks : List (AudioChunk T)) (canonical : ∀ chunk ∈ chunks, chunk.format = format) :
    Frames later zero format frameMs chunks ↔ chunks = [] ∨
      (0 < frameBytes format frameMs ∧ (joined chunks = [] ∨
        format.channels * format.sampleWidth ∣ frameBytes format frameMs)) := by
  have sample : 0 < format.channels * format.sampleWidth :=
    Nat.mul_pos format.positive.2.1 format.positive.2.2
  have nothing (empty : joined chunks = []) : Framed format chunks [] :=
    ⟨⟨_, sample, Nat.dvd_refl _, List.forall_mem_nil _⟩, 0, nofun, fun _ => rfl, by
      rw [empty]
      rfl⟩
  obtain none | positive := Nat.eq_zero_or_pos (frameBytes format frameMs)
  · rw [none]
    constructor
    · rintro ⟨fuel, frames, ends, -⟩
      exact Or.inl (assemble_zero none canonical ends).1
    · rintro (rfl | ⟨⟨⟩, -⟩)
      refine ⟨0, [], rfl, nothing rfl, fun fuel others cut canonical _ ends => ?_⟩
      rw [(assemble_zero none canonical ends).2]
      exact ⟨rfl, fun _ => rfl⟩
  · have ends : ∃ fuel, assemble later zero fuel (assembler T format frameMs) chunks =
        .ok (complete later zero format frameMs (joined chunks) (firstTime zero chunks)) :=
      ⟨(joined chunks).length + 1, (assemble_eq later zero positive canonical _).resolve_left
        fun stuck => absurd stuck.2 (by omega)⟩
    obtain ⟨fuel, ends⟩ := ends
    constructor
    · rintro ⟨other, frames, done, framed, -⟩
      exact Or.inr ⟨positive, or_iff_not_imp_left.mpr
        (aligned_of_framed positive canonical done framed)⟩
    · intro condition
      refine ⟨fuel, _, ends, ?_, complete_cutFree positive⟩
      by_cases empty : joined chunks = []
      · rw [empty, complete_nil]
        exact nothing empty
      · obtain rfl | ⟨-, none | aligned⟩ := condition
        · exact absurd rfl empty
        · exact absurd none empty
        · exact complete_framed positive aligned chunks _

end Captures

/-- Frames of 20 ms at 16000 samples a second, of two chunks with timestamps in ms. -/
theorem frames_canonical : Frames (· + 20) 0 ⟨16000, 1, 2, by decide⟩ 20
    [⟨[1, 2, 3], ⟨16000, 1, 2, by decide⟩, 7⟩, ⟨[4], ⟨16000, 1, 2, by decide⟩, 9⟩] :=
  (frames_iff (· + 20) 0 _ 20 _ (by decide)).mpr
    (Or.inr ⟨by decide, Or.inr (by decide)⟩)

/-- Frames of 20 ms at 11025 samples a second hold 441 bytes, half a sample too much; frames of 1 ms
at 400 samples a second hold none, and push does not end. -/
theorem frames_lost :
    ¬ Frames (· + 20) 0 ⟨11025, 1, 2, by decide⟩ 20
      [⟨[1, 2], ⟨11025, 1, 2, by decide⟩, 0⟩] ∧
    ¬ Frames (· + 1) 0 ⟨400, 1, 2, by decide⟩ 1 [⟨[1, 2], ⟨400, 1, 2, by decide⟩, 0⟩] := by
  constructor
  · rintro ⟨fuel, frames, ends, framed, -⟩
    exact absurd (aligned_of_framed (by decide) (by decide) ends framed nofun) (by decide)
  · rintro ⟨fuel, frames, ends, -⟩
    have none := (assemble_zero (by decide) (by decide) ends).1
    cases none

end RoboAgent.AudioFraming
