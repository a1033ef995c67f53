import Mathlib
import RoboAgent.VisionTypes

/-! The voice activity detector. Speech and silence decisions with their durations drive a machine
of four states and two accumulators. A duration is a number of bytes over 32, which floats add
without rounding. Speech that resumes while the detector is stopping is debounced like new speech,
so a short silence can end an utterance then; that is the only way it ends early. -/

namespace RoboAgent.VoiceActivity

inductive VADState
  | quiet
  | starting
  | speaking
  | stopping
deriving DecidableEq

/-- The state of the debounce. -/
structure Activity where
  state : VADState := .quiet
  startSeenMs : ℚ := 0
  stopSeenMs : ℚ := 0
deriving DecidableEq

section Debounce
variable (startMs stopMs : ℚ)

def advance (s : Activity) (rawSpeaking : Bool) (durationMs : ℚ) : Activity :=
  if rawSpeaking then
    let s := { s with stopSeenMs := 0 }
    let s := match s.state with
      | .quiet | .stopping =>
        { s with state := .starting, startSeenMs := s.startSeenMs + durationMs }
      | .starting => { s with startSeenMs := s.startSeenMs + durationMs }
      | .speaking => s
    if startMs ≤ s.startSeenMs then { s with state := .speaking, startSeenMs := 0 } else s
  else
    let s := { s with startSeenMs := 0 }
    match s.state with
    | .quiet => s
    | .starting => { s with state := .quiet }
    | .speaking | .stopping =>
      let s := { s with state := .stopping, stopSeenMs := s.stopSeenMs + durationMs }
      if stopMs ≤ s.stopSeenMs then { s with state := .quiet, stopSeenMs := 0 } else s

/-- A decision on some audio, or a call of reset. -/
inductive Input
  | decision (speech : Bool) (durationMs : ℚ)
  | reset
deriving DecidableEq

def step (s : Activity) : Input → Activity
  | .decision speech durationMs => advance startMs stopMs s speech durationMs
  | .reset => {}

def after (inputs : List Input) : Activity := inputs.foldl (step startMs stopMs) {}

end Debounce

section Detector
variable {F M : Type} [LinearOrder F] [Zero F]

/-- The detector on confidences and levels in any order; what the model keeps between frames is
left to the model. -/
structure SileroVAD (F M : Type) where
  threshold : F
  minVolume : F
  startMs : ℚ
  stopMs : ℚ
  available : Bool
  externalConfidence : Option F
  buffer : List UInt8
  model : M
  confidence : F
  level : F
  activity : Activity

/-- What the detector calls: the level of some audio, and one run of the model on a frame. -/
structure Media (F M : Type) where
  rms : List UInt8 → F
  infer : M → List UInt8 → F × M
  fresh : M
  fallbackLevel : F

variable (media : Media F M)

def SileroVAD.advanced (vad : SileroVAD F M) (speech : Bool) (durationMs : ℚ) : SileroVAD F M :=
  { vad with activity := advance vad.startMs vad.stopMs vad.activity speech durationMs }

/-- One frame of the buffer. -/
def processFrame (vad : SileroVAD F M) : SileroVAD F M :=
  let ran := media.infer vad.model (vad.buffer.take 1024)
  let vad := { vad with buffer := vad.buffer.drop 1024, confidence := ran.1, model := ran.2 }
  vad.advanced (decide (vad.threshold ≤ vad.confidence) && decide (vad.minVolume ≤ vad.level)) 32

def processFrames (vad : SileroVAD F M) : Nat → SileroVAD F M
  | 0 => vad
  | frames + 1 => processFrames (processFrame media vad) frames

/-- The decisions on audio whose level is measured. -/
def processData (vad : SileroVAD F M) (data : List UInt8) : SileroVAD F M :=
  if vad.available then
    processFrames media { vad with buffer := vad.buffer ++ data }
      ((vad.buffer ++ data).length / 1024)
  else
    let confidence := vad.externalConfidence.getD 0
    let speech :=
      if vad.externalConfidence.isSome then decide (vad.threshold ≤ confidence)
      else decide (max vad.minVolume media.fallbackLevel ≤ vad.level)
    { vad with confidence }.advanced (speech && decide (vad.minVolume ≤ vad.level))
      (data.length / 32)

/-- Audio in the format of the detector; none where it is refused. -/
def process (vad : SileroVAD F M) (sampleRate sampleWidth channels : Nat) (data : List UInt8) :
    Option (SileroVAD F M × Bool) :=
  if sampleRate ≠ 16000 ∨ sampleWidth ≠ 2 ∨ channels ≠ 1 then none
  else
    let next := processData media { vad with level := if data = [] then 0 else media.rms data } data
    some (next, decide (next.activity.state = .speaking))

def SileroVAD.reset (vad : SileroVAD F M) : SileroVAD F M :=
  let model := if vad.available then media.fresh else vad.model
  { vad with buffer := [], confidence := 0, level := 0, model, activity := {} }

variable {media}

/-- The activity after some decisions. -/
def Decides (vad next : SileroVAD F M) : Prop :=
  ∃ decisions : List (Bool × ℚ), next.activity =
    (decisions.map fun d => Input.decision d.1 d.2).foldl (step vad.startMs vad.stopMs) vad.activity

omit [Zero F] in
theorem decides_processFrames (vad : SileroVAD F M) (n : Nat) :
    Decides vad (processFrames media vad n) := by
  induction n generalizing vad with
  | zero => exact ⟨[], rfl⟩
  | succ n ih =>
    obtain ⟨decisions, h⟩ := ih (processFrame media vad)
    exact ⟨(_, 32) :: decisions, h⟩

theorem decides_processData (vad : SileroVAD F M) (data : List UInt8) :
    Decides vad (processData media vad data) := by
  rw [processData]
  by_cases available : vad.available
  · rw [if_pos available]
    exact decides_processFrames { vad with buffer := vad.buffer ++ data } _
  · rw [if_neg available]
    exact ⟨[(_, _)], rfl⟩

/-- A call makes decisions, and its answer is whether the last of them left the detector
speaking. -/
theorem process_decides {vad next : SileroVAD F M} {sampleRate sampleWidth channels : Nat}
    {data : List UInt8} {speaking : Bool}
    (h : process media vad sampleRate sampleWidth channels data = some (next, speaking)) :
    Decides vad next ∧ speaking = decide (next.activity.state = .speaking) := by
  rw [process] at h
  by_cases format : sampleRate ≠ 16000 ∨ sampleWidth ≠ 2 ∨ channels ≠ 1
  · rw [if_pos format] at h
    cases h
  · rw [if_neg format] at h
    cases h
    exact ⟨decides_processData { vad with level := _ } data, rfl⟩

end Detector

def Input.is (speech : Bool) : Input → Bool
  | .decision kind _ => kind == speech
  | .reset => false

def Input.durationMs : Input → ℚ
  | .decision _ durationMs => durationMs
  | .reset => 0

/-- How long the decisions at the end of the inputs were all of the one kind. -/
def lasting (speech : Bool) (inputs : List Input) : ℚ :=
  ((inputs.rtakeWhile (Input.is speech)).map Input.durationMs).sum

section Lasting
variable {speech : Bool} {inputs : List Input} {durationMs : ℚ}

theorem lasting_same : lasting speech (inputs ++ [.decision speech durationMs]) =
    lasting speech inputs + durationMs := by
  have same : Input.is speech (.decision speech durationMs) = true := beq_self_eq_true speech
  rw [lasting, List.rtakeWhile_concat_pos _ _ _ same, List.map_append, List.sum_append,
    List.map_singleton, List.sum_singleton]
  rfl

theorem lasting_other {input : Input} (other : input.is speech = false) :
    lasting speech (inputs ++ [input]) = 0 := by
  rw [lasting, List.rtakeWhile_concat_neg _ _ _ (by rw [other]; nofun)]
  rfl

end Lasting

section Runs
variable {startMs stopMs : ℚ} {inputs : List Input}

theorem after_concat (input : Input) :
    after startMs stopMs (inputs ++ [input]) =
      step startMs stopMs (after startMs stopMs inputs) input :=
  List.foldl_concat ..

/-- The accumulators measure the decisions at the end of the inputs. -/
structure Measured (inputs : List Input) (s : Activity) : Prop where
  start : s.startSeenMs = if s.state = .starting then lasting true inputs else 0
  speech : s.state = .quiet ∨ s.state = .stopping → lasting true inputs = 0
  stop : s.state = .speaking ∨ s.state = .stopping → s.stopSeenMs = lasting false inputs
  silence : s.state = .starting ∨ s.state = .speaking → lasting false inputs = 0

theorem measured_speech {ms total : ℚ} (h : total = lasting true (inputs ++ [.decision true ms])) :
    Measured (inputs ++ [.decision true ms])
      (if startMs ≤ total then ⟨.speaking, 0, 0⟩ else ⟨.starting, total, 0⟩) := by
  have silence : lasting false (inputs ++ [.decision true ms]) = 0 := lasting_other rfl
  split_ifs
  · exact ⟨rfl, by rintro (⟨⟨⟩⟩ | ⟨⟨⟩⟩), fun _ => silence.symm, fun _ => silence⟩
  · exact ⟨h, by rintro (⟨⟨⟩⟩ | ⟨⟨⟩⟩), by rintro (⟨⟨⟩⟩ | ⟨⟨⟩⟩), fun _ => silence⟩

theorem measured_silence {ms total : ℚ}
    (h : total = lasting false (inputs ++ [.decision false ms])) :
    Measured (inputs ++ [.decision false ms])
      (if stopMs ≤ total then ⟨.quiet, 0, 0⟩ else ⟨.stopping, 0, total⟩) := by
  have speech : lasting true (inputs ++ [.decision false ms]) = 0 := lasting_other rfl
  split_ifs
  · exact ⟨rfl, fun _ => speech, by rintro (⟨⟨⟩⟩ | ⟨⟨⟩⟩), by rintro (⟨⟨⟩⟩ | ⟨⟨⟩⟩)⟩
  · exact ⟨rfl, fun _ => speech, fun _ => h, by rintro (⟨⟨⟩⟩ | ⟨⟨⟩⟩)⟩

/-- A silence decision while no utterance is ending. -/
theorem measured_quiet {ms stopSeen : ℚ} :
    Measured (inputs ++ [.decision false ms]) ⟨.quiet, 0, stopSeen⟩ :=
  ⟨rfl, fun _ => lasting_other rfl, by rintro (⟨⟨⟩⟩ | ⟨⟨⟩⟩), by rintro (⟨⟨⟩⟩ | ⟨⟨⟩⟩)⟩

theorem measured_step (start : 0 < startMs) {s : Activity} (h : Measured inputs s) (input : Input) :
    Measured (inputs ++ [input]) (step startMs stopMs s input) := by
  obtain ⟨state, startSeen, stopSeen⟩ := s
  obtain ⟨hstart, hspeech, hstop, hsilence⟩ := h
  cases input with
  | reset =>
    exact ⟨rfl, fun _ => lasting_other rfl, by rintro (⟨⟨⟩⟩ | ⟨⟨⟩⟩), by rintro (⟨⟨⟩⟩ | ⟨⟨⟩⟩)⟩
  | decision speech ms =>
    cases speech with
    | true =>
      have total : lasting true (inputs ++ [.decision true ms]) = lasting true inputs + ms :=
        lasting_same
      have fresh (zero : startSeen = 0) (none : lasting true inputs = 0) :
          startSeen + ms = lasting true (inputs ++ [.decision true ms]) := by
        rw [zero, total, none]
      cases state with
      | quiet => exact measured_speech (fresh hstart (hspeech (Or.inl rfl)))
      | stopping => exact measured_speech (fresh hstart (hspeech (Or.inr rfl)))
      | starting =>
        have same : startSeen = lasting true inputs := hstart
        exact measured_speech (by rw [same, total])
      | speaking =>
        have zero : startSeen = 0 := hstart
        have stays : step startMs stopMs ⟨.speaking, startSeen, stopSeen⟩ (.decision true ms) =
            ⟨.speaking, startSeen, 0⟩ := if_neg (by rw [zero]; exact start.not_ge)
        have silence : lasting false (inputs ++ [.decision true ms]) = 0 := lasting_other rfl
        rw [stays, zero]
        exact ⟨rfl, by rintro (⟨⟨⟩⟩ | ⟨⟨⟩⟩), fun _ => silence.symm, fun _ => silence⟩
    | false =>
      have total (same : stopSeen = lasting false inputs) :
          stopSeen + ms = lasting false (inputs ++ [.decision false ms]) := by
        rw [same]
        exact lasting_same.symm
      cases state with
      | quiet | starting => exact measured_quiet
      | speaking => exact measured_silence (total (hstop (Or.inl rfl)))
      | stopping => exact measured_silence (total (hstop (Or.inr rfl)))

theorem measured_after (start : 0 < startMs) (inputs : List Input) :
    Measured inputs (after startMs stopMs inputs) := by
  induction inputs using List.reverseRecOn with
  | nil => exact ⟨rfl, fun _ => rfl, by rintro (⟨⟨⟩⟩ | ⟨⟨⟩⟩), by rintro (⟨⟨⟩⟩ | ⟨⟨⟩⟩)⟩
  | append_singleton inputs input ih =>
    rw [after_concat]
    exact measured_step start ih input

/-- The detector was speaking once and has not been quiet since. -/
def Confirmed (startMs stopMs : ℚ) (inputs : List Input) : Prop :=
  ∃ done rest, inputs = done ++ rest ∧ (after startMs stopMs done).state = .speaking ∧
    ∀ part, part <+: rest → (after startMs stopMs (done ++ part)).state ≠ .quiet

theorem Confirmed.not_quiet (h : Confirmed startMs stopMs inputs) :
    (after startMs stopMs inputs).state ≠ .quiet := by
  obtain ⟨done, rest, rfl, -, loud⟩ := h
  exact loud rest (List.prefix_refl rest)

theorem confirmed_concat {input : Input} : Confirmed startMs stopMs (inputs ++ [input]) ↔
    (after startMs stopMs (inputs ++ [input])).state = .speaking ∨
      (Confirmed startMs stopMs inputs ∧
        (after startMs stopMs (inputs ++ [input])).state ≠ .quiet) := by
  constructor
  · intro h
    have loud' := h.not_quiet
    obtain ⟨done, rest, same, speaking, loud⟩ := h
    obtain rfl | ⟨rest, last, rfl⟩ := List.eq_nil_or_concat' rest
    · rw [List.append_nil] at same
      rw [same]
      exact Or.inl speaking
    · rw [← List.append_assoc] at same
      obtain ⟨rfl, -⟩ := List.append_inj' same rfl
      exact Or.inr ⟨⟨done, rest, rfl, speaking, fun part before =>
        loud part (before.trans (List.prefix_append _ _))⟩, loud'⟩
  · rintro (speaking | ⟨⟨done, rest, rfl, speaking, loud⟩, last⟩)
    · refine ⟨_, [], (List.append_nil _).symm, speaking, fun part before => ?_⟩
      rw [List.prefix_nil.mp before, List.append_nil, speaking]
      nofun
    · refine ⟨done, rest ++ [input], List.append_assoc .., speaking, fun part before => ?_⟩
      obtain rfl | before := List.prefix_concat_iff.mp before
      · rwa [List.append_assoc] at last
      · exact loud part before

theorem confirmed_of_speaking (speaking : (after startMs stopMs inputs).state = .speaking) :
    Confirmed startMs stopMs inputs := by
  refine ⟨inputs, [], (List.append_nil _).symm, speaking, fun part before => ?_⟩
  rw [List.prefix_nil.mp before, List.append_nil, speaking]
  nofun

/-- A step enters SPEAKING on enough speech only. -/
theorem step_speaking {s : Activity} {input : Input} (before : s.state ≠ .speaking)
    (h : (step startMs stopMs s input).state = .speaking) :
    ∃ ms, input = .decision true ms ∧ startMs ≤ s.startSeenMs + ms := by
  obtain ⟨state, startSeen, stopSeen⟩ := s
  cases input with
  | reset => cases h
  | decision speech ms =>
    cases speech with
    | true =>
      refine ⟨ms, rfl, ?_⟩
      by_contra short
      cases state with
      | speaking => exact before rfl
      | quiet | starting | stopping =>
        rw [step, advance, if_pos rfl] at h
        dsimp only at h
        rw [if_neg short] at h
        cases h
    | false =>
      cases state with
      | quiet | starting => cases h
      | speaking => exact absurd rfl before
      | stopping =>
        rw [step, advance, if_neg Bool.false_ne_true] at h
        dsimp only at h
        split_ifs at h

/-- A step ends in STOPPING after SPEAKING or STOPPING only. -/
theorem step_stopping {s : Activity} {input : Input}
    (h : (step startMs stopMs s input).state = .stopping) :
    s.state = .speaking ∨ s.state = .stopping := by
  obtain ⟨state, startSeen, stopSeen⟩ := s
  cases state with
  | speaking => exact Or.inl rfl
  | stopping => exact Or.inr rfl
  | quiet | starting =>
    cases input with
    | reset => cases h
    | decision speech ms =>
      cases speech with
      | false => cases h
      | true =>
        rw [step, advance, if_pos rfl] at h
        dsimp only at h
        split_ifs at h

/-- A step reaches QUIET by a reset, or by silence that is enough or that follows speech not yet
confirmed. -/
theorem step_quiet {s : Activity} {input : Input} (before : s.state ≠ .quiet)
    (noReset : input ≠ .reset) :
    (step startMs stopMs s input).state = .quiet ↔ ∃ ms, input = .decision false ms ∧
      (s.state = .starting ∨ stopMs ≤ s.stopSeenMs + ms) := by
  obtain ⟨state, startSeen, stopSeen⟩ := s
  cases input with
  | reset => exact absurd rfl noReset
  | decision speech ms =>
    cases speech with
    | true =>
      have loud : (step startMs stopMs ⟨state, startSeen, stopSeen⟩ (.decision true ms)).state ≠
          .quiet := by
        cases state with
        | quiet => exact absurd rfl before
        | starting | speaking | stopping =>
          rw [step, advance, if_pos rfl]
          dsimp only
          split_ifs
          · nofun
          · nofun
      exact ⟨fun h => absurd h loud, by rintro ⟨_, ⟨⟩, _⟩⟩
    | false =>
      have only (condition : Prop) : (∃ other, Input.decision false ms = .decision false other ∧
          (state = .starting ∨ stopMs ≤ stopSeen + other)) ↔
          (state = .starting ∨ stopMs ≤ stopSeen + ms) :=
        ⟨by rintro ⟨_, ⟨⟩, h⟩; exact h, fun h => ⟨ms, rfl, h⟩⟩
      rw [only True]
      cases state with
      | quiet => exact absurd rfl before
      | starting => exact ⟨fun _ => Or.inl rfl, fun _ => rfl⟩
      | speaking | stopping =>
        rw [step, advance, if_neg Bool.false_ne_true]
        dsimp only
        split_ifs with enough
        · exact ⟨fun _ => Or.inr enough, fun _ => rfl⟩
        · exact ⟨nofun, by rintro (⟨⟨⟩⟩ | h); exact absurd h enough⟩

/-- In STOPPING the detector was speaking. -/
theorem confirmed_of_stopping (stopping : (after startMs stopMs inputs).state = .stopping) :
    Confirmed startMs stopMs inputs := by
  induction inputs using List.reverseRecOn with
  | nil => cases stopping
  | append_singleton inputs input ih =>
    have before := stopping
    rw [after_concat] at before
    rw [confirmed_concat, stopping]
    refine Or.inr ⟨?_, nofun⟩
    obtain speaking | stopping := step_stopping before
    · exact confirmed_of_speaking speaking
    · exact ih stopping

/-- Speech is confirmed by a run of `startMs` of speech and ends by a run of `stopMs` of silence. -/
def Hysteresis (startMs stopMs : ℚ) (inputs : List Input) : Prop :=
  ∀ done input, done ++ [input] <+: inputs →
    ((after startMs stopMs done).state ≠ .speaking →
      (after startMs stopMs (done ++ [input])).state = .speaking →
      startMs ≤ lasting true (done ++ [input])) ∧
    (Confirmed startMs stopMs done → input ≠ .reset →
      (after startMs stopMs (done ++ [input])).state = .quiet →
      stopMs ≤ lasting false (done ++ [input]))

theorem entered_lasting (start : 0 < startMs) {input : Input}
    (before : (after startMs stopMs inputs).state ≠ .speaking)
    (h : (after startMs stopMs (inputs ++ [input])).state = .speaking) :
    startMs ≤ lasting true (inputs ++ [input]) := by
  rw [after_concat] at h
  obtain ⟨ms, rfl, enough⟩ := step_speaking before h
  have measured : Measured inputs (after startMs stopMs inputs) := measured_after start inputs
  have same : (after startMs stopMs inputs).startSeenMs = lasting true inputs := by
    have hstart := measured.start
    have hspeech := measured.speech
    cases state : (after startMs stopMs inputs).state with
    | speaking => exact absurd state before
    | starting => rw [hstart, if_pos state]
    | quiet =>
      rw [hstart, if_neg (by rw [state]; nofun), hspeech (Or.inl state)]
    | stopping =>
      rw [hstart, if_neg (by rw [state]; nofun), hspeech (Or.inr state)]
  rwa [lasting_same, ← same]

/-- In STARTING the silence before is none; in SPEAKING and STOPPING it is what the detector
counted. -/
theorem left_lasting (start : 0 < startMs) {ms : ℚ}
    (loud : (after startMs stopMs inputs).state ≠ .quiet) :
    stopMs ≤ lasting false (inputs ++ [.decision false ms]) ↔
      if (after startMs stopMs inputs).state = .starting then stopMs ≤ ms
      else stopMs ≤ (after startMs stopMs inputs).stopSeenMs + ms := by
  have measured : Measured inputs (after startMs stopMs inputs) := measured_after start inputs
  have hstop := measured.stop
  have hsilence := measured.silence
  rw [lasting_same]
  cases state : (after startMs stopMs inputs).state with
  | quiet => exact absurd state loud
  | starting => rw [if_pos rfl, hsilence (Or.inl state), zero_add]
  | speaking => rw [if_neg (by nofun), hstop (Or.inl state)]
  | stopping => rw [if_neg (by nofun), hstop (Or.inr state)]

/-- The hysteresis holds in the runs where no silence of less than `stopMs` is decided while the
detector is STARTING again on speech that resumed while it was STOPPING. -/
theorem hysteresis_iff (startMs stopMs : ℚ) (start : 0 < startMs) (inputs : List Input) :
    Hysteresis startMs stopMs inputs ↔ ∀ done ms, done ++ [.decision false ms] <+: inputs →
      (after startMs stopMs done).state = .starting → Confirmed startMs stopMs done →
      stopMs ≤ ms := by
  constructor
  · intro h done ms now starting confirmed
    have loud := confirmed.not_quiet
    have noReset : Input.decision false ms ≠ .reset := nofun
    have quiet : (after startMs stopMs (done ++ [.decision false ms])).state = .quiet := by
      rw [after_concat, step_quiet loud noReset]
      exact ⟨ms, rfl, Or.inl starting⟩
    have enough := (h done _ now).2 confirmed noReset quiet
    rwa [left_lasting start loud, if_pos starting] at enough
  · intro h done input now
    refine ⟨entered_lasting start, fun confirmed noReset quiet => ?_⟩
    have loud := confirmed.not_quiet
    rw [after_concat, step_quiet loud noReset] at quiet
    obtain ⟨ms, rfl, reason⟩ := quiet
    rw [left_lasting start loud]
    split_ifs with starting
    · exact h done ms now starting confirmed
    · exact reason.resolve_left starting

/-- Speech of 40 ms ends with a silence of 20 ms, and with one of 40 ms. -/
theorem hysteresis_forty :
    Hysteresis 40 40 [.decision true 40, .decision false 20, .decision false 20] ∧
      (after 40 40 [.decision true 40, .decision false 20, .decision false 20]).state = .quiet := by
  refine ⟨(hysteresis_iff 40 40 (by decide +kernel) _).mpr fun done ms now starting => ?_,
    by decide +kernel⟩
  have part := (List.mem_inits _ _).mpr ((List.prefix_append _ _).trans now)
  have never : ∀ part ∈ [.decision true 40, .decision false 20, .decision false 20].inits,
      (after 40 40 part).state ≠ .starting := by
    decide +kernel
  exact absurd starting (never done part)

/-- A silence of 20 ms after speech that resumed for 20 ms ends an utterance that 40 ms of silence
should end. -/
theorem short_silence : ¬ Hysteresis 40 40
    [.decision true 40, .decision false 20, .decision true 20, .decision false 20] := by
  intro h
  have speaking : Confirmed 40 40 [.decision true 40] := confirmed_of_speaking (by decide +kernel)
  have stopping : Confirmed 40 40 ([.decision true 40] ++ [.decision false 20]) :=
    confirmed_concat.mpr (Or.inr ⟨speaking, by decide +kernel⟩)
  have resumed : Confirmed 40 40 ([.decision true 40, .decision false 20] ++ [.decision true 20]) :=
    confirmed_concat.mpr (Or.inr ⟨stopping, by decide +kernel⟩)
  have enough := (h _ (.decision false 20) (List.prefix_refl _)).2 resumed nofun (by decide +kernel)
  exact absurd enough (by decide +kernel)

end Runs

end RoboAgent.VoiceActivity
