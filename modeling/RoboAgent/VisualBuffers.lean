import Mathlib
import RoboAgent.CaptureMetadata
import RoboAgent.Dicts
import RoboAgent.FalliblePrograms

/-! The buffer of recent captures. Its clock is known by the answers it gives, one after the other;
the buffer counts how often it has asked. What an operation changed before it raised stays. -/

namespace RoboAgent.VisualBuffers
open RoboAgent.Dicts RoboAgent.KeyedLists RoboAgent.FalliblePrograms RoboAgent.VisionTypes

structure BufferLimits where
  maxBufferFrames : Nat := 16
  maxBufferBytes : Nat := 134217728
  maxBufferAgeNs : Nat := 5000000000
  positive : ∀ limit ∈ [maxBufferFrames, maxBufferBytes, maxBufferAgeNs], 1 ≤ limit := by decide

structure VisualBuffer (K : Type) where
  streamId : String
  clock : Nat → Option CaptureTime
  asked : Nat := 0
  limits : BufferLimits := {}
  clockId : Option String := none
  captures : Dict Nat (Capture K) := .empty

/-- What a caller or the buffer asks of a capture: the bytes it takes, and its digest. -/
structure Measures (K : Type) where
  size : K → Nat
  digest : Capture K → Except Raised String

abbrev Buffered (K : Type) := Program (VisualBuffer K) Raised

/-- Whether the age of a capture is between zero and the maximum. -/
def BufferLimits.admits (limits : BufferLimits) (now : Nat) (capturedAt : Nat) : Bool :=
  let age : Int := now - capturedAt
  0 ≤ age && age ≤ limits.maxBufferAgeNs

section
variable {K : Type}

def VisualBuffer.held (b : VisualBuffer K) : List (Capture K) := b.captures.entries.map Prod.snd

/-- The next answer of the clock, if it is a time of the active epoch. -/
def VisualBuffer.answer (b : VisualBuffer K) : Except Raised CaptureTime :=
  match b.clock b.asked with
  | some now =>
    if some now.clockId = b.clockId then .ok now
    else .error (.visionError "buffer_clock_unavailable")
  | none => .error (.visionError "buffer_clock_unavailable")

def now : Buffered K CaptureTime := do
  let b ← get
  modify fun b => { b with asked := b.asked + 1 }
  raising b.answer

def alive (limits : BufferLimits) (now : Nat) (captures : Dict Nat (Capture K)) :
    Dict Nat (Capture K) :=
  captures.keep fun _ capture => limits.admits now capture.capturedAt.nanoseconds

def prune : Buffered K Unit := do
  let now ← now
  modify fun b => { b with captures := alive b.limits now.nanoseconds b.captures }

def clear : Buffered K Unit := modify fun b => { b with captures := .empty }

def activateEpoch (clockId : String) : Buffered K Unit := do
  if ¬(MessageChecks.visible clockId = true ∧ clockId.length ≤ 256) then
    throw (.visionError "vision_identity_invalid")
  else
    let b ← get
    if b.clockId ≠ some clockId then
      clear
      modify fun b => { b with clockId := some clockId }

def exceeds (size : K → Nat) (limits : BufferLimits) (captures : Dict Nat (Capture K)) : Bool :=
  limits.maxBufferFrames < captures.entries.length ||
    limits.maxBufferBytes < (captures.entries.map fun entry => size entry.2.content).sum

theorem length_remove_lt {captures : Dict Nat (Capture K)} {sequence : Nat}
    (mem : sequence ∈ keys captures.entries) :
    (captures.remove sequence).entries.length < captures.entries.length := by
  obtain ⟨entry, inside, rfl⟩ := List.mem_map.mp mem
  refine List.length_filter_lt_length_iff_exists.mpr ⟨entry, inside, ?_⟩
  simp

/-- The loop of push: the smallest sequence goes first. A map without entries exceeds no limit. -/
def evict (size : K → Nat) (limits : BufferLimits) (captures : Dict Nat (Capture K)) :
    Dict Nat (Capture K) :=
  if exceeds size limits captures then
    match _oldest : (keys captures.entries).min? with
    | some sequence => evict size limits (captures.remove sequence)
    | none => captures
  else captures
termination_by captures.entries.length
decreasing_by exact length_remove_lt (List.min?_mem _oldest)

/-- A capture is pushed again only with the same content. -/
def sameContent (digest : Capture K → Except Raised String) (existing capture : Capture K) :
    Except Raised Unit :=
  if existing.ref ≠ capture.ref then .error (.visionError "capture_content_conflict")
  else do
    let stored ← digest existing
    let pushed ← digest capture
    if stored ≠ pushed then .error (.visionError "capture_content_conflict") else .ok ()

def push (measures : Measures K) (capture : Capture K) : Buffered K Unit := do
  let b ← get
  if capture.streamId ≠ b.streamId ∨ some capture.capturedAt.clockId ≠ b.clockId then
    throw (.visionError "buffer_epoch_mismatch")
  else
    let now ← now
    if now.nanoseconds < capture.capturedAt.nanoseconds then
      throw (.visionError "buffer_future_capture")
    else
      prune
      let b ← get
      match b.captures.get capture.sequence with
      | some existing => raising (sameContent measures.digest existing capture)
      | none =>
        if b.limits.maxBufferBytes < measures.size capture.content then
          throw (.visionError "buffer_limit_exceeded")
        else
          modify fun b => { b with captures := b.captures.put capture.sequence capture }
          prune
          modify fun b => { b with captures := evict measures.size b.limits b.captures }

def latest : Buffered K (Option (Capture K)) := do
  prune
  let b ← get
  pure ((keys b.captures.entries).max?.bind b.captures.get)

def timeDistance (time : CaptureTime) (capture : Capture K) : Nat :=
  ((capture.capturedAt.nanoseconds : Int) - time.nanoseconds).natAbs

/-- Nearer in time, or as near and of a larger sequence. -/
def nearer (time : CaptureTime) (capture other : Capture K) : Bool :=
  timeDistance time capture < timeDistance time other ||
    (timeDistance time capture == timeDistance time other && other.sequence < capture.sequence)

/-- The first of the nearest captures, as min finds it. -/
def closest (time : CaptureTime) : List (Capture K) → Option (Capture K)
  | [] => none
  | capture :: rest =>
    match closest time rest with
    | none => some capture
    | some best => some (if nearer time best capture then best else capture)

def nearest (time : CaptureTime) (maxDeltaNs : Option Int) : Buffered K (Option (Capture K)) := do
  let b ← get
  if some time.clockId ≠ b.clockId then throw (.visionError "buffer_epoch_mismatch")
  else if maxDeltaNs.any (· < 0) then throw (.visionError "vision_input_invalid")
  else
    prune
    let b ← get
    pure ((closest time b.held).filter fun best =>
      maxDeltaNs.all fun delta : Int => (timeDistance time best : Int) ≤ delta)

inductive Operation (K : Type)
  | activateEpoch (clockId : String)
  | clear
  | push (capture : Capture K)
  | latest
  | nearest (time : CaptureTime) (maxDeltaNs : Option Int)

def perform (measures : Measures K) : Operation K → Buffered K (Option (Capture K))
  | .activateEpoch clockId => do
    activateEpoch clockId
    pure none
  | .clear => do
    clear
    pure none
  | .push capture => do
    push measures capture
    pure none
  | .latest => latest
  | .nearest time maxDeltaNs => nearest time maxDeltaNs

/-- The buffer after the clock was asked. -/
def VisualBuffer.tick (b : VisualBuffer K) : VisualBuffer K := { b with asked := b.asked + 1 }

def VisualBuffer.pruned (b : VisualBuffer K) (now : CaptureTime) : VisualBuffer K :=
  { b.tick with captures := alive b.limits now.nanoseconds b.captures }

def VisualBuffer.stored (b : VisualBuffer K) (capture : Capture K) : VisualBuffer K :=
  { b with captures := b.captures.put capture.sequence capture }

def VisualBuffer.evicted (b : VisualBuffer K) (size : K → Nat) : VisualBuffer K :=
  { b with captures := evict size b.limits b.captures }

theorem exec_now (b : VisualBuffer K) : exec now b = (b.answer, b.tick) := rfl

theorem exec_prune (b : VisualBuffer K) :
    exec prune b = match b.answer with
      | .ok now => (.ok (), b.pruned now)
      | .error raised => (.error raised, b.tick) := by
  rw [prune, exec_bind, exec_now]
  cases b.answer <;> rfl

theorem exec_prune_of_ok {b : VisualBuffer K} {now : CaptureTime} (h : b.answer = .ok now) :
    exec prune b = (.ok (), b.pruned now) := by
  rw [exec_prune, h]

theorem exec_prune_of_error {b : VisualBuffer K} {raised : Raised}
    (h : b.answer = .error raised) : exec prune b = (.error raised, b.tick) := by
  rw [exec_prune, h]

/-- The push passes every check that comes before the capture is stored. -/
structure Stores (measures : Measures K) (b : VisualBuffer K) (capture : Capture K)
    (now : CaptureTime) : Prop where
  bound : capture.streamId = b.streamId ∧ some capture.capturedAt.clockId = b.clockId
  past : ∃ first, b.answer = .ok first ∧ capture.capturedAt.nanoseconds ≤ first.nanoseconds
  answered : b.tick.answer = .ok now
  fresh : (b.tick.pruned now).captures.get capture.sequence = none
  small : measures.size capture.content ≤ b.limits.maxBufferBytes

/-- What a push can do: it is refused before it changes anything, or after it pruned; it finds the
capture; or it stores the capture, and then the clock answers once more or it does not. -/
inductive Pushed (measures : Measures K) (b : VisualBuffer K) (capture : Capture K) :
    Except Raised Unit × VisualBuffer K → Prop
  | refused {raised : Raised} {asked : Nat} :
    Pushed measures b capture (.error raised, { b with asked })
  | unwanted {now : CaptureTime} {raised : Raised} (answered : b.tick.answer = .ok now) :
    Pushed measures b capture (.error raised, b.tick.pruned now)
  | known {now : CaptureTime} {existing : Capture K} (answered : b.tick.answer = .ok now)
    (found : (b.tick.pruned now).captures.get capture.sequence = some existing)
    (same : sameContent measures.digest existing capture = .ok ()) :
    Pushed measures b capture (.ok (), b.tick.pruned now)
  | interrupted {now : CaptureTime} {raised : Raised} (stores : Stores measures b capture now)
    (failed : ((b.tick.pruned now).stored capture).answer = .error raised) :
    Pushed measures b capture (.error raised, ((b.tick.pruned now).stored capture).tick)
  | kept {now later : CaptureTime} (stores : Stores measures b capture now)
    (again : ((b.tick.pruned now).stored capture).answer = .ok later) :
    Pushed measures b capture
      (.ok (), (((b.tick.pruned now).stored capture).pruned later).evicted measures.size)

theorem push_cases (measures : Measures K) (capture : Capture K) (b : VisualBuffer K) :
    Pushed measures b capture (exec (push measures capture) b) := by
  rw [push, exec_bind, exec_get]
  dsimp only
  rw [exec_ite]
  split_ifs with mismatch
  · exact .refused
  rw [not_or, not_not, not_not] at mismatch
  cases first : b.answer with
  | error raised =>
    rw [exec_bind_of_error (t := b.tick) (by rw [exec_now, first])]
    exact .refused
  | ok early =>
    rw [exec_bind_of_ok (t := b.tick) (by rw [exec_now, first]), exec_ite]
    split_ifs with future
    · exact .refused
    cases answered : b.tick.answer with
    | error raised =>
      rw [exec_bind_of_error (exec_prune_of_error answered)]
      exact .refused
    | ok now =>
      rw [exec_bind_of_ok (exec_prune_of_ok answered), exec_bind, exec_get]
      dsimp only
      cases found : (b.tick.pruned now).captures.get capture.sequence with
      | some existing =>
        dsimp only
        rw [exec_raising]
        cases same : sameContent measures.digest existing capture with
        | error raised => exact .unwanted answered
        | ok _ => exact .known answered found same
      | none =>
        dsimp only
        rw [exec_ite]
        split_ifs with large
        · exact .unwanted answered
        have stores : Stores measures b capture now :=
          ⟨mismatch, ⟨early, first, Nat.not_lt.mp future⟩, answered, found, Nat.not_lt.mp large⟩
        rw [exec_bind_of_ok (t := (b.tick.pruned now).stored capture) (exec_modify ..)]
        cases again : ((b.tick.pruned now).stored capture).answer with
        | error raised =>
          rw [exec_bind_of_error (exec_prune_of_error again)]
          exact .interrupted stores again
        | ok later =>
          rw [exec_bind_of_ok (exec_prune_of_ok again)]
          exact .kept stores again

theorem nearer_iff {time : CaptureTime} {capture other : Capture K} :
    nearer time capture other = true ↔ timeDistance time capture < timeDistance time other ∨
      timeDistance time capture = timeDistance time other ∧ other.sequence < capture.sequence := by
  rw [nearer, Bool.or_eq_true, Bool.and_eq_true, decide_eq_true_eq, decide_eq_true_eq, beq_iff_eq]

theorem not_nearer_iff {time : CaptureTime} {capture other : Capture K} :
    nearer time other capture = false ↔ timeDistance time capture < timeDistance time other ∨
      timeDistance time capture = timeDistance time other ∧ other.sequence ≤ capture.sequence := by
  rw [← Bool.not_eq_true, nearer_iff]
  omega

theorem closest_eq_none {time : CaptureTime} {captures : List (Capture K)} :
    closest time captures = none ↔ captures = [] := by
  cases captures with
  | nil => exact iff_of_true rfl rfl
  | cons capture rest =>
    rw [closest]
    split <;> exact iff_of_false nofun nofun

/-- No capture is nearer than the closest. -/
theorem closest_eq_some {time : CaptureTime} {captures : List (Capture K)} {best : Capture K}
    (h : closest time captures = some best) :
    best ∈ captures ∧ ∀ other ∈ captures, nearer time other best = false := by
  induction captures generalizing best with
  | nil => cases h
  | cons capture rest ih =>
    rw [closest] at h
    have irrefl : nearer time capture capture = false :=
      not_nearer_iff.mpr (.inr ⟨rfl, Nat.le_refl _⟩)
    split at h
    · rename_i none
      cases h
      rw [closest_eq_none.mp none]
      exact ⟨List.mem_cons_self, List.forall_mem_singleton.mpr irrefl⟩
    · rename_i last found
      obtain ⟨mem, least⟩ := ih found
      cases h
      rw [List.forall_mem_cons]
      split_ifs with first
      · refine ⟨List.mem_cons_of_mem _ mem, ?_, least⟩
        rw [nearer_iff] at first
        rw [not_nearer_iff]
        omega
      · refine ⟨List.mem_cons_self, irrefl, fun other inside => ?_⟩
        have behind := least other inside
        rw [nearer_iff] at first
        rw [not_nearer_iff] at behind ⊢
        omega

section
variable {size : K → Nat} {limits : BufferLimits} {captures : Dict Nat (Capture K)}

theorem exceeds_eq_false_iff : exceeds size limits captures = false ↔
    captures.entries.length ≤ limits.maxBufferFrames ∧
      (captures.entries.map fun entry => size entry.2.content).sum ≤ limits.maxBufferBytes := by
  rw [exceeds, Bool.or_eq_false_iff, decide_eq_false_iff_not, decide_eq_false_iff_not,
    Nat.not_lt, Nat.not_lt]

/-- A part of what fits, fits. -/
theorem fits_of_sublist {others : Dict Nat (Capture K)}
    (part : others.entries.Sublist captures.entries)
    (fits : exceeds size limits captures = false) : exceeds size limits others = false := by
  rw [exceeds_eq_false_iff] at fits ⊢
  refine ⟨part.length_le.trans fits.1, ?_⟩
  exact ((part.map _).sum_le_sum fun _ _ => Nat.zero_le _).trans fits.2

theorem evict_of_fits (fits : exceeds size limits captures = false) :
    evict size limits captures = captures := by
  rw [evict, if_neg (Bool.not_eq_true _ ▸ fits)]

theorem evict_sublist : (evict size limits captures).entries.Sublist captures.entries := by
  fun_induction evict size limits captures with
  | case1 captures exceeding sequence oldest ih => exact ih.trans List.filter_sublist
  | case2 captures exceeding none => exact List.Sublist.refl _
  | case3 captures fits => exact List.Sublist.refl _

theorem evict_fits : exceeds size limits (evict size limits captures) = false := by
  fun_induction evict size limits captures with
  | case1 captures exceeding sequence oldest ih => exact ih
  | case2 captures exceeding none =>
    rw [List.min?_eq_none_iff, keys, List.map_eq_nil_iff] at none
    rw [exceeds_eq_false_iff, none]
    exact ⟨Nat.zero_le _, Nat.zero_le _⟩
  | case3 captures fits => exact Bool.not_eq_true _ ▸ fits

theorem exceeds_congr {others : Dict Nat (Capture K)} (same : others.entries = captures.entries) :
    exceeds size limits others = exceeds size limits captures := by
  rw [exceeds, exceeds, same]

theorem keep_remove {sequence bound : Nat} (before : sequence < bound) :
    ((captures.remove sequence).keep fun later _ => bound ≤ later).entries =
      (captures.keep fun later _ => bound ≤ later).entries := by
  change List.filter _ (List.filter _ _) = List.filter _ _
  rw [List.filter_filter]
  refine List.filter_congr fun entry _ => ?_
  change (decide (bound ≤ entry.1) && decide (entry.1 ≠ sequence)) = decide (bound ≤ entry.1)
  by_cases later : bound ≤ entry.1
  · rw [decide_eq_true later, decide_eq_true (Nat.ne_of_gt (Nat.lt_of_lt_of_le before later))]
    rfl
  · rw [decide_eq_false later]
    rfl

/-- A capture stays exactly if, from its sequence on, the captures are within the limits. -/
theorem mem_evict_iff {entry : Nat × Capture K} (mem : entry ∈ captures.entries) :
    entry ∈ (evict size limits captures).entries ↔
      exceeds size limits (captures.keep fun later _ => entry.1 ≤ later) = false := by
  fun_induction evict size limits captures with
  | case1 captures exceeding sequence oldest ih =>
    have least := (List.min?_eq_some_iff.mp oldest).2
    by_cases first : entry.1 = sequence
    · refine iff_of_false (fun stays => ?_) fun fits => ?_
      · exact of_decide_eq_true (List.mem_filter.mp (evict_sublist.mem stays)).2 first
      · have all : (captures.keep fun later _ => entry.1 ≤ later).entries = captures.entries := by
          refine List.filter_eq_self.mpr fun later inside => ?_
          rw [first]
          exact decide_eq_true (least _ (List.mem_map_of_mem inside))
        rw [exceeds_congr all, exceeding] at fits
        cases fits
    · have inside : entry ∈ (captures.remove sequence).entries :=
        List.mem_filter.mpr ⟨mem, decide_eq_true first⟩
      have before := lt_of_le_of_ne (least _ (List.mem_map_of_mem mem)) (Ne.symm first)
      rw [ih inside, exceeds_congr (keep_remove before)]
  | case2 captures exceeding none =>
    rw [List.min?_eq_none_iff, keys, List.map_eq_nil_iff] at none
    rw [none] at mem
    cases mem
  | case3 captures fits =>
    exact iff_of_true mem (fits_of_sublist List.filter_sublist (Bool.not_eq_true _ ▸ fits))

theorem evict_oldest {entry kept : Nat × Capture K} (mem : entry ∈ captures.entries)
    (gone : entry ∉ (evict size limits captures).entries)
    (stays : kept ∈ (evict size limits captures).entries) : entry.1 < kept.1 := by
  by_contra later
  have part : (captures.keep fun sequence _ => entry.1 ≤ sequence).entries.Sublist
      (captures.keep fun sequence _ => kept.1 ≤ sequence).entries :=
    List.monotone_filter_right _ fun other behind =>
      decide_eq_true ((Nat.not_lt.mp later).trans (of_decide_eq_true behind))
  have fits := (mem_evict_iff (evict_sublist.mem stays)).mp stays
  exact gone ((mem_evict_iff mem).mpr (fits_of_sublist part fits))

end

end

end RoboAgent.VisualBuffers
