import RoboAgent.Runs
import RoboAgent.VisualBuffers
import RoboAgent.WorldRuns

/-! Runs of the buffer over any clock. A capture that is stored stays although the push raises when
the clock does not answer once more; but for that, a push that raises adds nothing, and the buffer
keeps within its epoch, its ages and its limits. -/

namespace RoboAgent.BufferRuns
open RoboAgent.Dicts RoboAgent.KeyedLists RoboAgent.FalliblePrograms RoboAgent.VisionTypes
open RoboAgent.CaptureMetadata RoboAgent.VisualBuffers
open RoboAgent.WorldStore (Library)
open RoboAgent.Runs (run Along)

/-- The buffer, and what the clock said last in an operation that returned. -/
structure Watched (K : Type) where
  buffer : VisualBuffer K
  reading : Option Nat := none

section
variable {K : Type}

def lastReading (b : VisualBuffer K) : Option Nat :=
  if b.asked = 0 then none else (b.clock (b.asked - 1)).map CaptureTime.nanoseconds

/-- What an operation ends with: what it returned or raised, and the buffer. -/
abbrev Outcome (K : Type) := Except Raised (Option (Capture K)) × VisualBuffer K

def Watched.after (w : Watched K) (outcome : Outcome K) : Watched K where
  buffer := outcome.2
  reading := match outcome.1 with
    | .ok _ => if outcome.2.asked = w.buffer.asked then w.reading else lastReading outcome.2
    | .error _ => w.reading

variable (measures : Measures K)

def Watched.outcome (w : Watched K) (op : Operation K) : Outcome K :=
  exec (perform measures op) w.buffer

def Watched.next (w : Watched K) (op : Operation K) : Watched K := w.after (w.outcome measures op)

/-- After a push has stored its capture, the clock answers. -/
def Answered (w : Watched K) : Operation K → Prop
  | .push capture => ∀ now, Stores measures w.buffer capture now →
      ∃ later, w.buffer.tick.tick.answer = .ok later
  | _ => True

/-- At the answer of this number, counted from the operation's first, the capture has no valid
age. -/
def Expired (b : VisualBuffer K) (number : Nat) (capture : Capture K) : Prop :=
  ∃ now, b.clock (b.asked + number) = some now ∧
    b.limits.admits now.nanoseconds capture.capturedAt.nanoseconds = false

def Within (time : CaptureTime) (maxDeltaNs : Option Int) (capture : Capture K) : Prop :=
  ∀ delta, maxDeltaNs = some delta → (timeDistance time capture : Int) ≤ delta

/-- What an operation is to keep, and what a lookup is to find. -/
structure Sound (Alike : Capture K → Capture K → Prop) (w : Watched K) (op : Operation K) :
    Prop where
  held : ∀ value, (w.outcome measures op).1 = .ok value →
    ∀ capture ∈ (w.next measures op).buffer.held,
      capture.streamId = (w.next measures op).buffer.streamId ∧
        some capture.capturedAt.clockId = (w.next measures op).buffer.clockId ∧
        ∃ now, (w.next measures op).reading = some now ∧
          w.buffer.limits.admits now capture.capturedAt.nanoseconds = true
  bounded : ∀ value capture, op = .push capture → (w.outcome measures op).1 = .ok value →
    (w.next measures op).buffer.held.length ≤ w.buffer.limits.maxBufferFrames ∧
      ((w.next measures op).buffer.held.map fun capture => measures.size capture.content).sum ≤
        w.buffer.limits.maxBufferBytes
  oldestFirst : ∀ value pushed, op = .push pushed → (w.outcome measures op).1 = .ok value →
    ∀ capture ∈ pushed :: w.buffer.held,
      capture.sequence ∈ (w.next measures op).buffer.held.map Capture.sequence ∨
        (capture ∈ w.buffer.held ∧ Expired w.buffer 1 capture) ∨ Expired w.buffer 2 capture ∨
        ∀ kept ∈ (w.next measures op).buffer.held, capture.sequence < kept.sequence
  raising : ∀ raised pushed, op = .push pushed → (w.outcome measures op).1 = .error raised →
    ∀ capture ∈ (w.next measures op).buffer.held, capture ∈ w.buffer.held
  conflict : ∀ pushed, op = .push pushed → ∀ existing ∈ w.buffer.held,
    existing.sequence = pushed.sequence → ¬Alike existing pushed →
      ¬Expired w.buffer 1 existing → ∃ raised, (w.outcome measures op).1 = .error raised
  nearest : ∀ time maxDeltaNs best, op = .nearest time maxDeltaNs →
    (w.outcome measures op).1 = .ok best →
      (∀ capture, best = some capture → capture ∈ (w.next measures op).buffer.held ∧
        Within time maxDeltaNs capture ∧
        ∀ other ∈ (w.next measures op).buffer.held,
          timeDistance time capture < timeDistance time other ∨
            timeDistance time capture = timeDistance time other ∧
              other.sequence ≤ capture.sequence) ∧
      (best = none ↔ ∀ capture ∈ (w.next measures op).buffer.held,
        ¬Within time maxDeltaNs capture)

/-- The invariant of runs in which the clock answers after a capture is stored. -/
structure Kept (w : Watched K) : Prop where
  bound : ∀ entry ∈ w.buffer.captures.entries, entry.1 = entry.2.sequence ∧
    entry.2.streamId = w.buffer.streamId ∧ some entry.2.capturedAt.clockId = w.buffer.clockId
  fresh : ∀ entry ∈ w.buffer.captures.entries, ∃ now, w.reading = some now ∧
    w.buffer.limits.admits now entry.2.capturedAt.nanoseconds = true
  fits : exceeds measures.size w.buffer.limits w.buffer.captures = false

section
variable {measures : Measures K} {b : VisualBuffer K}

theorem answer_eq_ok {now : CaptureTime} (h : b.answer = .ok now) :
    b.clock b.asked = some now ∧ some now.clockId = b.clockId := by
  rw [VisualBuffer.answer] at h
  split at h
  · rename_i here
    split_ifs at h with active
    cases h
    exact ⟨here, active⟩
  · cases h

theorem lastReading_tick {now : CaptureTime} (h : b.answer = .ok now) :
    lastReading b.tick = some now.nanoseconds := by
  have asked : b.tick.asked ≠ 0 := Nat.succ_ne_zero _
  rw [lastReading, if_neg asked]
  exact congrArg (Option.map CaptureTime.nanoseconds) (answer_eq_ok h).1

theorem mem_alive {limits : BufferLimits} {now : Nat} {captures : Dict Nat (Capture K)}
    {entry : Nat × Capture K} : entry ∈ (alive limits now captures).entries ↔
      entry ∈ captures.entries ∧ limits.admits now entry.2.capturedAt.nanoseconds = true :=
  List.mem_filter

/-- Nothing but fewer captures, and more questions to the clock. -/
structure Shrinks (b b' : VisualBuffer K) : Prop where
  streamId : b'.streamId = b.streamId
  limits : b'.limits = b.limits
  clockId : b'.clockId = b.clockId
  captures : b'.captures.entries.Sublist b.captures.entries

/-- What shrinks is kept, if its captures are fresh for the reading that counts. -/
theorem kept_of_shrinks {w w' : Watched K} (kept : Kept measures w)
    (shrinks : Shrinks w.buffer w'.buffer)
    (fresh : ∀ entry ∈ w'.buffer.captures.entries, ∃ now, w'.reading = some now ∧
      w.buffer.limits.admits now entry.2.capturedAt.nanoseconds = true) : Kept measures w' where
  bound entry mem := by
    rw [shrinks.streamId, shrinks.clockId]
    exact kept.bound entry (shrinks.captures.mem mem)
  fresh := by
    rw [shrinks.limits]
    exact fresh
  fits := by
    rw [shrinks.limits]
    exact fits_of_sublist shrinks.captures kept.fits

theorem reading_of_ok {w : Watched K} {value : Option (Capture K)} {now : CaptureTime}
    {later : VisualBuffer K} (answered : b.answer = .ok now) (asked : w.buffer.asked ≤ b.asked)
    (same : lastReading later = lastReading b.tick) (count : later.asked = b.asked + 1) :
    (w.after (.ok value, later)).reading = some now.nanoseconds := by
  have more : later.asked ≠ w.buffer.asked := by omega
  change (if later.asked = w.buffer.asked then _ else lastReading later) = _
  rw [if_neg more, same, lastReading_tick answered]

/-- What an operation can do. -/
inductive Performed (measures : Measures K) (b : VisualBuffer K) :
    Operation K → Outcome K → Prop
  | refused {op : Operation K} {raised : Raised} {asked : Nat} :
    Performed measures b op (.error raised, { b with asked })
  | active {clockId : String} (same : b.clockId = some clockId) :
    Performed measures b (.activateEpoch clockId) (.ok none, b)
  | reset {clockId : String} : Performed measures b (.activateEpoch clockId)
    (.ok none, { b with captures := .empty, clockId := some clockId })
  | cleared : Performed measures b .clear (.ok none, { b with captures := .empty })
  | pushed {capture : Capture K} {result : Except Raised Unit} {after : VisualBuffer K}
    (pushed : Pushed measures b capture (result, after)) :
    Performed measures b (.push capture) (result.map fun _ => none, after)
  | latest {now : CaptureTime} (answered : b.answer = .ok now) :
    Performed measures b .latest
      (.ok ((keys (b.pruned now).captures.entries).max?.bind (b.pruned now).captures.get),
        b.pruned now)
  | nearest {time now : CaptureTime} {maxDeltaNs : Option Int} (answered : b.answer = .ok now) :
    Performed measures b (.nearest time maxDeltaNs)
      (.ok ((closest time (b.pruned now).held).filter fun best =>
        maxDeltaNs.all fun delta : Int => (timeDistance time best : Int) ≤ delta), b.pruned now)

theorem outcome_push (w : Watched K) (capture : Capture K) :
    w.outcome measures (.push capture) =
      ((exec (push measures capture) w.buffer).1.map fun _ => none,
        (exec (push measures capture) w.buffer).2) := by
  rw [Watched.outcome, perform, exec_bind]
  generalize exec (push measures capture) w.buffer = outcome
  obtain ⟨_ | _, after⟩ := outcome <;> rfl

theorem pushed_of_ok {w : Watched K} {capture : Capture K} {value : Option (Capture K)}
    (returned : (w.outcome measures (.push capture)).1 = .ok value) :
    Pushed measures w.buffer capture (.ok (), (w.next measures (.push capture)).buffer) := by
  have done := push_cases measures capture w.buffer
  rw [Watched.next, Watched.after, outcome_push]
  rw [outcome_push] at returned
  generalize exec (push measures capture) w.buffer = outcome at done returned ⊢
  obtain ⟨raised | _, after⟩ := outcome
  · cases returned
  · exact done

theorem pushed_of_error {w : Watched K} {capture : Capture K} {raised : Raised}
    (failed : (w.outcome measures (.push capture)).1 = .error raised) :
    Pushed measures w.buffer capture
      (.error raised, (w.next measures (.push capture)).buffer) := by
  have done := push_cases measures capture w.buffer
  rw [Watched.next, Watched.after, outcome_push]
  rw [outcome_push] at failed
  generalize exec (push measures capture) w.buffer = outcome at done failed ⊢
  obtain ⟨raised' | _, after⟩ := outcome
  · cases failed
    exact done
  · cases failed

theorem performed (measures : Measures K) (b : VisualBuffer K) (op : Operation K) :
    Performed measures b op (exec (perform measures op) b) := by
  cases op with
  | activateEpoch clockId =>
    rw [perform, activateEpoch, exec_bind, exec_ite]
    split_ifs
    · rw [exec_bind, exec_get]
      dsimp only
      rw [exec_ite]
      split_ifs with other
      · exact .reset
      · exact .active (not_not.mp other)
    · exact .refused
  | clear => exact .cleared
  | push capture =>
    have same := @outcome_push K measures ⟨b, none⟩ capture
    rw [Watched.outcome] at same
    rw [same]
    exact .pushed (push_cases measures capture b)
  | latest =>
    rw [perform, latest]
    cases answered : b.answer with
    | error raised =>
      rw [exec_bind_of_error (exec_prune_of_error answered)]
      exact .refused
    | ok now =>
      rw [exec_bind_of_ok (exec_prune_of_ok answered)]
      exact .latest answered
  | nearest time maxDeltaNs =>
    rw [perform, nearest, exec_bind, exec_get]
    dsimp only
    rw [exec_ite, exec_ite]
    split_ifs
    · exact .refused
    · exact .refused
    · cases answered : b.answer with
      | error raised =>
        rw [exec_bind_of_error (exec_prune_of_error answered)]
        exact .refused
      | ok now =>
        rw [exec_bind_of_ok (exec_prune_of_ok answered)]
        exact .nearest answered

theorem bound_stored {capture : Capture K} {now : CaptureTime}
    (bound : ∀ entry ∈ b.captures.entries, entry.1 = entry.2.sequence ∧
      entry.2.streamId = b.streamId ∧ some entry.2.capturedAt.clockId = b.clockId)
    (stores : Stores measures b capture now) :
    ∀ entry ∈ ((b.tick.pruned now).stored capture).captures.entries,
      entry.1 = entry.2.sequence ∧
        entry.2.streamId = b.streamId ∧ some entry.2.capturedAt.clockId = b.clockId := by
  have entries : ((b.tick.pruned now).stored capture).captures.entries =
      (b.tick.pruned now).captures.entries ++ [(capture.sequence, capture)] :=
    Dict.put_eq_append capture stores.fresh
  rw [entries, List.forall_mem_append, List.forall_mem_singleton]
  exact ⟨fun entry mem => bound entry (mem_alive.mp mem).1, rfl, stores.bound⟩

theorem kept_push {w : Watched K} {capture : Capture K} (kept : Kept measures w)
    (answered : Answered measures w (.push capture)) {result : Except Raised Unit}
    {after : VisualBuffer K} (pushed : Pushed measures w.buffer capture (result, after)) :
    Kept measures (w.after (result.map fun _ => none, after)) := by
  cases pushed with
  | refused => exact kept_of_shrinks kept ⟨rfl, rfl, rfl, List.Sublist.refl _⟩ kept.fresh
  | unwanted here =>
    exact kept_of_shrinks kept ⟨rfl, rfl, rfl, List.filter_sublist⟩ fun entry mem =>
      kept.fresh entry (mem_alive.mp mem).1
  | known here found same =>
    refine kept_of_shrinks kept ⟨rfl, rfl, rfl, List.filter_sublist⟩ fun entry mem => ?_
    exact ⟨_, reading_of_ok here (Nat.le_succ _) rfl rfl, (mem_alive.mp mem).2⟩
  | interrupted stores failed =>
    obtain ⟨later, again⟩ := answered _ stores
    cases failed.symm.trans again
  | kept stores again =>
    refine ⟨fun entry mem => ?_, fun entry mem => ?_, evict_fits⟩
    · have stored := (mem_alive.mp (evict_sublist.mem mem)).1
      exact bound_stored kept.bound stores entry stored
    · have admitted := (mem_alive.mp (evict_sublist.mem mem)).2
      exact ⟨_, reading_of_ok again (Nat.le_add_right _ 2) rfl rfl, admitted⟩

/-- One step keeps the invariant, if the clock answers after a capture is stored. -/
theorem kept_next {w : Watched K} {op : Operation K} (kept : Kept measures w)
    (answered : Answered measures w op) : Kept measures (w.next measures op) := by
  have done : Performed measures w.buffer op (w.outcome measures op) := performed ..
  rw [Watched.next]
  generalize w.outcome measures op = outcome at done ⊢
  cases done with
  | refused => exact kept_of_shrinks kept ⟨rfl, rfl, rfl, List.Sublist.refl _⟩ kept.fresh
  | active same =>
    refine kept_of_shrinks kept ⟨rfl, rfl, rfl, List.Sublist.refl _⟩ ?_
    change ∀ entry ∈ _, ∃ now, (if w.buffer.asked = w.buffer.asked then _ else _) = _ ∧ _
    rw [if_pos rfl]
    exact kept.fresh
  | reset => exact ⟨nofun, nofun, exceeds_eq_false_iff.mpr ⟨Nat.zero_le _, Nat.zero_le _⟩⟩
  | cleared => exact ⟨nofun, nofun, exceeds_eq_false_iff.mpr ⟨Nat.zero_le _, Nat.zero_le _⟩⟩
  | pushed pushed => exact kept_push kept answered pushed
  | latest here =>
    refine kept_of_shrinks kept ⟨rfl, rfl, rfl, List.filter_sublist⟩ fun entry mem => ?_
    exact ⟨_, reading_of_ok here (Nat.le_refl _) rfl rfl, (mem_alive.mp mem).2⟩
  | nearest here =>
    refine kept_of_shrinks kept ⟨rfl, rfl, rfl, List.filter_sublist⟩ fun entry mem => ?_
    exact ⟨_, reading_of_ok here (Nat.le_refl _) rfl rfl, (mem_alive.mp mem).2⟩

theorem limits_of_performed {op : Operation K} {outcome : Outcome K}
    (done : Performed measures b op outcome) : outcome.2.limits = b.limits := by
  cases done with
  | pushed pushed => cases pushed <;> rfl
  | _ => rfl

theorem expired_of_not_mem {w : Watched K} {number : Nat} {now : CaptureTime}
    {entry : Nat × Capture K} {captures : Dict Nat (Capture K)}
    (said : w.buffer.clock (w.buffer.asked + number) = some now)
    (mem : entry ∈ captures.entries)
    (gone : entry ∉ (alive w.buffer.limits now.nanoseconds captures).entries) :
    Expired w.buffer number entry.2 := by
  rw [mem_alive, not_and, Bool.not_eq_true] at gone
  exact ⟨now, said, gone mem⟩

theorem oldest_first {w : Watched K} {pushed : Capture K} {value : Unit} {after : VisualBuffer K}
    (kept : Kept measures w) (done : Pushed measures w.buffer pushed (.ok value, after)) :
    ∀ capture ∈ pushed :: w.buffer.held,
      capture.sequence ∈ after.held.map Capture.sequence ∨
        (capture ∈ w.buffer.held ∧ Expired w.buffer 1 capture) ∨ Expired w.buffer 2 capture ∨
        ∀ other ∈ after.held, capture.sequence < other.sequence := by
  have sequence_mem {entry : Nat × Capture K} {b : VisualBuffer K}
      (mem : entry ∈ b.captures.entries) :
      entry.2.sequence ∈ b.held.map Capture.sequence :=
    List.mem_map_of_mem (List.mem_map_of_mem mem)
  cases done with
  | @known now existing here found same =>
    have inside := Dict.get_eq_some_iff.mp found
    rw [List.forall_mem_cons]
    refine ⟨.inl ?_, fun capture stored => ?_⟩
    · have key := (kept.bound _ (mem_alive.mp inside).1).1
      have stays := sequence_mem inside
      rwa [← key] at stays
    · obtain ⟨entry, mem, rfl⟩ := List.mem_map.mp stored
      by_cases stays : entry ∈ (w.buffer.tick.pruned now).captures.entries
      · exact .inl (sequence_mem stays)
      · exact .inr (.inl ⟨stored, expired_of_not_mem (answer_eq_ok here).1 mem stays⟩)
  | @kept now later stores again =>
    have bound := bound_stored kept.bound stores
    have candidate (entry : Nat × Capture K)
        (mem : entry ∈ ((w.buffer.tick.pruned now).stored pushed).captures.entries) :
        entry.2.sequence ∈ ((((w.buffer.tick.pruned now).stored pushed).pruned later).evicted
            measures.size).held.map Capture.sequence ∨ Expired w.buffer 2 entry.2 ∨
          ∀ other ∈ ((((w.buffer.tick.pruned now).stored pushed).pruned later).evicted
            measures.size).held, entry.2.sequence < other.sequence := by
      by_cases fresh : entry ∈ (((w.buffer.tick.pruned now).stored pushed).pruned
          later).captures.entries
      · by_cases stays : entry ∈ ((((w.buffer.tick.pruned now).stored pushed).pruned
            later).evicted measures.size).captures.entries
        · exact .inl (sequence_mem stays)
        · refine .inr (.inr fun other inside => ?_)
          obtain ⟨last, late, rfl⟩ := List.mem_map.mp inside
          rw [← (bound entry mem).1, ← (bound last (mem_alive.mp (evict_sublist.mem late)).1).1]
          exact evict_oldest fresh stays late
      · exact .inr (.inl (expired_of_not_mem (answer_eq_ok again).1 mem fresh))
    have entries : ((w.buffer.tick.pruned now).stored pushed).captures.entries =
        (w.buffer.tick.pruned now).captures.entries ++ [(pushed.sequence, pushed)] :=
      Dict.put_eq_append pushed stores.fresh
    rw [entries, List.forall_mem_append, List.forall_mem_singleton] at candidate
    rw [List.forall_mem_cons]
    refine ⟨candidate.2.imp_right .inr, fun capture stored => ?_⟩
    obtain ⟨entry, mem, rfl⟩ := List.mem_map.mp stored
    by_cases stays : entry ∈ (w.buffer.tick.pruned now).captures.entries
    · exact (candidate.1 entry stays).imp_right .inr
    · refine .inr (.inl ⟨stored, ?_⟩)
      exact expired_of_not_mem (answer_eq_ok stores.answered).1 mem stays

theorem raising_nothing {w : Watched K} {pushed : Capture K} {raised : Raised}
    {after : VisualBuffer K} (answered : Answered measures w (.push pushed))
    (done : Pushed measures w.buffer pushed (.error raised, after)) :
    ∀ capture ∈ after.held, capture ∈ w.buffer.held := by
  cases done with
  | refused => exact fun _ mem => mem
  | unwanted here =>
    rintro capture mem
    obtain ⟨entry, inside, rfl⟩ := List.mem_map.mp mem
    exact List.mem_map_of_mem (mem_alive.mp inside).1
  | interrupted stores failed =>
    obtain ⟨later, again⟩ := answered _ stores
    cases failed.symm.trans again

theorem conflict_raises {w : Watched K} {pushed existing : Capture K} {value : Unit}
    {after : VisualBuffer K} (kept : Kept measures w)
    (done : Pushed measures w.buffer pushed (.ok value, after))
    (stored : existing ∈ w.buffer.held) (sequence : existing.sequence = pushed.sequence)
    (young : ¬Expired w.buffer 1 existing) :
    sameContent measures.digest existing pushed = .ok () := by
  obtain ⟨entry, mem, rfl⟩ := List.mem_map.mp stored
  have key := (kept.bound entry mem).1
  have present {now : CaptureTime} (here : w.buffer.tick.answer = .ok now) :
      (w.buffer.tick.pruned now).captures.get pushed.sequence = some entry.2 := by
    rw [Dict.get_eq_some_iff, ← sequence, ← key]
    by_contra gone
    exact young (expired_of_not_mem (answer_eq_ok here).1 mem gone)
  cases done with
  | known here found same =>
    cases found.symm.trans (present here)
    exact same
  | kept stores again => cases stores.fresh.symm.trans (present stores.answered)

theorem nearest_exact {time : CaptureTime} {maxDeltaNs : Option Int}
    {captures : List (Capture K)} {best : Option (Capture K)}
    (chosen : best = (closest time captures).filter fun best =>
      maxDeltaNs.all fun delta : Int => (timeDistance time best : Int) ≤ delta) :
    (∀ capture, best = some capture → capture ∈ captures ∧ Within time maxDeltaNs capture ∧
      ∀ other ∈ captures, timeDistance time capture < timeDistance time other ∨
        timeDistance time capture = timeDistance time other ∧
          other.sequence ≤ capture.sequence) ∧
    (best = none ↔ ∀ capture ∈ captures, ¬Within time maxDeltaNs capture) := by
  have within_iff (capture : Capture K) : (maxDeltaNs.all fun delta : Int =>
      (timeDistance time capture : Int) ≤ delta) = true ↔ Within time maxDeltaNs capture := by
    rw [Option.all_eq_true]
    exact forall₂_congr fun delta _ => decide_eq_true_iff
  cases first : closest time captures with
  | none =>
    rw [first, Option.filter_none] at chosen
    rw [closest_eq_none] at first
    rw [chosen, first]
    exact ⟨nofun, iff_of_true rfl (List.forall_mem_nil _)⟩
  | some nearest =>
    obtain ⟨mem, nearest_of⟩ := closest_eq_some first
    have least (other : Capture K) (inside : other ∈ captures) :=
      not_nearer_iff.mp (nearest_of other inside)
    rw [first] at chosen
    by_cases within : Within time maxDeltaNs nearest
    · rw [Option.filter_some, if_pos ((within_iff nearest).mpr within)] at chosen
      rw [chosen]
      refine ⟨fun capture same => ?_, iff_of_false nofun fun none => none nearest mem within⟩
      cases same
      exact ⟨mem, within, least⟩
    · rw [Option.filter_some, if_neg fun fits => within ((within_iff nearest).mp fits)] at chosen
      rw [chosen]
      refine ⟨nofun, iff_of_true rfl fun other inside near => within fun delta given => ?_⟩
      have closer : timeDistance time nearest ≤ timeDistance time other :=
        (least other inside).elim Nat.le_of_lt fun equal => Nat.le_of_eq equal.1
      exact (Int.ofNat_le.mpr closer).trans (near delta given)

theorem sound_of_kept {Alike : Capture K → Capture K → Prop} {w : Watched K} {op : Operation K}
    (alike : ∀ existing pushed, sameContent measures.digest existing pushed = .ok () →
      Alike existing pushed)
    (kept : Kept measures w) (answered : Answered measures w op) : Sound measures Alike w op := by
  have after := kept_next kept answered
  have done : Performed measures w.buffer op (w.outcome measures op) := performed ..
  have limits := limits_of_performed done
  refine ⟨fun value returned capture mem => ?_, fun value capture is returned => ?_,
    fun value pushed is returned => ?_, fun raised pushed is failed => ?_,
    fun pushed is existing stored sequence differs young => ?_,
    fun time maxDeltaNs best is found => ?_⟩
  · obtain ⟨entry, inside, rfl⟩ := List.mem_map.mp mem
    have fresh := after.fresh entry inside
    rw [Watched.next, Watched.after, limits] at fresh
    exact ⟨(after.bound entry inside).2.1, (after.bound entry inside).2.2, fresh⟩
  · have fits := exceeds_eq_false_iff.mp after.fits
    rw [Watched.next, Watched.after, limits] at fits
    refine ⟨(List.length_map _).trans_le fits.1, ?_⟩
    rw [VisualBuffer.held, List.map_map]
    exact fits.2
  · subst is
    exact oldest_first kept (pushed_of_ok returned)
  · subst is
    exact raising_nothing answered (pushed_of_error failed)
  · subst is
    cases ended : (w.outcome measures (.push pushed)).1 with
    | error raised => exact ⟨raised, rfl⟩
    | ok value =>
      have same := conflict_raises kept (pushed_of_ok ended) stored sequence young
      exact absurd (alike _ _ same) differs
  · subst is
    rw [Watched.next]
    generalize w.outcome measures (.nearest time maxDeltaNs) = outcome at done found ⊢
    cases done with
    | refused => cases found
    | nearest here => exact nearest_exact (Except.ok.inj found).symm

end

def step (measures : Measures K) (w : Watched K) (op : Operation K) : Option (Watched K) :=
  some (w.next measures op)

/-- A new buffer. -/
def opened (streamId : String) (clock : Nat → Option CaptureTime) (limits : BufferLimits) :
    Watched K := ⟨{ streamId, clock, limits }, none⟩

theorem kept_opened (measures : Measures K) (streamId : String)
    (clock : Nat → Option CaptureTime) (limits : BufferLimits) :
    Kept measures (opened streamId clock limits) :=
  ⟨nofun, nofun, exceeds_eq_false_iff.mpr ⟨Nat.zero_le _, Nat.zero_le _⟩⟩

end

def captureMeasures (lib : Library) (sha256 : List UInt8 → String) : Measures CaptureContent :=
  ⟨captureSize, captureDigest sha256 lib⟩

theorem agree_of_sameContent {lib : Library} {sha256 : List UInt8 → String}
    (correct : lib.Correct) (collisionFree : Function.Injective sha256)
    {existing capture : Capture CaptureContent}
    (same : sameContent (captureDigest sha256 lib) existing capture = .ok ()) :
    Agree existing capture := by
  rw [sameContent] at same
  split_ifs at same with other
  obtain ⟨stored, here, same⟩ := bind_eq_ok same
  obtain ⟨pushed, there, same⟩ := bind_eq_ok same
  split_ifs at same with differs
  exact (captureDigest_eq_iff correct collisionFree here there).mp (not_not.mp differs)

/-- In every run in which the clock answers whenever a push has stored its capture, every operation
keeps to the epoch, the ages and the limits, and a lookup finds the nearest capture. -/
theorem buffer_sound {lib : Library} {sha256 : List UInt8 → String} (correct : lib.Correct)
    (collisionFree : Function.Injective sha256) {streamId : String}
    {clock : Nat → Option CaptureTime} {limits : BufferLimits}
    {ops : List (Operation CaptureContent)} {op : Operation CaptureContent}
    {w : Watched CaptureContent}
    (answered : Along (step (captureMeasures lib sha256)) (Answered (captureMeasures lib sha256))
      (opened streamId clock limits) (ops ++ [op]))
    (reached :
      run (step (captureMeasures lib sha256)) (opened streamId clock limits) ops = some w) :
    Sound (captureMeasures lib sha256) Agree w op := by
  obtain ⟨before, last⟩ := Runs.along_append answered
  have kept : Kept (captureMeasures lib sha256) w := by
    refine Runs.run_invariant (fun s a s' kept answered stepped => ?_) (kept_opened ..) before
      reached
    cases stepped
    exact kept_next kept answered
  exact sound_of_kept (fun _ _ same => agree_of_sameContent correct collisionFree same) kept
    (last w reached).1

/-- A PNG of one grey pixel. -/
def pixel : ImageFrame where
  data := [
    137, 80, 78, 71, 13, 10, 26, 10, 0, 0, 0, 13, 73, 72, 68, 82, 0, 0, 0, 1, 0, 0, 0, 1, 8, 0,
    0, 0, 0, 58, 126, 155, 85, 0, 0, 0, 10, 73, 68, 65, 84, 120, 218, 99, 96, 0, 0, 0, 2, 0, 1,
    229, 39, 222, 252, 0, 0, 0, 0, 73, 69, 78, 68, 174, 66, 96, 130]
  mimeType := "image/png"
  width := 1
  height := 1

def pixelAt (receivedAt : String) : Capture CaptureContent where
  streamId := "camera"
  captureId := "first"
  sequence := 1
  capturedAt := ⟨"clock", 5⟩
  content := { image := pixel, receivedAt := receivedAt }

def first : Capture CaptureContent := pixelAt "2026-01-01T00:00:00+00:00"

/-- The same capture, received a second later. -/
def again : Capture CaptureContent := pixelAt "2026-01-01T00:00:01+00:00"

def byteChar (byte : UInt8) : Char := Char.ofNat byte.toNat

theorem byteChar_injective : Function.Injective byteChar := by
  intro byte other same
  have values : ∀ n : Fin 256, (Char.ofNat n.val).toNat = n.val := by decide +kernel
  have equal : byte.toNat = other.toNat :=
    (values byte.toFin).symm.trans ((congrArg Char.toNat same).trans (values other.toFin))
  exact UInt8.toNat_inj.mp equal

/-- The digest sha256 gives for the pixel. -/
def pixelDigest (data : List UInt8) : String :=
  WorldRuns.recordedDigest [(pixel.data.map byteChar,
    "a4d4c009619311d9b83904acfd62fe3b7f918c312522bbcc6ad51cdec4fd1edf")] (data.map byteChar)

theorem pixelDigest_injective : Function.Injective pixelDigest := by
  refine (WorldRuns.recordedDigest_injective ?_ ?_).comp byteChar_injective.list_map
  · exact List.nodup_singleton _
  · rw [List.map_singleton, List.forall_mem_singleton, String.toList_ofList]
    decide

/-- The digests sha256 gives for the metadata of the captures. -/
def captureLibrary : Library :=
  ⟨WorldRuns.bitsText, WorldRuns.recordedDigest [
    (JsonText.write WorldRuns.bitsText (SortedJson.sortKeys (captureMetadata pixelDigest first)),
      "0ba72e6558c652de10bd85a72775d5039ee6d6cbf42027175b4209eaa0b3a547"),
    (JsonText.write WorldRuns.bitsText (SortedJson.sortKeys (captureMetadata pixelDigest again)),
      "556e078d77bddde5ec09aa32562bdbee5daf679b9bb4ca3f9b4d0fff020c9dbb")]⟩

theorem captureLibrary_correct : captureLibrary.Correct := by
  refine ⟨WorldRuns.bitsText_correct, WorldRuns.recordedDigest_injective (by decide +kernel) ?_⟩
  simp only [List.map_cons, List.map_nil, List.forall_mem_cons]
  repeat rw [String.toList_ofList]
  decide

/-- A clock that has stopped at ten nanoseconds. -/
def steady (_ : Nat) : Option CaptureTime := some ⟨"clock", 10⟩

def holding : Watched CaptureContent :=
  ((opened "camera" steady {}).next (captureMeasures captureLibrary pixelDigest)
    (.activateEpoch "clock")).next (captureMeasures captureLibrary pixelDigest) (.push first)

theorem first_held : first ∈ holding.buffer.held := by
  have stored : holding.buffer.captures =
      evict captureSize {} ⟨[(1, first)], List.nodup_singleton 1⟩ := rfl
  rw [VisualBuffer.held, stored, evict_of_fits (by decide +kernel)]
  exact List.mem_singleton_self first

theorem buffer_sound_again : ∃ raised,
    (holding.outcome (captureMeasures captureLibrary pixelDigest) (.push again)).1 =
      .error raised := by
  have answered : Along (step (captureMeasures captureLibrary pixelDigest))
      (Answered (captureMeasures captureLibrary pixelDigest)) (opened "camera" steady {})
      ([.activateEpoch "clock", .push first] ++ [.push again]) := by
    refine ⟨trivial, fun w stepped => ?_⟩
    cases stepped
    refine ⟨fun now stores => ⟨⟨"clock", 10⟩, rfl⟩, fun w stepped => ?_⟩
    cases stepped
    exact ⟨fun now stores => ⟨⟨"clock", 10⟩, rfl⟩, fun w stepped => trivial⟩
  refine (buffer_sound captureLibrary_correct pixelDigest_injective answered rfl).conflict again rfl
    first first_held rfl ?_ ?_
  · exact fun agree => absurd agree.2.2.1 (by decide)
  · rintro ⟨now, said, expired⟩
    cases said
    exact absurd expired (by decide)

/-- A clock that answers twice. -/
def failing (number : Nat) : Option CaptureTime := if number < 2 then steady number else none

theorem interrupted_push_adds : ∃ w : Watched CaptureContent,
    run (step (captureMeasures captureLibrary pixelDigest)) (opened "camera" failing {})
      [.activateEpoch "clock"] = some w ∧
    ¬Sound (captureMeasures captureLibrary pixelDigest) Agree w (.push first) := by
  refine ⟨_, rfl, fun sound => ?_⟩
  have added := sound.raising (.visionError "buffer_clock_unavailable") first rfl rfl first
    (List.mem_singleton_self first)
  cases added

end RoboAgent.BufferRuns
